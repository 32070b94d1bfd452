import Assembly.Proofs.Json.Reading

/-!
# Texts tell values apart

Where the text of a value ends can be seen from the text, if all numbers in the value are whole. So no two
such values are written alike, with any blanks between their parts, however large their numbers are and
however deeply they are nested.
-/

namespace Assembly.Json

/-- All numbers in the value are whole. -/
inductive Value.Whole : Value → Prop where
  | null : Whole .null
  | bool {value : Bool} : Whole (.bool value)
  | number {value : Int} : Whole (.number (.whole value))
  | string {value : String} : Whole (.string value)
  | array {items : List Value} (hitems : ∀ item ∈ items, Whole item) : Whole (.array items)
  | object {members : List (String × Value)} (hmembers : ∀ entry ∈ members, Whole entry.2) :
    Whole (.object members)

/-- In front of delimiters no other item of the kind has a text that begins alike. -/
def Tells {α : Type} (kind : α → Prop) (text : α → List Char) (item : α) : Prop :=
  ∀ other rest rest', kind other → Delimited rest → Delimited rest' →
    text item ++ rest = text other ++ rest' → item = other ∧ rest = rest'

/-! ### Scalars -/

theorem tells_string {value other : String} {rest rest' : List Char}
    (heq : stringChars value ++ rest = stringChars other ++ rest') :
    value = other ∧ rest = rest' := by
  have hchars : ∀ (value : String) (rest : List Char), stringChars value ++ rest
      = '"' :: (value.toList.flatMap escapeChar ++ '"' :: rest) := by
    intro value rest
    simp [stringChars]
  rw [hchars, hchars] at heq
  have hread := congrArg string (List.cons.inj heq).2
  rw [string_chars, string_chars] at hread
  exact Prod.mk.inj (Except.ok.inj hread)

theorem tells_whole {value other : Int} {rest rest' : List Char} (hrest : Delimited rest)
    (hrest' : Delimited rest')
    (heq : (Number.whole value).chars ++ rest = (Number.whole other).chars ++ rest') :
    value = other ∧ rest = rest' := by
  rw [chars_whole, chars_whole] at heq
  have hread := congrArg Numeral.read heq
  rw [read_digits _ _ hrest, read_digits _ _ hrest'] at hread
  obtain ⟨hnumeral, hsame⟩ := Prod.mk.inj (Except.ok.inj hread)
  obtain ⟨hsign, hdigits, -⟩ := Numeral.mk.inj hnumeral
  have hsize := congrArg (Nat.ofDigitChars 10 · 0) hdigits
  simp only [Nat.ofDigitChars_ten_toDigits] at hsize
  rw [decide_eq_decide] at hsign
  exact ⟨by omega, hsame⟩

/-! ### Items -/

section Items

variable {spacing : Spacing} (hspacing : spacing.Blank) {closing : Char}
  (hclosing : isDelimiter closing = true) (hspace : isSpace closing = false) (hcomma : closing ≠ ',')
  {α : Type} {kind : α → Prop} {text : α → List Char}
include hspacing hclosing hspace

include hcomma in
theorem tells_further (depth : Nat) {items others : List α}
    (hitems : ∀ item ∈ items, Tells kind text item) (hothers : ∀ other ∈ others, kind other)
    {rest rest' : List Char}
    (heq : further spacing depth closing (items.map text) ++ rest
      = further spacing depth closing (others.map text) ++ rest') :
    items = others ∧ rest = rest' := by
  induction items generalizing others with
  | nil =>
      cases others with
      | nil => exact ⟨rfl, List.append_cancel_left heq⟩
      | cons second others =>
          have hskipped := congrArg skipSpaces heq
          rw [List.map_nil, skipSpaces_further_nil hspacing hspace, List.map_cons, further_cons] at hskipped
          exact absurd (List.cons.inj hskipped).1 hcomma
  | cons first items ih =>
      cases others with
      | nil =>
          have hskipped := congrArg skipSpaces heq
          rw [List.map_nil, skipSpaces_further_nil hspacing hspace, List.map_cons, further_cons] at hskipped
          exact absurd (List.cons.inj hskipped).1.symm hcomma
      | cons second others =>
          obtain ⟨hfirst, hitems⟩ := List.forall_mem_cons.mp hitems
          obtain ⟨hsecond, hothers⟩ := List.forall_mem_cons.mp hothers
          simp only [List.map_cons, further_cons, List.cons_append, List.append_assoc] at heq
          obtain ⟨hitem, hmore⟩ := hfirst second _ _ hsecond
            (delimited_further hspacing depth closing hclosing _ _)
            (delimited_further hspacing depth closing hclosing _ _)
            (List.append_cancel_left (List.cons.inj heq).2)
          obtain ⟨hlist, hrest⟩ := ih hitems hothers hmore
          exact ⟨congrArg₂ List.cons hitem hlist, hrest⟩

theorem ne_of_begins {begun : List Char} (hbegins : Begins begun) (depth : Nat) (rest rest' : List Char) :
    closing :: rest ≠ spacing.line depth ++ (begun ++ rest') := by
  obtain ⟨c, more, rfl, hc⟩ := hbegins
  intro heq
  have hskipped := congrArg skipSpaces heq
  rw [skipSpaces_append (hspacing.line depth), List.cons_append, skipSpaces_cons hc, skipSpaces,
    List.dropWhile_cons_of_neg (by simp [hspace])] at hskipped
  rw [← (List.cons.inj hskipped).1, hclosing] at hc
  cases hc

include hcomma in
theorem tells_closed (depth : Nat) (hbegins : ∀ item, kind item → Begins (text item))
    {items others : List α} (hkind : ∀ item ∈ items, kind item)
    (hitems : ∀ item ∈ items, Tells kind text item) (hothers : ∀ other ∈ others, kind other)
    {rest rest' : List Char}
    (heq : closed spacing depth closing (items.map text) ++ rest
      = closed spacing depth closing (others.map text) ++ rest') :
    items = others ∧ rest = rest' := by
  cases items with
  | nil =>
      cases others with
      | nil => exact ⟨rfl, (List.cons.inj heq).2⟩
      | cons second others =>
          simp only [List.map_nil, List.map_cons, closed, List.append_assoc] at heq
          exact absurd heq (ne_of_begins hspacing hclosing hspace
            (hbegins second (hothers second List.mem_cons_self)) _ _ _)
  | cons first items =>
      cases others with
      | nil =>
          simp only [List.map_nil, List.map_cons, closed, List.append_assoc] at heq
          exact absurd heq.symm (ne_of_begins hspacing hclosing hspace
            (hbegins first (hkind first List.mem_cons_self)) _ _ _)
      | cons second others =>
          -- Behind a comma the items stand as they do among others.
          refine tells_further hspacing hclosing hspace hcomma depth hitems hothers ?_
          simp only [List.map_cons, further_cons, List.cons_append]
          exact congrArg (',' :: ·) heq

end Items

/-! ### Values -/

/-- What the first character of a text tells about the value. -/
inductive Shape where
  | null
  | bool (value : Bool)
  | number
  | string
  | array
  | object

def Shape.ofFirst (c : Char) : Shape :=
  if c = '-' ∨ c.isDigit = true then .number
  else if c = 't' then .bool true
  else if c = 'f' then .bool false
  else if c = '"' then .string
  else if c = '[' then .array
  else if c = '\x7b' then .object
  else .null

def Value.shape : Value → Shape
  | .null => .null
  | .bool value => .bool value
  | .number _ => .number
  | .string _ => .string
  | .array _ => .array
  | .object _ => .object

section Values

variable {spacing : Spacing} {value other : Value} {level : Nat}

theorem exists_first (hwhole : value.Whole) (level : Nat) :
    ∃ c rest, value.chars spacing level = c :: rest ∧ isDelimiter c = false
      ∧ Shape.ofFirst c = value.shape := by
  cases hwhole with
  | null => exact ⟨'n', _, rfl, rfl, rfl⟩
  | @bool value => cases value <;> exact ⟨_, _, rfl, rfl, rfl⟩
  | @number value =>
      obtain ⟨c, rest, hchars, hc⟩ := exists_chars_whole value
      exact ⟨c, rest, hchars, (not_isDelimiter_of_number hc).1, if_pos hc⟩
  | string => exact ⟨'"', _, rfl, rfl, rfl⟩
  | array => exact ⟨'[', _, chars_array level _, rfl, rfl⟩
  | object => exact ⟨'\x7b', _, chars_object level _, rfl, rfl⟩

theorem begins_whole (hwhole : value.Whole) (level : Nat) : Begins (value.chars spacing level) := by
  obtain ⟨c, rest, hchars, hc, -⟩ := exists_first hwhole level
  exact ⟨c, rest, hchars, hc⟩

theorem shape_eq (hwhole : value.Whole) (hother : other.Whole) {rest rest' : List Char}
    (heq : value.chars spacing level ++ rest = other.chars spacing level ++ rest') :
    value.shape = other.shape := by
  obtain ⟨c, more, hchars, -, hshape⟩ := exists_first hwhole level
  obtain ⟨c', more', hchars', -, hshape'⟩ := exists_first hother level
  rw [hchars, hchars', List.cons_append, List.cons_append] at heq
  rw [← hshape, ← hshape', (List.cons.inj heq).1]

theorem tells_member (hvalue : Tells Value.Whole (Value.chars spacing level) value) (name : String) :
    Tells (fun entry : String × Value => entry.2.Whole)
      (fun entry => memberText spacing (entry.1, entry.2.chars spacing level)) (name, value) := by
  intro other rest rest' hother hrest hrest' heq
  simp only [memberText, List.append_assoc, List.cons_append] at heq
  obtain ⟨hname, hbehind⟩ := tells_string heq
  obtain ⟨hsame, hrests⟩ := hvalue other.2 rest rest' hother hrest hrest'
    (List.append_cancel_left (List.cons.inj hbehind).2)
  exact ⟨Prod.ext hname hsame, hrests⟩

/-- The text of a value tells it and where it ends. -/
theorem tells_chars (hspacing : spacing.Blank) (hwhole : value.Whole) (level : Nat) :
    Tells Value.Whole (Value.chars spacing level) value := by
  induction hwhole generalizing level with
  | null =>
      intro other rest rest' hother hrest hrest' heq
      have hshape := shape_eq .null hother heq
      cases hother with
      | null => exact ⟨rfl, List.append_cancel_left heq⟩
      | _ => cases hshape
  | bool =>
      intro other rest rest' hother hrest hrest' heq
      have hshape := shape_eq .bool hother heq
      cases hother with
      | bool =>
          cases hshape
          exact ⟨rfl, List.append_cancel_left heq⟩
      | _ => cases hshape
  | number =>
      intro other rest rest' hother hrest hrest' heq
      have hshape := shape_eq .number hother heq
      cases hother with
      | number =>
          obtain ⟨rfl, hrests⟩ := tells_whole hrest hrest' heq
          exact ⟨rfl, hrests⟩
      | _ => cases hshape
  | string =>
      intro other rest rest' hother hrest hrest' heq
      have hshape := shape_eq .string hother heq
      cases hother with
      | string =>
          obtain ⟨rfl, hrests⟩ := tells_string heq
          exact ⟨rfl, hrests⟩
      | _ => cases hshape
  | array hitems ih =>
      intro other rest rest' hother hrest hrest' heq
      have hshape := shape_eq (.array hitems) hother heq
      cases hother with
      | array hothers =>
          rw [chars_array, chars_array] at heq
          obtain ⟨rfl, hrests⟩ := tells_closed hspacing rfl rfl (by decide) level
            (fun item hitem => begins_whole hitem (level + 1)) hitems
            (fun item hitem => ih item hitem (level + 1)) hothers (List.cons.inj heq).2
          exact ⟨rfl, hrests⟩
      | _ => cases hshape
  | object hmembers ih =>
      intro other rest rest' hother hrest hrest' heq
      have hshape := shape_eq (.object hmembers) hother heq
      cases hother with
      | object hothers =>
          rw [chars_object, chars_object, memberTexts, memberTexts, List.map_map, List.map_map] at heq
          obtain ⟨rfl, hrests⟩ := tells_closed hspacing rfl rfl (by decide) level
            (fun entry _ => ⟨'"', _, rfl, rfl⟩) hmembers
            (fun entry hentry => tells_member (ih entry hentry (level + 1)) entry.1) hothers
            (List.cons.inj heq).2
          exact ⟨rfl, hrests⟩
      | _ => cases hshape

theorem eq_of_write_eq (hspacing : spacing.Blank) (hwhole : value.Whole) (hother : other.Whole)
    (heq : value.write spacing = other.write spacing) : value = other := by
  have hchars := congrArg String.toList heq
  unfold Value.write at hchars
  rw [String.toList_ofList, String.toList_ofList] at hchars
  exact (tells_chars hspacing hwhole 0 other [] [] hother nofun nofun (congrArg (· ++ []) hchars)).1

end Values

/-! ### Records -/

/-- Items can be told apart by their values, and so by the texts of these. -/
structure Faithful {α : Type} (write : α → Value) : Prop where
  whole (item : α) : (write item).Whole
  injective : Function.Injective write

namespace Value

variable {items first second : List Value} {members : List (String × Value)} {names others : List String}

@[simp]
theorem whole_null : null.Whole :=
  .null

@[simp]
theorem whole_bool (value : Bool) : (bool value).Whole :=
  .bool

@[simp]
theorem whole_nat (value : Nat) : (nat value).Whole :=
  .number

@[simp]
theorem whole_string (value : String) : (string value).Whole :=
  .string

@[simp]
theorem whole_array : (array items).Whole ↔ ∀ item ∈ items, item.Whole :=
  ⟨fun hwhole => by cases hwhole; assumption, .array⟩

@[simp]
theorem whole_object : (object members).Whole ↔ ∀ entry ∈ members, entry.2.Whole :=
  ⟨fun hwhole => by cases hwhole; assumption, .object⟩

@[simp]
theorem nat_inj {value other : Nat} : nat value = nat other ↔ value = other :=
  ⟨fun heq => Int.ofNat_inj.mp (Number.whole.inj (number.inj heq)), congrArg nat⟩

end Value

theorem Faithful.array {α : Type} {write : α → Value} (hwrite : Faithful write) :
    Faithful fun items : List α => .array (items.map write) where
  whole _ := Value.whole_array.mpr (List.forall_mem_map.mpr fun item _ => hwrite.whole item)
  injective _ _ heq := hwrite.injective.list_map (Value.array.inj heq)

theorem Faithful.eq_iff {α : Type} {write : α → Value} (hwrite : Faithful write) {first second : α} :
    write first = write second ↔ first = second :=
  hwrite.injective.eq_iff

theorem faithful_string : Faithful Value.string where
  whole := Value.whole_string
  injective _ _ := Value.string.inj

theorem faithful_strings : Faithful Value.strings :=
  faithful_string.array

theorem faithful_orNull : Faithful (Value.orNull Value.string) where
  whole item := by cases item <;> simp [Value.orNull]
  injective first second heq := by cases first <;> cases second <;> simp_all [Value.orNull]

/-- Texts are equal only if what is written is. -/
theorem Faithful.write_injective {α : Type} {write : α → Value} (hwrite : Faithful write)
    {spacing : Spacing} (hspacing : spacing.Blank) :
    Function.Injective fun item => (write item).write spacing :=
  fun first second heq =>
    hwrite.injective (eq_of_write_eq hspacing (hwrite.whole first) (hwrite.whole second) heq)

end Assembly.Json
