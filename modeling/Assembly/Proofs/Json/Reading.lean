import Mathlib.Data.List.Forall2
import Assembly.Proofs.Json.Lexeme

/-!
# Reading what is written

A value that is written with any blanks between its parts is read as it was, if it has no fractions and is
not nested too deeply. The loops over items and members are stated for any reader of an item, since
documents are read by readers of their own.
-/

namespace Assembly.Json

/-! ### Blanks -/

def Blank (text : List Char) : Prop :=
  ∀ c ∈ text, isSpace c = true

theorem Blank.nil : Blank [] :=
  nofun

/-- All that is put between the parts of a value are blanks. -/
structure Spacing.Blank (spacing : Spacing) : Prop where
  line : ∀ depth, Json.Blank (spacing.line depth)
  afterColon : Json.Blank spacing.afterColon

theorem blank_compact : compact.Blank where
  line _ := nofun
  afterColon := nofun

theorem blank_indented : indented.Blank where
  line depth := by
    intro c hc
    rcases List.mem_cons.mp hc with rfl | hc
    · rfl
    · rw [List.eq_of_mem_replicate hc]
      rfl
  afterColon := by
    intro c hc
    rw [List.mem_singleton.mp hc]
    rfl

theorem skipSpaces_append {blank : List Char} (hblank : Blank blank) (text : List Char) :
    skipSpaces (blank ++ text) = skipSpaces text :=
  List.dropWhile_append_of_pos hblank

theorem skipSpaces_cons {c : Char} (hc : isDelimiter c = false) (text : List Char) :
    skipSpaces (c :: text) = c :: text := by
  refine List.dropWhile_cons_of_neg ?_
  simp only [isDelimiter, Bool.or_eq_false_iff] at hc
  simp [hc]

theorem skipSpaces_comma (text : List Char) : skipSpaces (',' :: text) = ',' :: text :=
  rfl

theorem delimited_append {blank text : List Char} (hblank : Blank blank) (htext : Delimited text) :
    Delimited (blank ++ text) := by
  cases blank with
  | nil => exact htext
  | cons first rest =>
      intro c hc
      cases hc
      simp [isDelimiter, hblank first List.mem_cons_self]

/-- The text begins with what can begin a value. -/
def Begins (text : List Char) : Prop :=
  ∃ c rest, text = c :: rest ∧ isDelimiter c = false

/-- The reader finds the value where the text stands behind blanks and in front of a delimiter. -/
def Reader.Finds {α : Type} (reader : Reader α) (text : List Char) (value : α) : Prop :=
  ∀ blank rest, Blank blank → Delimited rest → reader (blank ++ text ++ rest) = .ok (value, rest)

/-! ### Items and members -/

/-- What follows the first item between brackets. -/
def further (spacing : Spacing) (depth : Nat) (closing : Char) (texts : List (List Char)) :
    List Char :=
  texts.flatMap (fun text => ',' :: spacing.line (depth + 1) ++ text) ++ spacing.line depth
    ++ [closing]

/-- What follows the opening bracket. -/
def closed (spacing : Spacing) (depth : Nat) (closing : Char) : List (List Char) → List Char
  | [] => [closing]
  | first :: rest => spacing.line (depth + 1) ++ first ++ further spacing depth closing rest

theorem enclose_eq (spacing : Spacing) (depth : Nat) (opening closing : Char)
    (texts : List (List Char)) :
    enclose spacing depth opening closing texts = opening :: closed spacing depth closing texts := by
  cases texts with
  | nil => rfl
  | cons first rest => simp [enclose, closed, further]

theorem further_cons (spacing : Spacing) (depth : Nat) (closing : Char) (first : List Char)
    (rest : List (List Char)) :
    further spacing depth closing (first :: rest)
      = ',' :: (spacing.line (depth + 1) ++ first ++ further spacing depth closing rest) := by
  simp [further]

section Sizes

variable (spacing : Spacing) (depth : Nat) (closing : Char) (texts : List (List Char))

theorem length_lt_further :
    texts.length < (further spacing depth closing texts).length
      ∧ ∀ text ∈ texts, text.length ≤ (further spacing depth closing texts).length := by
  induction texts with
  | nil => simp [further]
  | cons first rest ih =>
      obtain ⟨hcount, hall⟩ := ih
      rw [further_cons]
      simp only [List.length_cons, List.length_append, List.forall_mem_cons]
      exact ⟨by omega, by omega, fun text htext => Nat.le_trans (hall text htext) (by omega)⟩

theorem length_le_closed :
    texts.length ≤ (closed spacing depth closing texts).length
      ∧ ∀ text ∈ texts, text.length ≤ (closed spacing depth closing texts).length := by
  cases texts with
  | nil => simp [closed]
  | cons first rest =>
      obtain ⟨hcount, hall⟩ := length_lt_further spacing depth closing rest
      simp only [closed, List.length_cons, List.length_append, List.forall_mem_cons]
      exact ⟨by omega, by omega, fun text htext => Nat.le_trans (hall text htext) (by omega)⟩

end Sizes

/-! ### What is written -/

/-- The text of a member. -/
def memberText (spacing : Spacing) (entry : String × List Char) : List Char :=
  stringChars entry.1 ++ ':' :: spacing.afterColon ++ entry.2

/-- The texts of the members of an object. -/
def memberTexts (spacing : Spacing) (level : Nat) (members : List (String × Value)) :
    List (String × List Char) :=
  members.map fun entry => (entry.1, entry.2.chars spacing level)

theorem length_memberTexts (level : Nat) (members : List (String × Value)) :
    (memberTexts spacing level members).length = members.length :=
  List.length_map _

/-- The value has no fractions, its numbers fit words, and at most so many arrays and objects are nested
in it. -/
inductive Value.Plain : Nat → Value → Prop where
  | null {depth : Nat} : Plain depth .null
  | bool {depth : Nat} {value : Bool} : Plain depth (.bool value)
  | number {depth : Nat} {value : Int} (hlower : -halfRange64 ≤ value)
    (hupper : value < wordRange64) : Plain depth (.number (.whole value))
  | string {depth : Nat} {value : String} : Plain depth (.string value)
  | array {depth : Nat} {items : List Value} (hitems : ∀ item ∈ items, Plain depth item) :
    Plain (depth + 1) (.array items)
  | object {depth : Nat} {members : List (String × Value)}
    (hmembers : ∀ entry ∈ members, Plain depth entry.2) : Plain (depth + 1) (.object members)

section Written

variable {spacing : Spacing}

theorem itemChars_eq (depth : Nat) (items : List Value) :
    itemChars spacing depth items = items.map (·.chars spacing depth) := by
  induction items with
  | nil => rfl
  | cons first rest ih => rw [itemChars, ih, List.map_cons]

theorem memberChars_eq (depth : Nat) (members : List (String × Value)) :
    memberChars spacing depth members
      = (memberTexts spacing depth members).map (memberText spacing) := by
  induction members with
  | nil => rfl
  | cons first rest ih =>
      rw [memberChars, ih]
      rfl

theorem chars_array (level : Nat) (items : List Value) :
    (Value.array items).chars spacing level
      = '[' :: closed spacing level ']' (items.map (·.chars spacing (level + 1))) := by
  rw [Value.chars, enclose_eq, itemChars_eq]

theorem chars_object (level : Nat) (members : List (String × Value)) :
    (Value.object members).chars spacing level
      = '\x7b' :: closed spacing level '\x7d'
        ((memberTexts spacing (level + 1) members).map (memberText spacing)) := by
  rw [Value.chars, enclose_eq, memberChars_eq]

theorem begins_chars {depth : Nat} {value : Value} (hplain : value.Plain depth) (level : Nat) :
    Begins (value.chars spacing level) := by
  cases hplain with
  | null => exact ⟨'n', _, rfl, rfl⟩
  | @bool _ value => cases value <;> exact ⟨_, _, rfl, rfl⟩
  | @number _ value =>
      obtain ⟨c, rest, hchars, hc⟩ := exists_chars_whole value
      exact ⟨c, rest, hchars, (not_isDelimiter_of_number hc).1⟩
  | string => exact ⟨'"', _, rfl, rfl⟩
  | array => exact ⟨'[', _, chars_array level _, rfl⟩
  | object => exact ⟨'\x7b', _, chars_object level _, rfl⟩

variable (spacing)

theorem length_array (level : Nat) (items : List Value) :
    items.length ≤ ((Value.array items).chars spacing level).length
      ∧ ∀ item ∈ items, (item.chars spacing (level + 1)).length
        ≤ ((Value.array items).chars spacing level).length := by
  obtain ⟨hcount, hsizes⟩ :=
    length_le_closed spacing level ']' (items.map (·.chars spacing (level + 1)))
  rw [chars_array, List.length_cons]
  rw [List.length_map] at hcount
  refine ⟨by omega, fun item hitem => ?_⟩
  have hsize := hsizes _ (List.mem_map_of_mem hitem)
  omega

theorem length_object (level : Nat) (members : List (String × Value)) :
    members.length ≤ ((Value.object members).chars spacing level).length
      ∧ ∀ entry ∈ members, (entry.2.chars spacing (level + 1)).length
        ≤ ((Value.object members).chars spacing level).length := by
  obtain ⟨hcount, hsizes⟩ := length_le_closed spacing level '\x7d'
    ((memberTexts spacing (level + 1) members).map (memberText spacing))
  rw [chars_object, List.length_cons]
  rw [List.length_map, length_memberTexts] at hcount
  refine ⟨by omega, fun entry hentry => ?_⟩
  have hsize := hsizes _ (List.mem_map_of_mem (List.mem_map_of_mem hentry))
  simp only [memberText, List.length_append] at hsize
  omega

end Written

/-! ### One member, one scalar -/

section Parts

variable {σ : Type} {member : σ → String → Reader σ} {spacing : Spacing}

theorem skipSpaces_memberText (entry : String × List Char) (rest : List Char) :
    skipSpaces (memberText spacing entry ++ rest) = memberText spacing entry ++ rest :=
  skipSpaces_cons rfl _

/-- The members lead from one state to another. -/
inductive Passes (member : σ → String → Reader σ) (spacing : Spacing) :
    σ → List (String × List Char) → σ → Prop where
  | nil {state : σ} : Passes member spacing state [] state
  | cons {state next last : σ} {name : String} {text : List Char}
    {others : List (String × List Char)}
    (hmember : ∀ rest, Delimited rest →
      member state name (':' :: (spacing.afterColon ++ text ++ rest)) = .ok (next, rest))
    (hothers : Passes member spacing next others last) :
    Passes member spacing state ((name, text) :: others) last

theorem Passes.append {state next last : σ} {entries others : List (String × List Char)}
    (hentries : Passes member spacing state entries next)
    (hothers : Passes member spacing next others last) :
    Passes member spacing state (entries ++ others) last := by
  induction hentries with
  | nil => exact hothers
  | cons hmember _ ih => exact .cons hmember (ih hothers)

theorem named_memberText {state next : σ} {name : String} {text blank rest : List Char}
    (hblank : Blank blank)
    (hmember : member state name (':' :: (spacing.afterColon ++ text ++ rest)) = .ok (next, rest)) :
    named member state (blank ++ memberText spacing (name, text) ++ rest) = .ok (next, rest) := by
  have htext : memberText spacing (name, text) ++ rest
      = '"' :: (name.toList.flatMap escapeChar
        ++ '"' :: ':' :: (spacing.afterColon ++ text ++ rest)) := by
    simp [memberText, stringChars]
  unfold named
  rw [List.append_assoc, skipSpaces_append hblank, htext, skipSpaces_cons rfl]
  simp only [string_chars, ok_bind, hmember]

theorem colon_cons (text : List Char) : colon (':' :: text) = .ok text :=
  rfl

/-- What does not begin with a bracket is read as a scalar. -/
theorem value_eq_scalar {bound depth : Nat} {blank text rest : List Char} {c : Char}
    (hblank : Blank blank) (htext : text = c :: rest) (hc : isDelimiter c = false)
    (hlist : c ≠ '[') (htable : c ≠ '\x7b') :
    value bound depth (blank ++ text) = scalar text := by
  subst htext
  have hskipped : skipSpaces (blank ++ c :: rest) = c :: rest := by
    rw [skipSpaces_append hblank, skipSpaces_cons hc]
  cases depth with
  | zero | succ depth =>
      unfold value
      rw [hskipped]
      split
      · next heq => exact absurd (List.cons.inj heq).1 hlist
      · next heq => exact absurd (List.cons.inj heq).1 htable
      · rfl

theorem finds_scalar {bound depth : Nat} {value : Value} {text : List Char}
    (hbegins : ∃ c rest, text = c :: rest ∧ isDelimiter c = false ∧ c ≠ '[' ∧ c ≠ '\x7b')
    (hscalar : ∀ rest, Delimited rest → scalar (text ++ rest) = .ok (value, rest)) :
    (Json.value bound depth).Finds text value := by
  intro blank rest hblank hrest
  obtain ⟨c, others, rfl, hc, hlist, htable⟩ := hbegins
  rw [List.append_assoc, value_eq_scalar hblank (List.cons_append ..) hc hlist htable]
  exact hscalar rest hrest

end Parts

/-! ### Loops -/

section Loops

variable {spacing : Spacing} (hspacing : spacing.Blank) {depth : Nat}
include hspacing

theorem delimited_further (depth : Nat) (closing : Char) (hclosing : isDelimiter closing = true)
    (texts : List (List Char)) (rest : List Char) :
    Delimited (further spacing depth closing texts ++ rest) := by
  cases texts with
  | nil =>
      simp only [further, List.flatMap_nil, List.nil_append, List.append_assoc]
      refine delimited_append (hspacing.line depth) fun c hc => ?_
      cases hc
      exact hclosing
  | cons first others =>
      rw [further_cons]
      intro c hc
      cases hc
      rfl

theorem skipSpaces_further_nil {closing : Char} (hclosing : isSpace closing = false)
    (rest : List Char) :
    skipSpaces (further spacing depth closing [] ++ rest) = closing :: rest := by
  simp only [further, List.flatMap_nil, List.nil_append, List.append_assoc]
  rw [skipSpaces_append (hspacing.line depth)]
  exact List.dropWhile_cons_of_neg (by simp [hclosing])

section Items

variable {α : Type} {item : Reader α} {texts : List (List Char)} {values : List α}

theorem moreItems_further (depth : Nat) (hfinds : List.Forall₂ item.Finds texts values) {bound : Nat}
    (hbound : texts.length < bound) (rest : List Char) :
    moreItems item bound (further spacing depth ']' texts ++ rest) = .ok (values, rest) := by
  induction hfinds generalizing bound with
  | nil =>
      cases bound with
      | zero => cases hbound
      | succ bound =>
          unfold moreItems
          rw [skipSpaces_further_nil hspacing rfl]
          rfl
  | @cons first value others values hfirst hothers ih =>
      cases bound with
      | zero => cases hbound
      | succ bound =>
          have hitem := hfirst _ _ (hspacing.line (depth + 1))
            (delimited_further hspacing depth ']' rfl others rest)
          have hmore := ih (Nat.lt_of_succ_lt_succ hbound)
          rw [further_cons, List.cons_append, List.append_assoc]
          unfold moreItems
          simp only [skipSpaces_comma, hitem, hmore, ok_bind]
          rfl

theorem items_closed (hfinds : List.Forall₂ item.Finds texts values)
    (hbegins : ∀ text ∈ texts, Begins text) {bound : Nat} (hbound : texts.length ≤ bound)
    (rest : List Char) :
    items item bound (closed spacing depth ']' texts ++ rest) = .ok (values, rest) := by
  cases hfinds with
  | nil => rfl
  | @cons first value others values hfirst hothers =>
      obtain ⟨c, more, rfl, hc⟩ := hbegins _ List.mem_cons_self
      have hitem := hfirst [] _ nofun (delimited_further hspacing depth ']' rfl others rest)
      have hmore := moreItems_further hspacing depth hothers hbound rest
      unfold items
      rw [closed, List.append_assoc, List.append_assoc, skipSpaces_append (hspacing.line _),
        List.cons_append, skipSpaces_cons hc]
      split
      · next heq =>
        cases heq
        exact absurd hc (by decide)
      · simp only [List.nil_append, List.cons_append] at hitem
        simp only [hitem, hmore, ok_bind]
        rfl

end Items

section Members

variable {σ : Type} {member : σ → String → Reader σ}

theorem moreMembers_further (depth : Nat) {state last : σ} {entries : List (String × List Char)}
    (hpasses : Passes member spacing state entries last) {bound : Nat}
    (hbound : entries.length < bound) (rest : List Char) :
    moreMembers member bound state
      (further spacing depth '\x7d' (entries.map (memberText spacing)) ++ rest)
      = .ok (last, rest) := by
  induction hpasses generalizing bound with
  | nil =>
      cases bound with
      | zero => cases hbound
      | succ bound =>
          unfold moreMembers
          rw [List.map_nil, skipSpaces_further_nil hspacing rfl]
          rfl
  | @cons state next last name text others hmember hothers ih =>
      cases bound with
      | zero => cases hbound
      | succ bound =>
          have hnamed := named_memberText (hspacing.line (depth + 1))
            (hmember _ (delimited_further hspacing depth '\x7d' rfl
            (others.map (memberText spacing)) rest))
          have hmore := ih (Nat.lt_of_succ_lt_succ hbound)
          rw [List.map_cons, further_cons, List.cons_append, List.append_assoc]
          unfold moreMembers
          simp only [skipSpaces_comma, hnamed, ok_bind]
          exact hmore

theorem members_closed {state last : σ} {entries : List (String × List Char)}
    (hpasses : Passes member spacing state entries last) {bound : Nat}
    (hbound : entries.length ≤ bound) (rest : List Char) :
    members member bound state
      (closed spacing depth '\x7d' (entries.map (memberText spacing)) ++ rest)
      = .ok (last, rest) := by
  cases hpasses with
  | nil => rfl
  | @cons state next last name text others hmember hothers =>
      have hnamed := named_memberText Blank.nil
        (hmember _ (delimited_further hspacing depth '\x7d' rfl
            (others.map (memberText spacing)) rest))
      have hmore := moreMembers_further hspacing depth hothers hbound rest
      unfold members
      rw [List.map_cons, closed, List.append_assoc, List.append_assoc,
        skipSpaces_append (hspacing.line _), skipSpaces_memberText]
      split
      · next heq => exact absurd (List.cons.inj heq).1 (by decide)
      · rw [List.nil_append] at hnamed
        simp only [hnamed, ok_bind]
        exact hmore

theorem addMember_finds {reader : Reader Value} {text : List Char} {value : Value}
    (hfinds : reader.Finds text value) (found : List (String × Value)) (name : String)
    {rest : List Char} (hrest : Delimited rest) :
    addMember reader found name (':' :: (spacing.afterColon ++ text ++ rest))
      = .ok ((name, value) :: found, rest) := by
  have hvalue := hfinds _ _ hspacing.afterColon hrest
  unfold addMember
  simp only [colon_cons, ok_bind, hvalue]
  rfl

theorem passes_addMember {reader : Reader Value} {level : Nat} {members : List (String × Value)}
    (hfinds : ∀ entry ∈ members, reader.Finds (entry.2.chars spacing level) entry.2)
    (found : List (String × Value)) :
    Passes (addMember reader) spacing found (memberTexts spacing level members)
      (members.reverse ++ found) := by
  induction members generalizing found with
  | nil => exact .nil
  | cons first others ih =>
      obtain ⟨hfirst, hothers⟩ := List.forall_mem_cons.mp hfinds
      rw [List.reverse_cons, List.append_assoc]
      exact .cons (fun rest hrest => addMember_finds hspacing hfirst found first.1 hrest)
        (ih hothers _)

end Members

/-! ### Values -/

theorem items_array {α : Type} {item : Reader α} {level : Nat} {items : List Value}
    {values : List α}
    (hfinds : List.Forall₂
      (fun written value => item.Finds (written.chars spacing (level + 1)) value) items values)
    (hbegins : ∀ written ∈ items, Begins (written.chars spacing (level + 1))) {bound : Nat}
    (hbound : items.length ≤ bound) (rest : List Char) :
    Json.items item bound
      (closed spacing level ']' (items.map (·.chars spacing (level + 1))) ++ rest)
      = .ok (values, rest) := by
  refine items_closed hspacing (List.forall₂_map_left_iff.mpr hfinds)
    (List.forall_mem_map.mpr hbegins) ?_ rest
  rw [List.length_map]
  exact hbound

theorem members_object {σ : Type} {member : σ → String → Reader σ} {state last : σ} {level : Nat}
    {members : List (String × Value)}
    (hpasses : Passes member spacing state (memberTexts spacing (level + 1) members) last)
    {bound : Nat} (hbound : members.length ≤ bound) (rest : List Char) :
    Json.members member bound state
      (closed spacing level '\x7d'
        ((memberTexts spacing (level + 1) members).map (memberText spacing)) ++ rest)
      = .ok (last, rest) := by
  refine members_closed hspacing hpasses ?_ rest
  rw [length_memberTexts]
  exact hbound

/-- A value that is written is found where it stands. -/
theorem finds_chars {bound depth : Nat} {value : Value} (hplain : value.Plain depth) {level : Nat}
    (hbound : (value.chars spacing level).length ≤ bound) :
    (Json.value bound depth).Finds (value.chars spacing level) value := by
  induction hplain generalizing level with
  | null => exact finds_scalar ⟨'n', _, rfl, rfl, by decide, by decide⟩ fun rest _ => rfl
  | @bool depth value =>
      cases value with
      | true => exact finds_scalar ⟨'t', _, rfl, rfl, by decide, by decide⟩ fun rest _ => rfl
      | false => exact finds_scalar ⟨'f', _, rfl, rfl, by decide, by decide⟩ fun rest _ => rfl
  | @number depth value hlower hupper =>
      obtain ⟨c, others, hchars, hc⟩ := exists_chars_whole value
      exact finds_scalar ⟨c, others, hchars, not_isDelimiter_of_number hc⟩ fun rest hrest =>
        scalar_number hlower hupper hrest
  | @string depth value =>
      exact finds_scalar ⟨'"', _, rfl, rfl, by decide, by decide⟩ fun rest _ =>
        scalar_string value rest
  -- The text of an item is no longer than the whole, so that the bound of the whole will do for it.
  | @array depth items hplain ih =>
      intro blank rest hblank hrest
      obtain ⟨hcount, hsizes⟩ := length_array spacing level items
      have hfinds := List.forall₂_same.mpr fun item hitem =>
        ih item hitem (Nat.le_trans (hsizes item hitem) hbound)
      have hitems := items_array hspacing hfinds
        (fun item hitem => begins_chars (hplain item hitem) _) (Nat.le_trans hcount hbound) rest
      unfold Json.value
      rw [chars_array, List.append_assoc, skipSpaces_append hblank, List.cons_append,
        skipSpaces_cons rfl]
      simp only [hitems, ok_bind]
      rfl
  | @object depth members hplain ih =>
      intro blank rest hblank hrest
      obtain ⟨hcount, hsizes⟩ := length_object spacing level members
      have hpasses := passes_addMember hspacing
        (fun entry hentry => ih entry hentry (Nat.le_trans (hsizes entry hentry) hbound)) []
      have hmembers := members_object hspacing hpasses (Nat.le_trans hcount hbound) rest
      unfold Json.value
      rw [chars_object, List.append_assoc, skipSpaces_append hblank, List.cons_append,
        skipSpaces_cons rfl]
      simp only [hmembers, ok_bind, List.append_nil, List.reverse_reverse]
      rfl

end Loops

/-- A string is passed over to its end. -/
theorem skip_stringChars (bound : Nat) {blank : List Char} (hblank : Blank blank) (value : String)
    (rest : List Char) : skip bound (blank ++ stringChars value ++ rest) = .ok rest := by
  have htext : stringChars value ++ rest
      = '"' :: (value.toList.flatMap escapeChar ++ '"' :: rest) := by
    simp [stringChars]
  unfold skip skipValue
  rw [List.append_assoc, skipSpaces_append hblank, htext, skipSpaces_cons rfl]
  change (do skipRest bound [] (← skipString _) : Except Fault _) = _
  simp only [skipString_chars, ok_bind]
  unfold skipRest
  rfl

/-- Reading undoes writing. -/
theorem readValue_write {spacing : Spacing} (hspacing : spacing.Blank) {value : Value}
    (hplain : value.Plain nestingLimit) : readValue (value.write spacing) = .ok value := by
  have hfinds := finds_chars hspacing hplain (Nat.le_refl (value.chars spacing 0).length) [] []
    Blank.nil nofun
  rw [List.nil_append, List.append_nil] at hfinds
  unfold readValue Value.write
  rw [String.toList_ofList]
  simp only [hfinds, ok_bind]
  rfl

end Assembly.Json
