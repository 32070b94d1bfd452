import Assembly.Proofs.Text.Runs
import Assembly.Settings.Decode
import Assembly.Settings.Variable

/-!
# Lists in variables

A variable with a list is not split before its value has been read as a setting of some kind. A value
that is a truth value or a number is refused, and one that begins with a bracket, a brace or a quotation
mark may be something else. Any other value is split at its commas and blanks.
-/

namespace Assembly

namespace Text

variable {c : Char} {chars : List Char}

theorem isBlank_of_isAsciiBlank (hc : isAsciiBlank c = true) : isBlank c = true := by
  simp only [isAsciiBlank, Bool.or_eq_true, decide_eq_true_eq] at hc
  rcases hc with (((rfl | rfl) | rfl) | rfl) | rfl <;> decide

theorem mem_trimChars (hmem : c ∈ chars) (hc : isBlank c = false) : c ∈ trimChars chars := by
  obtain ⟨front, back, hchars, hfront, hback⟩ := exists_append_trimChars chars
  rw [hchars, List.mem_append, List.mem_append] at hmem
  rcases hmem with hmem | hmem | hmem
  · rw [hfront c hmem] at hc
    cases hc
  · exact hmem
  · rw [hback c hmem] at hc
    cases hc

end Text

namespace Variable

/-- The value may be a list, a table, a quoted text or a letter. -/
def Opens (text : String) : Prop :=
  ∃ c ∈ (skipBlanks text.toList).head?, c ∈ ['[', '\x7b', '"', '\'']

/-- The value is a truth value with blanks around it. -/
def IsTruth (text : String) : Prop :=
  ∃ before after, (text.toList = before ++ ("true".toList ++ after)
      ∨ text.toList = before ++ ("false".toList ++ after))
    ∧ ∀ c ∈ before ++ after, Text.isAsciiBlank c = true

/-- The value is a number with blanks around it. -/
def IsNumber (text : String) : Prop :=
  (integer? (Text.trimChars text.toList)).isSome = true
    ∨ (real? (Text.trimChars text.toList)).isSome = true

instance (text : String) : Decidable (IsNumber text) :=
  inferInstanceAs (Decidable (_ ∨ _))

/-- The value is a text as it stands. What opens something cannot be read up to its end. -/
structure IsPlain (text : String) : Prop where
  opens : Opens text → read text = .text text
  truth : ¬IsTruth text
  number : ¬IsNumber text

/-- The list that the value of a variable stands for. -/
def list (text : String) : Except SettingFault (List String) :=
  (read text).textList

def isNumeric (c : Char) : Bool :=
  c.isDigit || c = '+' || c = '-' || c = '.' || c = 'e' || c = 'E'

variable {text : String} {chars rest : List Char} {c : Char}

/-- A property that no comma, brace or bracket has makes a character one that needs no quotes. -/
theorem isBare_of {holds : Char → Bool}
    (hnone : [',', '\x7b', '\x7d', '[', ']'].any holds = false) (hc : holds c = true) :
    isBare c = true := by
  have hother : ∀ d ∈ [',', '\x7b', '\x7d', '[', ']'], c ≠ d := by
    rintro d hd rfl
    exact List.any_eq_false.mp hnone _ hd hc
  simpa [isBare, and_assoc] using hother

theorem isNumeric_of_isDigit (hc : c.isDigit = true) : isNumeric c = true := by
  simp [isNumeric, hc]

theorem isNumeric_of_allDigits (hall : allDigits chars = true) : ∀ c ∈ chars, isNumeric c = true := by
  simp only [allDigits, Bool.and_eq_true, List.all_eq_true] at hall
  exact fun c hc => isNumeric_of_isDigit (hall.2 c hc)

theorem exists_sign (chars : List Char) :
    ∃ sign, (∀ c ∈ sign, isNumeric c = true) ∧ chars = sign ++ (signed chars).2 := by
  unfold signed
  split
  · exact ⟨['-'], List.forall_mem_singleton.mpr rfl, rfl⟩
  · exact ⟨['+'], List.forall_mem_singleton.mpr rfl, rfl⟩
  · exact ⟨[], List.forall_mem_nil _, rfl⟩

theorem isNumeric_of_signed (hsigned : ∀ c ∈ (signed chars).2, isNumeric c = true) :
    ∀ c ∈ chars, isNumeric c = true := by
  obtain ⟨sign, hsign, hchars⟩ := exists_sign chars
  rw [hchars]
  exact List.forall_mem_append.mpr ⟨hsign, hsigned⟩

theorem isNumeric_of_integer? {value : Int} (hvalue : integer? chars = some value) :
    ∀ c ∈ chars, isNumeric c = true := by
  refine isNumeric_of_signed ?_
  unfold integer? at hvalue
  cases hall : allDigits (signed chars).2 with
  | true => exact isNumeric_of_allDigits hall
  | false => simp [hall] at hvalue

theorem isNumeric_of_exponent? {value : Int} (hvalue : exponent? chars = some value) :
    ∀ c ∈ chars, isNumeric c = true := by
  cases chars with
  | nil => exact List.forall_mem_nil _
  | cons mark rest =>
      unfold exponent? at hvalue
      dsimp only at hvalue
      split at hvalue
      · next hmark =>
        simp only [Bool.and_eq_true, Bool.or_eq_true, decide_eq_true_eq] at hmark
        refine List.forall_mem_cons.mpr ⟨?_, isNumeric_of_signed (isNumeric_of_allDigits hmark.2)⟩
        rcases hmark.1 with rfl | rfl <;> rfl
      · cases hvalue

/-- Digits are followed by what is numeric. -/
theorem isNumeric_of_dropWhile (hrest : ∀ c ∈ chars.dropWhile Char.isDigit, isNumeric c = true) :
    ∀ c ∈ chars, isNumeric c = true := by
  rw [← @List.takeWhile_append_dropWhile _ Char.isDigit chars]
  exact List.forall_mem_append.mpr
    ⟨fun _ hc => isNumeric_of_isDigit (List.mem_takeWhile_imp hc), hrest⟩

theorem isNumeric_of_real? {value : Binary64} (hvalue : real? chars = some value) :
    ∀ c ∈ chars, isNumeric c = true := by
  refine isNumeric_of_signed (isNumeric_of_dropWhile ?_)
  unfold real? at hvalue
  dsimp only at hvalue
  split at hvalue
  · next rest hdot =>
    obtain ⟨exponent, hexponent, -⟩ := Option.bind_eq_some_iff.mp hvalue
    rw [hdot]
    exact List.forall_mem_cons.mpr
      ⟨rfl, isNumeric_of_dropWhile (isNumeric_of_exponent? hexponent)⟩
  · cases hvalue

theorem isNumeric_of_isNumber (hnumber : IsNumber text) :
    ∀ c ∈ Text.trimChars text.toList, isNumeric c = true := by
  rcases hnumber with hinteger | hreal
  · obtain ⟨value, hvalue⟩ := Option.isSome_iff_exists.mp hinteger
    exact isNumeric_of_integer? hvalue
  · obtain ⟨value, hvalue⟩ := Option.isSome_iff_exists.mp hreal
    exact isNumeric_of_real? hvalue

/-! ### What a value is read as -/

theorem skipBlanks_append {before : List Char}
    (hbefore : ∀ c ∈ before, Text.isAsciiBlank c = true) (rest : List Char) :
    skipBlanks (before ++ rest) = skipBlanks rest :=
  List.dropWhile_append_of_pos hbefore

theorem skipBlanks_eq_nil_iff :
    skipBlanks chars = [] ↔ ∀ c ∈ chars, Text.isAsciiBlank c = true :=
  List.dropWhile_eq_nil_iff

theorem trimChars_skipBlanks (chars : List Char) :
    Text.trimChars (skipBlanks chars) = Text.trimChars chars := by
  have hfront : ∀ c ∈ chars.takeWhile Text.isAsciiBlank, Text.isBlank c = true :=
    fun c hc => Text.isBlank_of_isAsciiBlank (List.mem_takeWhile_imp hc)
  have hdrop : (skipBlanks chars).dropWhile Text.isBlank = chars.dropWhile Text.isBlank := by
    rw [← List.dropWhile_append_of_pos hfront, skipBlanks, List.takeWhile_append_dropWhile]
  rw [Text.trimChars, hdrop, Text.trimChars]

/-- A value that opens nothing is a truth value or is read without quotes, if only in front. -/
theorem value_cases (bound depth : Nat)
    (hopens : ¬∃ c ∈ (skipBlanks chars).head?, c ∈ ['[', '\x7b', '"', '\'']) :
    (∃ rest, skipBlanks chars = "true".toList ++ rest
        ∧ value bound (depth + 1) chars = some (.flag true, skipBlanks rest))
      ∨ (∃ rest, skipBlanks chars = "false".toList ++ rest
        ∧ value bound (depth + 1) chars = some (.flag false, skipBlanks rest))
      ∨ value bound (depth + 1) chars
        = some (bare (Text.trimChars ((skipBlanks chars).takeWhile isBare)),
          (skipBlanks chars).dropWhile isBare) := by
  rw [value]
  split
  · next rest hchars => exact .inl ⟨rest, hchars, rfl⟩
  · next rest hchars => exact .inr (.inl ⟨rest, hchars, rfl⟩)
  · next rest hchars => exact absurd ⟨_, by rw [hchars]; rfl, by decide⟩ hopens
  · next rest hchars => exact absurd ⟨_, by rw [hchars]; rfl, by decide⟩ hopens
  · next rest hchars => exact absurd ⟨_, by rw [hchars]; rfl, by decide⟩ hopens
  · next rest hchars => exact absurd ⟨_, by rw [hchars]; rfl, by decide⟩ hopens
  · next rest hchars => exact absurd ⟨_, by rw [hchars]; rfl, by decide⟩ hopens
  · exact .inr (.inr rfl)

theorem read_eq_of_value {setting : Setting}
    (hvalue : value (text.toList.length + 1) (text.toList.length + 1) text.toList
      = some (setting, [])) : read text = setting := by
  simp only [read, hvalue]

theorem isTruth_of_skipBlanks
    (hchars : (∃ rest, skipBlanks text.toList = "true".toList ++ rest ∧ skipBlanks rest = [])
      ∨ ∃ rest, skipBlanks text.toList = "false".toList ++ rest ∧ skipBlanks rest = []) :
    IsTruth text := by
  have hfront : ∀ c ∈ text.toList.takeWhile Text.isAsciiBlank, Text.isAsciiBlank c = true :=
    fun c hc => List.mem_takeWhile_imp hc
  have hsplit : text.toList
      = text.toList.takeWhile Text.isAsciiBlank ++ skipBlanks text.toList :=
    List.takeWhile_append_dropWhile.symm
  rcases hchars with ⟨rest, hrest, hblank⟩ | ⟨rest, hrest, hblank⟩
  · rw [hrest] at hsplit
    exact ⟨_, rest, .inl hsplit,
      List.forall_mem_append.mpr ⟨hfront, skipBlanks_eq_nil_iff.mp hblank⟩⟩
  · rw [hrest] at hsplit
    exact ⟨_, rest, .inr hsplit,
      List.forall_mem_append.mpr ⟨hfront, skipBlanks_eq_nil_iff.mp hblank⟩⟩

theorem read_of_isTruth (htruth : IsTruth text) : ∃ flag, read text = .flag flag := by
  obtain ⟨before, after, hchars, hblank⟩ := htruth
  obtain ⟨hbefore, hafter⟩ := List.forall_mem_append.mp hblank
  have hrest : skipBlanks after = [] := skipBlanks_eq_nil_iff.mpr hafter
  rcases hchars with hchars | hchars
  · refine ⟨true, read_eq_of_value ?_⟩
    have hskip : skipBlanks text.toList = "true".toList ++ after := by
      rw [hchars, skipBlanks_append hbefore]
      rfl
    rw [value, hskip, ← hrest]
    rfl
  · refine ⟨false, read_eq_of_value ?_⟩
    have hskip : skipBlanks text.toList = "false".toList ++ after := by
      rw [hchars, skipBlanks_append hbefore]
      rfl
    rw [value, hskip, ← hrest]
    rfl

/-- Around a number there are only blanks. -/
theorem isNumeric_or_isBlank (hnumber : IsNumber text) (hc : c ∈ skipBlanks text.toList) :
    isNumeric c = true ∨ Text.isBlank c = true := by
  cases hblank : Text.isBlank c with
  | true => exact .inr rfl
  | false =>
      have hmem : c ∈ text.toList := (List.dropWhile_suffix _).subset hc
      exact .inl (isNumeric_of_isNumber hnumber c (Text.mem_trimChars hmem hblank))

theorem read_of_isNumber (hnumber : IsNumber text) :
    (∃ value, read text = .integer value) ∨ ∃ value, read text = .real value := by
  have hfirst : ∀ c rest, skipBlanks text.toList = c :: rest →
      c ∉ ['t', 'f', '[', '\x7b', '"', '\''] := by
    intro c rest hchars hc
    have hnone : (['t', 'f', '[', '\x7b', '"', '\''].any fun c => isNumeric c || Text.isBlank c)
        = false := by rfl
    have hmem : c ∈ skipBlanks text.toList := by
      rw [hchars]
      exact List.mem_cons_self
    exact List.any_eq_false.mp hnone c hc
      (Bool.or_eq_true_iff.mpr (isNumeric_or_isBlank hnumber hmem))
  have hbare : ∀ c ∈ skipBlanks text.toList, isBare c = true := by
    intro c hc
    rcases isNumeric_or_isBlank hnumber hc with hnumeric | hblank
    · exact isBare_of rfl hnumeric
    · exact isBare_of rfl hblank
  have hopens : ¬Opens text := by
    rintro ⟨c, hhead, hc⟩
    obtain ⟨rest, hchars⟩ := List.head?_eq_some_iff.mp hhead
    exact hfirst c rest hchars (List.mem_cons_of_mem _ (List.mem_cons_of_mem _ hc))
  have hvalue : value (text.toList.length + 1) (text.toList.length + 1) text.toList
      = some (bare (Text.trimChars text.toList), []) := by
    rcases value_cases (text.toList.length + 1) text.toList.length hopens with
      ⟨rest, hchars, -⟩ | ⟨rest, hchars, -⟩ | hvalue
    · exact absurd (by decide) (hfirst _ _ hchars)
    · exact absurd (by decide) (hfirst _ _ hchars)
    · rw [hvalue, List.takeWhile_eq_self_iff.mpr hbare, List.dropWhile_eq_nil_iff.mpr hbare,
        trimChars_skipBlanks]
  rw [read_eq_of_value hvalue, bare]
  rcases hnumber with hinteger | hreal
  · obtain ⟨whole, hwhole⟩ := Option.isSome_iff_exists.mp hinteger
    cases hreal : real? (Text.trimChars text.toList) with
    | some value => exact .inr ⟨value, rfl⟩
    | none => exact .inl ⟨whole, by rw [hwhole]⟩
  · obtain ⟨value, hvalue⟩ := Option.isSome_iff_exists.mp hreal
    exact .inr ⟨value, by rw [hvalue]⟩

theorem read_of_isPlain (hplain : IsPlain text) :
    read text = .text text ∨ read text = .text (Text.trim text) := by
  by_cases hopens : Opens text
  · exact .inl (hplain.opens hopens)
  have hleft : ∀ {setting : Setting} {rest : List Char}, rest ≠ [] →
      value (text.toList.length + 1) (text.toList.length + 1) text.toList = some (setting, rest) →
      read text = .text text := by
    intro setting rest hrest hvalue
    cases rest with
    | nil => exact absurd rfl hrest
    | cons c rest => simp only [read, hvalue]
  rcases value_cases (text.toList.length + 1) text.toList.length hopens with
    ⟨rest, hchars, hvalue⟩ | ⟨rest, hchars, hvalue⟩ | hvalue
  · have hrest : skipBlanks rest ≠ [] := fun hblank =>
      hplain.truth (isTruth_of_skipBlanks (.inl ⟨rest, hchars, hblank⟩))
    exact .inl (hleft hrest hvalue)
  · have hrest : skipBlanks rest ≠ [] := fun hblank =>
      hplain.truth (isTruth_of_skipBlanks (.inr ⟨rest, hchars, hblank⟩))
    exact .inl (hleft hrest hvalue)
  · by_cases hrest : (skipBlanks text.toList).dropWhile isBare = []
    · have hbare := List.takeWhile_eq_self_iff.mpr (List.dropWhile_eq_nil_iff.mp hrest)
      rw [hrest, hbare, trimChars_skipBlanks] at hvalue
      obtain ⟨hinteger, hreal⟩ := not_or.mp hplain.number
      rw [Bool.not_eq_true, Option.isSome_eq_false_iff, Option.isNone_iff_eq_none] at hinteger hreal
      right
      rw [read_eq_of_value hvalue, bare, hinteger, hreal]
      rfl
    · exact .inl (hleft hrest hvalue)

/-! ### Which list a value is -/

theorem list_error {fault : SettingFault} (hfault : list text = .error fault) :
    fault = ⟨[], .noAlternative "StringList"⟩ := by
  unfold list Setting.textList at hfault
  split at hfault
  · split at hfault
    · cases hfault
    · exact (Except.error.inj hfault).symm
  · cases hfault
  · exact (Except.error.inj hfault).symm

theorem list_of_truth_or_number (htaken : IsTruth text ∨ IsNumber text) :
    list text = .error ⟨[], .noAlternative "StringList"⟩ := by
  unfold list
  rcases htaken with htruth | hnumber
  · obtain ⟨flag, hread⟩ := read_of_isTruth htruth
    rw [hread]
    rfl
  · rcases read_of_isNumber hnumber with ⟨value, hread⟩ | ⟨value, hread⟩
    · rw [hread]
      rfl
    · rw [hread]
      rfl

theorem list_of_isPlain (hplain : IsPlain text) : list text = .ok (Text.entries text) := by
  unfold list
  rcases read_of_isPlain hplain with hread | hread
  · rw [hread]
    rfl
  · rw [hread, ← Text.entries_trim text]
    rfl

end Variable

end Assembly
