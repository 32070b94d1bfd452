import Mathlib.Data.List.Forall2
import Assembly.Proofs.Settings.Meaning
import Assembly.Proofs.Text.Runs

/-!
# What settings can be written as

A switch is a truth value, a number or a word, a list is a list of texts or one text that joins them,
and a property is a text. Nothing else stands for one of them, and what stands for one stands for one
value of it.
-/

namespace Assembly

namespace Text

/-- The text is the word, in upper or lower case and with blanks around it. -/
def IsWord (word text : String) : Prop :=
  ∃ front middle back, text.toList = front ++ (middle ++ back)
    ∧ (∀ c ∈ front ++ back, isBlank c = true) ∧ middle.map Char.toLower = word.toList

variable {word text : String} {c : Char} {front middle back : List Char}

theorem toLower_of_isBlank (hc : isBlank c = true) : c.toLower = c := by
  have hupper : ¬(c.val ≥ 'A'.val ∧ c.val ≤ 'Z'.val) := by
    rintro ⟨hlow, hhigh⟩
    have hlow : 65 ≤ c.toNat := UInt32.le_iff_toNat_le.mp hlow
    have hhigh : c.toNat ≤ 90 := UInt32.le_iff_toNat_le.mp hhigh
    simp [isBlank, blankRanges] at hc
    omega
  unfold Char.toLower
  rw [dif_neg hupper]

theorem dropWhile_of_not_isBlank {chars : List Char} (hchars : ∀ c ∈ chars, isBlank c = false) :
    chars.dropWhile isBlank = chars := by
  cases chars with
  | nil => rfl
  | cons first rest =>
      exact List.dropWhile_cons_of_neg (by simp [hchars first List.mem_cons_self])

theorem trimChars_of_not_isBlank (hends : ∀ c ∈ front ++ back, isBlank c = true)
    (hmiddle : ∀ c ∈ middle, isBlank c = false) : trimChars (front ++ (middle ++ back)) = middle := by
  obtain ⟨hfront, hback⟩ := List.forall_mem_append.mp hends
  have hreverse : ∀ c ∈ back.reverse, isBlank c = true :=
    fun c hc => hback c (List.mem_reverse.mp hc)
  unfold trimChars
  rw [List.dropWhile_append_of_pos hfront]
  cases middle with
  | nil =>
      rw [List.nil_append, List.dropWhile_eq_nil_iff.mpr hback]
      rfl
  | cons first rest =>
      rw [List.cons_append, List.dropWhile_cons_of_neg (by simp [hmiddle first List.mem_cons_self]),
        ← List.cons_append, List.reverse_append, List.dropWhile_append_of_pos hreverse,
        dropWhile_of_not_isBlank fun c hc => hmiddle c (List.mem_reverse.mp hc),
        List.reverse_reverse]

theorem lowerAscii_trim_eq_iff (hword : ∀ c ∈ word.toList, isBlank c = false) :
    lowerAscii (trim text) = word ↔ IsWord word text := by
  unfold lowerAscii trim
  rw [String.toList_ofList, ← String.toList_inj, String.toList_ofList]
  constructor
  · intro hlower
    obtain ⟨front, back, htext, hfront, hback⟩ := exists_append_trimChars text.toList
    exact ⟨front, _, back, htext, List.forall_mem_append.mpr ⟨hfront, hback⟩, hlower⟩
  · rintro ⟨front, middle, back, htext, hends, hmiddle⟩
    rw [htext, trimChars_of_not_isBlank hends, hmiddle]
    intro c hc
    by_contra hblank
    rw [Bool.not_eq_false] at hblank
    have hlower := List.mem_map_of_mem (f := Char.toLower) hc
    rw [toLower_of_isBlank hblank, hmiddle] at hlower
    exact absurd hblank (by simp [hword c hlower])

end Text

/-! ### Switches, lists and properties -/

def Setting.onWords : List String :=
  ["1", "true", "yes", "on"]

def Setting.offWords : List String :=
  ["0", "false", "no", "off", ""]

inductive IsSwitch : Setting → Bool → Prop where
  | flag (value : Bool) : IsSwitch (.flag value) value
  | zero : IsSwitch (.integer 0) false
  | one : IsSwitch (.integer 1) true
  | on {word text : String} (hword : word ∈ Setting.onWords) (htext : Text.IsWord word text) :
      IsSwitch (.text text) true
  | off {word text : String} (hword : word ∈ Setting.offWords) (htext : Text.IsWord word text) :
      IsSwitch (.text text) false

/-- A list of texts, or the runs of characters in one text between its commas and blanks. -/
inductive IsList : Setting → List String → Prop where
  | items (values : List String) : IsList (.list (values.map .text)) values
  | joined {text : String} {values : List String}
      (hsplits : Text.Splits Text.isSeparator text.toList (values.map String.toList)) :
      IsList (.text text) values

inductive IsProperty : Setting → Option String → Prop where
  | text (value : String) : IsProperty (.text value) (some value)

theorem mapM_eq_some_iff {α β : Type} {f : α → Option β} {items : List α} {values : List β} :
    items.mapM f = some values ↔ List.Forall₂ (fun item value => f item = some value) items values := by
  induction items generalizing values with
  | nil => simp [eq_comm]
  | cons item items ih =>
      simp only [List.mapM_cons, Option.bind_eq_bind, Option.bind_eq_some_iff, Option.pure_def,
        Option.some.injEq, ih, List.forall₂_cons_left_iff]
      constructor
      · rintro ⟨first, hfirst, rest, hrest, rfl⟩
        exact ⟨first, rest, hfirst, hrest, rfl⟩
      · rintro ⟨first, rest, hfirst, hrest, rfl⟩
        exact ⟨first, hfirst, rest, hrest, rfl⟩

namespace Setting

variable {setting : Setting}

theorem not_isBlank_of_word {word : String} (hword : word ∈ onWords ++ offWords) :
    ∀ c ∈ word.toList, Text.isBlank c = false := by
  have hall : (onWords ++ offWords).all (·.toList.all (!Text.isBlank ·)) = true := by decide +kernel
  intro c hc
  simpa using List.all_eq_true.mp (List.all_eq_true.mp hall word hword) c hc

theorem lowerAscii_trim_mem_iff {words : List String} (hwords : words ⊆ onWords ++ offWords)
    {text : String} :
    Text.lowerAscii (Text.trim text) ∈ words ↔ ∃ word ∈ words, Text.IsWord word text := by
  constructor
  · intro hmem
    exact ⟨_, hmem, (Text.lowerAscii_trim_eq_iff (not_isBlank_of_word (hwords hmem))).mp rfl⟩
  · rintro ⟨word, hword, htext⟩
    rwa [(Text.lowerAscii_trim_eq_iff (not_isBlank_of_word (hwords hword))).mpr htext]

theorem onWords_disjoint {word : String} (hon : word ∈ onWords) : word ∉ offWords := by
  revert word
  decide

theorem switch_eq_ok_iff {value : Bool} : setting.switch = .ok value ↔ IsSwitch setting value := by
  cases setting with
  | flag flag =>
      constructor
      · intro hswitch
        cases hswitch
        exact .flag value
      · rintro ⟨⟩
        rfl
  | integer number =>
      constructor
      · intro hswitch
        rw [switch] at hswitch
        split at hswitch
        · next hzero =>
          cases hswitch
          exact hzero ▸ .zero
        · split at hswitch
          · next hone =>
            cases hswitch
            exact hone ▸ .one
          · split at hswitch <;> cases hswitch
      · rintro (_ | _)
        · rfl
        · rfl
  | text text =>
      have hon : Text.lowerAscii (Text.trim text) ∈ onWords ↔ _ :=
        lowerAscii_trim_mem_iff (List.subset_append_left _ _)
      have hoff : Text.lowerAscii (Text.trim text) ∈ offWords ↔ _ :=
        lowerAscii_trim_mem_iff (List.subset_append_right _ _)
      constructor
      · intro hswitch
        rw [switch] at hswitch
        split at hswitch
        · next hmem =>
          cases hswitch
          obtain ⟨word, hword, htext⟩ := hon.mp hmem
          exact .on hword htext
        · split at hswitch
          · next hmem =>
            cases hswitch
            obtain ⟨word, hword, htext⟩ := hoff.mp hmem
            exact .off hword htext
          · cases hswitch
      · intro hswitch
        unfold switch
        cases hswitch with
        | on hword htext => exact if_pos (hon.mpr ⟨_, hword, htext⟩)
        | off hword htext =>
            have hmem := hoff.mpr ⟨_, hword, htext⟩
            exact (if_neg fun hother => onWords_disjoint hother hmem).trans (if_pos hmem)
  | _ => exact ⟨nofun, nofun⟩

theorem mapM_text?_eq_some_iff {items : List Setting} {values : List String} :
    items.mapM text? = some values ↔ items = values.map .text := by
  have htext : ∀ {item : Setting} {value : String}, item.text? = some value ↔ item = .text value := by
    intro item value
    cases item <;> simp [text?]
  rw [mapM_eq_some_iff, ← List.forall₂_eq_eq_eq, List.forall₂_map_right_iff]
  simp only [htext]

theorem textList_eq_ok_iff {values : List String} :
    setting.textList = .ok values ↔ IsList setting values := by
  cases setting with
  | list items =>
      constructor
      · intro hlist
        rw [textList] at hlist
        split at hlist
        · next found hitems =>
          cases hlist
          rw [mapM_text?_eq_some_iff.mp hitems]
          exact .items _
        · cases hlist
      · rintro ⟨⟩
        simp only [textList, mapM_text?_eq_some_iff.mpr rfl]
  | text joined =>
      constructor
      · intro hlist
        exact .joined (Text.entries_eq_iff.mp (Except.ok.inj hlist))
      · rintro (_ | hsplits)
        exact congrArg Except.ok (Text.entries_eq_iff.mpr hsplits)
  | _ => exact ⟨nofun, nofun⟩

theorem propertyValue_eq_ok_iff {value : Option String} :
    setting.propertyValue = .ok value ↔ IsProperty setting value := by
  cases setting with
  | text text =>
      constructor
      · intro hproperty
        cases hproperty
        exact .text text
      · rintro ⟨⟩
        rfl
  | _ => exact ⟨nofun, nofun⟩

end Setting

end Assembly
