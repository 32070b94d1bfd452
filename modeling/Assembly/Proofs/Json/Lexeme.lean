import Assembly.Json.Reader
import Assembly.Json.Skip
import Assembly.Json.Writer

/-!
# Strings and numbers as they are written

What is written between quotes is read as it was, character by character, and so are the digits of a whole
number in front of anything that ends a number.
-/

namespace Assembly.Json

theorem ok_bind {ε α β : Type} (value : α) (next : α → Except ε β) :
    (Except.ok value >>= next) = next value :=
  rfl

/-! ### Strings -/

/-- A control character is written with two digits behind two zeros. -/
theorem unit?_of_lt {code : Nat} (hcode : code < 0x20) :
    unit? '0' '0' (hexDigit (code / 16)) (hexDigit (code % 16)) = some code := by
  have hall : ∀ code < 0x20,
      unit? '0' '0' (hexDigit (code / 16)) (hexDigit (code % 16)) = some code := by
    decide
  exact hall code hcode

/-- A character is written as itself, or behind a backslash. -/
theorem escapeChar_cases (c : Char) :
    (∃ letter, escapeChar c = ['\\', letter] ∧ shortEscape? letter = some c ∧ letter ≠ 'u')
      ∨ (c.toNat < 0x20 ∧ escapeChar c
        = ['\\', 'u', '0', '0', hexDigit (c.toNat / 16), hexDigit (c.toNat % 16)])
      ∨ (escapeChar c = [c] ∧ c ≠ '"' ∧ c ≠ '\\' ∧ ¬c.toNat < 0x20) := by
  unfold escapeChar
  split
  · next hc =>
    subst hc
    exact .inl ⟨_, rfl, rfl, by decide⟩
  split
  · next hc =>
    subst hc
    exact .inl ⟨_, rfl, rfl, by decide⟩
  split
  · next hc =>
    subst hc
    exact .inl ⟨_, rfl, rfl, by decide⟩
  split
  · next hc =>
    subst hc
    exact .inl ⟨_, rfl, rfl, by decide⟩
  split
  · next hc =>
    subst hc
    exact .inl ⟨_, rfl, rfl, by decide⟩
  split
  · next hc =>
    subst hc
    exact .inl ⟨_, rfl, rfl, by decide⟩
  split
  · next hc =>
    subst hc
    exact .inl ⟨_, rfl, rfl, by decide⟩
  split
  · next hcontrol => exact .inr (.inl ⟨hcontrol, rfl⟩)
  · next hquote hbackslash _ _ _ _ _ hcontrol =>
    exact .inr (.inr ⟨rfl, hquote, hbackslash, hcontrol⟩)

theorem stringBody_escapeChar (c : Char) (text : List Char) :
    stringBody (escapeChar c ++ text) = before c (stringBody text) := by
  obtain ⟨letter, hchars, hletter, hne⟩ | ⟨hcontrol, hchars⟩ | ⟨hchars, hquote, hbackslash, hcontrol⟩ :=
    escapeChar_cases c
  · rw [hchars, List.cons_append, List.cons_append, List.nil_append, stringBody.eq_def]
    simp only [Char.reduceEq, if_false, if_true]
    split
    · next heq => cases heq
    · next heq => exact absurd (List.cons.inj heq).1 hne
    · next heq =>
      cases heq
      simp only [if_neg hne, hletter]
  -- A control character is not half of a pair, so nothing is read beyond its escape.
  · have hunit := unit?_of_lt hcontrol
    have hhigh : isHighSurrogate c.toNat = false := by
      simp only [isHighSurrogate, Bool.and_eq_false_imp, decide_eq_true_eq]
      omega
    have hlow : isLowSurrogate c.toNat = false := by
      simp only [isLowSurrogate, Bool.and_eq_false_imp, decide_eq_true_eq]
      omega
    rw [hchars, stringBody.eq_def]
    simp [hunit, hhigh, hlow, Char.ofNat_toNat]
  · rw [hchars, List.singleton_append, stringBody.eq_def]
    simp only [if_neg hquote, if_neg hbackslash, if_neg hcontrol]

theorem skipString_escapeChar (c : Char) (text : List Char) :
    skipString (escapeChar c ++ text) = skipString text := by
  obtain ⟨letter, hchars, hletter, hne⟩ | ⟨hcontrol, hchars⟩ | ⟨hchars, hquote, hbackslash, hcontrol⟩ :=
    escapeChar_cases c
  · rw [hchars, List.cons_append, List.cons_append, List.nil_append, skipString.eq_def]
    simp only [Char.reduceEq, if_false, if_true]
    split
    · next heq => cases heq
    · next heq => exact absurd (List.cons.inj heq).1 hne
    · next heq =>
      cases heq
      simp [hne, hletter]
  · have hunit := unit?_of_lt hcontrol
    rw [hchars, skipString.eq_def]
    simp [hunit]
  · rw [hchars, List.singleton_append, skipString.eq_def]
    simp only [if_neg hquote, if_neg hbackslash, if_neg hcontrol]

theorem stringBody_chars (chars text : List Char) :
    stringBody (chars.flatMap escapeChar ++ '"' :: text) = .ok (chars, text) := by
  induction chars with
  | nil =>
      rw [List.flatMap_nil, List.nil_append, stringBody.eq_def]
      rfl
  | cons c chars ih =>
      rw [List.flatMap_cons, List.append_assoc, stringBody_escapeChar, ih]
      rfl

/-- A string behind its opening quote. -/
theorem string_chars (value : String) (text : List Char) :
    string (value.toList.flatMap escapeChar ++ '"' :: text) = .ok (value, text) := by
  unfold string
  simp only [stringBody_chars, ok_bind, String.ofList_toList]
  rfl

theorem skipString_chars (chars text : List Char) :
    skipString (chars.flatMap escapeChar ++ '"' :: text) = .ok text := by
  induction chars with
  | nil =>
      rw [List.flatMap_nil, List.nil_append, skipString.eq_def]
      rfl
  | cons c chars ih =>
      rw [List.flatMap_cons, List.append_assoc, skipString_escapeChar, ih]

/-! ### Whole numbers -/

/-- What may stand behind a value: a blank, a comma or the end of what the value stands in. -/
def isDelimiter (c : Char) : Bool :=
  isSpace c || c = ',' || c = ']' || c = '\x7d'

/-- The text ends, or goes on with what may stand behind a value. -/
def Delimited (text : List Char) : Prop :=
  ∀ c ∈ text.head?, isDelimiter c = true

theorem head?_toDigits_ne {value : Nat} (hvalue : 0 < value) :
    (Nat.toDigits 10 value).head? ≠ some '0' := by
  induction value using Nat.strongRecOn with
  | ind value ih =>
      by_cases hsmall : value < 10
      · have hall : ∀ value < 10, 0 < value → [value.digitChar].head? ≠ some '0' := by decide
        rw [Nat.toDigits_of_lt_base hsmall]
        exact hall value hsmall hvalue
      · have hfirst := ih (value / 10) (by omega) (by omega)
        rw [Nat.toDigits_of_base_le (by decide) (by omega)]
        cases hdigits : Nat.toDigits 10 (value / 10) with
        | nil => exact absurd hdigits Nat.toDigits_ne_nil
        | cons first rest =>
            rw [hdigits] at hfirst
            exact hfirst

theorem toDigits_eq_singleton {value : Nat} (hhead : (Nat.toDigits 10 value).head? = some '0') :
    Nat.toDigits 10 value = ['0'] := by
  rcases Nat.eq_zero_or_pos value with rfl | hpos
  · exact Nat.toDigits_zero 10
  · exact absurd hhead (head?_toDigits_ne hpos)

theorem not_isDigit_of_isDelimiter {c : Char} (hc : isDelimiter c = true) :
    c.isDigit = false ∧ c ≠ '.' ∧ ¬(c = 'e' ∨ c = 'E') := by
  simp only [isDelimiter, isSpace, Bool.or_eq_true, decide_eq_true_eq] at hc
  obtain (((((rfl | rfl) | rfl) | rfl) | rfl) | rfl) | rfl := hc
  all_goals decide

theorem digits_append {found text : List Char} (hfound : ∀ c ∈ found, c.isDigit = true)
    (hne : found ≠ []) (htext : Delimited text) : digits (found ++ text) = .ok (found, text) := by
  have hsplit : text.takeWhile Char.isDigit = [] ∧ text.dropWhile Char.isDigit = text := by
    cases text with
    | nil => exact ⟨rfl, rfl⟩
    | cons c rest =>
        have hc := (not_isDigit_of_isDelimiter (htext c rfl)).1
        simp [hc]
  unfold digits
  rw [List.takeWhile_append_of_pos hfound, List.dropWhile_append_of_pos hfound, hsplit.1, hsplit.2,
    List.append_nil]
  cases found with
  | nil => exact absurd rfl hne
  | cons c rest => rfl

theorem readWhole_digits (value : Nat) {text : List Char} (htext : Delimited text) :
    Numeral.readWhole (Nat.toDigits 10 value ++ text) = .ok (Nat.toDigits 10 value, text) := by
  have hdigits : ∀ c ∈ Nat.toDigits 10 value, c.isDigit = true := fun c hc =>
    Nat.isDigit_of_mem_toDigits (by decide) (by decide) hc
  unfold Numeral.readWhole
  rw [digits_append hdigits Nat.toDigits_ne_nil htext]
  refine if_neg ?_
  rintro ⟨hhead, hne⟩
  exact hne (toDigits_eq_singleton hhead)

theorem readFraction_of_delimited {text : List Char} (htext : Delimited text) :
    Numeral.readFraction text = .ok (none, text) := by
  unfold Numeral.readFraction
  split
  · next rest => exact absurd rfl (not_isDigit_of_isDelimiter (htext '.' rfl)).2.1
  · rfl

theorem readExponent_of_delimited {text : List Char} (htext : Delimited text) :
    Numeral.readExponent text = .ok (none, text) := by
  cases text with
  | nil => rfl
  | cons c rest => exact if_neg (not_isDigit_of_isDelimiter (htext c rfl)).2.2

/-- The parts of a whole number in front of what ends it. -/
theorem read_digits (negative : Bool) (value : Nat) {text : List Char} (htext : Delimited text) :
    Numeral.read ((if negative then ['-'] else []) ++ Nat.toDigits 10 value ++ text)
      = .ok (⟨negative, Nat.toDigits 10 value, none, none⟩, text) := by
  have hwhole := readWhole_digits value htext
  have hfraction := readFraction_of_delimited htext
  have hexponent := readExponent_of_delimited htext
  cases negative with
  | true =>
      change Numeral.read ('-' :: (Nat.toDigits 10 value ++ text)) = _
      unfold Numeral.read
      simp only [hwhole, hfraction, hexponent, ok_bind]
      rfl
  | false =>
      change Numeral.read (Nat.toDigits 10 value ++ text) = _
      unfold Numeral.read
      split
      next negative rest hsign =>
      split at hsign
      · next more hminus =>
        have hdigit : '-' ∈ Nat.toDigits 10 value := by
          cases hdigits : Nat.toDigits 10 value with
          | nil => exact absurd hdigits Nat.toDigits_ne_nil
          | cons first others =>
              rw [hdigits] at hminus
              exact (List.cons.inj hminus).1 ▸ List.mem_cons_self
        exact absurd (Nat.isDigit_of_mem_toDigits (by decide) (by decide) hdigit) (by decide)
      · cases hsign
        simp only [hwhole, hfraction, hexponent, ok_bind]
        rfl

theorem le_ofDigitChars (chars : List Char) (start : Nat) :
    start ≤ Nat.ofDigitChars 10 chars start := by
  rw [Nat.ofDigitChars_eq_ofDigitChars_zero]
  exact Nat.le_add_right_of_le (Nat.le_mul_of_pos_left _ (Nat.pow_pos (by decide)))

theorem absorb_eq {significand : Nat} {chars : List Char}
    (hfits : Nat.ofDigitChars 10 chars significand < wordRange64) :
    Numeral.absorb significand chars = (Nat.ofDigitChars 10 chars significand, []) := by
  induction chars generalizing significand with
  | nil => rfl
  | cons c chars ih =>
      rw [Nat.ofDigitChars_cons, Nat.mul_comm 10] at hfits
      have hnext : significand * 10 + digitValue c < wordRange64 :=
        Nat.lt_of_le_of_lt (le_ofDigitChars chars _) hfits
      rw [Numeral.absorb, Nat.ofDigitChars_cons, Nat.mul_comm 10]
      exact (if_pos hnext).trans (ih hfits)

theorem readNumber_digits (negative : Bool) {value : Nat} (hvalue : value < wordRange64)
    {text : List Char} (htext : Delimited text) :
    readNumber ((if negative then ['-'] else []) ++ Nat.toDigits 10 value ++ text)
      = .ok (Numeral.wholeNumber negative value, text) := by
  have habsorb : Numeral.absorb 0 (Nat.toDigits 10 value) = (value, []) := by
    rw [absorb_eq] <;> rw [Nat.ofDigitChars_ten_toDigits]
    exact hvalue
  unfold readNumber
  rw [read_digits negative value htext, ok_bind]
  unfold Numeral.number
  simp only [habsorb]
  rfl

theorem chars_whole (value : Int) :
    (Number.whole value).chars
      = (if decide (value < 0) then ['-'] else []) ++ Nat.toDigits 10 value.natAbs := by
  cases value with
  | ofNat size =>
      change size.repr.toList = _
      rw [Nat.toList_repr]
      rfl
  | negSucc size =>
      change ("-" ++ (size + 1).repr).toList = _
      have hsign : "-".toList = ['-'] := by decide
      rw [String.toList_append, Nat.toList_repr, hsign, decide_eq_true (Int.negSucc_lt_zero size)]
      rfl

theorem exists_chars_whole (value : Int) :
    ∃ c rest, (Number.whole value).chars = c :: rest ∧ (c = '-' ∨ c.isDigit = true) := by
  rw [chars_whole]
  by_cases hnegative : value < 0
  · simp only [hnegative, decide_true, if_true]
    exact ⟨'-', _, rfl, .inl rfl⟩
  · simp only [hnegative, decide_false, Bool.false_eq_true, if_false, List.nil_append]
    cases hdigits : Nat.toDigits 10 value.natAbs with
    | nil => exact absurd hdigits Nat.toDigits_ne_nil
    | cons c rest =>
        have hc : c ∈ Nat.toDigits 10 value.natAbs := hdigits ▸ List.mem_cons_self
        exact ⟨c, rest, rfl, .inr (Nat.isDigit_of_mem_toDigits (by decide) (by decide) hc)⟩

/-- What begins a number neither ends a value nor begins an array or an object. -/
theorem not_isDelimiter_of_number {c : Char} (hc : c = '-' ∨ c.isDigit = true) :
    isDelimiter c = false ∧ c ≠ '[' ∧ c ≠ '\x7b' := by
  rcases hc with rfl | hdigit
  · decide
  · refine ⟨?_, fun heq => ?_, fun heq => ?_⟩
    · cases hdelimiter : isDelimiter c with
      | false => rfl
      | true => exact hdigit.symm.trans (not_isDigit_of_isDelimiter hdelimiter).1
    · subst heq
      cases hdigit
    · subst heq
      cases hdigit

theorem readNumber_chars {value : Int} (hlower : -halfRange64 ≤ value)
    (hupper : value < wordRange64) {text : List Char} (htext : Delimited text) :
    readNumber ((Number.whole value).chars ++ text) = .ok (.whole value, text) := by
  have hhalf : halfRange64 < wordRange64 := by decide
  have hsize : value.natAbs < wordRange64 := by omega
  rw [chars_whole, readNumber_digits _ hsize htext]
  unfold Numeral.wholeNumber
  by_cases hnegative : value < 0
  · rw [decide_eq_true hnegative, if_neg (by decide), if_pos (by omega),
      Int.ofNat_natAbs_of_nonpos (Int.le_of_lt hnegative), Int.neg_neg]
  · rw [decide_eq_false hnegative, if_pos (by decide), Int.natAbs_of_nonneg (Int.not_lt.mp hnegative)]

/-! ### Scalars -/

theorem scalar_string (value : String) (text : List Char) :
    scalar (stringChars value ++ text) = .ok (.string value, text) := by
  have htext : stringChars value ++ text
      = '"' :: (value.toList.flatMap escapeChar ++ '"' :: text) := by
    simp [stringChars]
  rw [htext]
  unfold scalar
  simp only [Char.reduceEq, if_false, if_true, string_chars, ok_bind]
  rfl

theorem scalar_number {value : Int} (hlower : -halfRange64 ≤ value) (hupper : value < wordRange64)
    {text : List Char} (htext : Delimited text) :
    scalar ((Number.whole value).chars ++ text) = .ok (.number (.whole value), text) := by
  have hread := readNumber_chars hlower hupper htext
  obtain ⟨c, rest, hchars, hc⟩ := exists_chars_whole value
  have hne : ∀ letter : Char, letter ≠ '-' → letter.isDigit = false → c ≠ letter := by
    rintro letter hminus hdigit rfl
    rcases hc with heq | hc
    · exact hminus heq
    · rw [hc] at hdigit
      cases hdigit
  rw [hchars, List.cons_append] at hread ⊢
  unfold scalar
  simp only [if_neg (hne 'n' (by decide) rfl), if_neg (hne 't' (by decide) rfl),
    if_neg (hne 'f' (by decide) rfl), if_neg (hne '"' (by decide) rfl), if_pos hc, hread, ok_bind]
  rfl

end Assembly.Json
