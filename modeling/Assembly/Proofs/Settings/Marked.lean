import Assembly.Proofs.Settings.Values

/-!
# Values between marks

What stands between quotation marks, brackets or braces has fewer characters than the value with its
marks, if separators do not count. So a value that can be read to its end is another list than the same
value split as it stands.
-/

namespace Assembly

namespace Text

def weight (chars : List Char) : Nat :=
  chars.countP (!isSeparator ·)

variable {chars others : List Char} {c : Char}

theorem weight_append (chars others : List Char) :
    weight (chars ++ others) = weight chars + weight others :=
  List.countP_append

theorem weight_cons_le (c : Char) (chars : List Char) : weight (c :: chars) ≤ weight chars + 1 := by
  unfold weight
  rw [List.countP_cons]
  split <;> omega

theorem le_weight_cons (c : Char) (chars : List Char) : weight chars ≤ weight (c :: chars) :=
  (List.sublist_cons_self c chars).countP_le

theorem weight_cons_of_not_separates (hc : isSeparator c = false) (chars : List Char) :
    weight (c :: chars) = weight chars + 1 :=
  List.countP_cons_of_pos (by simp [hc])

theorem weight_of_separates (hchars : ∀ c ∈ chars, isSeparator c = true) : weight chars = 0 := by
  refine List.countP_eq_zero.mpr fun c hc => ?_
  simp [hchars c hc]

theorem weight_trimChars_le (chars : List Char) : weight (trimChars chars) ≤ weight chars := by
  obtain ⟨front, back, hchars, -⟩ := exists_append_trimChars chars
  have hweight := congrArg weight hchars
  rw [weight_append, weight_append] at hweight
  omega

/-- Nothing is lost between the runs. -/
theorem Splits.weight_eq {runs : List (List Char)} (hsplits : Splits isSeparator chars runs) :
    weight runs.flatten = weight chars := by
  induction hsplits with
  | gap hgap => exact (weight_of_separates hgap).symm
  | run hgap hrun hnonempty hend hrest ih =>
      rw [List.flatten_cons, weight_append, weight_append, weight_append, weight_of_separates hgap, ih,
        Nat.zero_add]

end Text

namespace Variable

open Text (weight)

variable {chars out rest : List Char}

/-- An escape has more than the one character that it stands for. -/
theorem weight_escaped (front : List Char) (c : Char) (hrest : weight out ≤ weight rest) :
    weight (c :: out) ≤ weight ('\\' :: (front ++ rest)) := by
  have hcons := Text.weight_cons_le c out
  have hmark : weight ('\\' :: (front ++ rest)) = weight (front ++ rest) + 1 :=
    Text.weight_cons_of_not_separates rfl _
  rw [hmark, Text.weight_append]
  omega

theorem weight_unescape (hout : unescape chars = some out) : weight out ≤ weight chars := by
  fun_induction unescape chars generalizing out with
  | case1 =>
      cases hout
      exact Nat.le_refl _
  | case2 a b c d rest ih =>
      obtain ⟨code, -, hout⟩ := Option.bind_eq_some_iff.mp hout
      obtain ⟨others, hothers, heq⟩ := Option.bind_eq_some_iff.mp hout
      cases heq
      exact weight_escaped ['u', a, b, c, d] code (ih hothers)
  | case3 a b c d e f g h rest ih =>
      obtain ⟨code, -, hout⟩ := Option.bind_eq_some_iff.mp hout
      obtain ⟨others, hothers, heq⟩ := Option.bind_eq_some_iff.mp hout
      cases heq
      exact weight_escaped ['U', a, b, c, d, e, f, g, h] code (ih hothers)
  | case4 rest ih | case5 rest ih | case6 rest ih | case7 rest ih | case8 rest ih | case9 rest ih
  | case10 rest ih =>
      obtain ⟨others, hothers, rfl⟩ := Option.map_eq_some_iff.mp hout
      exact weight_escaped [_] _ (ih hothers)
  | case11 => cases hout
  | case12 c rest _ _ _ _ _ _ _ _ _ _ _ ih =>
      obtain ⟨others, hothers, rfl⟩ := Option.map_eq_some_iff.mp hout
      have hrest := ih hothers
      unfold weight at hrest ⊢
      rw [List.countP_cons, List.countP_cons]
      omega
  | case13 => cases hout

theorem weight_fitting (size : Nat) (chars : List Char) :
    weight (fitting size chars) ≤ weight chars := by
  induction chars generalizing size with
  | nil => rw [fitting]
  | cons c rest ih =>
      rw [fitting]
      split
      · have hrest := ih (size - c.utf8Size)
        unfold weight at hrest ⊢
        rw [List.countP_cons, List.countP_cons]
        omega
      · exact Nat.zero_le _

theorem weight_quotedChars? (hout : quotedChars? chars = some out) : weight out ≤ weight chars := by
  obtain ⟨front, hfront, hout⟩ := Option.bind_eq_some_iff.mp hout
  have hsplit := Text.weight_append (chars.takeWhile (· ≠ '\\')) (chars.dropWhile (· ≠ '\\'))
  rw [List.takeWhile_append_dropWhile] at hsplit
  have hbefore := weight_unescape hfront
  split at hout
  · cases hout
    omega
  · obtain ⟨back, hback, heq⟩ := Option.bind_eq_some_iff.mp hout
    cases heq
    -- With an escape behind it the front may be cut short, which takes characters away only.
    have hbehind := weight_unescape hback
    have hkept := weight_fitting front.length front
    rw [Text.weight_append]
    omega

/-! ### What scanners take -/

/-- What is found takes up the front of the text, and its content has no more characters than that. -/
def Takes {α : Type} (content : α → List Char) (scan : Scan α) : Prop :=
  ∀ text found rest, scan text = some (found, rest) →
    ∃ taken, text = taken ++ rest ∧ weight (content found) ≤ weight taken

theorem exists_blanks (chars : List Char) : ∃ blanks, chars = blanks ++ skipBlanks chars :=
  ⟨_, List.takeWhile_append_dropWhile.symm⟩

theorem eq_of_quotedBody {body : List Char} (hbody : quotedBody chars = some (body, rest)) :
    chars = body ++ rest := by
  fun_induction quotedBody chars generalizing body rest with
  | case1 => cases hbody
  | case2 others =>
      cases hbody
      rfl
  | case3 c others ih =>
      obtain ⟨⟨inner, _⟩, hinner, heq⟩ := Option.map_eq_some_iff.mp hbody
      cases heq
      rw [ih hinner]
      rfl
  | case4 c others _ _ ih =>
      obtain ⟨⟨inner, _⟩, hinner, heq⟩ := Option.map_eq_some_iff.mp hbody
      cases heq
      rw [ih hinner]
      rfl

theorem takes_quoted : Takes String.toList quoted := by
  intro text found rest hread
  obtain ⟨⟨body, behind⟩, hbody, hread⟩ := Option.bind_eq_some_iff.mp hread
  obtain ⟨out, hout, hread⟩ := Option.bind_eq_some_iff.mp hread
  split at hread
  · next mark =>
    cases hread
    refine ⟨body ++ ['"'], ?_, ?_⟩
    · rw [eq_of_quotedBody hbody, List.append_assoc]
      rfl
    · have hweight := weight_quotedChars? hout
      rw [String.toList_ofList, Text.weight_append]
      omega
  · cases hread

theorem Takes.suffix {α : Type} {content : α → List Char} {scan : Scan α}
    (htakes : Takes content scan) {found : α} (hread : scan chars = some (found, rest)) :
    rest <:+ chars := by
  obtain ⟨taken, htaken, -⟩ := htakes _ _ _ hread
  exact ⟨taken, htaken.symm⟩

theorem skipBlanks_suffix (chars : List Char) : skipBlanks chars <:+ chars :=
  List.dropWhile_suffix _

theorem suffix_of_name {found : String} (hread : name chars = some (found, rest)) :
    rest <:+ chars := by
  unfold name at hread
  split at hread
  · exact (takes_quoted.suffix hread).trans (List.suffix_cons _ _)
  · split at hread
    · cases hread
    · cases hread
      exact List.dropWhile_suffix _

theorem takes_entry {item : Scan Setting} {content : Setting → List Char}
    (hitem : Takes content item) : Takes (fun _ => []) (entry item) := by
  intro text found rest hread
  obtain ⟨⟨label, behind⟩, hlabel, hread⟩ := Option.bind_eq_some_iff.mp hread
  dsimp only at hread
  split at hread
  · next others hequals =>
    obtain ⟨⟨setting, last⟩, hsetting, heq⟩ := Option.bind_eq_some_iff.mp hread
    cases heq
    have hbehind : behind <:+ text := (suffix_of_name hlabel).trans (skipBlanks_suffix text)
    have hothers : others <:+ behind := by
      refine List.IsSuffix.trans ?_ (skipBlanks_suffix behind)
      rw [hequals]
      exact List.suffix_cons _ _
    have hlast : last <:+ others := (hitem.suffix hsetting).trans (skipBlanks_suffix others)
    obtain ⟨taken, htaken⟩ := (((skipBlanks_suffix last).trans hlast).trans hothers).trans hbehind
    exact ⟨taken, htaken.symm, Nat.zero_le _⟩
  · cases hread

theorem takes_collect {α : Type} {content : α → List Char} {item : Scan α} (hitem : Takes content item)
    (closing : Char) (bound : Nat) :
    Takes (List.flatMap content) (collect item closing bound) := by
  induction bound with
  | zero => exact fun _ _ _ hread => nomatch hread
  | succ bound ih =>
      intro text found rest hread
      cases text with
      | nil => cases hread
      | cons c text =>
          rw [collect] at hread
          split at hread
          · next hclosing =>
            cases hread
            exact ⟨[c], rfl, Nat.zero_le _⟩
          · split at hread
            · next first behind hfirst =>
              obtain ⟨⟨others, _⟩, hothers, heq⟩ := Option.map_eq_some_iff.mp hread
              cases heq
              obtain ⟨taken, htaken, hweight⟩ := hitem _ _ _ hfirst
              obtain ⟨more, hmore, hmoreWeight⟩ := ih _ _ _ hothers
              refine ⟨taken ++ ',' :: more, ?_, ?_⟩
              · rw [htaken, hmore, List.append_assoc]
                rfl
              · have hcomma := Text.le_weight_cons ',' more
                rw [List.flatMap_cons, Text.weight_append, Text.weight_append]
                omega
            · next first other behind hother hfirst =>
              obtain ⟨taken, htaken, hweight⟩ := hitem _ _ _ hfirst
              split at hread
              · cases hread
                refine ⟨taken ++ [other], ?_, ?_⟩
                · rw [htaken, List.append_assoc]
                  rfl
                · rw [List.flatMap_singleton, Text.weight_append]
                  omega
              · cases hread
            · cases hread
            · cases hread

def said : Setting → List Char
  | .text text => text.toList
  | _ => []

theorem weight_said_bare (chars : List Char) : weight (said (bare chars)) ≤ weight chars := by
  unfold bare
  split
  · exact Nat.zero_le _
  · exact Nat.zero_le _
  · rw [said, String.toList_ofList]

/-- Behind a mark fewer characters are found than there are with the mark. -/
theorem takes_marked {α : Type} {content : α → List Char} {scan : Scan α}
    (htakes : Takes content scan) {mark : Char} (hmark : Text.isSeparator mark = false)
    {others behind : List Char} {found : α} (hchars : skipBlanks chars = mark :: others)
    (hread : scan others = some (found, behind)) :
    ∃ taken, chars = taken ++ skipBlanks behind ∧ weight (content found) < weight taken := by
  obtain ⟨taken, htaken, hweight⟩ := htakes _ _ _ hread
  obtain ⟨before, hbefore⟩ := exists_blanks chars
  obtain ⟨after, hafter⟩ := exists_blanks behind
  refine ⟨before ++ mark :: (taken ++ after), ?_, ?_⟩
  · calc
      chars = before ++ mark :: others := hchars ▸ hbefore
      _ = before ++ mark :: (taken ++ (after ++ skipBlanks behind)) := by rw [htaken, ← hafter]
      _ = before ++ mark :: (taken ++ after) ++ skipBlanks behind := by simp
  · rw [Text.weight_append, Text.weight_cons_of_not_separates hmark, Text.weight_append]
    omega

/-- The ways to read a value. -/
inductive Form (bound depth : Nat) (text : List Char) : Setting → List Char → Prop where
  | flag (flag : Bool) (word : List Char) {others : List Char}
      (htext : skipBlanks text = word ++ others) :
      Form bound depth text (.flag flag) (skipBlanks others)
  | table {others behind : List Char} {entries : List (String × Setting)}
      (htext : skipBlanks text = '\x7b' :: others)
      (hentries : collect (entry (value bound depth)) '\x7d' bound others = some (entries, behind)) :
      Form bound depth text (tableOf entries) (skipBlanks behind)
  | list {others behind : List Char} {items : List Setting}
      (htext : skipBlanks text = '[' :: others)
      (hitems : collect (value bound depth) ']' bound others = some (items, behind)) :
      Form bound depth text (.list items) (skipBlanks behind)
  | quoted {others behind : List Char} {inner : String} (htext : skipBlanks text = '"' :: others)
      (hinner : quoted others = some (inner, behind)) :
      Form bound depth text (.text inner) (skipBlanks behind)
  | letter (c : Char) {others : List Char} (htext : skipBlanks text = '\'' :: c :: '\'' :: others) :
      Form bound depth text (.letter c) (skipBlanks others)
  | bare (hopens : ¬∃ c ∈ (skipBlanks text).head?, c ∈ ['[', '\x7b', '"', '\'']) :
      Form bound depth text (bare (Text.trimChars ((skipBlanks text).takeWhile isBare)))
        ((skipBlanks text).dropWhile isBare)

theorem form_of_value {bound depth : Nat} {setting : Setting}
    (hread : value bound (depth + 1) chars = some (setting, rest)) :
    Form bound depth chars setting rest := by
  rw [value] at hread
  split at hread
  · next htext =>
    cases hread
    exact .flag true ['t', 'r', 'u', 'e'] htext
  · next htext =>
    cases hread
    exact .flag false ['f', 'a', 'l', 's', 'e'] htext
  · next htext =>
    obtain ⟨⟨entries, behind⟩, hentries, heq⟩ := Option.map_eq_some_iff.mp hread
    cases heq
    exact .table htext hentries
  · next htext =>
    obtain ⟨⟨items, behind⟩, hitems, heq⟩ := Option.map_eq_some_iff.mp hread
    cases heq
    exact .list htext hitems
  · next htext =>
    obtain ⟨⟨inner, behind⟩, hinner, heq⟩ := Option.map_eq_some_iff.mp hread
    cases heq
    exact .quoted htext hinner
  · next c _ htext =>
    cases hread
    exact .letter c htext
  · cases hread
  · next hbrace hbracket hquote _ hmark =>
    cases hread
    refine .bare ?_
    rintro ⟨c, hhead, hc⟩
    obtain ⟨others, htext⟩ := List.head?_eq_some_iff.mp hhead
    simp only [List.mem_cons, List.not_mem_nil, or_false] at hc
    rcases hc with rfl | rfl | rfl | rfl
    · exact hbracket _ htext
    · exact hbrace _ htext
    · exact hquote _ htext
    · exact hmark _ htext

theorem takes_value (bound depth : Nat) : Takes said (value bound depth) := by
  have hnothing : ∀ {text rest : List Char} {setting : Setting}, said setting = [] →
      rest <:+ text → ∃ taken, text = taken ++ rest ∧ weight (said setting) ≤ weight taken := by
    rintro text rest setting hsaid ⟨taken, htaken⟩
    rw [hsaid]
    exact ⟨taken, htaken.symm, Nat.zero_le _⟩
  have hword : ∀ {text others : List Char} (word : List Char), skipBlanks text = word ++ others →
      skipBlanks others <:+ text := by
    intro text others word htext
    refine (skipBlanks_suffix others).trans (List.IsSuffix.trans ?_ (skipBlanks_suffix text))
    rw [htext]
    exact List.suffix_append _ _
  induction depth with
  | zero => exact fun _ _ _ hread => nomatch hread
  | succ depth ih =>
      intro text found rest hread
      cases form_of_value hread with
      | flag flag word htext => exact hnothing rfl (hword word htext)
      | table htext hentries =>
          obtain ⟨taken, htaken, -⟩ :=
            takes_marked (takes_collect (takes_entry ih) _ _) rfl htext hentries
          exact ⟨taken, htaken, Nat.zero_le _⟩
      | list htext hitems =>
          obtain ⟨taken, htaken, -⟩ := takes_marked (takes_collect ih _ _) rfl htext hitems
          exact ⟨taken, htaken, Nat.zero_le _⟩
      | quoted htext hinner =>
          obtain ⟨taken, htaken, hweight⟩ := takes_marked takes_quoted rfl htext hinner
          exact ⟨taken, htaken, Nat.le_of_lt hweight⟩
      | letter c htext => exact hnothing rfl (hword ['\'', c, '\''] htext)
      | bare hopens =>
          obtain ⟨before, hbefore⟩ := exists_blanks text
          refine ⟨before ++ (skipBlanks text).takeWhile isBare, ?_, ?_⟩
          · rw [List.append_assoc, List.takeWhile_append_dropWhile, ← hbefore]
          · have hbare := weight_said_bare (Text.trimChars ((skipBlanks text).takeWhile isBare))
            have htrim := Text.weight_trimChars_le ((skipBlanks text).takeWhile isBare)
            rw [Text.weight_append]
            omega

/-! ### Values that can be read to their end -/

theorem said_of_mapM {items : List Setting} {values : List String}
    (hvalues : items.mapM Setting.text? = some values) :
    items.flatMap said = (values.map String.toList).flatten := by
  induction items generalizing values with
  | nil =>
      cases hvalues
      rfl
  | cons item items ih =>
      rw [List.mapM_cons] at hvalues
      obtain ⟨first, hfirst, hvalues⟩ := Option.bind_eq_some_iff.mp hvalues
      obtain ⟨others, hothers, heq⟩ := Option.bind_eq_some_iff.mp hvalues
      cases heq
      cases item with
      | text value =>
          cases hfirst
          rw [List.flatMap_cons, ih hothers]
          rfl
      | _ => cases hfirst

theorem weight_entries (text : String) :
    weight ((Text.entries text).map String.toList).flatten = weight text.toList :=
  (Text.splits_entries text).weight_eq

/-- What opens and can be read to its end is another list than the one it would be split into. -/
theorem list_ne_of_opens {bound depth : Nat} {text : String} {setting : Setting}
    (hopens : Opens text) (hvalue : value bound (depth + 1) text.toList = some (setting, [])) :
    setting.textList ≠ .ok (Text.entries text) := by
  intro hlist
  have hwhole : ∀ {behind : List Char}, skipBlanks behind = [] → ∀ {taken : List Char},
      text.toList = taken ++ skipBlanks behind → weight taken = weight text.toList := by
    intro behind hbehind taken htaken
    rw [htaken, hbehind, List.append_nil]
  generalize hrest : ([] : List Char) = rest at hvalue
  cases form_of_value hvalue with
  | flag | table | letter => cases hlist
  | list htext hitems =>
      obtain ⟨taken, htaken, hweight⟩ :=
        takes_marked (takes_collect (takes_value bound depth) _ _) rfl htext hitems
      rw [Setting.textList] at hlist
      split at hlist
      · next values hvalues =>
        cases hlist
        rw [said_of_mapM hvalues, weight_entries, hwhole hrest.symm htaken] at hweight
        exact absurd hweight (Nat.lt_irrefl _)
      · cases hlist
  | @quoted others behind inner htext hinner =>
      obtain ⟨taken, htaken, hweight⟩ := takes_marked takes_quoted rfl htext hinner
      have hentries : Text.entries inner = Text.entries text := Except.ok.inj hlist
      rw [← weight_entries inner, hentries, weight_entries, hwhole hrest.symm htaken] at hweight
      exact absurd hweight (Nat.lt_irrefl _)
  | bare hnone => exact absurd hopens hnone

/-- A value is split as it stands exactly if it is plain. -/
theorem list_eq_entries_iff {text : String} :
    list text = .ok (Text.entries text) ↔ IsPlain text := by
  refine ⟨fun hlist => ⟨fun hopens => ?_, fun htruth => ?_, fun hnumber => ?_⟩, list_of_isPlain⟩
  · unfold list at hlist
    unfold read at hlist ⊢
    dsimp only at hlist ⊢
    split at hlist
    · next setting hvalue => exact absurd hlist (list_ne_of_opens hopens hvalue)
    · rfl
  · cases (list_of_truth_or_number (.inl htruth)).symm.trans hlist
  · cases (list_of_truth_or_number (.inr hnumber)).symm.trans hlist

end Variable

end Assembly
