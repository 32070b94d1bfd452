import Assembly.Settings.Setting

/-!
# Tables of settings

A setting has a place in a tree of tables, at the end of a path of names. Where one setting is laid on
another one, what the upper one holds at a path is what is found there, and where it holds nothing the
lower one shows through.
-/

namespace Assembly

section Lookup

variable {α : Type} {entries : List (String × α)} {name : String} {value : α}

theorem mem_of_lookup (hlookup : entries.lookup name = some value) : (name, value) ∈ entries := by
  induction entries with
  | nil => cases hlookup
  | cons first rest ih =>
      rw [lookup_entries_cons] at hlookup
      split at hlookup
      · next heq =>
        cases hlookup
        exact heq ▸ List.mem_cons_self
      · exact List.mem_cons_of_mem _ (ih hlookup)

theorem lookup_eq_none_of_forall (hfresh : ∀ entry ∈ entries, entry.1 ≠ name) :
    entries.lookup name = none := by
  cases hlookup : entries.lookup name with
  | none => rfl
  | some value => exact absurd rfl (hfresh _ (mem_of_lookup hlookup))

variable (hascending : entries.Pairwise (·.1 < ·.1))
include hascending

theorem lookup_eq_some_iff : entries.lookup name = some value ↔ (name, value) ∈ entries := by
  refine ⟨mem_of_lookup, fun hmem => ?_⟩
  induction entries with
  | nil => cases hmem
  | cons first rest ih =>
      rw [lookup_entries_cons]
      rcases List.mem_cons.mp hmem with rfl | hrest
      · exact if_pos rfl
      · have hbelow := List.rel_of_pairwise_cons hascending hrest
        rw [if_neg (fun heq => String.lt_irrefl _ (heq ▸ hbelow)), ih hascending.of_cons hrest]

omit hascending in
/-- The names behind the first one are all different from it. -/
theorem lookup_rest_eq_none {first : String × α} {rest : List (String × α)}
    (hascending : (first :: rest).Pairwise (·.1 < ·.1)) : rest.lookup first.1 = none := by
  refine lookup_eq_none_of_forall fun entry hentry hsame => ?_
  have hbelow := List.rel_of_pairwise_cons hascending hentry
  exact String.lt_irrefl _ (hsame ▸ hbelow)

end Lookup

namespace Setting

/-- The setting at the end of a path of names, the outermost first. -/
def at? : List String → Setting → Option Setting
  | [], setting => some setting
  | name :: path, .table entries => (entries.lookup name).bind (at? path)
  | _ :: _, _ => none

def IsTable (setting : Setting) : Prop :=
  ∃ entries, setting = .table entries

/-- The names in each table of the setting are ascending. -/
def Ascending (setting : Setting) : Prop :=
  ∀ path entries, setting.at? path = some (.table entries) → entries.Pairwise (·.1 < ·.1)

variable {below above : Setting} {entries others : List (String × Setting)} {name : String}

theorem at?_cons_table (path : List String) :
    (Setting.table entries).at? (name :: path) = (entries.lookup name).bind (at? path) :=
  rfl

theorem at?_cons_of_not_isTable {setting : Setting} (hleaf : ¬setting.IsTable)
    (path : List String) : setting.at? (name :: path) = none := by
  cases setting with
  | table entries => exact absurd ⟨entries, rfl⟩ hleaf
  | _ => rfl

theorem at?_append (front back : List String) (setting : Setting) :
    setting.at? (front ++ back) = (setting.at? front).bind (at? back) := by
  induction front generalizing setting with
  | nil => rfl
  | cons name front ih =>
      rw [List.cons_append]
      cases setting with
      | table entries =>
          rw [at?_cons_table, at?_cons_table]
          cases entries.lookup name with
          | none => rfl
          | some inner => exact ih inner
      | _ => rfl

theorem ascending_of_not_isTable {setting : Setting} (hleaf : ¬setting.IsTable) :
    setting.Ascending := by
  intro path entries hat
  cases path with
  | nil =>
      cases hat
      exact absurd ⟨entries, rfl⟩ hleaf
  | cons name path => cases (at?_cons_of_not_isTable hleaf path).symm.trans hat

theorem ascending_table_iff :
    (Setting.table entries).Ascending
      ↔ entries.Pairwise (·.1 < ·.1) ∧ ∀ entry ∈ entries, entry.2.Ascending := by
  constructor
  · intro hascending
    have hnames := hascending [] entries rfl
    refine ⟨hnames, fun entry hentry path inner hat => hascending (entry.1 :: path) inner ?_⟩
    rw [at?_cons_table, (lookup_eq_some_iff hnames).mpr hentry]
    exact hat
  · rintro ⟨hnames, hentries⟩ path inner hat
    cases path with
    | nil =>
        cases hat
        exact hnames
    | cons name path =>
        obtain ⟨setting, hlookup, hat⟩ := Option.bind_eq_some_iff.mp hat
        exact hentries _ (mem_of_lookup hlookup) path inner hat

/-! ### Layers of settings -/

theorem merge_of_not_isTable (hleaf : ¬above.IsTable) : below.merge above = above := by
  cases above with
  | table entries => exact absurd ⟨entries, rfl⟩ hleaf
  | _ => rfl

theorem merge_table_table :
    (Setting.table entries).merge (.table others) = .table (mergeEntries entries others) :=
  rfl

theorem merge_table_of_not_isTable (hleaf : ¬below.IsTable) :
    below.merge (.table entries) = .table entries := by
  cases below with
  | table others => exact absurd ⟨others, rfl⟩ hleaf
  | _ => rfl

theorem isTable_merge (below : Setting) (habove : above.IsTable) : (below.merge above).IsTable := by
  obtain ⟨entries, rfl⟩ := habove
  by_cases hbelow : below.IsTable
  · obtain ⟨others, rfl⟩ := hbelow
    exact ⟨_, rfl⟩
  · exact ⟨entries, merge_table_of_not_isTable hbelow⟩

theorem mergeEntries_cons (entries : List (String × Setting)) (first : String × Setting)
    (rest : List (String × Setting)) :
    mergeEntries entries (first :: rest)
      = mergeEntries
        (insertEntry first.1 ((entries.lookup first.1).elim first.2 (·.merge first.2)) entries)
        rest := by
  rw [mergeEntries]
  cases entries.lookup first.1 <;> rfl

theorem pairwise_mergeEntries (hentries : entries.Pairwise (·.1 < ·.1))
    (others : List (String × Setting)) :
    (mergeEntries entries others).Pairwise (·.1 < ·.1) := by
  induction others generalizing entries with
  | nil => exact hentries
  | cons first rest ih =>
      rw [mergeEntries_cons]
      exact ih (pairwise_insertEntry hentries)

theorem lookup_mergeEntries_of_none (hnone : others.lookup name = none) :
    (mergeEntries entries others).lookup name = entries.lookup name := by
  induction others generalizing entries with
  | nil => rfl
  | cons first rest ih =>
      rw [lookup_entries_cons] at hnone
      split at hnone
      · cases hnone
      · next hne => rw [mergeEntries_cons, ih hnone, lookup_insertEntry, if_neg hne]

theorem lookup_mergeEntries_of_some (entries : List (String × Setting))
    (hothers : others.Pairwise (·.1 < ·.1)) {setting : Setting}
    (hsome : others.lookup name = some setting) :
    (mergeEntries entries others).lookup name
      = some ((entries.lookup name).elim setting (·.merge setting)) := by
  induction others generalizing entries with
  | nil => cases hsome
  | cons first rest ih =>
      rw [lookup_entries_cons] at hsome
      rw [mergeEntries_cons]
      split at hsome
      · next heq =>
        cases hsome
        rw [heq, lookup_mergeEntries_of_none (lookup_rest_eq_none hothers), lookup_insertEntry,
          if_pos rfl]
      · next hne =>
        rw [ih _ hothers.of_cons hsome, lookup_insertEntry, if_neg hne]

theorem ascending_merge (hbelow : below.Ascending) (habove : above.Ascending) :
    (below.merge above).Ascending := by
  intro path
  induction path generalizing below above with
  | nil =>
      intro entries hat
      by_cases hupper : above.IsTable
      · obtain ⟨upper, rfl⟩ := hupper
        by_cases hlower : below.IsTable
        · obtain ⟨lower, rfl⟩ := hlower
          cases hat
          exact pairwise_mergeEntries (ascending_table_iff.mp hbelow).1 upper
        · rw [merge_table_of_not_isTable hlower] at hat
          exact habove [] entries hat
      · rw [merge_of_not_isTable hupper] at hat
        exact habove [] entries hat
  | cons name path ih =>
      intro entries hat
      by_cases hupper : above.IsTable
      · obtain ⟨upper, rfl⟩ := hupper
        by_cases hlower : below.IsTable
        · obtain ⟨lower, rfl⟩ := hlower
          obtain ⟨setting, hlookup, hat⟩ := Option.bind_eq_some_iff.mp hat
          obtain ⟨-, hlower⟩ := ascending_table_iff.mp hbelow
          obtain ⟨hnames, hupper⟩ := ascending_table_iff.mp habove
          cases hname : upper.lookup name with
          | none =>
              rw [lookup_mergeEntries_of_none hname] at hlookup
              exact hlower _ (mem_of_lookup hlookup) path entries hat
          | some inner =>
              rw [lookup_mergeEntries_of_some _ hnames hname] at hlookup
              cases houter : lower.lookup name with
              | none =>
                  rw [houter] at hlookup
                  cases hlookup
                  exact hupper _ (mem_of_lookup hname) path entries hat
              | some outer =>
                  rw [houter] at hlookup
                  cases hlookup
                  exact ih (hlower _ (mem_of_lookup houter)) (hupper _ (mem_of_lookup hname))
                    entries hat
        · rw [merge_table_of_not_isTable hlower] at hat
          exact habove _ entries hat
      · rw [merge_of_not_isTable hupper] at hat
        exact habove _ entries hat

/-- What a layer holds at a path covers what is below it, if there are only tables on the way. -/
theorem at?_merge {path : List String} (habove : above.Ascending)
    (htables : ∀ front back, path = front ++ back → back ≠ [] →
      ∀ setting, above.at? front = some setting → setting.IsTable) :
    (below.merge above).at? path
      = (above.at? path).elim (below.at? path)
        fun upper => some ((below.at? path).elim upper (·.merge upper)) := by
  induction path generalizing below above with
  | nil => rfl
  | cons name path ih =>
      obtain ⟨upper, rfl⟩ := htables [] (name :: path) rfl (List.cons_ne_nil _ _) above rfl
      obtain ⟨hnames, hupper⟩ := ascending_table_iff.mp habove
      by_cases hlower : below.IsTable
      · obtain ⟨lower, rfl⟩ := hlower
        rw [merge_table_table, at?_cons_table, at?_cons_table, at?_cons_table]
        cases hname : upper.lookup name with
        | none =>
            rw [lookup_mergeEntries_of_none hname]
            rfl
        | some inner =>
            have htablesInner : ∀ front back, path = front ++ back → back ≠ [] →
                ∀ setting, inner.at? front = some setting → setting.IsTable := by
              intro front back heq hback setting hat
              refine htables (name :: front) back (by rw [heq]; rfl) hback setting ?_
              rw [at?_cons_table, hname]
              exact hat
            rw [lookup_mergeEntries_of_some _ hnames hname]
            cases lower.lookup name with
            | none =>
                change inner.at? path = (inner.at? path).elim none some
                cases inner.at? path <;> rfl
            | some outer => exact ih (hupper _ (mem_of_lookup hname)) htablesInner
      -- What is no table has nothing below it that could be kept.
      · rw [merge_table_of_not_isTable hlower, at?_cons_of_not_isTable hlower]
        cases (Setting.table upper).at? (name :: path) <;> rfl

end Setting

end Assembly
