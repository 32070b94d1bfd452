import Mathlib.Data.List.TakeWhile
import Assembly.Text.Blank

/-!
# Runs of characters

A joined list is split at its separators. The runs are what a reader sees: each is as long as it can be,
none is empty and none is left out. Separators at the two ends make no difference.
-/

namespace Assembly.Text

variable {separates : Char → Bool} {chars gap rest : List Char} {found : List (List Char)} {c : Char}

/-- The characters are the given runs, with separators in front, in between and behind. -/
inductive Splits (separates : Char → Bool) : List Char → List (List Char) → Prop where
  | gap {gap : List Char} (hgap : ∀ c ∈ gap, separates c = true) : Splits separates gap []
  | run {gap run rest : List Char} {runs : List (List Char)} (hgap : ∀ c ∈ gap, separates c = true)
      (hrun : ∀ c ∈ run, separates c = false) (hnonempty : run ≠ [])
      (hend : ∀ c ∈ rest.head?, separates c = true) (hrest : Splits separates rest runs) :
      Splits separates (gap ++ (run ++ rest)) (run :: runs)

/-- The first run, which may be empty, and those behind it. -/
def scan (separates : Char → Bool) (chars : List Char) : List Char × List (List Char) :=
  chars.foldr
    (fun c (run, done) =>
      if separates c then ([], if run.isEmpty then done else run :: done) else (c :: run, done))
    ([], [])

theorem runs_eq_scan : runs separates chars
    = if (scan separates chars).1.isEmpty then (scan separates chars).2
      else (scan separates chars).1 :: (scan separates chars).2 :=
  rfl

theorem scan_cons (c : Char) (chars : List Char) : scan separates (c :: chars)
    = if separates c then ([], runs separates chars)
      else (c :: (scan separates chars).1, (scan separates chars).2) :=
  rfl

theorem runs_cons_of_separates (hc : separates c = true) :
    runs separates (c :: chars) = runs separates chars := by
  rw [runs_eq_scan, scan_cons, if_pos hc]
  rfl

theorem runs_append_of_separates (hgap : ∀ c ∈ gap, separates c = true) :
    runs separates (gap ++ rest) = runs separates rest := by
  induction gap with
  | nil => rfl
  | cons first gap ih =>
      rw [List.forall_mem_cons] at hgap
      rw [List.cons_append, runs_cons_of_separates hgap.1, ih hgap.2]

theorem runs_of_separates (hgap : ∀ c ∈ gap, separates c = true) : runs separates gap = [] := by
  have hruns : runs separates (gap ++ []) = [] := runs_append_of_separates hgap
  rwa [List.append_nil] at hruns

theorem scan_append_of_separates (chars : List Char) (hgap : ∀ c ∈ gap, separates c = true) :
    scan separates (chars ++ gap) = scan separates chars := by
  have hnone : scan separates gap = ([], []) := by
    cases gap with
    | nil => rfl
    | cons first gap =>
        rw [List.forall_mem_cons] at hgap
        rw [scan_cons, if_pos hgap.1, runs_of_separates hgap.2]
  unfold scan at hnone ⊢
  rw [List.foldr_append, hnone]

/-- A run goes on up to the next separator. -/
theorem runs_run_append {run : List Char} (hrun : ∀ c ∈ run, separates c = false)
    (hnonempty : run ≠ []) (hend : ∀ c ∈ rest.head?, separates c = true) :
    runs separates (run ++ rest) = run :: runs separates rest := by
  have hscan : scan separates (run ++ rest) = (run, runs separates rest) := by
    clear hnonempty
    induction run with
    | nil =>
        cases rest with
        | nil => rfl
        | cons first rest =>
            have hfirst := hend first rfl
            rw [List.nil_append, scan_cons, if_pos hfirst, runs_cons_of_separates hfirst]
    | cons first run ih =>
        rw [List.forall_mem_cons] at hrun
        rw [List.cons_append, scan_cons, hrun.1, ih hrun.2]
        rfl
  rw [runs_eq_scan, hscan, if_neg (by simpa using hnonempty)]

theorem Splits.append_gap {runs : List (List Char)} (hgap : ∀ c ∈ gap, separates c = true)
    (hsplits : Splits separates chars runs) : Splits separates (gap ++ chars) runs := by
  cases hsplits with
  | gap hchars => exact .gap fun c hc => (List.mem_append.mp hc).elim (hgap c) (hchars c)
  | run hfront hrun hnonempty hend hrest =>
      rw [← List.append_assoc]
      exact .run (fun c hc => (List.mem_append.mp hc).elim (hgap c) (hfront c)) hrun hnonempty hend
        hrest

/-- What is behind the first run splits into the other ones. -/
def Scanned (separates : Char → Bool) (chars : List Char) : Prop :=
  ∃ rest, chars = (scan separates chars).1 ++ rest
    ∧ (∀ c ∈ (scan separates chars).1, separates c = false)
    ∧ (∀ c ∈ rest.head?, separates c = true)
    ∧ Splits separates rest (scan separates chars).2

theorem Scanned.splits (hscanned : Scanned separates chars) :
    Splits separates chars (runs separates chars) := by
  obtain ⟨rest, hchars, hrun, hend, hrest⟩ := hscanned
  rw [runs_eq_scan]
  by_cases hempty : (scan separates chars).1 = []
  · rw [hempty, List.nil_append] at hchars
    rw [hempty, if_pos List.isEmpty_nil]
    rwa [← hchars] at hrest
  · rw [if_neg (by simpa using hempty)]
    have hsplits := Splits.run (List.forall_mem_nil _) hrun hempty hend hrest
    rw [List.nil_append, ← hchars] at hsplits
    exact hsplits

theorem scanned (separates : Char → Bool) (chars : List Char) : Scanned separates chars := by
  unfold Scanned
  induction chars with
  | nil => exact ⟨[], rfl, List.forall_mem_nil _, nofun, .gap (List.forall_mem_nil _)⟩
  | cons c chars ih =>
      rw [scan_cons]
      cases hc : separates c with
      | true =>
          have hsplits : Splits separates ([c] ++ chars) (runs separates chars) :=
            (Scanned.splits ih).append_gap (List.forall_mem_singleton.mpr hc)
          exact ⟨c :: chars, rfl, List.forall_mem_nil _, fun d hd => Option.some.inj hd ▸ hc, hsplits⟩
      | false =>
          obtain ⟨rest, hchars, hrun, hend, hrest⟩ := ih
          exact ⟨rest, congrArg (c :: ·) hchars, List.forall_mem_cons.mpr ⟨hc, hrun⟩, hend, hrest⟩

theorem splits_runs (separates : Char → Bool) (chars : List Char) :
    Splits separates chars (runs separates chars) :=
  (scanned separates chars).splits

/-- The runs are the only ones that the characters split into. -/
theorem runs_eq_iff : runs separates chars = found ↔ Splits separates chars found := by
  constructor
  · rintro rfl
    exact splits_runs separates chars
  · intro hsplits
    induction hsplits with
    | gap hgap => exact runs_of_separates hgap
    | run hgap hrun hnonempty hend hrest ih =>
        rw [runs_append_of_separates hgap, runs_run_append hrun hnonempty hend, ih]

/-! ### Lists written as one text -/

/-- What separates the entries of a list that is written as one text. -/
def isSeparator (c : Char) : Bool :=
  c = ',' || isBlank c

theorem entries_eq (joined : String) :
    entries joined = (runs isSeparator joined.toList).map String.ofList :=
  rfl

theorem splits_entries (joined : String) :
    Splits isSeparator joined.toList ((entries joined).map String.toList) := by
  rw [entries_eq, List.map_map, Function.comp_def]
  simpa using splits_runs isSeparator joined.toList

theorem entries_eq_iff {joined : String} {values : List String} :
    entries joined = values ↔ Splits isSeparator joined.toList (values.map String.toList) := by
  constructor
  · rintro rfl
    exact splits_entries joined
  · intro hsplits
    rw [entries_eq, runs_eq_iff.mpr hsplits, List.map_map, Function.comp_def]
    simp

theorem exists_append_trimChars (chars : List Char) :
    ∃ front back, chars = front ++ (trimChars chars ++ back)
      ∧ (∀ c ∈ front, isBlank c = true) ∧ ∀ c ∈ back, isBlank c = true := by
  refine ⟨chars.takeWhile isBlank, ((chars.dropWhile isBlank).reverse.takeWhile isBlank).reverse, ?_,
    fun c hc => List.mem_takeWhile_imp hc,
    fun c hc => List.mem_takeWhile_imp (List.mem_reverse.mp hc)⟩
  rw [trimChars, ← List.reverse_append, List.takeWhile_append_dropWhile, List.reverse_reverse,
    List.takeWhile_append_dropWhile]

/-- Blanks around a list make no difference. -/
theorem entries_trim (joined : String) : entries (trim joined) = entries joined := by
  obtain ⟨front, back, hchars, hfront, hback⟩ := exists_append_trimChars joined.toList
  have hseparates : ∀ c, isBlank c = true → isSeparator c = true := by
    intro c hc
    simp [isSeparator, hc]
  have hruns : runs isSeparator joined.toList = runs isSeparator (trimChars joined.toList) := by
    rw [hchars, runs_append_of_separates fun c hc => hseparates c (hfront c hc), runs_eq_scan,
      scan_append_of_separates _ fun c hc => hseparates c (hback c hc), ← runs_eq_scan, ← hchars]
  rw [entries_eq, entries_eq, hruns, trim, String.toList_ofList]

end Assembly.Text
