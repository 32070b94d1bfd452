import Mathlib.Order.Bounds.Basic
import Assembly.Proofs.Walk.Outcome

/-!
# Levels are lengths of longest paths

The level of a node is the greatest number of edges on a path that begins at it. Where a cycle can be
reached there are paths of every length, so that none of them is longest, and there is no level.
-/

namespace Assembly.Walk

variable {n : Nat} (successors : Fin n → List (Fin n))

/-- The numbers of edges on the paths that begin at a node. A path may come to a node again. -/
def pathLengths (node : Fin n) : Set Nat :=
  { length | ∃ path : List (Fin n),
      (node :: path).IsChain (Leads successors) ∧ path.length = length }

/-- Zero if there are no nodes, and otherwise one more than the greatest of their levels. -/
def OneDeeper (levelOf : Fin n → Option Nat) (nodes : List (Fin n)) (level : Nat) : Prop :=
  nodes = [] ∧ level = 0
    ∨ ∃ greatest, IsGreatest { below | ∃ node ∈ nodes, levelOf node = some below } greatest
        ∧ level = greatest + 1

variable {successors} {node : Fin n}

/-! ### A level and those of the successors -/

section Over

variable {levelOf : Fin n → Option Nat} {nodes : List (Fin n)} {level : Nat}

theorem OneDeeper.unique {other : Nat} (hlevel : OneDeeper levelOf nodes level)
    (hother : OneDeeper levelOf nodes other) : level = other := by
  rcases hlevel with ⟨hnil, rfl⟩ | ⟨greatest, hgreatest, rfl⟩
  · rcases hother with ⟨-, rfl⟩ | ⟨_, ⟨⟨node, hnode, -⟩, -⟩, -⟩
    · rfl
    · rw [hnil] at hnode
      cases hnode
  · rcases hother with ⟨hnil, -⟩ | ⟨_, hsame, rfl⟩
    · obtain ⟨⟨node, hnode, -⟩, -⟩ := hgreatest
      rw [hnil] at hnode
      cases hnode
    · rw [hgreatest.unique hsame]

theorem exists_levelOver (hlevels : ∀ node ∈ nodes, levelOf node ≠ none) :
    ∃ level, levelOver levelOf nodes = some level := by
  induction nodes using List.reverseRecOn with
  | nil => exact ⟨0, rfl⟩
  | append_singleton nodes last ih =>
      obtain ⟨old, hold⟩ := ih fun node hnode => hlevels node (List.mem_append_left _ hnode)
      obtain ⟨below, hbelow⟩ := Option.ne_none_iff_exists'.mp (hlevels last (by simp))
      exact ⟨max old (below + 1), by rw [levelOver_concat, hold, hbelow, deeper]⟩

/-- A level that is not zero is one more than that of one of the nodes. -/
theorem exists_deepest_of_levelOver (hlevel : levelOver levelOf nodes = some level) :
    level = 0 ∨ ∃ deepest ∈ nodes, ∃ below, levelOf deepest = some below ∧ level = below + 1 := by
  induction nodes using List.reverseRecOn generalizing level with
  | nil => exact .inl (Option.some.inj hlevel).symm
  | append_singleton nodes last ih =>
      rw [levelOver_concat] at hlevel
      obtain ⟨old, below, hold, hbelow, rfl⟩ := deeper_eq_some hlevel
      rcases Nat.le_total old (below + 1) with hle | hge
      · exact .inr ⟨last, by simp, below, hbelow, Nat.max_eq_right hle⟩
      · rw [Nat.max_eq_left hge]
        refine (ih hold).imp_right ?_
        rintro ⟨deepest, hdeepest, hfound⟩
        exact ⟨deepest, List.mem_append_left _ hdeepest, hfound⟩

theorem oneDeeper_of_levelOver (hlevel : levelOver levelOf nodes = some level) :
    OneDeeper levelOf nodes level := by
  rcases exists_deepest_of_levelOver hlevel with rfl | ⟨deepest, hdeepest, below, hbelow, rfl⟩
  · refine .inl ⟨List.eq_nil_iff_forall_not_mem.mpr fun node hnode => ?_, rfl⟩
    obtain ⟨_, _, hlt⟩ := lt_of_levelOver_eq_some hlevel hnode
    exact Nat.not_lt_zero _ hlt
  · refine .inr ⟨below, ⟨⟨deepest, hdeepest, hbelow⟩, ?_⟩, rfl⟩
    rintro other ⟨node, hnode, hother⟩
    obtain ⟨lower, hlower, hlt⟩ := lt_of_levelOver_eq_some hlevel hnode
    rw [hother] at hlower
    cases hlower
    exact Nat.le_of_lt_succ hlt

theorem levelOver_eq_some_iff :
    levelOver levelOf nodes = some level
      ↔ (∀ node ∈ nodes, levelOf node ≠ none) ∧ OneDeeper levelOf nodes level := by
  constructor
  · intro hlevel
    refine ⟨fun node hnode hnone => ?_, oneDeeper_of_levelOver hlevel⟩
    obtain ⟨_, hsome, -⟩ := lt_of_levelOver_eq_some hlevel hnode
    rw [hnone] at hsome
    cases hsome
  · rintro ⟨hlevels, hlevel⟩
    obtain ⟨known, hknown⟩ := exists_levelOver hlevels
    rw [hknown, (oneDeeper_of_levelOver hknown).unique hlevel]

end Over

/-- A node from which a cycle can be reached has a successor from which it can be reached. -/
theorem ReachesCycle.exists_leads (hreaches : ReachesCycle successors node) :
    ∃ next, Leads successors node next ∧ ReachesCycle successors next := by
  obtain ⟨member, hreach, hcycle⟩ := hreaches
  rcases Relation.ReflTransGen.cases_head hreach with rfl | ⟨next, hleads, hrest⟩
  · obtain ⟨next, hleads, hback⟩ := Relation.TransGen.head'_iff.mp hcycle
    exact ⟨next, hleads, node, hback, hcycle⟩
  · exact ⟨next, hleads, member, hrest, hcycle⟩

/-- The levels are those over the successors, also where there is none. -/
theorem get_levels_eq_levelOver (node : Fin n) :
    (levels successors).get node = levelOver (levels successors).get (successors node) := by
  cases hlevel : (levels successors).get node with
  | some level => exact (levelOver_levels hlevel).symm
  | none =>
      obtain ⟨next, hleads, hnext⟩ := (levels_eq_none_iff.mp hlevel).exists_leads
      cases hover : levelOver (levels successors).get (successors node) with
      | none => rfl
      | some level =>
          obtain ⟨below, hbelow, -⟩ := lt_of_levelOver_eq_some hover hleads
          rw [levels_eq_none_iff.mpr hnext] at hbelow
          cases hbelow

/-! ### Paths -/

/-- No path is longer than the level of its first node. -/
theorem length_le_level {level : Nat} (hlevel : (levels successors).get node = some level)
    {path : List (Fin n)} (hpath : (node :: path).IsChain (Leads successors)) :
    path.length ≤ level := by
  induction path generalizing node level with
  | nil => exact Nat.zero_le level
  | cons next path ih =>
      rw [List.isChain_cons_cons] at hpath
      obtain ⟨below, hbelow, hlt⟩ := lt_of_leads hlevel hpath.1
      exact Nat.lt_of_le_of_lt (ih hbelow hpath.2) hlt

theorem succ_mem_pathLengths {next : Fin n} {length : Nat} (hleads : Leads successors node next)
    (hlength : length ∈ pathLengths successors next) :
    length + 1 ∈ pathLengths successors node := by
  obtain ⟨path, hpath, rfl⟩ := hlength
  exact ⟨next :: path, .cons_cons hleads hpath, rfl⟩

/-- A longest path goes on with the deepest of the successors. -/
theorem level_mem_pathLengths {level : Nat} (hlevel : (levels successors).get node = some level) :
    level ∈ pathLengths successors node := by
  induction level generalizing node with
  | zero => exact ⟨[], .singleton node, rfl⟩
  | succ level ih =>
      rcases exists_deepest_of_levelOver (levelOver_levels hlevel) with hzero | hdeepest
      · cases hzero
      · obtain ⟨next, hleads, below, hbelow, heq⟩ := hdeepest
        cases heq
        exact succ_mem_pathLengths hleads (ih hbelow)

/-- Where a cycle can be reached there are paths of every length. -/
theorem ReachesCycle.mem_pathLengths (hreaches : ReachesCycle successors node) (length : Nat) :
    length ∈ pathLengths successors node := by
  induction length generalizing node with
  | zero => exact ⟨[], .singleton node, rfl⟩
  | succ length ih =>
      obtain ⟨next, hleads, hnext⟩ := hreaches.exists_leads
      exact succ_mem_pathLengths hleads (ih hnext)

theorem isGreatest_of_level {level : Nat} (hlevel : (levels successors).get node = some level) :
    IsGreatest (pathLengths successors node) level := by
  refine ⟨level_mem_pathLengths hlevel, ?_⟩
  rintro _ ⟨path, hpath, rfl⟩
  exact length_le_level hlevel hpath

theorem levels_eq_some_iff {level : Nat} :
    (levels successors).get node = some level
      ↔ IsGreatest (pathLengths successors node) level := by
  refine ⟨isGreatest_of_level, fun hlongest => ?_⟩
  cases hlevel : (levels successors).get node with
  | none =>
      have hlonger := (levels_eq_none_iff.mp hlevel).mem_pathLengths (level + 1)
      exact absurd (hlongest.2 hlonger) (Nat.not_succ_le_self level)
  | some known => rw [(isGreatest_of_level hlevel).unique hlongest]

end Assembly.Walk
