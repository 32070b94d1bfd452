import Mathlib.Data.List.Range
import Assembly.Plan.Basic

/-!
# Batches of steps

The eager steps are put into lists by their levels, in as many lists as the highest level needs, and
the empty lists are left out. Each batch holds the eager steps of one level, and together the batches
hold all of them. Where the steps come by level, joining the batches gives them back in their order.
-/

namespace Assembly

namespace Plan

/-- A step is added to the list of its level and to no other one. -/
theorem getD_addToLevel (step : Step) (level : Nat) (lists : List (List Step)) (index : Nat) :
    (addToLevel step level lists)[index]?.getD []
      = lists[index]?.getD [] ++ if level = index then [step] else [] := by
  induction level generalizing lists index with
  | zero =>
      cases lists with
      | nil => cases index <;> simp [addToLevel]
      | cons first rest => cases index <;> simp [addToLevel]
  | succ level ih =>
      cases lists with
      | nil => cases index with
        | zero => simp [addToLevel]
        | succ index => simpa [addToLevel] using ih [] index
      | cons first rest => cases index with
        | zero => simp [addToLevel]
        | succ index => simpa [addToLevel] using ih rest index

theorem getD_foldl_addToLevel (steps : List Step) (lists : List (List Step)) (index : Nat) :
    (steps.foldl (fun lists step => addToLevel step step.level lists) lists)[index]?.getD []
      = lists[index]?.getD [] ++ steps.filter (·.level = index) := by
  induction steps generalizing lists with
  | nil => simp
  | cons step rest ih =>
      rw [List.foldl_cons, ih, getD_addToLevel, List.append_assoc, List.filter_cons]
      by_cases heq : step.level = index
      · simp [heq]
      · simp [heq]

/-- There is a list for every level that an eager step has, and the batches are the lists that are
not empty. -/
theorem exists_eagerLevels_eq (plan : Plan) :
    ∃ count, (∀ step ∈ plan.eagerSteps, step.level < count)
      ∧ plan.eagerLevels
        = ((List.range count).map fun level => plan.eagerSteps.filter (·.level = level)).filter
          (!·.isEmpty) := by
  let lists := plan.eagerSteps.foldl (fun lists step => addToLevel step step.level lists) []
  have hlists : ∀ index, lists[index]?.getD [] = plan.eagerSteps.filter (·.level = index) := by
    intro index
    simpa using getD_foldl_addToLevel plan.eagerSteps [] index
  refine ⟨lists.length, fun step hstep => ?_, congrArg (List.filter _) ?_⟩
  · -- A step of a level beyond the lists would be missing from the list of its level.
    by_contra hbeyond
    have hnone := hlists step.level
    rw [List.getElem?_eq_none (Nat.le_of_not_lt hbeyond)] at hnone
    exact List.filter_eq_nil_iff.mp hnone.symm step hstep (decide_eq_true rfl)
  · refine List.ext_getElem (by simp [lists]) fun index hindex _ => ?_
    rw [List.getElem_map, List.getElem_range, ← hlists index, List.getElem?_eq_getElem hindex]
    rfl

end Plan

/-- Of items in the order of their keys those below a bound are in front of those at the bound. -/
theorem filter_lt_append_filter_eq {α : Type} {key : α → Nat} {items : List α}
    (hordered : items.Pairwise (key · ≤ key ·)) (bound : Nat) :
    items.filter (key · < bound) ++ items.filter (key · = bound)
      = items.filter (key · < bound + 1) := by
  induction items with
  | nil => rfl
  | cons item rest ih =>
      obtain ⟨hhead, hrest⟩ := List.pairwise_cons.mp hordered
      specialize ih hrest
      simp only [List.filter_cons, decide_eq_true_eq]
      by_cases hlt : key item < bound
      · have hne : key item ≠ bound := Nat.ne_of_lt hlt
        rw [if_pos hlt, if_neg hne, if_pos (Nat.lt_succ_of_lt hlt), List.cons_append, ih]
      · -- Nothing behind the item is below the bound either.
        have hnone : rest.filter (key · < bound) = [] :=
          List.filter_eq_nil_iff.mpr fun other hother hbelow =>
            hlt (Nat.lt_of_le_of_lt (hhead other hother) (of_decide_eq_true hbelow))
        rw [hnone, List.nil_append] at ih
        rw [if_neg hlt, hnone, List.nil_append, ih]
        by_cases heq : key item = bound
        · rw [if_pos heq, if_pos (Nat.lt_succ_of_le (Nat.le_of_eq heq))]
        · have hge : ¬key item < bound + 1 := by omega
          rw [if_neg heq, if_neg hge]

theorem flatMap_range_filter {α : Type} {key : α → Nat} {items : List α}
    (hordered : items.Pairwise (key · ≤ key ·)) (bound : Nat) :
    (List.range bound).flatMap (fun level => items.filter (key · = level))
      = items.filter (key · < bound) := by
  induction bound with
  | zero => simp
  | succ bound ih =>
      rw [List.range_succ, List.flatMap_append, ih, List.flatMap_singleton,
        filter_lt_append_filter_eq hordered]

namespace Plan

variable {plan : Plan}

theorem mem_eagerLevels {batch : List Step} (hbatch : batch ∈ plan.eagerLevels) :
    batch ≠ [] ∧ ∃ level, batch = plan.eagerSteps.filter (·.level = level) := by
  obtain ⟨count, -, hlevels⟩ := plan.exists_eagerLevels_eq
  rw [hlevels, List.mem_filter, List.mem_map] at hbatch
  obtain ⟨⟨level, -, rfl⟩, hsome⟩ := hbatch
  exact ⟨by simpa using hsome, level, rfl⟩

theorem pairwise_eagerLevels :
    plan.eagerLevels.Pairwise fun earlier later =>
      ∀ first ∈ earlier, ∀ second ∈ later, first.level < second.level := by
  obtain ⟨count, -, hlevels⟩ := plan.exists_eagerLevels_eq
  rw [hlevels]
  refine (List.pairwise_map.mpr (List.pairwise_lt_range.imp ?_)).filter _
  intro lower upper hlt first hfirst second hsecond
  rw [of_decide_eq_true (List.mem_filter.mp hfirst).2,
    of_decide_eq_true (List.mem_filter.mp hsecond).2]
  exact hlt

theorem flatten_eagerLevels (hordered : plan.eagerSteps.Pairwise (·.level ≤ ·.level)) :
    plan.eagerLevels.flatten = plan.eagerSteps := by
  obtain ⟨count, hbounded, hlevels⟩ := plan.exists_eagerLevels_eq
  rw [hlevels, List.flatten_filter_not_isEmpty, ← List.flatMap_def,
    flatMap_range_filter hordered count]
  exact List.filter_eq_self.mpr fun step hstep => decide_eq_true (hbounded step hstep)

end Plan

end Assembly
