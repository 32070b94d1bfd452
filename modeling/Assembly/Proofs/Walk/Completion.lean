import Mathlib.Algebra.BigOperators.Fin
import Assembly.Proofs.Walk.Invariant

/-!
# A walk ends

The work that is left counts one unit for each root, one for each successor that has not been looked
at and one for each node that has not been left. Each step does one unit of it, so the computed
number of steps is the work of a whole walk, and after it every node has been left.
-/

namespace Assembly.Walk

open scoped BigOperators

variable {n : Nat} (successors : Fin n → List (Fin n))

def frameWork (frame : Frame n) : Nat :=
  frame.rest.length + 1

/-- The work that the nodes stand for which have not been entered. -/
def unseenWork (walk : Walk n) : Nat :=
  ∑ node, if walk.mark node = .unseen then (successors node).length + 1 else 0

def work (walk : Walk n) : Nat :=
  walk.roots.length + (walk.stack.map frameWork).sum + unseenWork successors walk

variable {successors} {walk newWalk : Walk n}

theorem work_start : work successors start = stepCount successors := by
  have hunseen : unseenWork successors start = ∑ node, ((successors node).length + 1) :=
    Finset.sum_congr rfl fun node _ => by simp [start, mark]
  have hsum : ∑ node, (successors node).length
      = ((List.finRange n).flatMap successors).length := by
    rw [List.length_flatMap, Fin.sum_univ_def]
  unfold work stepCount
  rw [hunseen, Finset.sum_add_distrib, hsum]
  simp [start]
  omega

theorem work_with (walk : Walk n) (stack : List (Frame n)) (roots : List (Fin n)) :
    work successors ⟨walk.marks, stack, roots⟩
      = roots.length + (stack.map frameWork).sum + unseenWork successors walk := rfl

theorem unseenWork_enter {node : Fin n} (hunseen : walk.mark node = .unseen) :
    unseenWork successors (walk.enter successors node) + ((successors node).length + 1)
      = unseenWork successors walk := by
  unfold unseenWork
  rw [← Finset.add_sum_erase _ _ (Finset.mem_univ node),
    ← Finset.add_sum_erase Finset.univ
      (fun other => if walk.mark other = .unseen then (successors other).length + 1 else 0)
      (Finset.mem_univ node)]
  have hother : ∀ other ∈ Finset.univ.erase node,
      (if (walk.enter successors node).mark other = .unseen then (successors other).length + 1
        else 0)
        = if walk.mark other = .unseen then (successors other).length + 1 else 0 := by
    intro other hother
    simp [Finset.ne_of_mem_erase hother]
  rw [Finset.sum_congr rfl hother]
  simp only [mark_enter, hunseen, ↓reduceIte, reduceCtorEq]
  omega

theorem unseenWork_leave {frame : Frame n} (below : List (Frame n))
    (hactive : walk.mark frame.node = .active) :
    unseenWork successors (walk.leave frame below) = unseenWork successors walk := by
  refine Finset.sum_congr rfl fun node _ => ?_
  rw [mark_leave]
  by_cases heq : node = frame.node
  · simp [heq, hactive]
  · simp [heq]

/-- Entering a node turns the work that it stands for into that of its frame. -/
theorem work_enter {node : Fin n} (hunseen : walk.mark node = .unseen) :
    work successors (walk.enter successors node) = work successors walk := by
  have hrest := @unseenWork_enter _ successors _ _ hunseen
  unfold work
  rw [← hrest]
  simp only [enter, List.map_cons, List.sum_cons, frameWork]
  omega

/-- Every step does one unit of work. -/
theorem work_moves (hsound : Sound successors [] walk) (hmoves : Moves successors walk newWalk) :
    work successors newWalk + 1 = work successors walk := by
  cases hmoves with
  | @begin root roots hstack hroots hmark =>
      have hunseen : Walk.mark { walk with roots } root = .unseen := hmark
      rw [work_enter hunseen, work_with, work, hroots, List.length_cons]
      omega
  | skip hstack hroots hmark =>
      rw [work_with, work, hroots, List.length_cons]
      omega
  | @leave frame below hstack hrest =>
      have hactive : walk.mark frame.node = .active := by
        rw [hsound.active_iff, hstack]
        simp
      have hbelow : ((walk.leave frame below).stack.map frameWork).sum
          = (below.map frameWork).sum := by
        cases below <;> simp [leave, frameWork]
      rw [work, hbelow, unseenWork_leave below hactive, work, hstack, List.map_cons, List.sum_cons,
        frameWork, hrest, List.length_nil]
      simp only [leave]
      omega
  | @descend frame below next rest hstack hrest hmark =>
      have hunseen : Walk.mark { walk with stack := { frame with rest } :: below } next = .unseen :=
        hmark
      rw [work_enter hunseen, work_with, work, hstack]
      simp only [List.map_cons, List.sum_cons, frameWork, hrest, List.length_cons]
      omega
  | close hstack hrest hmark =>
      rw [work_with, work, hstack]
      simp only [List.map_cons, List.sum_cons, frameWork, hrest, List.length_cons]
      omega
  | pass hstack hrest hmark =>
      rw [work_with, work, hstack]
      simp only [List.map_cons, List.sum_cons, frameWork, hrest, List.length_cons]
      omega

theorem step_eq_none (hstep : walk.step successors = none) :
    walk.stack = [] ∧ walk.roots = [] := by
  obtain ⟨marks, stack, roots⟩ := walk
  cases stack with
  | nil =>
      cases roots with
      | nil => exact ⟨rfl, rfl⟩
      | cons root roots =>
          simp only [step] at hstep
          split at hstep <;> cases hstep
  | cons frame below =>
      cases hrest : frame.rest with
      | nil =>
          simp only [step, hrest] at hstep
          cases hstep
      | cons next rest =>
          simp only [step, hrest] at hstep
          split at hstep <;> cases hstep

/-- A walk without work left is over. -/
theorem over_of_work_eq_zero (hwork : work successors walk = 0) :
    walk.stack = [] ∧ walk.roots = [] := by
  simp only [work, Nat.add_eq_zero_iff, List.length_eq_zero_iff] at hwork
  refine ⟨?_, hwork.1.1⟩
  cases hstack : walk.stack with
  | nil => rfl
  | cons frame below => simp [hstack, frameWork] at hwork

/-- With a step for each unit of work, a walk comes to its end. -/
theorem run_over {steps : Nat} (hwork : work successors walk ≤ steps)
    (hsound : Sound successors [] walk) :
    Sound successors [] (run successors steps walk) ∧ (run successors steps walk).stack = []
      ∧ (run successors steps walk).roots = [] := by
  induction steps generalizing walk with
  | zero => exact ⟨hsound, over_of_work_eq_zero (Nat.le_zero.mp hwork)⟩
  | succ steps ih =>
      rw [run]
      cases hnext : walk.step successors with
      | none => exact ⟨hsound, step_eq_none hnext⟩
      | some newWalk =>
          have hmoves := moves_of_step hnext
          have hdone := work_moves hsound hmoves
          exact ih (by omega) (hsound.moves hmoves)

theorem sound_finish : Sound successors [] (finish successors) :=
  (run_over (Nat.le_of_eq work_start) sound_start).1

/-- Every node is left in the end. -/
theorem exists_mark_finish (successors : Fin n → List (Fin n)) (node : Fin n) :
    ∃ level, (finish successors).mark node = .finished level := by
  obtain ⟨hsound, hstack, hroots⟩ :=
    run_over (Nat.le_of_eq (@work_start _ successors)) sound_start
  cases hmark : (finish successors).mark node with
  | unseen =>
      have hmem := hsound.unseen node hmark
      rw [hroots] at hmem
      cases hmem
  | active =>
      have hmem := (hsound.active_iff node).mp hmark
      rw [hstack] at hmem
      cases hmem
  | finished level => exact ⟨level, rfl⟩

end Assembly.Walk
