import Assembly.Graph.Order
import Assembly.Proofs.Walk.Passages

/-!
# Visits of a graph

The walk that finds the levels of a graph enters every node once, leaves it once and goes past each of
its successors once. The search for a cycle enters no node twice. It goes past successors that are not
on the chain, and stops at the first one that is, or after it has been everywhere.
-/

namespace Assembly

namespace Trail

variable {n : Nat} (successors : Fin n → List (Fin n))

/-- The steps of a search until it stops, and at most the given number of them. -/
def passages : Nat → Trail n → List (Passage n)
  | 0, _ => []
  | steps + 1, trail =>
    match trail.step successors with
    | .onward next => ⟨trail.chain, next.chain⟩ :: passages steps next
    | _ => []

/-- Where a search stops, after at most the given number of steps. -/
def last : Nat → Trail n → Trail n
  | 0, trail => trail
  | steps + 1, trail =>
    match trail.step successors with
    | .onward next => last steps next
    | _ => trail

/-- The search has been everywhere and found no cycle. -/
structure Exhausts (trail : Trail n) (found : Option (List (Fin n))) : Prop where
  step_eq : trail.step successors = .over
  visited : ∀ node, trail.isVisited node = true
  found_eq : found = none

/-- The search has come to a successor that is on the chain at the given place, counted from its
beginning, and the cycle begins there. -/
structure Closes (trail : Trail n) (next : Fin n) (place : Nat) (found : Option (List (Fin n))) :
    Prop where
  next_eq : ∃ node rest outside, trail.chain = (node, next :: rest) :: outside
  place_eq : (trail.chain.map (·.1)).reverse.findIdx? (· = next) = some place
  step_eq : trail.step successors = .closed ((trail.chain.map (·.1)).reverse.drop place)
  found_eq : found = some ((trail.chain.map (·.1)).reverse.drop place)

end Trail

variable {n : Nat} {successors : Fin n → List (Fin n)}

namespace Walk

variable {walk later : Walk n}

/-- The node that a walk goes past is not on the stack if no cycle is closed. -/
theorem Moves.not_mem_of_passed (hmoves : Moves successors walk later)
    (hsound : Sound successors [] walk) (hclosing : walk.closing? = none) {look : Fin n × Fin n}
    (hlook : look ∈ (⟨walk.stages, later.stages⟩ : Passage n).events.passed) :
    look.2 ∉ walk.stages.map (·.1) := by
  obtain ⟨rest, below, hstages⟩ := hmoves.shift.eq_of_passed hlook
  obtain ⟨frame, others, hstack, hframe, -⟩ := List.map_eq_cons_iff.mp hstages
  have hrest : frame.rest = look.2 :: rest := congrArg Prod.snd hframe
  have hmark : walk.mark look.2 ≠ .active := by
    intro hactive
    simp [closing?, hstack, hrest, hactive] at hclosing
  rw [Ne, hsound.active_iff] at hmark
  rw [stages, List.map_map]
  exact hmark

end Walk

theorem Trail.eq_of_step_eq_closed {trail : Trail n} {nodes : List (Fin n)}
    (hstep : trail.step successors = .closed nodes) :
    ∃ node next rest outside, trail.chain = (node, next :: rest) :: outside
      ∧ trail.isOnChain next = true ∧ nodes = trail.inwards next := by
  obtain ⟨visited, onChain, chain, roots⟩ := trail
  simp only [step] at hstep
  split at hstep
  · cases hstep
  · split at hstep <;> cases hstep
  · cases hstep
  · next node next rest outside =>
    split at hstep
    · next honChain => exact ⟨node, next, rest, outside, rfl, honChain, (Advance.closed.inj hstep).symm⟩
    · split at hstep <;> cases hstep

namespace Trail.Mirrors

variable {trail : Trail n} {walk : Walk n} (hmirrors : trail.Mirrors walk)
  (hsound : walk.Sound successors [])
include hmirrors hsound

theorem passages_prefix (steps : Nat) :
    (Trail.passages successors steps trail).IsPrefix (Walk.passages successors steps walk) := by
  induction steps generalizing trail walk with
  | zero => exact List.prefix_rfl
  | succ steps ih =>
      rw [Trail.passages, Walk.passages]
      cases hmirrors.together hsound with
      | closed hclosing hstep =>
          rw [hstep]
          exact List.nil_prefix
      | ended hclosing hwalk hstep => rw [hwalk, hstep]
      | onward hclosing hwalk hstep hnew hsound =>
          rw [hwalk, hstep]
          dsimp only
          rw [hmirrors.chain, hnew.chain]
          exact (List.prefix_cons_inj _).mpr (ih hnew hsound)

theorem not_mem_of_passed {steps : Nat} {passage : Passage n}
    (hpassage : passage ∈ Trail.passages successors steps trail) {look : Fin n × Fin n}
    (hlook : look ∈ passage.events.passed) : look.2 ∉ passage.before.map (·.1) := by
  induction steps generalizing trail walk with
  | zero => cases hpassage
  | succ steps ih =>
      rw [Trail.passages] at hpassage
      cases hmirrors.together hsound with
      | closed hclosing hstep => simp [hstep] at hpassage
      | ended hclosing hwalk hstep => simp [hstep] at hpassage
      | onward hclosing hwalk hstep hnew hnewSound =>
          rw [hstep] at hpassage
          dsimp only at hpassage
          rw [hmirrors.chain, hnew.chain, List.mem_cons] at hpassage
          rcases hpassage with rfl | hpassage
          · exact (Walk.moves_of_step hwalk).not_mem_of_passed hsound hclosing hlook
          · exact ih hnew hnewSound hpassage

theorem exhausts (hstack : walk.stack = []) (hroots : walk.roots = []) :
    Exhausts successors trail none where
  step_eq := step_over (hmirrors.chain_eq_nil hstack) (hmirrors.roots.trans hroots)
  visited node := by
    rw [hmirrors.visited]
    cases hmark : walk.mark node with
    | unseen =>
        have hroot := hsound.unseen node hmark
        rw [hroots] at hroot
        cases hroot
    | active =>
        have hmem := (hsound.active_iff node).mp hmark
        rw [hstack] at hmem
        cases hmem
    | finished level => exact ⟨level, rfl⟩
  found_eq := rfl

theorem isOnChain_iff (node : Fin n) :
    trail.isOnChain node = true ↔ node ∈ trail.chain.map (·.1) := by
  rw [hmirrors.onChain, hsound.active_iff, hmirrors.chain, List.map_map]
  rfl

theorem closes {nodes : List (Fin n)} (hstep : trail.step successors = .closed nodes) :
    ∃ next place, Closes successors trail next place (some nodes) := by
  obtain ⟨node, next, rest, outside, hchain, honChain, rfl⟩ := eq_of_step_eq_closed hstep
  have hmem := (hmirrors.isOnChain_iff hsound next).mp honChain
  rw [inwards_eq_drop hmem] at hstep ⊢
  exact ⟨next, _, ⟨node, rest, outside, hchain⟩, findIdx?_of_mem hmem, hstep, rfl⟩

/-- With a step for each unit of work that is left, the search stops. -/
theorem stops {steps : Nat} (hwork : walk.work successors ≤ steps) :
    Exhausts successors (last successors steps trail) (trail.search successors steps)
      ∨ ∃ next place, Closes successors (last successors steps trail) next place
        (trail.search successors steps) := by
  induction steps generalizing trail walk with
  | zero =>
      obtain ⟨hstack, hroots⟩ := Walk.over_of_work_eq_zero (Nat.le_zero.mp hwork)
      exact .inl (hmirrors.exhausts hsound hstack hroots)
  | succ steps ih =>
      rw [last, search]
      cases hmirrors.together hsound with
      | closed hclosing hstep =>
          rw [hstep]
          exact .inr (hmirrors.closes hsound hstep)
      | ended hclosing hwalk hstep =>
          obtain ⟨hstack, hroots⟩ := Walk.step_eq_none hwalk
          rw [hstep]
          exact .inl (hmirrors.exhausts hsound hstack hroots)
      | onward hclosing hwalk hstep hnew hnewSound =>
          have hdone := Walk.work_moves hsound (Walk.moves_of_step hwalk)
          rw [hstep]
          exact ih hnew hnewSound (by omega)

end Trail.Mirrors

/-- The walk of a graph is over after exactly one step for each node to begin at, and one for each node
that is left or successor that is passed. It has then finished every node, entered and left it once and
passed each of its successors once. The search for a cycle enters no node twice and passes no successor
that is on the chain. It stops after at most as many steps, with a successor on the chain, which has a
place there, or after it has visited every node. -/
theorem Graph.visited_once (graph : Graph) :
    Walk.Exhaustive graph.hard
        (Walk.passages graph.hard (Walk.stepCount graph.hard) .start)
      ∧ (∀ steps, (Walk.run graph.hard steps .start).step graph.hard = none
        ↔ Walk.stepCount graph.hard ≤ steps)
      ∧ (∀ node, ∃ level, (Walk.finish graph.hard).mark node = .finished level)
      ∧ (Passage.total (Trail.passages graph.hard (Walk.stepCount graph.hard) .start)).entered.Nodup
      ∧ (∀ passage ∈ Trail.passages graph.hard (Walk.stepCount graph.hard) .start,
        ∀ look ∈ passage.events.passed, look.2 ∉ passage.before.map (·.1))
      ∧ (Trail.Exhausts graph.hard (Trail.last graph.hard (Walk.stepCount graph.hard) .start)
          (Trail.cycle? graph.hard)
        ∨ ∃ next place,
          Trail.Closes graph.hard (Trail.last graph.hard (Walk.stepCount graph.hard) .start)
            next place (Trail.cycle? graph.hard)) := by
  have hwalk := Walk.exhaustive_passages graph.hard
  have hchecks : (Trail.passages graph.hard (Walk.stepCount graph.hard) .start).IsPrefix
      (Walk.passages graph.hard (Walk.stepCount graph.hard) .start) :=
    Trail.mirrors_start.passages_prefix Walk.sound_start _
  refine ⟨hwalk, Walk.step_run_eq_none_iff graph.hard, Walk.exists_mark_finish graph.hard, ?_,
    fun passage hpassage look hlook =>
      Trail.mirrors_start.not_mem_of_passed Walk.sound_start hpassage hlook,
    Trail.mirrors_start.stops Walk.sound_start (Nat.le_of_eq Walk.work_start)⟩
  have hnodup := hwalk.entered.nodup_iff.mpr (List.nodup_finRange graph.size)
  exact hnodup.sublist (hchecks.flatMap _).sublist

end Assembly
