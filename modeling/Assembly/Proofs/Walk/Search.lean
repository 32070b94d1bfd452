import Assembly.Graph.Trail
import Assembly.Proofs.Walk.Outcome

/-!
# The search for a cycle

The search goes through the nodes as the walk does, which has levels besides: the visited nodes are the
finished ones, and those on the chain are the active ones. Where the walk meets an active node the
search ends with a cycle, and its chain holds the node. The search therefore finds a cycle exactly if
the walk leaves a node without a level.
-/

namespace Assembly

variable {n : Nat} {successors : Fin n → List (Fin n)}

/-- A frame without its level. -/
def Frame.stage (frame : Frame n) : Fin n × List (Fin n) :=
  (frame.node, frame.rest)

namespace Trail

/-- The search is where the walk is. -/
structure Mirrors (trail : Trail n) (walk : Walk n) : Prop where
  visited : ∀ node, trail.isVisited node = true ↔ ∃ level, walk.mark node = .finished level
  onChain : ∀ node, trail.isOnChain node = true ↔ walk.mark node = .active
  chain : trail.chain = walk.stack.map Frame.stage
  roots : trail.roots = walk.roots

variable {trail : Trail n} {walk newWalk : Walk n}

/-! ### What a step does -/

@[simp]
theorem isOnChain_start (node : Fin n) : (start : Trail n).isOnChain node = false :=
  Vector.getElem_replicate node.isLt

@[simp]
theorem isVisited_start (node : Fin n) : (start : Trail n).isVisited node = false :=
  Vector.getElem_replicate node.isLt

@[simp]
theorem isOnChain_push (node other : Fin n) : (trail.push successors node).isOnChain other
    = if other = node then true else trail.isOnChain other :=
  Walk.get_set trail.onChain node other true

@[simp]
theorem isVisited_push (node other : Fin n) :
    (trail.push successors node).isVisited other = trail.isVisited other := rfl

@[simp]
theorem isOnChain_pop (node other : Fin n) (outside : List (Fin n × List (Fin n))) :
    (trail.pop node outside).isOnChain other
      = if other = node then false else trail.isOnChain other :=
  Walk.get_set trail.onChain node other false

@[simp]
theorem isVisited_pop (node other : Fin n) (outside : List (Fin n × List (Fin n))) :
    (trail.pop node outside).isVisited other
      = if other = node then true else trail.isVisited other :=
  Walk.get_set trail.visited node other true

theorem step_over (hchain : trail.chain = []) (hroots : trail.roots = []) :
    trail.step successors = .over := by
  cases trail
  cases hchain
  cases hroots
  rfl

theorem step_root {root : Fin n} {roots : List (Fin n)} (hchain : trail.chain = [])
    (hroots : trail.roots = root :: roots) :
    trail.step successors
      = if trail.isVisited root then .onward { trail with roots }
        else .onward ({ trail with roots }.push successors root) := by
  cases trail
  cases hchain
  cases hroots
  rfl

theorem step_pop {node : Fin n} {outside : List (Fin n × List (Fin n))}
    (hchain : trail.chain = (node, []) :: outside) :
    trail.step successors = .onward (trail.pop node outside) := by
  cases trail
  cases hchain
  rfl

theorem step_check {node next : Fin n} {rest : List (Fin n)}
    {outside : List (Fin n × List (Fin n))} (hchain : trail.chain = (node, next :: rest) :: outside) :
    trail.step successors
      = if trail.isOnChain next then
          .closed ({ trail with chain := (node, rest) :: outside }.inwards next)
        else if trail.isVisited next then .onward { trail with chain := (node, rest) :: outside }
        else .onward ({ trail with chain := (node, rest) :: outside }.push successors next) := by
  cases trail
  cases hchain
  rfl

theorem findIdx?_of_mem {node : Fin n} (hmem : node ∈ trail.chain.map (·.1)) :
    (trail.chain.map (·.1)).reverse.findIdx? (· = node)
      = some ((trail.chain.map (·.1)).reverse.findIdx (· = node)) :=
  List.findIdx?_eq_some_of_exists ⟨node, List.mem_reverse.mpr hmem, decide_eq_true rfl⟩

theorem inwards_eq_drop {node : Fin n} (hmem : node ∈ trail.chain.map (·.1)) :
    trail.inwards node = (trail.chain.map (·.1)).reverse.drop
      ((trail.chain.map (·.1)).reverse.findIdx (· = node)) := by
  unfold inwards
  dsimp only
  rw [findIdx?_of_mem hmem, Option.getD_some]

theorem inwards_of_mem {node : Fin n} (hmem : node ∈ trail.chain.map (·.1)) :
    trail.inwards node = (trail.chain.map (·.1)).reverse.dropWhile (· ≠ node) := by
  rw [inwards_eq_drop hmem, List.dropWhile_eq_drop_findIdx_not]
  simp

/-! ### The search beside the walk -/

theorem mirrors_start : (start : Trail n).Mirrors Walk.start where
  visited node := by simp [Walk.start, Walk.mark]
  onChain node := by simp [Walk.start, Walk.mark]
  chain := rfl
  roots := rfl

namespace Mirrors

variable (hmirrors : trail.Mirrors walk)
include hmirrors

theorem isVisited_eq_false {node : Fin n} (hmark : walk.mark node = .unseen) :
    trail.isVisited node = false := by
  rw [Bool.eq_false_iff, Ne, hmirrors.visited, hmark]
  simp

theorem isOnChain_eq_false {node : Fin n} (hmark : walk.mark node ≠ .active) :
    trail.isOnChain node = false := by
  rw [Bool.eq_false_iff, Ne, hmirrors.onChain]
  exact hmark

theorem push {node : Fin n} (hmark : walk.mark node = .unseen) :
    (trail.push successors node).Mirrors (walk.enter successors node) where
  visited other := by
    rw [isVisited_push, hmirrors.visited, Walk.mark_enter]
    by_cases heq : other = node
    · simp [heq, hmark]
    · simp [heq]
  onChain other := by
    rw [isOnChain_push, Walk.mark_enter]
    by_cases heq : other = node
    · simp [heq]
    · simp [heq, hmirrors.onChain]
  chain := congrArg ((node, successors node) :: ·) hmirrors.chain
  roots := hmirrors.roots

theorem pop (frame : Frame n) (below : List (Frame n)) :
    (trail.pop frame.node (below.map Frame.stage)).Mirrors (walk.leave frame below) where
  visited other := by
    rw [isVisited_pop, Walk.mark_leave]
    by_cases heq : other = frame.node
    · simp [heq]
    · simp [heq, hmirrors.visited]
  onChain other := by
    rw [isOnChain_pop, Walk.mark_leave]
    by_cases heq : other = frame.node
    · simp [heq]
    · simp [heq, hmirrors.onChain]
  chain := by cases below <;> rfl
  roots := hmirrors.roots

/-- The innermost node goes on to its next successor, with any level. -/
theorem advance (frame : Frame n) (rest : List (Fin n)) (level : Option Nat)
    (below : List (Frame n)) :
    { trail with chain := (frame.node, rest) :: below.map Frame.stage : Trail n }.Mirrors
      { walk with stack := { frame with rest, level } :: below } where
  visited := hmirrors.visited
  onChain := hmirrors.onChain
  chain := rfl
  roots := hmirrors.roots

theorem dropRoot (roots : List (Fin n)) :
    { trail with roots : Trail n }.Mirrors { walk with roots } where
  visited := hmirrors.visited
  onChain := hmirrors.onChain
  chain := hmirrors.chain
  roots := rfl

theorem chain_eq_nil (hstack : walk.stack = []) : trail.chain = [] := by
  rw [hmirrors.chain, hstack, List.map_nil]

theorem chain_eq_cons {frame : Frame n} {below : List (Frame n)} {rest : List (Fin n)}
    (hstack : walk.stack = frame :: below) (hrest : frame.rest = rest) :
    trail.chain = (frame.node, rest) :: below.map Frame.stage := by
  rw [hmirrors.chain, hstack, List.map_cons, Frame.stage, hrest]

theorem step_eq_over (hstep : walk.step successors = none) : trail.step successors = .over := by
  obtain ⟨hstack, hroots⟩ := Walk.step_eq_none hstep
  exact step_over (hmirrors.chain_eq_nil hstack) (hmirrors.roots.trans hroots)

variable (hsound : walk.Sound successors [])
include hsound

theorem step_eq_closed {nodes : List (Fin n)} (hclosing : walk.closing? = some nodes) :
    trail.step successors = .closed nodes := by
  unfold Walk.closing? at hclosing
  split at hclosing
  · cases hclosing
  · next frame below hstack =>
    split at hclosing
    · cases hclosing
    · next next rest hrest =>
      split at hclosing
      · next hmark =>
        have hchain := hmirrors.chain_eq_cons hstack hrest
        have hnodes : ((frame.node, rest) :: below.map Frame.stage).map (·.1)
            = walk.stack.map (·.node) := by
          rw [hstack, List.map_cons, List.map_cons, List.map_map]
          rfl
        have hmem := (hsound.active_iff next).mp hmark
        rw [step_check hchain, if_pos ((hmirrors.onChain next).mpr hmark),
          inwards_of_mem (hnodes ▸ hmem), hnodes, Option.some.inj hclosing]
      · cases hclosing

theorem step_eq_onward (hclosing : walk.closing? = none)
    (hmoves : walk.Moves successors newWalk) :
    ∃ newTrail, trail.step successors = .onward newTrail ∧ newTrail.Mirrors newWalk := by
  cases hmoves with
  | @begin root roots hstack hroots hmark =>
      refine ⟨_, ?_, (hmirrors.dropRoot roots).push hmark⟩
      rw [step_root (hmirrors.chain_eq_nil hstack) (hmirrors.roots.trans hroots),
        hmirrors.isVisited_eq_false hmark, if_neg Bool.false_ne_true]
  | @skip root roots hstack hroots hmark =>
      refine ⟨_, ?_, hmirrors.dropRoot roots⟩
      have hvisited : trail.isVisited root = true := by
        rw [hmirrors.visited]
        cases hroot : walk.mark root with
        | unseen => exact absurd hroot hmark
        | active =>
            have hmem := (hsound.active_iff root).mp hroot
            rw [hstack] at hmem
            cases hmem
        | finished level => exact ⟨level, rfl⟩
      rw [step_root (hmirrors.chain_eq_nil hstack) (hmirrors.roots.trans hroots), if_pos hvisited]
  | @leave frame below hstack hrest =>
      exact ⟨_, step_pop (hmirrors.chain_eq_cons hstack hrest), hmirrors.pop frame below⟩
  | @descend frame below next rest hstack hrest hmark =>
      refine ⟨_, ?_, (hmirrors.advance frame rest frame.level below).push hmark⟩
      rw [step_check (hmirrors.chain_eq_cons hstack hrest),
        hmirrors.isOnChain_eq_false (by simp [hmark]), hmirrors.isVisited_eq_false hmark,
        if_neg Bool.false_ne_true, if_neg Bool.false_ne_true]
  | @close frame below next rest hstack hrest hmark =>
      simp [Walk.closing?, hstack, hrest, hmark] at hclosing
  | @pass frame below next rest level hstack hrest hmark =>
      refine ⟨_, ?_, hmirrors.advance frame rest (deeper frame.level level) below⟩
      rw [step_check (hmirrors.chain_eq_cons hstack hrest),
        hmirrors.isOnChain_eq_false (by simp [hmark]), if_neg Bool.false_ne_true,
        if_pos ((hmirrors.visited next).mpr ⟨level, hmark⟩)]

end Mirrors

/-- A step of the search and one of the walk that it mirrors. -/
inductive Together (successors : Fin n → List (Fin n)) (trail : Trail n) (walk : Walk n) : Prop where
  | closed {nodes : List (Fin n)} (hclosing : walk.closing? = some nodes)
      (hstep : trail.step successors = .closed nodes)
  | ended (hclosing : walk.closing? = none) (hwalk : walk.step successors = none)
      (hstep : trail.step successors = .over)
  | onward {newTrail : Trail n} {newWalk : Walk n} (hclosing : walk.closing? = none)
      (hwalk : walk.step successors = some newWalk)
      (hstep : trail.step successors = .onward newTrail) (hmirrors : newTrail.Mirrors newWalk)
      (hsound : newWalk.Sound successors [])

namespace Mirrors

variable (hmirrors : trail.Mirrors walk) (hsound : walk.Sound successors [])
include hmirrors hsound

theorem together : Together successors trail walk := by
  cases hclosing : walk.closing? with
  | some nodes => exact .closed hclosing (hmirrors.step_eq_closed hsound hclosing)
  | none =>
      cases hstep : walk.step successors with
      | none => exact .ended hclosing hstep (hmirrors.step_eq_over hstep)
      | some newWalk =>
          have hmoves := Walk.moves_of_step hstep
          obtain ⟨newTrail, honward, hnew⟩ := hmirrors.step_eq_onward hsound hclosing hmoves
          exact .onward hclosing hstep honward hnew (hsound.moves hmoves)

/-- The search and the walk come upon the same cycle. -/
theorem search_eq (steps : Nat) : trail.search successors steps = walk.search successors steps := by
  induction steps generalizing trail walk with
  | zero => rfl
  | succ steps ih =>
      rw [Trail.search, Walk.search]
      cases hmirrors.together hsound with
      | closed hclosing hstep => rw [hclosing, hstep]
      | ended hclosing hwalk hstep => rw [hclosing, hwalk, hstep]
      | onward hclosing hwalk hstep hnew hsound =>
          rw [hclosing, hwalk, hstep]
          exact ih hnew hsound

end Mirrors

theorem cycle?_eq_search :
    cycle? successors = Walk.search successors (Walk.stepCount successors) .start :=
  mirrors_start.search_eq Walk.sound_start _

end Trail

namespace Walk

theorem exists_level_of_cycle?_eq_none (hcycle : Trail.cycle? successors = none) (node : Fin n) :
    ∃ level, (levels successors).get node = some level := by
  rw [Trail.cycle?_eq_search] at hcycle
  have hstart : Levelled (start : Walk n) := by simp [Levelled, start, mark]
  have hlevelled := levelled_of_search hcycle hstart (Nat.le_of_eq work_start) sound_start
  obtain ⟨level, hmark⟩ := exists_mark_finish successors node
  cases level with
  | none => exact absurd hmark (hlevelled.2 node)
  | some level => exact ⟨level, by rw [get_levels, level?_eq_some, hmark]⟩

theorem isCycle_of_cycle? {nodes : List (Fin n)} (hcycle : Trail.cycle? successors = some nodes) :
    IsCycle successors nodes := by
  rw [Trail.cycle?_eq_search] at hcycle
  exact isCycle_of_search sound_start hcycle

theorem cycle?_eq_none_iff :
    Trail.cycle? successors = none ↔ ∀ node, ¬Relation.TransGen (Leads successors) node node := by
  constructor
  · intro hcycle node hpath
    obtain ⟨level, hlevel⟩ := exists_level_of_cycle?_eq_none hcycle node
    rw [levels_eq_none_iff.mpr ⟨node, .refl, hpath⟩] at hlevel
    cases hlevel
  · intro hacyclic
    cases hcycle : Trail.cycle? successors with
    | none => rfl
    | some nodes =>
        obtain ⟨node, hpath⟩ := (isCycle_of_cycle? hcycle).transGen
        exact absurd hpath (hacyclic node)

end Walk

end Assembly
