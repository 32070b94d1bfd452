import Assembly.Proofs.Walk.Search

/-!
# What happens in the course of a walk

The stack before and after a step says what the step does: which nodes are entered or left, and which
successors are looked at. Over a whole walk each node is entered once and left once, and looks at each
of its successors once and in their order.
-/

namespace Assembly

/-- The nodes that have been entered and not left, with those of their successors that have not been
looked at. The innermost node comes first. -/
abbrev Stages (n : Nat) := List (Fin n × List (Fin n))

def Stages.remaining {n : Nat} (stages : Stages n) (node : Fin n) : List (Fin n) :=
  (stages.lookup node).getD []

/-- What is on the stack before and after a step. -/
structure Passage (n : Nat) where
  before : Stages n
  after : Stages n

structure Events (n : Nat) where
  entered : List (Fin n)
  left : List (Fin n)
  /-- Nodes, each with a successor that it goes past. -/
  passed : List (Fin n × Fin n)

namespace Stages

variable {n : Nat} {node other : Fin n} {rest : List (Fin n)} {below stages : Stages n}

theorem remaining_top : remaining ((node, rest) :: below) node = rest := by
  simp [remaining]

theorem remaining_of_ne (hne : other ≠ node) :
    remaining ((node, rest) :: below) other = remaining below other := by
  rw [remaining, List.lookup_cons, beq_false_of_ne hne]
  rfl

theorem remaining_of_not_mem (hmem : node ∉ stages.map (·.1)) : remaining stages node = [] := by
  have hlookup : stages.lookup node = none := by
    rw [List.lookup_eq_none_iff]
    intro stage hstage
    refine bne_iff_ne.mpr fun heq => hmem ?_
    rw [heq]
    exact List.mem_map_of_mem hstage
  rw [remaining, hlookup]
  rfl

end Stages

namespace Passage

variable {n : Nat}

/-- The successors that the nodes of a stack have gone past since. -/
def passed : Stages n → Stages n → List (Fin n × Fin n)
  | (node, rest) :: below, (_, remaining) :: others =>
      (rest.take (rest.length - remaining.length)).map (node, ·) ++ passed below others
  | _, _ => []

/-- The nodes above those of the other stack come or go, the others stay. -/
def events (passage : Passage n) : Events n where
  entered := (passage.after.take (passage.after.length - passage.before.length)).map (·.1)
  left := (passage.before.take (passage.before.length - passage.after.length)).map (·.1)
  passed := passed (passage.before.drop (passage.before.length - passage.after.length))
    (passage.after.drop (passage.after.length - passage.before.length))

variable {node next : Fin n} {rest : List (Fin n)} {top : Fin n × List (Fin n)}
  {below stack : Stages n}

theorem passed_self (stack : Stages n) : passed stack stack = [] := by
  induction stack with
  | nil => rfl
  | cons top below ih => simp [passed, ih]

theorem passed_advance :
    passed ((node, next :: rest) :: below) ((node, rest) :: below) = [(node, next)] := by
  simp [passed, passed_self]

@[simp]
theorem events_stay : (⟨stack, stack⟩ : Passage n).events = ⟨[], [], []⟩ := by
  simp [events, passed_self]

@[simp]
theorem events_push : (⟨stack, top :: stack⟩ : Passage n).events = ⟨[top.1], [], []⟩ := by
  simp [events, passed_self]

@[simp]
theorem events_pop : (⟨top :: stack, stack⟩ : Passage n).events = ⟨[], [top.1], []⟩ := by
  simp [events, passed_self]

@[simp]
theorem events_advance :
    (⟨(node, next :: rest) :: below, (node, rest) :: below⟩ : Passage n).events
      = ⟨[], [], [(node, next)]⟩ := by
  simp [events, passed_advance]

@[simp]
theorem events_descend :
    (⟨(node, next :: rest) :: below, top :: (node, rest) :: below⟩ : Passage n).events
      = ⟨[top.1], [], [(node, next)]⟩ := by
  simp [events, passed_advance]

end Passage

inductive Shift {n : Nat} (successors : Fin n → List (Fin n)) : Stages n → Stages n → Prop where
  | push (root : Fin n) : Shift successors [] [(root, successors root)]
  | stay : Shift successors [] []
  | pop (node : Fin n) (below : Stages n) : Shift successors ((node, []) :: below) below
  | descend (node next : Fin n) (rest : List (Fin n)) (below : Stages n) :
      Shift successors ((node, next :: rest) :: below)
        ((next, successors next) :: (node, rest) :: below)
  | advance (node next : Fin n) (rest : List (Fin n)) (below : Stages n) :
      Shift successors ((node, next :: rest) :: below) ((node, rest) :: below)

/-- With something on the stack one node is left or one successor is passed, and otherwise neither. -/
theorem Shift.length_events {n : Nat} {successors : Fin n → List (Fin n)} {passage : Passage n}
    (hshift : Shift successors passage.before passage.after) :
    passage.events.left.length + passage.events.passed.length
      = if passage.before.isEmpty then 0 else 1 := by
  obtain ⟨before, after⟩ := passage
  change Shift successors before after at hshift
  cases hshift <;> simp

/-- Only the innermost node goes past a successor, which is its next one. -/
theorem Shift.eq_of_passed {n : Nat} {successors : Fin n → List (Fin n)} {before after : Stages n}
    (hshift : Shift successors before after) {look : Fin n × Fin n}
    (hlook : look ∈ (⟨before, after⟩ : Passage n).events.passed) :
    ∃ rest below, before = (look.1, look.2 :: rest) :: below := by
  cases hshift with
  | push root | stay | pop node below => simp at hlook
  | descend node next rest below | advance node next rest below =>
      have hlook : look = (node, next) := by simpa using hlook
      exact ⟨rest, below, by rw [hlook]⟩

namespace Passage

variable {n : Nat}

def total (passages : List (Passage n)) : Events n :=
  ⟨passages.flatMap (·.events.entered), passages.flatMap (·.events.left),
    passages.flatMap (·.events.passed)⟩

theorem length_total {successors : Fin n → List (Fin n)} {log : List (Passage n)}
    (hlog : ∀ passage ∈ log, Shift successors passage.before passage.after) :
    (total log).left.length + (total log).passed.length
      = (log.filter (!·.before.isEmpty)).length := by
  induction log with
  | nil => rfl
  | cons passage log ih =>
      rw [List.forall_mem_cons] at hlog
      have hpassage := hlog.1.length_events
      have hrest := ih hlog.2
      simp only [total, List.flatMap_cons, List.length_append, List.filter_cons] at hrest ⊢
      cases hempty : passage.before.isEmpty with
      | true =>
          rw [hempty, if_pos rfl] at hpassage
          simp only [Bool.not_true, Bool.false_eq_true, ↓reduceIte]
          omega
      | false =>
          rw [hempty, if_neg Bool.false_ne_true] at hpassage
          simp only [Bool.not_false, ↓reduceIte, List.length_cons]
          omega

def passedBy (node : Fin n) (looks : List (Fin n × Fin n)) : List (Fin n) :=
  (looks.filter (·.1 = node)).map (·.2)

theorem length_eq_sum_passedBy (looks : List (Fin n × Fin n)) :
    looks.length = ∑ node, (passedBy node looks).length := by
  induction looks with
  | nil => simp [passedBy]
  | cons look looks ih =>
      have hcons : ∀ node, (passedBy node (look :: looks)).length
          = (passedBy node looks).length + if look.1 = node then 1 else 0 := by
        intro node
        by_cases heq : look.1 = node <;> simp [passedBy, heq]
      simp only [hcons, Finset.sum_add_distrib, ← ih, Finset.sum_ite_eq, Finset.mem_univ,
        List.length_cons, ↓reduceIte]

end Passage

namespace Walk

variable {n : Nat} (successors : Fin n → List (Fin n))

def stages (walk : Walk n) : Stages n :=
  walk.stack.map Frame.stage

/-- The steps of a walk until it is over, and at most the given number of them. -/
def passages : Nat → Walk n → List (Passage n)
  | 0, _ => []
  | steps + 1, walk =>
    match walk.step successors with
    | none => []
    | some next => ⟨walk.stages, next.stages⟩ :: passages steps next

/-- The successors that a node has yet to go past. -/
def ahead (walk : Walk n) (node : Fin n) : List (Fin n) :=
  if walk.mark node = .unseen then successors node else walk.stages.remaining node

/-- What has been done between two states of a walk. -/
structure Between (walk : Walk n) (events : Events n) (later : Walk n) : Prop where
  entered : ∀ node, events.entered.count node + (if later.mark node = .unseen then 1 else 0)
    = if walk.mark node = .unseen then 1 else 0
  left : ∀ node, events.left.count node + (later.stages.map (·.1)).count node
    = events.entered.count node + (walk.stages.map (·.1)).count node
  passed : ∀ node, walk.ahead successors node
    = Passage.passedBy node events.passed ++ later.ahead successors node

variable {successors} {walk later : Walk n}

theorem stages_of_cons {frame : Frame n} {below : List (Frame n)} {rest : List (Fin n)}
    (hstack : walk.stack = frame :: below) (hrest : frame.rest = rest) :
    walk.stages = (frame.node, rest) :: below.map Frame.stage := by
  rw [stages, hstack, List.map_cons, Frame.stage, hrest]

theorem stages_leave (frame : Frame n) (below : List (Frame n)) :
    (walk.leave frame below).stages = below.map Frame.stage := by
  cases below <;> rfl

/-! ### What one step does -/

namespace Between

theorem refl (walk : Walk n) : Between successors walk ⟨[], [], []⟩ walk where
  entered _ := Nat.zero_add _
  left _ := rfl
  passed _ := rfl

theorem trans {middle : Walk n} {first second : Events n}
    (hfirst : Between successors walk first middle)
    (hsecond : Between successors middle second later) :
    Between successors walk ⟨first.entered ++ second.entered, first.left ++ second.left,
      first.passed ++ second.passed⟩ later where
  entered node := by
    rw [← hfirst.entered, ← hsecond.entered, List.count_append, Nat.add_assoc]
  left node := by
    have hfirst := hfirst.left node
    have hsecond := hsecond.left node
    rw [List.count_append, List.count_append]
    omega
  passed node := by
    rw [hfirst.passed, hsecond.passed, Passage.passedBy, Passage.passedBy, Passage.passedBy,
      List.filter_append, List.map_append, List.append_assoc]

theorem enter {node : Fin n} (hunseen : walk.mark node = .unseen) :
    Between successors walk ⟨[node], [], []⟩ (walk.enter successors node) where
  entered other := by
    rw [mark_enter]
    by_cases heq : other = node
    · simp [heq, hunseen]
    · simp [heq, Ne.symm heq]
  left _ := by
    simp only [Walk.enter, stages, List.map_cons, Frame.stage, List.count_cons, List.count_nil]
    omega
  passed other := by
    have hstages : (walk.enter successors node).stages = (node, successors node) :: walk.stages := rfl
    rw [ahead, ahead, mark_enter, hstages]
    by_cases heq : other = node
    · rw [heq, if_pos hunseen, if_pos rfl, if_neg (by simp), Stages.remaining_top]
      rfl
    · rw [if_neg heq, Stages.remaining_of_ne heq]
      rfl

theorem dropRoot (walk : Walk n) (roots : List (Fin n)) :
    Between successors walk ⟨[], [], []⟩ { walk with roots } :=
  { refl walk with }

/-- The innermost node goes past its next successor, with any level. -/
theorem advance {frame : Frame n} {below : List (Frame n)} {next : Fin n} {rest : List (Fin n)}
    (hsound : Sound successors [] walk) (hstack : walk.stack = frame :: below)
    (hrest : frame.rest = next :: rest) (level : Option Nat) :
    Between successors walk ⟨[], [], [(frame.node, next)]⟩
      { walk with stack := { frame with rest, level } :: below } where
  entered _ := Nat.zero_add _
  left _ := by simp [stages, hstack, Frame.stage]
  passed node := by
    have hactive : walk.mark frame.node = .active := by simp [hsound.active_iff, hstack]
    have hmark : Walk.mark { walk with stack := { frame with rest, level } :: below } node
      = walk.mark node := rfl
    have hbefore : walk.stages = (frame.node, next :: rest) :: below.map Frame.stage :=
      stages_of_cons hstack hrest
    have hafter : Walk.stages { walk with stack := { frame with rest, level } :: below }
      = (frame.node, rest) :: below.map Frame.stage := rfl
    rw [ahead, ahead, hmark, hbefore, hafter, Passage.passedBy]
    by_cases heq : node = frame.node
    · simp [heq, hactive, Stages.remaining_top]
    · simp [Ne.symm heq, Stages.remaining_of_ne heq]

theorem leave {frame : Frame n} {below : List (Frame n)} (hsound : Sound successors [] walk)
    (hstack : walk.stack = frame :: below) (hrest : frame.rest = []) :
    Between successors walk ⟨[], [frame.node], []⟩ (walk.leave frame below) where
  entered node := by
    have hactive : walk.mark frame.node = .active := by simp [hsound.active_iff, hstack]
    rw [mark_leave]
    by_cases heq : node = frame.node <;> simp [heq, hactive]
  left node := by
    rw [stages_leave, stages_of_cons hstack hrest]
    simp only [List.map_cons, List.count_cons, List.count_nil]
    omega
  passed node := by
    have hactive : walk.mark frame.node = .active := by simp [hsound.active_iff, hstack]
    rw [ahead, ahead, mark_leave, stages_leave, stages_of_cons hstack hrest]
    by_cases heq : node = frame.node
    · have hnodup := hsound.nodup
      rw [hstack, List.map_cons, List.nodup_cons] at hnodup
      have hfresh : frame.node ∉ (below.map Frame.stage).map (·.1) := by
        rw [List.map_map]
        exact hnodup.1
      simp [heq, hactive, Stages.remaining_top, Stages.remaining_of_not_mem hfresh,
        Passage.passedBy]
    · simp [heq, Stages.remaining_of_ne heq, Passage.passedBy]

end Between

/-- What the stack shows is what the step does. -/
theorem Moves.between (hsound : Sound successors [] walk) (hmoves : Moves successors walk later) :
    Between successors walk (⟨walk.stages, later.stages⟩ : Passage n).events later := by
  cases hmoves with
  | @begin root roots hstack hroots hmark =>
      change Between successors walk
        (⟨walk.stages, (root, successors root) :: walk.stages⟩ : Passage n).events _
      rw [Passage.events_push]
      exact (Between.dropRoot walk roots).trans (Between.enter hmark)
  | skip hstack hroots hmark =>
      change Between successors walk (⟨walk.stages, walk.stages⟩ : Passage n).events _
      rw [Passage.events_stay]
      exact Between.dropRoot walk _
  | leave hstack hrest =>
      rw [stages_leave, stages_of_cons hstack hrest, Passage.events_pop]
      exact Between.leave hsound hstack hrest
  | @descend frame below next rest hstack hrest hmark =>
      change Between successors walk (⟨walk.stages,
        (next, successors next) :: (frame.node, rest) :: below.map Frame.stage⟩ : Passage n).events _
      rw [stages_of_cons hstack hrest, Passage.events_descend]
      exact (Between.advance hsound hstack hrest frame.level).trans (Between.enter hmark)
  | @close frame below next rest hstack hrest hmark =>
      change Between successors walk
        (⟨walk.stages, (frame.node, rest) :: below.map Frame.stage⟩ : Passage n).events _
      rw [stages_of_cons hstack hrest, Passage.events_advance]
      exact Between.advance hsound hstack hrest none
  | @pass frame below next rest level hstack hrest hmark =>
      change Between successors walk
        (⟨walk.stages, (frame.node, rest) :: below.map Frame.stage⟩ : Passage n).events _
      rw [stages_of_cons hstack hrest, Passage.events_advance]
      exact Between.advance hsound hstack hrest (deeper frame.level level)

theorem Moves.shift (hmoves : Moves successors walk later) :
    Shift successors walk.stages later.stages := by
  cases hmoves with
  | @begin root roots hstack hroots hmark =>
      rw [stages, hstack]
      exact .push root
  | skip hstack hroots hmark =>
      rw [stages, hstack]
      exact .stay
  | leave hstack hrest =>
      rw [stages_leave, stages_of_cons hstack hrest]
      exact .pop _ _
  | descend hstack hrest hmark =>
      rw [stages_of_cons hstack hrest]
      exact .descend _ _ _ _
  | close hstack hrest hmark | pass hstack hrest hmark =>
      rw [stages_of_cons hstack hrest]
      exact .advance _ _ _ _

/-! ### What a whole walk does -/

theorem shift_of_mem_passages {steps : Nat} {passage : Passage n}
    (hpassage : passage ∈ passages successors steps walk) :
    Shift successors passage.before passage.after := by
  induction steps generalizing walk with
  | zero => cases hpassage
  | succ steps ih =>
      rw [passages] at hpassage
      cases hstep : walk.step successors with
      | none => simp [hstep] at hpassage
      | some next =>
          rw [hstep, List.mem_cons] at hpassage
          rcases hpassage with rfl | hpassage
          · exact (moves_of_step hstep).shift
          · exact ih hpassage

theorem between_run (hsound : Sound successors [] walk) (steps : Nat) :
    Between successors walk (Passage.total (passages successors steps walk))
      (run successors steps walk) := by
  induction steps generalizing walk with
  | zero => exact .refl walk
  | succ steps ih =>
      rw [passages, run]
      cases hstep : walk.step successors with
      | none => exact .refl walk
      | some next =>
          have hmoves := moves_of_step hstep
          exact (hmoves.between hsound).trans (ih (hsound.moves hmoves))

theorem step_eq_none_iff (hsound : Sound successors [] walk) :
    walk.step successors = none ↔ work successors walk = 0 := by
  constructor
  · intro hstep
    obtain ⟨hstack, hroots⟩ := step_eq_none hstep
    have hunseen : ∀ node, walk.mark node ≠ .unseen := by
      intro node hmark
      have hroot := hsound.unseen node hmark
      rw [hroots] at hroot
      cases hroot
    simp [work, unseenWork, hstack, hroots, hunseen]
  · intro hwork
    obtain ⟨hstack, hroots⟩ := over_of_work_eq_zero hwork
    simp [step, hstack, hroots]

/-- A walk is over exactly when all of its work is done. -/
theorem work_run (hsound : Sound successors [] walk) (steps : Nat) :
    Sound successors [] (run successors steps walk)
      ∧ work successors (run successors steps walk) = work successors walk - steps := by
  induction steps generalizing walk with
  | zero => exact ⟨hsound, rfl⟩
  | succ steps ih =>
      rw [run]
      cases hstep : walk.step successors with
      | none =>
          have hwork := (step_eq_none_iff hsound).mp hstep
          exact ⟨hsound, by simp [hwork]⟩
      | some next =>
          have hmoves := moves_of_step hstep
          have hdone := work_moves hsound hmoves
          obtain ⟨hlater, hwork⟩ := ih (hsound.moves hmoves)
          exact ⟨hlater, by simp only; omega⟩

theorem step_run_eq_none_iff (successors : Fin n → List (Fin n)) (steps : Nat) :
    (run successors steps start).step successors = none ↔ stepCount successors ≤ steps := by
  obtain ⟨hsound, hwork⟩ := work_run (@sound_start _ successors) steps
  rw [step_eq_none_iff hsound, hwork, work_start]
  omega

/-- Each node is entered and left once, and looks at each of its successors once, in their order. So
many rounds with a node on the stack are taken as there are nodes and successors. -/
structure Exhaustive (successors : Fin n → List (Fin n)) (log : List (Passage n)) : Prop where
  entered : (Passage.total log).entered.Perm (List.finRange n)
  left : (Passage.total log).left.Perm (List.finRange n)
  passed : ∀ node, Passage.passedBy node (Passage.total log).passed = successors node
  rounds : (log.filter (!·.before.isEmpty)).length
    = n + ((List.finRange n).flatMap successors).length

theorem perm_finRange {nodes : List (Fin n)} (hcount : ∀ node, nodes.count node = 1) :
    nodes.Perm (List.finRange n) := by
  rw [List.perm_iff_count]
  intro node
  rw [hcount, List.count_eq_one_of_mem (List.nodup_finRange n) (List.mem_finRange node)]

theorem exhaustive_passages (successors : Fin n → List (Fin n)) :
    Exhaustive successors (passages successors (stepCount successors) start) := by
  have hbetween : Between successors start
      (Passage.total (passages successors (stepCount successors) start)) (finish successors) :=
    between_run sound_start (stepCount successors)
  obtain ⟨-, hstack, -⟩ := run_over (Nat.le_of_eq (@work_start _ successors)) sound_start
  have hover : (finish successors).stages = [] := by rw [stages, finish, hstack, List.map_nil]
  have hmark : ∀ node, (finish successors).mark node ≠ .unseen := by
    intro node hunseen
    obtain ⟨level, hlevel⟩ := exists_mark_finish successors node
    rw [hlevel] at hunseen
    cases hunseen
  have hentered : ∀ node,
      (Passage.total (passages successors (stepCount successors) start)).entered.count node = 1 := by
    intro node
    have hcount := hbetween.entered node
    rwa [if_neg (hmark node), if_pos (by simp [start, mark])] at hcount
  have hleft : ∀ node,
      (Passage.total (passages successors (stepCount successors) start)).left.count node = 1 := by
    intro node
    have hcount := hbetween.left node
    rw [hover, hentered] at hcount
    simpa [start, stages] using hcount
  have hpassed : ∀ node, Passage.passedBy node
      (Passage.total (passages successors (stepCount successors) start)).passed
        = successors node := by
    intro node
    have hahead := hbetween.passed node
    rw [ahead, if_pos (by simp [start, mark]), ahead, if_neg (hmark node), hover] at hahead
    exact (hahead.trans (List.append_nil _)).symm
  refine ⟨perm_finRange hentered, perm_finRange hleft, hpassed, ?_⟩
  -- A round with a node on the stack leaves one or passes a successor, so the rounds are counted by both.
  rw [← Passage.length_total fun _ => shift_of_mem_passages, (perm_finRange hleft).length_eq,
    Passage.length_eq_sum_passedBy]
  simp only [hpassed, List.length_finRange, List.length_flatMap, Fin.sum_univ_def]

end Walk

end Assembly
