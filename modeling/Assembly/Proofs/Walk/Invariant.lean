import Mathlib.Data.List.Induction
import Mathlib.Logic.Relation
import Assembly.Graph.Walk

/-!
# What holds throughout a walk

The active nodes are those on the stack, the stack is a chain of successors, and every level that
has been settled is right: a level is one more than the highest level of a successor, and a node
without a level reaches a cycle. The invariant below says so of each frame, with respect to the
successors that its node has looked at, and each step of the walk keeps it.
-/

namespace Assembly

/-- The level with which the node has been left. -/
def Mark.level? : Mark → Option Nat
  | .finished level => level
  | _ => none

namespace Walk

variable {n : Nat} (successors : Fin n → List (Fin n))

def Leads (node next : Fin n) : Prop := next ∈ successors node

/-- The node lies on a cycle, or a cycle can be reached from it. -/
def ReachesCycle (node : Fin n) : Prop :=
  ∃ member, Relation.ReflTransGen (Leads successors) node member
    ∧ Relation.TransGen (Leads successors) member member

/-- The level of a node whose successors have the given levels. -/
def levelOver (levelOf : Fin n → Option Nat) (nodes : List (Fin n)) : Option Nat :=
  nodes.foldl (fun level node => deeper level (levelOf node)) (some 0)

def level? (walk : Walk n) (node : Fin n) : Option Nat :=
  (walk.mark node).level?

/-- What a level says about a node that has looked at some of its successors. -/
def Settled (levelOf : Fin n → Option Nat) (node : Fin n) (seen : List (Fin n)) :
    Option Nat → Prop
  | some level => levelOver levelOf seen = some level
  | none => ReachesCycle successors node

/-- Each frame waits for the node of the frame above it, and the innermost one for the awaited
nodes. -/
def Stacked (levelOf : Fin n → Option Nat) : List (Fin n) → List (Frame n) → Prop
  | _, [] => True
  | awaited, frame :: below =>
      (∃ seen, successors frame.node = seen ++ awaited ++ frame.rest
        ∧ Settled successors levelOf frame.node seen frame.level)
      ∧ Stacked levelOf [frame.node] below

structure Sound (awaited : List (Fin n)) (walk : Walk n) : Prop where
  active_iff : ∀ node, walk.mark node = .active ↔ node ∈ walk.stack.map (·.node)
  nodup : (walk.stack.map (·.node)).Nodup
  stacked : Stacked successors walk.level? awaited walk.stack
  finished : ∀ node level, walk.mark node = .finished level →
    Settled successors walk.level? node (successors node) level
  unseen : ∀ node, walk.mark node = .unseen → node ∈ walk.roots

variable {successors} {walk : Walk n} {awaited : List (Fin n)}
  {levelOf newLevelOf : Fin n → Option Nat}

/-! ### Levels over lists of nodes -/

@[simp]
theorem deeper_none_right (level : Option Nat) : deeper level none = none := by
  cases level <;> rfl

@[simp]
theorem deeper_none_left (level : Option Nat) : deeper none level = none := rfl

theorem deeper_eq_some {level successor : Option Nat} {result : Nat}
    (hdeeper : deeper level successor = some result) :
    ∃ old below, level = some old ∧ successor = some below ∧ result = max old (below + 1) := by
  cases level with
  | none => cases hdeeper
  | some old =>
      cases successor with
      | none => cases hdeeper
      | some below => exact ⟨old, below, rfl, rfl, (Option.some.inj hdeeper).symm⟩

@[simp]
theorem levelOver_nil : levelOver levelOf [] = some 0 := rfl

theorem levelOver_concat (nodes : List (Fin n)) (node : Fin n) :
    levelOver levelOf (nodes ++ [node]) = deeper (levelOver levelOf nodes) (levelOf node) := by
  simp [levelOver]

/-- Every successor of a node with a level has a lower level. -/
theorem lt_of_levelOver_eq_some {nodes : List (Fin n)} {level : Nat}
    (hlevel : levelOver levelOf nodes = some level) {node : Fin n} (hnode : node ∈ nodes) :
    ∃ below, levelOf node = some below ∧ below < level := by
  induction nodes using List.reverseRecOn generalizing level with
  | nil => simp at hnode
  | append_singleton nodes last ih =>
      rw [levelOver_concat] at hlevel
      obtain ⟨old, below, hold, hbelow, rfl⟩ := deeper_eq_some hlevel
      rcases List.mem_append.mp hnode with hfront | hlast
      · obtain ⟨lower, hlower, hlt⟩ := ih hold hfront
        exact ⟨lower, hlower, Nat.lt_of_lt_of_le hlt (Nat.le_max_left _ _)⟩
      · rw [List.mem_singleton] at hlast
        subst hlast
        exact ⟨below, hbelow, Nat.lt_of_lt_of_le (Nat.lt_succ_self below) (Nat.le_max_right _ _)⟩

theorem levelOver_mono
    (hmono : ∀ node level, levelOf node = some level → newLevelOf node = some level)
    {nodes : List (Fin n)} {level : Nat} (hlevel : levelOver levelOf nodes = some level) :
    levelOver newLevelOf nodes = some level := by
  induction nodes using List.reverseRecOn generalizing level with
  | nil => exact hlevel
  | append_singleton nodes last ih =>
      rw [levelOver_concat] at hlevel ⊢
      obtain ⟨old, below, hold, hbelow, rfl⟩ := deeper_eq_some hlevel
      rw [ih hold, hmono last below hbelow]
      rfl

/-! ### What does not change when more nodes are left -/

theorem Settled.mono
    (hmono : ∀ node level, levelOf node = some level → newLevelOf node = some level)
    {node : Fin n} {seen : List (Fin n)} {level : Option Nat}
    (hsettled : Settled successors levelOf node seen level) :
    Settled successors newLevelOf node seen level := by
  cases level with
  | none => exact hsettled
  | some level => exact levelOver_mono hmono hsettled

theorem Stacked.mono
    (hmono : ∀ node level, levelOf node = some level → newLevelOf node = some level)
    {awaited : List (Fin n)} {stack : List (Frame n)}
    (hstacked : Stacked successors levelOf awaited stack) :
    Stacked successors newLevelOf awaited stack := by
  induction stack generalizing awaited with
  | nil => trivial
  | cons frame below ih =>
      obtain ⟨⟨seen, hseen, hsettled⟩, hbelow⟩ := hstacked
      exact ⟨⟨seen, hseen, hsettled.mono hmono⟩, ih hbelow⟩

theorem level?_eq_some {node : Fin n} {level : Nat} :
    walk.level? node = some level ↔ walk.mark node = .finished (some level) := by
  unfold level?
  cases walk.mark node <;> simp [Mark.level?]

/-- A mark that is set on a node without a level takes no level away. -/
theorem level?_mono (walk newWalk : Walk n) (node : Fin n)
    (hmark : ∀ other, other ≠ node → newWalk.mark other = walk.mark other)
    (hlevel : ∀ level, walk.mark node ≠ .finished level) (other : Fin n) (level : Nat)
    (hother : walk.level? other = some level) : newWalk.level? other = some level := by
  rw [level?_eq_some] at hother ⊢
  have hne : other ≠ node := by
    intro heq
    exact hlevel (some level) (heq ▸ hother)
  rw [hmark other hne, hother]

theorem get_set {α : Type} (values : Vector α n) (node other : Fin n) (value : α) :
    (values.set node value node.isLt).get other
      = if other = node then value else values.get other := by
  by_cases heq : other = node
  · rw [if_pos heq, heq]
    exact Vector.getElem_set_self node.isLt
  · have hne : (node : Nat) ≠ other := fun h => heq (Fin.ext h.symm)
    rw [if_neg heq]
    exact Vector.getElem_set_ne node.isLt other.isLt hne

@[simp]
theorem mark_enter (node other : Fin n) : (walk.enter successors node).mark other
    = if other = node then .active else walk.mark other :=
  get_set walk.marks node other .active

theorem mark_leave (frame : Frame n) (below : List (Frame n)) (other : Fin n) :
    (walk.leave frame below).mark other
      = if other = frame.node then .finished frame.level else walk.mark other :=
  get_set walk.marks frame.node other (.finished frame.level)

/-- The walk with the node of a frame finished, before the parent hears of its level. -/
def popped (walk : Walk n) (frame : Frame n) (below : List (Frame n)) : Walk n :=
  { walk.leave frame [] with stack := below }

@[simp]
theorem popped_stack (frame : Frame n) (below : List (Frame n)) :
    (walk.popped frame below).stack = below := rfl

theorem mark_popped (frame : Frame n) (below : List (Frame n)) (other : Fin n) :
    (walk.popped frame below).mark other
      = if other = frame.node then .finished frame.level else walk.mark other :=
  mark_leave frame [] other

/-! ### The parts of a step -/

theorem sound_start : Sound successors [] (start : Walk n) where
  active_iff node := by simp [start, mark]
  nodup := by simp [start]
  stacked := trivial
  finished node level hmark := by simp [start, mark] at hmark
  unseen node _ := by simp [start]

namespace Sound

/-- The innermost frame begins to look at its next successor. -/
theorem advance {frame : Frame n} {below : List (Frame n)} {next : Fin n} {rest : List (Fin n)}
    (hsound : Sound successors [] walk) (hstack : walk.stack = frame :: below)
    (hrest : frame.rest = next :: rest) :
    Sound successors [next] { walk with stack := { frame with rest } :: below } := by
  have hactive := hsound.active_iff
  have hnodup := hsound.nodup
  have hstacked := hsound.stacked
  rw [hstack] at hactive hnodup hstacked
  obtain ⟨⟨seen, hseen, hsettled⟩, hbelow⟩ := hstacked
  exact
    { active_iff := hactive
      nodup := hnodup
      stacked := ⟨⟨seen, by simpa [hrest] using hseen, hsettled⟩, hbelow⟩
      finished := hsound.finished
      unseen := hsound.unseen }

/-- The level of the awaited successor is known. -/
theorem resume {frame : Frame n} {below : List (Frame n)} {next : Fin n}
    (hsound : Sound successors [next] walk) (level : Option Nat)
    (hstack : walk.stack = frame :: below)
    (hsome : ∀ known, level = some known → walk.level? next = some known)
    (hnone : level = none → ReachesCycle successors next) :
    Sound successors []
      { walk with stack := { frame with level := deeper frame.level level } :: below } := by
  have hactive := hsound.active_iff
  have hnodup := hsound.nodup
  have hstacked := hsound.stacked
  rw [hstack] at hactive hnodup hstacked
  obtain ⟨⟨seen, hseen, hsettled⟩, hbelow⟩ := hstacked
  have hleads : Leads successors frame.node next := by
    unfold Leads
    simp [hseen]
  have hsettled' : Settled successors walk.level? frame.node (seen ++ [next])
      (deeper frame.level level) := by
    cases hlevel : level with
    | none =>
        obtain ⟨member, hreach, hcycle⟩ := hnone hlevel
        rw [deeper_none_right]
        exact ⟨member, .head hleads hreach, hcycle⟩
    | some known =>
        cases hframe : frame.level with
        | none => simpa [hframe, Settled] using hsettled
        | some old =>
            rw [hframe] at hsettled
            change levelOver walk.level? (seen ++ [next]) = deeper (some old) (some known)
            rw [levelOver_concat, show levelOver walk.level? seen = some old from hsettled,
              hsome known hlevel]
  exact
    { active_iff := hactive
      nodup := hnodup
      stacked := ⟨⟨seen ++ [next], by simpa using hseen, hsettled'⟩, hbelow⟩
      finished := hsound.finished
      unseen := hsound.unseen }

theorem enter {node : Fin n} (hsound : Sound successors [node] walk)
    (hunseen : walk.mark node = .unseen) : Sound successors [] (walk.enter successors node) := by
  have hmono := level?_mono walk (walk.enter successors node) node
    (fun other hne => by rw [mark_enter, if_neg hne]) (by simp [hunseen])
  have hfresh : node ∉ walk.stack.map (·.node) := by
    rw [← hsound.active_iff, hunseen]
    simp
  refine
    { active_iff := fun other => ?_
      nodup := ?_
      stacked := ?_
      finished := fun other level hother => ?_
      unseen := fun other hother => ?_ }
  · rw [mark_enter]
    by_cases heq : other = node
    · simp [heq, Walk.enter]
    · simp [heq, Walk.enter, hsound.active_iff other]
  · exact List.nodup_cons.mpr ⟨hfresh, hsound.nodup⟩
  · exact ⟨⟨[], rfl, rfl⟩, hsound.stacked.mono hmono⟩
  · rw [mark_enter] at hother
    by_cases heq : other = node
    · simp [heq] at hother
    · rw [if_neg heq] at hother
      exact (hsound.finished other level hother).mono hmono
  · rw [mark_enter] at hother
    by_cases heq : other = node
    · simp [heq] at hother
    · rw [if_neg heq] at hother
      exact hsound.unseen other hother

/-- A node is left when it has looked at all of its successors. -/
theorem pop {frame : Frame n} {below : List (Frame n)} (hsound : Sound successors [] walk)
    (hstack : walk.stack = frame :: below) (hrest : frame.rest = []) :
    Sound successors [frame.node] (walk.popped frame below) := by
  have hactive := hsound.active_iff
  have hnodup := hsound.nodup
  have hstacked := hsound.stacked
  rw [hstack] at hactive hnodup hstacked
  obtain ⟨⟨seen, hseen, hsettled⟩, hbelow⟩ := hstacked
  rw [hrest, List.append_nil, List.append_nil] at hseen
  obtain ⟨hfresh, hnodup⟩ := List.nodup_cons.mp hnodup
  have hframe : walk.mark frame.node = .active := (hactive frame.node).mpr (by simp)
  have hmono := level?_mono walk (walk.popped frame below) frame.node
    (fun other hne => by rw [mark_popped, if_neg hne]) (by simp [hframe])
  refine
    { active_iff := fun other => ?_
      nodup := hnodup
      stacked := hbelow.mono hmono
      finished := fun other level hother => ?_
      unseen := fun other hother => ?_ }
  · rw [mark_popped]
    by_cases heq : other = frame.node
    · simpa [heq] using hfresh
    · simp [heq, hactive other]
  · rw [mark_popped] at hother
    by_cases heq : other = frame.node
    · rw [if_pos heq] at hother
      cases hother
      rw [heq, hseen]
      exact hsettled.mono hmono
    · rw [if_neg heq] at hother
      exact (hsound.finished other level hother).mono hmono
  · rw [mark_popped] at hother
    by_cases heq : other = frame.node
    · simp [heq] at hother
    · rw [if_neg heq] at hother
      exact hsound.unseen other hother

theorem leave {frame : Frame n} {below : List (Frame n)} (hsound : Sound successors [] walk)
    (hstack : walk.stack = frame :: below) (hrest : frame.rest = []) :
    Sound successors [] (walk.leave frame below) := by
  have hpop := hsound.pop hstack hrest
  cases below with
  | nil => exact { hpop with stacked := trivial }
  | cons parent others =>
      have hmark :
          (walk.popped frame (parent :: others)).mark frame.node = .finished frame.level := by
        rw [mark_popped, if_pos rfl]
      refine hpop.resume frame.level rfl (fun known hknown => ?_) fun hnone => ?_
      · rw [level?_eq_some, hmark, hknown]
      · have hsettled := hpop.finished frame.node frame.level hmark
        rwa [hnone] at hsettled

/-- A root that has been entered is no longer needed. -/
theorem dropRoot {root : Fin n} {roots : List (Fin n)} (hsound : Sound successors awaited walk)
    (hroots : walk.roots = root :: roots) (hseen : walk.mark root ≠ .unseen) :
    Sound successors awaited { walk with roots } where
  active_iff := hsound.active_iff
  nodup := hsound.nodup
  stacked := hsound.stacked
  finished := hsound.finished
  unseen node hnode := by
    have hmem := hsound.unseen node hnode
    rw [hroots, List.mem_cons] at hmem
    refine hmem.resolve_left fun heq => hseen ?_
    rw [← heq]
    exact hnode

end Sound

/-! ### Steps -/

variable (successors) in
/-- What a step can do. -/
inductive Moves (walk : Walk n) : Walk n → Prop where
  | begin {root : Fin n} {roots : List (Fin n)} (hstack : walk.stack = [])
      (hroots : walk.roots = root :: roots) (hmark : walk.mark root = .unseen) :
      Moves walk ({ walk with roots }.enter successors root)
  | skip {root : Fin n} {roots : List (Fin n)} (hstack : walk.stack = [])
      (hroots : walk.roots = root :: roots) (hmark : walk.mark root ≠ .unseen) :
      Moves walk { walk with roots }
  | leave {frame : Frame n} {below : List (Frame n)} (hstack : walk.stack = frame :: below)
      (hrest : frame.rest = []) : Moves walk (walk.leave frame below)
  | descend {frame : Frame n} {below : List (Frame n)} {next : Fin n} {rest : List (Fin n)}
      (hstack : walk.stack = frame :: below) (hrest : frame.rest = next :: rest)
      (hmark : walk.mark next = .unseen) :
      Moves walk ({ walk with stack := { frame with rest } :: below }.enter successors next)
  | close {frame : Frame n} {below : List (Frame n)} {next : Fin n} {rest : List (Fin n)}
      (hstack : walk.stack = frame :: below) (hrest : frame.rest = next :: rest)
      (hmark : walk.mark next = .active) :
      Moves walk { walk with stack := { frame with rest, level := none } :: below }
  | pass {frame : Frame n} {below : List (Frame n)} {next : Fin n} {rest : List (Fin n)}
      {level : Option Nat} (hstack : walk.stack = frame :: below)
      (hrest : frame.rest = next :: rest) (hmark : walk.mark next = .finished level) :
      Moves walk
        { walk with stack := { frame with rest, level := deeper frame.level level } :: below }

theorem moves_of_step {newWalk : Walk n} (hstep : walk.step successors = some newWalk) :
    Moves successors walk newWalk := by
  obtain ⟨marks, stack, roots⟩ := walk
  cases stack with
  | nil =>
      cases roots with
      | nil => cases hstep
      | cons root roots =>
          simp only [step] at hstep
          split at hstep
          · next hmark => exact Option.some.inj hstep ▸ .begin rfl rfl hmark
          · next hmark => exact Option.some.inj hstep ▸ .skip rfl rfl hmark
  | cons frame below =>
      cases hrest : frame.rest with
      | nil =>
          simp only [step, hrest] at hstep
          exact Option.some.inj hstep ▸ .leave rfl hrest
      | cons next rest =>
          simp only [step, hrest] at hstep
          split at hstep
          · next hmark => exact Option.some.inj hstep ▸ .descend rfl hrest hmark
          · next hmark => exact Option.some.inj hstep ▸ .close rfl hrest hmark
          · next hmark => exact Option.some.inj hstep ▸ .pass rfl hrest hmark

/-- A frame awaits and has yet to look at successors of its node only. -/
theorem Stacked.leads {frame : Frame n} {below : List (Frame n)} {next : Fin n}
    (hstacked : Stacked successors levelOf awaited (frame :: below))
    (hnext : next ∈ awaited ++ frame.rest) : Leads successors frame.node next := by
  obtain ⟨⟨seen, hseen, -⟩, -⟩ := hstacked
  unfold Leads
  rw [hseen, List.append_assoc]
  exact List.mem_append_right seen hnext

/-- A successor on the stack is the beginning of a path that comes back to it. -/
theorem Stacked.reflTransGen {frame : Frame n} {below : List (Frame n)}
    (hstacked : Stacked successors levelOf awaited (frame :: below)) {node : Fin n}
    (hnode : node ∈ (frame :: below).map (·.node)) :
    Relation.ReflTransGen (Leads successors) node frame.node := by
  induction below generalizing frame awaited with
  | nil =>
      rw [List.map_cons, List.map_nil, List.mem_singleton] at hnode
      rw [hnode]
  | cons parent others ih =>
      obtain ⟨-, hbelow⟩ := hstacked
      rw [List.map_cons, List.mem_cons] at hnode
      rcases hnode with rfl | hnode
      · exact .refl
      · exact (ih hbelow hnode).tail (hbelow.leads List.mem_cons_self)

theorem reachesCycle_of_active (hsound : Sound successors [] walk) {frame : Frame n}
    {below : List (Frame n)} (hstack : walk.stack = frame :: below) {next : Fin n}
    (hleads : Leads successors frame.node next) (hmark : walk.mark next = .active) :
    ReachesCycle successors next := by
  have hmem := (hsound.active_iff next).mp hmark
  have hstacked := hsound.stacked
  rw [hstack] at hmem hstacked
  have hpath := hstacked.reflTransGen hmem
  exact ⟨next, .refl, Relation.TransGen.tail' hpath hleads⟩

theorem Sound.moves {newWalk : Walk n} (hsound : Sound successors [] walk)
    (hmoves : Moves successors walk newWalk) : Sound successors [] newWalk := by
  cases hmoves with
  | @begin root roots hstack hroots hmark =>
      have hawaited : Sound successors [root] walk :=
        { hsound with stacked := by rw [hstack]; trivial }
      have hentered : (walk.enter successors root).mark root ≠ .unseen := by simp
      exact (hawaited.enter hmark).dropRoot hroots hentered
  | skip hstack hroots hmark => exact hsound.dropRoot hroots hmark
  | leave hstack hrest => exact hsound.leave hstack hrest
  | descend hstack hrest hmark => exact (hsound.advance hstack hrest).enter hmark
  | @close frame below next rest hstack hrest hmark =>
      have hstacked := hsound.stacked
      rw [hstack] at hstacked
      have hleads := hstacked.leads (hrest ▸ List.mem_cons_self)
      have hcycle := reachesCycle_of_active hsound hstack hleads hmark
      have hresumed := (hsound.advance hstack hrest).resume none rfl
        (fun known hknown => by cases hknown) fun _ => hcycle
      simpa using hresumed
  | @pass frame below next rest level hstack hrest hmark =>
      refine (hsound.advance hstack hrest).resume level rfl (fun known hknown => ?_) fun hnone => ?_
      · rw [level?_eq_some, ← hknown]
        exact hmark
      · have hsettled := hsound.finished next level hmark
        rwa [hnone] at hsettled

end Walk

end Assembly
