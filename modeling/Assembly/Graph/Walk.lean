/-!
A walk through a directed graph in depth, with a stack of its own. It enters every node once, looks at
each of its successors once, and leaves the node with its level: zero without successors, otherwise one
more than the highest level of a successor. A node on a cycle, or from which a cycle can be reached,
has no level.
-/

namespace Assembly

inductive Mark where
  | unseen
  /-- The node is on the stack. -/
  | active
  | finished (level : Option Nat)
deriving DecidableEq, Inhabited

/-- A node that has been entered and not left. -/
structure Frame (n : Nat) where
  node : Fin n
  /-- The successors that have not been looked at. -/
  rest : List (Fin n)
  /-- The level so far. -/
  level : Option Nat
deriving DecidableEq

structure Walk (n : Nat) where
  marks : Vector Mark n
  /-- The innermost frame comes first. -/
  stack : List (Frame n)
  /-- The nodes at which the walk has yet to begin, unless it comes to them before. -/
  roots : List (Fin n)
deriving DecidableEq

/-- A level with regard to one more successor. -/
def deeper : Option Nat → Option Nat → Option Nat
  | some level, some successor => some (max level (successor + 1))
  | _, _ => none

namespace Walk

variable {n : Nat} (successors : Fin n → List (Fin n))

def start : Walk n :=
  ⟨Vector.replicate n .unseen, [], List.finRange n⟩

def mark (walk : Walk n) (node : Fin n) : Mark :=
  walk.marks[node]

def enter (walk : Walk n) (node : Fin n) : Walk n :=
  { walk with
    marks := walk.marks.set node .active
    stack := ⟨node, successors node, some 0⟩ :: walk.stack }

/-- Leaves the node of a frame, below which the given frames are. -/
def leave (walk : Walk n) (frame : Frame n) (below : List (Frame n)) : Walk n :=
  { walk with
    marks := walk.marks.set frame.node (.finished frame.level)
    stack :=
      match below with
      | [] => []
      | parent :: others => { parent with level := deeper parent.level frame.level } :: others }

/-- One step of the walk, or none if it is over. -/
def step (walk : Walk n) : Option (Walk n) :=
  match walk.stack, walk.roots with
  | [], [] => none
  | [], root :: roots =>
    let walk := { walk with roots }
    match walk.mark root with
    | .unseen => some (walk.enter successors root)
    | _ => some walk
  | frame :: below, _ =>
    match frame.rest with
    | [] => some (walk.leave frame below)
    | next :: rest =>
      let onward := fun level => { walk with stack := { frame with rest, level } :: below }
      match walk.mark next with
      | .unseen => some ((onward frame.level).enter successors next)
      | .active => some (onward none)
      | .finished level => some (onward (deeper frame.level level))

/-- The number of steps of a whole walk: one for each root, one for each successor and one to leave
each node. -/
def stepCount : Nat :=
  2 * n + ((List.finRange n).flatMap successors).length

def run : Nat → Walk n → Walk n
  | 0, walk => walk
  | steps + 1, walk =>
    match walk.step successors with
    | none => walk
    | some next => run steps next

def finish : Walk n :=
  run successors (stepCount successors) start

/-- The level of each node. -/
def levels : Vector (Option Nat) n :=
  (finish successors).marks.map fun
    | .finished level => level
    | _ => none

end Walk

end Assembly
