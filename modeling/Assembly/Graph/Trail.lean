import Assembly.Graph.Walk

/-!
A search for a cycle in depth. Every node on the chain is a successor of the one outside it, so that a
successor that is on the chain itself closes a cycle. What can be reached from a visited node has been
checked.
-/

namespace Assembly

structure Trail (n : Nat) where
  visited : Vector Bool n
  onChain : Vector Bool n
  /-- The nodes with those of their successors that have not been checked. The innermost node comes
  first. -/
  chain : List (Fin n × List (Fin n))
  /-- The nodes at which the search has yet to begin, unless they are visited before. -/
  roots : List (Fin n)
deriving DecidableEq

/-- What comes of one step of a search. -/
inductive Advance (n : Nat) where
  | over
  | closed (cycle : List (Fin n))
  | onward (trail : Trail n)
deriving DecidableEq

namespace Trail

variable {n : Nat} (successors : Fin n → List (Fin n))

def start : Trail n :=
  ⟨Vector.replicate n false, Vector.replicate n false, [], List.finRange n⟩

def isVisited (trail : Trail n) (node : Fin n) : Bool :=
  trail.visited.get node

def isOnChain (trail : Trail n) (node : Fin n) : Bool :=
  trail.onChain.get node

def push (trail : Trail n) (node : Fin n) : Trail n :=
  { trail with
    onChain := trail.onChain.set node true node.isLt
    chain := (node, successors node) :: trail.chain }

/-- Takes the innermost node off the chain, outside which the given nodes are. -/
def pop (trail : Trail n) (node : Fin n) (outside : List (Fin n × List (Fin n))) : Trail n :=
  { trail with
    visited := trail.visited.set node true node.isLt
    onChain := trail.onChain.set node false node.isLt
    chain := outside }

/-- The nodes of the chain inwards from the place of a node, from its beginning if the node is not
there. -/
def inwards (trail : Trail n) (node : Fin n) : List (Fin n) :=
  let nodes := (trail.chain.map (·.1)).reverse
  nodes.drop ((nodes.findIdx? (· = node)).getD 0)

def step (trail : Trail n) : Advance n :=
  match trail.chain, trail.roots with
  | [], [] => .over
  | [], root :: roots =>
    let trail := { trail with roots }
    if trail.isVisited root then .onward trail else .onward (trail.push successors root)
  | (node, []) :: outside, _ => .onward (trail.pop node outside)
  | (node, next :: rest) :: outside, _ =>
    let trail := { trail with chain := (node, rest) :: outside }
    if trail.isOnChain next then .closed (trail.inwards next)
    else if trail.isVisited next then .onward trail
    else .onward (trail.push successors next)

/-- The first cycle that the search comes upon. -/
def search : Nat → Trail n → Option (List (Fin n))
  | 0, _ => none
  | steps + 1, trail =>
    match trail.step successors with
    | .over => none
    | .closed cycle => some cycle
    | .onward next => search steps next

/-- The nodes of a cycle, each of which has the next one as a successor and the last one the first. The
search takes as many steps as a whole walk at most. -/
def cycle? : Option (List (Fin n)) :=
  search successors (Walk.stepCount successors) start

end Trail

end Assembly
