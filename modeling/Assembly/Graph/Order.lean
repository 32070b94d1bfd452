import Assembly.Finding.Basic
import Assembly.Graph.Basic
import Assembly.Graph.Trail

/-!
The order of construction: by level, and among components of one level by declaration.
-/

namespace Assembly.Graph

/-- The length of the longest chain of components that have to be constructed before a node. On a cycle
and behind it there is none. -/
def levels (graph : Graph) : Vector (Option Nat) graph.size :=
  Walk.levels graph.hard

def cycle? (graph : Graph) : Option Cycle :=
  (Trail.cycle? graph.hard).map fun nodes =>
    ⟨nodes.map fun node => (graph.component node).displayName⟩

/-- Whether a node may come before another one, where a missing level counts as zero. -/
def ordered (graph : Graph) (levels : Vector (Option Nat) graph.size)
    (first second : Fin graph.size) : Bool :=
  let left := (levels.get first).getD 0
  let right := (levels.get second).getD 0
  left < right
    || left = right && (graph.component first).declaredBefore (graph.component second)

/-- All nodes, each of them behind those that have to be constructed before it. -/
def order (graph : Graph) : Except Cycle (List (Fin graph.size)) :=
  match graph.cycle? with
  | some cycle => .error cycle
  | none =>
    let levels := graph.levels
    .ok (graph.allNodes.mergeSort (graph.ordered levels))

end Assembly.Graph
