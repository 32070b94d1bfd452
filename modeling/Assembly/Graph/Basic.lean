import Assembly.Lookup

/-!
The graph of the components that take part: what each dependency is bound to, and which components
have to be constructed before which others.
-/

namespace Assembly

/-- How a component relates to one that it needs. -/
inductive EdgeKind where
  | direct
  /-- An order without injection. -/
  | dependsOn
  | deferred
  | optional
deriving DecidableEq, Inhabited

/-- Hard edges say what is constructed first. -/
def EdgeKind.isHard : EdgeKind → Bool
  | .direct => true
  | .dependsOn => true
  | .deferred => false
  | .optional => false

def EdgeKind.name : EdgeKind → String
  | .direct => "direct"
  | .dependsOn => "depends_on"
  | .deferred => "deferred"
  | .optional => "optional"

def Dependency.edgeKind (dependency : Dependency) : EdgeKind :=
  match dependency.handover with
  | .direct => if dependency.allowMissing then .optional else .direct
  | .deferred => .deferred
  | .optional => .optional

/-- What a dependency is bound to among `n` components. -/
inductive Bound (n : Nat) where
  | provider (node : Fin n)
  | missing
  | literal (token : String)
deriving DecidableEq, Inhabited

def Bound.provider? {n : Nat} : Bound n → Option (Fin n)
  | .provider node => some node
  | .missing => none
  | .literal _ => none

structure Binding (n : Nat) where
  position : Position
  handover : Handover
  allowMissing : Bool
  target : Bound n
deriving DecidableEq, Inhabited

structure Link (n : Nat) where
  target : Fin n
  kind : EdgeKind
deriving DecidableEq

structure Node (n : Nat) where
  component : Component
  /-- One for each injected dependency, in their order. -/
  bindings : List (Binding n)
  /-- First those of injected dependencies, then those of the order without injection. -/
  links : List (Link n)
deriving DecidableEq, Inhabited

/-- Adds the target of a link, if the link is hard and the target has not been added before. -/
def addHard {n : Nat} (targets : List (Fin n)) (link : Link n) : List (Fin n) :=
  if link.kind.isHard && !targets.contains link.target then targets ++ [link.target] else targets

/-- The nodes that have to be constructed first, each of them once. -/
def Node.hard {n : Nat} (node : Node n) : List (Fin n) :=
  node.links.foldl addHard []

/-- An edge between components, by their names. -/
structure Edge where
  consumer : String
  provider : String
  kind : EdgeKind
deriving DecidableEq, Inhabited

section Building

variable {n : Nat} (lookup : Lookup) (index : NameMap (Fin n))

/-- The node of a component that has been looked up. -/
def nodeOf? (found : Option Component) : Option (Fin n) :=
  found.bind fun provider => index.get? provider.displayName

def Dependency.bound (dependency : Dependency) : Bound n :=
  match dependency.literal with
  | some token => .literal token
  | none =>
    match nodeOf? index
        (lookup.find dependency.requestedType dependency.qualifier).provider? with
    | some node => .provider node
    | none => .missing

def Dependency.binding (position : Position) (dependency : Dependency) : Binding n where
  position := position
  handover := dependency.handover
  allowMissing := dependency.allowMissing
  target := dependency.bound lookup index

def Dependency.link? (dependency : Dependency) : Option (Link n) :=
  (dependency.bound lookup index).provider?.map fun target => ⟨target, dependency.edgeKind⟩

/-- The node of a component that is constructed first without being injected. -/
def orderNode? (name : String) : Option (Fin n) :=
  nodeOf? index (lookup.byDisplayName? name)

def Node.ofComponent (component : Component) : Node n where
  component := component
  bindings := component.dependencies.map fun (position, dependency) =>
    dependency.binding lookup index position
  links :=
    component.dependencies.filterMap (fun (_, dependency) => dependency.link? lookup index)
      ++ component.dependsOn.filterMap (fun name =>
        (orderNode? lookup index name).map fun target => ⟨target, .dependsOn⟩)

end Building

structure Graph where
  size : Nat
  /-- The node of each name, the last one if several components share it. -/
  index : NameMap (Fin size)
  nodes : Vector (Node size) size

namespace Graph

/-- The graph of components in the given order, whose dependencies are looked up. -/
def ofList (components : List Component) (lookup : Lookup) : Graph :=
  let index := NameMap.ofList
    (List.ofFn fun node : Fin components.length => (components[node].displayName, node))
  ⟨components.length, index,
    Vector.ofFn fun node => Node.ofComponent lookup index components[node]⟩

def component (graph : Graph) (node : Fin graph.size) : Component :=
  (graph.nodes.get node).component

def bindings (graph : Graph) (node : Fin graph.size) : List (Binding graph.size) :=
  (graph.nodes.get node).bindings

/-- The nodes that have to be constructed before a node. -/
def hard (graph : Graph) (node : Fin graph.size) : List (Fin graph.size) :=
  (graph.nodes.get node).hard

def allNodes (graph : Graph) : List (Fin graph.size) :=
  List.finRange graph.size

def components (graph : Graph) : List Component :=
  graph.allNodes.map graph.component

def edgesOf (graph : Graph) (node : Fin graph.size) : List Edge :=
  (graph.nodes.get node).links.map fun link =>
    ⟨(graph.component node).displayName, (graph.component link.target).displayName, link.kind⟩

/-- All edges, those of one component side by side. -/
def edges (graph : Graph) : List Edge :=
  graph.allNodes.flatMap graph.edgesOf

end Graph

end Assembly
