import Mathlib.Data.List.OfFn
import Assembly.Proofs.Lookup.Resemblance
import Assembly.Proofs.Planning.Promotion
import Assembly.Proofs.Planning.Run

/-!
# Graphs of components that resemble each other

Two graphs have the same nodes, and the components of each node resemble each other and are declared
in one order. Then every dependency is bound to the same node in both of them. If moreover every
node has to be constructed after the same nodes, the graphs have the same levels, the same cycle and
the same sequence of construction.
-/

namespace Assembly

/-- The graph of the components of `n` nodes. -/
abbrev Graph.ofFn {n : Nat} (component : Fin n → Component) : Graph :=
  let index := NameMap.ofList (List.ofFn fun node => ((component node).displayName, node))
  ⟨n, index, Vector.ofFn fun node =>
    Node.ofComponent (Lookup.ofList (List.ofFn component)) index (component node)⟩

/-- The components of each node resemble each other, and they are declared in one order. -/
structure Alike {n : Nat} (first second : Fin n → Component) : Prop where
  resembles : ∀ node, (first node).Resembles (second node)
  declaredBefore : ∀ node other,
    (second node).declaredBefore (second other) = (first node).declaredBefore (first other)
  distinct : Distinct (List.ofFn first)
  ascending : (List.ofFn first).Pairwise (·.declarationIndex ≤ ·.declarationIndex)

namespace Graph

variable {n : Nat} (component : Fin n → Component)

theorem ofComponents_ofFn : ofComponents (List.ofFn component) = ofFn component := by
  have hget : ∀ components, ofComponents components = ofFn components.get := by
    intro components
    unfold ofFn
    rw [List.ofFn_get]
    rfl
  -- The sizes agree only up to an equation, which has to be eliminated first.
  have hcast : ∀ {size} (hsize : size = n) (other : Fin size → Component),
      (∀ node, other node = component (node.cast hsize)) → ofFn other = ofFn component := by
    rintro _ rfl other hother
    exact congrArg ofFn (funext hother)
  rw [hget]
  exact hcast List.length_ofFn _ fun node => List.get_ofFn component node

theorem nodes_ofFn (node : Fin n) :
    (ofFn component).nodes.get node
      = Node.ofComponent (Lookup.ofList (List.ofFn component)) (ofFn component).index
        (component node) :=
  Vector.getElem_ofFn node.isLt

theorem component_ofFn (node : Fin n) : (ofFn component).component node = component node :=
  congrArg Node.component (nodes_ofFn component node)

theorem components_ofFn : (ofFn component).components = (List.finRange n).map component :=
  List.map_congr_left fun node _ => component_ofFn component node

theorem displayName_ofFn_injective {component : Fin n → Component}
    (hdistinct : Distinct (List.ofFn component)) :
    Function.Injective fun node => ((ofFn component).component node).displayName := by
  have hnames := hdistinct.nodup_displayName
  rw [List.map_ofFn] at hnames
  intro first second heq
  simp only [component_ofFn] at heq
  exact List.nodup_ofFn.mp hnames heq

theorem bindings_ofFn (node : Fin n) :
    (ofFn component).bindings node
      = (component node).dependencies.map fun entry =>
        entry.2.binding (Lookup.ofList (List.ofFn component)) (ofFn component).index entry.1 :=
  congrArg Node.bindings (nodes_ofFn component node)

theorem edgesOf_ofFn (node : Fin n) :
    (ofFn component).edgesOf node
      = ((ofFn component).nodes.get node).links.map fun link =>
        ⟨(component node).displayName, (component link.target).displayName, link.kind⟩ := by
  unfold edgesOf
  simp only [component_ofFn]

theorem fragilities_ofFn :
    (ofFn component).fragilities
      = (List.finRange n).flatMap fun node => ((ofFn component).hard node).flatMap fun provider =>
        (component node).fragilities (component provider) := by
  unfold fragilities
  simp only [component_ofFn]
  rfl

variable (lookup : Lookup) (strict : Bool)

theorem errors_findings_ofFn :
    ((ofFn component).findings lookup strict).errors
      = (List.finRange n).flatMap fun node =>
        (component node).dependencies.flatMap
            (Dependency.faults lookup strict (component node).displayName)
          ++ (ofFn component).orderFaults lookup (component node) := by
  unfold findings
  dsimp only
  rw [components_ofFn, List.map_flatMap, List.flatMap_map]
  simp only [faultsOf_eq]

theorem warnings_findings_ofFn :
    ((ofFn component).findings lookup strict).warnings
      = (List.finRange n).flatMap fun node =>
        (component node).dependencies.flatMap
          (Dependency.warnings lookup strict (component node).displayName) := by
  unfold findings
  dsimp only
  rw [components_ofFn, List.flatMap_map]
  simp only [warningsOf_eq]

end Graph

/-- A run with the components of `n` nodes. -/
theorem Activation.plan_ofFn {n : Nat} (component : Fin n → Component)
    (excluded : List Exclusion) (strict : Bool) :
    let findings := (Graph.ofFn component).allFindings (Lookup.ofList (List.ofFn component)) strict
      excluded
    Activation.plan ⟨List.ofFn component, excluded⟩ strict
      = if findings.errors = [] then
          .ok ((Graph.ofFn component).plan (Graph.ofFn component).sorted findings)
        else .error findings := by
  rw [plan_eq, Activation.findings, Graph.ofComponents_ofFn]

namespace Alike

variable {n : Nat} {first second : Fin n → Component} (halike : Alike first second)
include halike

theorem forall₂ : List.Forall₂ Component.Resembles (List.ofFn first) (List.ofFn second) := by
  rw [List.ofFn_eq_map, List.ofFn_eq_map, List.forall₂_map_left_iff, List.forall₂_map_right_iff,
    List.forall₂_same]
  intro node _
  exact halike.resembles node

theorem ascending_second :
    (List.ofFn second).Pairwise (·.declarationIndex ≤ ·.declarationIndex) := by
  rw [List.pairwise_ofFn]
  intro node other hlt
  have hbefore := halike.declaredBefore node other
  have hle := List.pairwise_ofFn.mp halike.ascending hlt
  simpa [Component.declaredBefore, hle] using hbefore

theorem distinct_second : Distinct (List.ofFn second) := by
  apply List.pairwise_ofFn.mpr
  intro node other hlt
  have hapart := List.pairwise_ofFn.mp halike.distinct hlt
  refine
    { qualifiedName := ?_
      displayName := ?_
      declarationIndex := fun heq => hapart.declarationIndex ?_ }
  · rw [(halike.resembles node).qualifiedName, (halike.resembles other).qualifiedName]
    exact hapart.qualifiedName
  · rw [(halike.resembles node).displayName, (halike.resembles other).displayName]
    exact hapart.displayName
  · -- Components of one index are each declared before the other one, in both assignments.
    have hbefore := halike.declaredBefore node other
    have hbehind := halike.declaredBefore other node
    simp only [Component.declaredBefore, heq, UInt32.le_refl, decide_true, eq_comm (a := true),
      decide_eq_true_eq] at hbefore hbehind
    exact UInt32.le_antisymm hbefore hbehind

theorem lookup_resembles :
    (Lookup.ofList (List.ofFn first)).Resembles (Lookup.ofList (List.ofFn second)) :=
  Assembly.lookup_resembles halike.distinct halike.distinct_second halike.ascending
    halike.ascending_second halike.forall₂

/-! ### The graph -/

theorem displayName_eq (node : Fin n) :
    ((Graph.ofFn second).component node).displayName
      = ((Graph.ofFn first).component node).displayName := by
  rw [Graph.component_ofFn, Graph.component_ofFn]
  exact (halike.resembles node).displayName

theorem index_eq : (Graph.ofFn second).index = (Graph.ofFn first).index := by
  have hnames : (fun node => ((second node).displayName, node))
      = fun node => ((first node).displayName, node) :=
    funext fun node => congrArg (·, node) (halike.resembles node).displayName
  exact congrArg (fun names => NameMap.ofList (List.ofFn names)) hnames

theorem bound_eq (dependency : Dependency) :
    dependency.bound (Lookup.ofList (List.ofFn second)) (Graph.ofFn second).index
      = dependency.bound (Lookup.ofList (List.ofFn first)) (Graph.ofFn first).index := by
  rw [halike.lookup_resembles.bound_eq]
  exact congrArg (dependency.bound (Lookup.ofList (List.ofFn first))) halike.index_eq

theorem binding_eq (position : Position) (dependency : Dependency) :
    dependency.binding (Lookup.ofList (List.ofFn second)) (Graph.ofFn second).index position
      = dependency.binding (Lookup.ofList (List.ofFn first)) (Graph.ofFn first).index position := by
  unfold Dependency.binding
  rw [halike.bound_eq]

theorem link?_eq (dependency : Dependency) :
    dependency.link? (Lookup.ofList (List.ofFn second)) (Graph.ofFn second).index
      = dependency.link? (Lookup.ofList (List.ofFn first)) (Graph.ofFn first).index := by
  unfold Dependency.link?
  rw [halike.bound_eq]

theorem orderNode?_eq (name : String) :
    orderNode? (Lookup.ofList (List.ofFn second)) (Graph.ofFn second).index name
      = orderNode? (Lookup.ofList (List.ofFn first)) (Graph.ofFn first).index name := by
  rw [halike.lookup_resembles.orderNode?_eq]
  exact congrArg (orderNode? (Lookup.ofList (List.ofFn first)) · name) halike.index_eq

theorem orderFaults_eq (node : Fin n) :
    (Graph.ofFn second).orderFaults (Lookup.ofList (List.ofFn second)) (second node)
      = (Graph.ofFn first).orderFaults (Lookup.ofList (List.ofFn first)) (first node) := by
  unfold Graph.orderFaults
  rw [(halike.resembles node).displayName, (halike.resembles node).dependsOn]
  refine congrArg (List.map _) (List.filter_congr fun name _ => ?_)
  exact congrArg Option.isNone (halike.orderNode?_eq name)

theorem argument_eq (binding : Binding n) :
    (Graph.ofFn second).argument binding = (Graph.ofFn first).argument binding := by
  have hname : (fun node => ((Graph.ofFn second).component node).displayName)
      = fun node => ((Graph.ofFn first).component node).displayName := funext halike.displayName_eq
  unfold Graph.argument
  cases binding.target with
  | literal token => rfl
  | missing => rfl
  | provider node => simp only [halike.displayName_eq node]

section Hard

variable (hhard : (Graph.ofFn second).hard = (Graph.ofFn first).hard)
include hhard

omit halike in
theorem levels_eq : (Graph.ofFn second).levels = (Graph.ofFn first).levels :=
  congrArg Walk.levels hhard

theorem cycle?_eq : (Graph.ofFn second).cycle? = (Graph.ofFn first).cycle? := by
  have hnames : (fun nodes : List (Fin n) => Cycle.mk (nodes.map fun node =>
        ((Graph.ofFn second).component node).displayName))
      = fun nodes => ⟨nodes.map fun node => ((Graph.ofFn first).component node).displayName⟩ :=
    funext fun nodes => congrArg Cycle.mk (List.map_congr_left fun node _ =>
      halike.displayName_eq node)
  unfold Graph.cycle?
  exact congrArg₂ Option.map hnames (congrArg Trail.cycle? hhard)

theorem sorted_eq : (Graph.ofFn second).sorted = (Graph.ofFn first).sorted := by
  have hordered : (Graph.ofFn second).ordered (Graph.ofFn second).levels
      = (Graph.ofFn first).ordered (Graph.ofFn first).levels := by
    rw [levels_eq hhard]
    funext node other
    unfold Graph.ordered
    rw [Graph.component_ofFn, Graph.component_ofFn, Graph.component_ofFn, Graph.component_ofFn,
      halike.declaredBefore]
  exact congrArg (fun ordered => (List.finRange n).mergeSort ordered) hordered

theorem sequence_eq : (Graph.ofFn second).sequence = (Graph.ofFn first).sequence := by
  have hscope : ∀ scope, (fun node => decide (((Graph.ofFn second).component node).scope = scope))
      = fun node => decide (((Graph.ofFn first).component node).scope = scope) := by
    intro scope
    funext node
    rw [Graph.component_ofFn, Graph.component_ofFn, (halike.resembles node).scope]
  unfold Graph.sequence
  exact congrArg₂ (· ++ ·) (congrArg₂ List.filter (hscope _) (halike.sorted_eq hhard))
    (congrArg₂ List.filter (hscope _) rfl)

/-- The step of a node differs at most in its arguments, in the reason of the inclusion and in its
warnings. -/
theorem step_eq (warnings warnings' : List Warning) (node : Fin n) :
    (Graph.ofFn second).step (Graph.ofFn second).levels warnings' node
      = { (Graph.ofFn first).step (Graph.ofFn first).levels warnings node with
          arguments := ((Graph.ofFn second).bindings node).map (Graph.ofFn first).argument
          inclusion := (second node).inclusion
          warnings := warnings'.filter (·.component = (first node).displayName) } := by
  have hresembles := halike.resembles node
  have hargument : (Graph.ofFn second).argument = (Graph.ofFn first).argument :=
    funext halike.argument_eq
  have horder : ∀ name,
      ((Graph.ofFn second).index.get? name).map (fun provider => (second provider).displayName)
        = ((Graph.ofFn first).index.get? name).map (fun provider =>
          (first provider).displayName) := by
    intro name
    rw [halike.index_eq]
    exact congrArg (Option.map · _) (funext fun node => (halike.resembles node).displayName)
  unfold Graph.step Graph.stepWith
  simp only [Graph.component_ofFn, hargument, levels_eq hhard, hresembles.qualifiedName,
    hresembles.displayName, hresembles.scope, hresembles.lazy, hresembles.primary,
    hresembles.hooks, hresembles.dependsOn, Step.mk.injEq, true_and, and_true]
  exact List.filterMap_congr fun name _ => horder name

end Hard

/-! ### What is found about a run -/

theorem faults_eq (strict : Bool) (name : String) :
    Dependency.faults (Lookup.ofList (List.ofFn second)) strict name
      = Dependency.faults (Lookup.ofList (List.ofFn first)) strict name := by
  funext entry
  unfold Dependency.faults
  rw [halike.lookup_resembles.unbound?_eq]

theorem warnings_eq (strict : Bool) (name : String) :
    Dependency.warnings (Lookup.ofList (List.ofFn second)) strict name
      = Dependency.warnings (Lookup.ofList (List.ofFn first)) strict name := by
  funext entry
  unfold Dependency.warnings
  rw [halike.lookup_resembles.doubt?_eq]

/-- Whether an edge is fragile depends on the conditions of its ends. -/
theorem fragilities_eq (hhard : (Graph.ofFn second).hard = (Graph.ofFn first).hard)
    (hconditions : ∀ node, (second node).conditions = (first node).conditions) :
    (Graph.ofFn second).fragilities = (Graph.ofFn first).fragilities := by
  rw [Graph.fragilities_ofFn, Graph.fragilities_ofFn, hhard]
  unfold Component.fragilities Component.isConditional Component.isEager Component.isLazySingleton
    conditionalMessage lazyForcedMessage Component.conditionsText
  simp only [hconditions, (halike.resembles _).displayName, (halike.resembles _).scope,
    (halike.resembles _).lazy]

/-! ### The same injection sites -/

section Sites

variable (hsites : ∀ node, (second node).sites = (first node).sites)
include hsites

omit halike in
theorem dependencies_eq (node : Fin n) : (second node).dependencies = (first node).dependencies :=
  congrArg (List.flatMap InjectionSite.positioned) (hsites node)

theorem bindings_eq (node : Fin n) :
    (Graph.ofFn second).bindings node = (Graph.ofFn first).bindings node := by
  rw [Graph.bindings_ofFn, Graph.bindings_ofFn, dependencies_eq hsites]
  exact List.map_congr_left fun entry _ => halike.binding_eq entry.1 entry.2

theorem links_eq (node : Fin n) :
    ((Graph.ofFn second).nodes.get node).links = ((Graph.ofFn first).nodes.get node).links := by
  rw [Graph.nodes_ofFn, Graph.nodes_ofFn]
  unfold Node.ofComponent
  rw [dependencies_eq hsites, (halike.resembles node).dependsOn]
  refine congrArg₂ (· ++ ·) (List.filterMap_congr fun entry _ => halike.link?_eq entry.2)
    (List.filterMap_congr fun name _ => ?_)
  rw [halike.orderNode?_eq]

theorem hard_eq : (Graph.ofFn second).hard = (Graph.ofFn first).hard := by
  funext node
  unfold Graph.hard Node.hard
  rw [halike.links_eq hsites]

theorem edges_eq : (Graph.ofFn second).edges = (Graph.ofFn first).edges := by
  apply List.flatMap_congr
  intro node _
  rw [Graph.edgesOf_ofFn, Graph.edgesOf_ofFn, halike.links_eq hsites]
  simp only [(halike.resembles _).displayName]

theorem findings_eq (strict : Bool) :
    (Graph.ofFn second).findings (Lookup.ofList (List.ofFn second)) strict
      = (Graph.ofFn first).findings (Lookup.ofList (List.ofFn first)) strict := by
  have herrors := Graph.errors_findings_ofFn second (Lookup.ofList (List.ofFn second)) strict
  have hwarnings := Graph.warnings_findings_ofFn second (Lookup.ofList (List.ofFn second)) strict
  simp only [dependencies_eq hsites, (halike.resembles _).displayName, halike.faults_eq,
    halike.warnings_eq, halike.orderFaults_eq] at herrors hwarnings
  rw [← Graph.errors_findings_ofFn] at herrors
  rw [← Graph.warnings_findings_ofFn] at hwarnings
  exact congrArg₂ (Findings.mk · · []) herrors hwarnings

theorem step_eq_of_sites (warnings warnings' : List Warning) (node : Fin n) :
    (Graph.ofFn second).step (Graph.ofFn second).levels warnings' node
      = { (Graph.ofFn first).step (Graph.ofFn first).levels warnings node with
          inclusion := (second node).inclusion
          warnings := warnings'.filter (·.component = (first node).displayName) } := by
  rw [halike.step_eq (halike.hard_eq hsites) warnings warnings' node, halike.bindings_eq hsites]
  rfl

end Sites

end Alike

end Assembly
