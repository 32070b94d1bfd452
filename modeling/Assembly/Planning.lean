import Assembly.Activation
import Assembly.Catalog.Consistency
import Assembly.Graph.Findings
import Assembly.Graph.Order
import Assembly.Plan.Basic

/-!
Planning: from a catalog and an environment to a plan, or to everything that prevents one.

An inconsistent catalog ends a run at once. Faults of bindings and a cycle are reported together.
-/

namespace Assembly

def Component.conditionsText (component : Component) : String :=
  ", ".intercalate (component.conditions.map Condition.text)

def conditionalMessage (provider : Component) : String :=
  "unconditional component depends on '" ++ provider.displayName
    ++ "' which is only enabled by [" ++ provider.conditionsText ++ "]"

def lazyForcedMessage (provider : Component) : String :=
  "eager singleton forces lazy '" ++ provider.displayName ++ "' to be constructed at startup"

/-- What is fragile about a component that needs the other one. -/
def Component.fragilities (consumer provider : Component) : List Warning :=
  (if !consumer.isConditional && provider.isConditional then
      [⟨consumer.displayName, .conditionalDependency, conditionalMessage provider⟩] else [])
    ++ (if consumer.isEager && provider.isLazySingleton then
      [⟨consumer.displayName, .lazyForced, lazyForcedMessage provider⟩] else [])

/-- Why a component takes part. -/
def Component.inclusion (component : Component) : String :=
  if component.isConditional then "conditions matched: " ++ component.conditionsText
  else "unconditional"

namespace Graph

def fragilities (graph : Graph) : List Warning :=
  graph.allNodes.flatMap fun node =>
    (graph.hard node).flatMap fun provider =>
      (graph.component node).fragilities (graph.component provider)

def argument (graph : Graph) (binding : Binding graph.size) : Argument where
  position := binding.position
  source :=
    match binding.target with
    | .literal token => .literal token
    | .missing => .optional none
    | .provider node =>
      let name := (graph.component node).displayName
      match binding.handover with
      | .direct => if binding.allowMissing then .optional (some name) else .reference name
      | .deferred => .deferred name
      | .optional => .optional (some name)

/-- The step of a node, with the warnings about its component. -/
def stepWith (graph : Graph) (levels : Vector (Option Nat) graph.size) (warnings : List Warning)
    (node : Fin graph.size) : Step :=
  let component := graph.component node
  { component := component.displayName
    qualifiedName := component.qualifiedName
    scope := component.scope
    lazy := component.lazy
    primary := component.primary
    level := (levels.get node).getD 0
    arguments := (graph.bindings node).map graph.argument
    dependsOn := component.dependsOn.filterMap fun name =>
      (graph.index.get? name).map fun provider => (graph.component provider).displayName
    hooks := component.hooks
    inclusion := component.inclusion
    warnings := warnings }

/-- The steps of nodes, each of which takes away the warnings that are listed under its component. -/
def stepsWith (graph : Graph) (levels : Vector (Option Nat) graph.size) :
    NameMap (List Warning) → List (Fin graph.size) → List Step
  | _, [] => []
  | warnings, node :: rest =>
    let name := (graph.component node).displayName
    graph.stepWith levels (warnings.listed name) node
      :: graph.stepsWith levels (warnings.erase name) rest

/-- The plan whose singletons are constructed in the given order. -/
def plan (graph : Graph) (order : List (Fin graph.size)) (findings : Findings) : Plan :=
  let levels := graph.levels
  let singletons := order.filter fun node => (graph.component node).scope = .singleton
  let prototypes := graph.allNodes.filter fun node => (graph.component node).scope = .prototype
  { steps := graph.stepsWith levels (.listedBy (·.component) findings.warnings)
      (singletons ++ prototypes)
    edges := graph.edges
    findings := findings }

/-- The findings of a run: those about the bindings, a cycle if there is one, and the edges that are
fragile. In strict mode every warning is a fault. -/
def allFindings (graph : Graph) (lookup : Lookup) (strict : Bool) (excluded : List Exclusion) :
    Findings :=
  let bindings := graph.findings lookup strict
  let findings : Findings :=
    { errors := bindings.errors ++ (graph.cycle?.map PlanFault.cycle).toList
      warnings := bindings.warnings ++ graph.fragilities
      excluded }
  if strict then findings.promoteWarnings else findings

end Graph

/-- The plan of the components that take part. -/
def Activation.plan (activation : Activation) (strict : Bool) : Except Findings Plan :=
  let lookup := Lookup.ofList activation.enabled
  let graph := Graph.ofList activation.enabled lookup
  let findings := graph.allFindings lookup strict activation.excluded
  match graph.order with
  | .error _ => .error findings
  | .ok order => if findings.hasErrors then .error findings else .ok (graph.plan order findings)

/-- The findings of a run that an inconsistent catalog ends. -/
def Findings.ofCatalog (faults : List CatalogFault) : Findings :=
  { errors := faults.map .configuration }

namespace Catalog

/-- The plan of a catalog in an environment, or the findings that prevent it. -/
def plan (catalog : Catalog) (options : Options) (environment : Environment) :
    Except Findings Plan :=
  match catalog.faults with
  | [] =>
    match catalog.activate (environment.withDefaults options) with
    | .ok activation => activation.plan options.strict
    | .error faults => .error (.ofCatalog faults)
  | faults => .error (.ofCatalog faults)

end Catalog

end Assembly
