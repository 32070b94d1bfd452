import Assembly.Finding.Basic
import Assembly.Graph.Basic

/-!
What is wrong or doubtful about the bindings of a graph, in the order of the components and of their
dependencies.
-/

namespace Assembly

/-- Why a dependency is not bound. In strict mode an ambiguous provider is a fault. -/
def Dependency.unbound? (lookup : Lookup) (strict : Bool) (dependency : Dependency) :
    Option UnboundReason :=
  match dependency.literal with
  | some _ => none
  | none =>
    match lookup.find dependency.requestedType dependency.qualifier with
    | .found _ => none
    | .ambiguous _ candidates =>
      if strict then some (.ambiguous (candidates.map (·.displayName))) else none
    | .notFound =>
      if dependency.permitsAbsence then none
      else if dependency.qualifier.isSome then some .qualifierNotFound
      else some .notFound

def ambiguityMessage (position : Position) (request : Request) (chosen : Component)
    (candidates : List Component) : String :=
  position.text ++ " resolved '" ++ request.text ++ "' to last declared '" ++ chosen.displayName
    ++ "' among [" ++ ", ".intercalate (candidates.map (·.displayName))
    ++ "] - mark one primary or add a qualifier"

def typeMismatchMessage (position : Position) (provider : Component) (type : String) : String :=
  position.text ++ " is qualified '" ++ provider.displayName
    ++ "' but that component does not declare '" ++ type ++ "'"

/-- What is doubtful about the provider of a dependency. -/
def Dependency.doubt? (lookup : Lookup) (strict : Bool) (position : Position)
    (dependency : Dependency) : Option (WarningKind × String) :=
  match dependency.literal with
  | some _ => none
  | none =>
    match lookup.find dependency.requestedType dependency.qualifier with
    | .found provider =>
      if dependency.qualifier.isSome && !provider.provides dependency.requestedType then
        some (.qualifierTypeMismatch,
          typeMismatchMessage position provider dependency.requestedType)
      else none
    | .ambiguous chosen candidates =>
      if strict then none
      else some (.ambiguity, ambiguityMessage position dependency.request chosen candidates)
    | .notFound => none

namespace Graph

/-- The dependencies of a component that are not bound, and then the names that it is ordered after
but that no component has. -/
def faultsOf (graph : Graph) (lookup : Lookup) (strict : Bool) (component : Component) :
    List BindingFault :=
  component.dependencies.filterMap (fun (position, dependency) =>
      (dependency.unbound? lookup strict).map fun reason =>
        ⟨component.displayName, dependency.request, position, reason⟩)
    ++ (component.dependsOn.filter fun name =>
        (orderNode? lookup graph.index name).isNone).map fun name =>
      ⟨component.displayName, { requestedType := name }, .dependsOn, .unknownName⟩

def warningsOf (lookup : Lookup) (strict : Bool) (component : Component) : List Warning :=
  component.dependencies.filterMap fun (position, dependency) =>
    (dependency.doubt? lookup strict position).map fun (kind, message) =>
      ⟨component.displayName, kind, message⟩

/-- All findings about the bindings. -/
def findings (graph : Graph) (lookup : Lookup) (strict : Bool) : Findings where
  errors := (graph.components.flatMap (graph.faultsOf lookup strict)).map .resolution
  warnings := graph.components.flatMap (warningsOf lookup strict)

end Graph

end Assembly
