import Assembly.Catalog.Basic
import Assembly.Collection.NameMap

/-!
Looking up the provider of a type or a name among the components that take part. A component provides
its own type and the interfaces that it declares.
-/

namespace Assembly

/-- The outcome of looking up a provider. -/
inductive Provision where
  | found (provider : Component)
  /-- Several components implement the interface and none of them is the only primary one. The chosen
  one is declared last. -/
  | ambiguous (chosen : Component) (candidates : List Component)
  | notFound
deriving DecidableEq, Inhabited

/-- The component that is bound, if there is one. -/
def Provision.provider? : Provision → Option Component
  | .found provider => some provider
  | .ambiguous chosen _ => some chosen
  | .notFound => none

/-- The provider among the implementations of an interface, which are in the order of their
declaration. -/
def Provision.among : List Component → Provision
  | [] => .notFound
  | [only] => .found only
  | first :: rest =>
    match (first :: rest).filter (·.primary) with
    | [only] => .found only
    | _ => .ambiguous ((first :: rest).getLast (List.cons_ne_nil first rest)) (first :: rest)

/-- The components that take part, by type, by interface and by name. -/
structure Lookup where
  byType : NameMap Component := ∅
  byInterface : NameMap (List Component) := ∅
  byName : NameMap Component := ∅
deriving DecidableEq, Inhabited

namespace Lookup

/-- Adds a component, which takes the place of one with the same type or the same name. -/
def add (lookup : Lookup) (component : Component) : Lookup where
  byType := lookup.byType.insert component.qualifiedName component
  byInterface := component.interfaces.toList.foldl
    (fun implementations interface => implementations.push interface component) lookup.byInterface
  byName := lookup.byName.insert component.displayName component

def ofList (components : List Component) : Lookup :=
  let lookup := components.foldl add {}
  { lookup with byInterface := lookup.byInterface.mapValues byIndex }

/-- The implementations of an interface in the order of their declaration. -/
def implementations (lookup : Lookup) (interface : String) : List Component :=
  lookup.byInterface.listed interface

def byDisplayName? (lookup : Lookup) (name : String) : Option Component :=
  lookup.byName.get? name

/-- The provider of a type. With a qualifier it is the component of that name, whatever the type. -/
def find (lookup : Lookup) (type : String) (qualifier : Option String) : Provision :=
  match qualifier with
  | some name =>
    match lookup.byName.get? name with
    | some provider => .found provider
    | none => .notFound
  | none =>
    match lookup.byType.get? type with
    | some provider => .found provider
    | none => .among (lookup.implementations type)

end Lookup

end Assembly
