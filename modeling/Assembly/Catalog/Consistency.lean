import Assembly.Catalog.Basic
import Assembly.Finding.Basic

/-!
The rules that hold throughout a catalog. All violations are found, in the order of the components.
-/

namespace Assembly

/-- The targets that the conditions require to be missing, types and names alike. -/
def Component.missingTargets (component : Component) : List String :=
  component.conditions.flatMap fun
    | .missing types names => types ++ names
    | _ => []

/-- The targets that the conditions require to be present, types and names alike. -/
def Component.presentTargets (component : Component) : List String :=
  component.conditions.flatMap fun
    | .present types names => types ++ names
    | _ => []

/-- The targets that are required to be both, in ascending order. -/
def Component.contradictions (component : Component) : List CatalogFault :=
  let both := (NameSet.ofList component.missingTargets).toList.filter fun target =>
    target ∈ component.presentTargets
  both.map (.contradictoryPresence component.displayName)

/-- The names and indices that have been taken, when the components are gone through in turn. -/
structure Taken where
  qualifiedNames : NameSet := ∅
  displayNames : NameSet := ∅
  /-- The component that came first with each index. -/
  holders : List Component := []

namespace Taken

def holder? (taken : Taken) (index : UInt32) : Option Component :=
  taken.holders.find? (·.declarationIndex = index)

/-- An index that has been taken stays with its holder. -/
def add (taken : Taken) (component : Component) : Taken where
  qualifiedNames := taken.qualifiedNames.insert component.qualifiedName
  displayNames := taken.displayNames.insert component.displayName
  holders :=
    match taken.holder? component.declarationIndex with
    | some _ => taken.holders
    | none => component :: taken.holders

end Taken

/-- The violations of a component that comes to names and indices that have been taken. -/
def Component.faultsWith (taken : Taken) (component : Component) : List CatalogFault :=
  (if component.qualifiedName ∈ taken.qualifiedNames then
      [.duplicateQualifiedName component.qualifiedName] else [])
    ++ (if component.displayName ∈ taken.displayNames then
      [.duplicateDisplayName component.displayName] else [])
    ++ (match taken.holder? component.declarationIndex with
      | some first =>
        [.duplicateIndex component.declarationIndex.toNat first.displayName component.displayName]
      | none => [])
    ++ (if 1 < component.constructorCount then
      [.multipleConstructors component.displayName component.constructorCount] else [])
    ++ component.contradictions

def faultsFrom (taken : Taken) : List Component → List CatalogFault
  | [] => []
  | component :: rest => component.faultsWith taken ++ faultsFrom (taken.add component) rest

def Catalog.faults (catalog : Catalog) : List CatalogFault :=
  faultsFrom {} catalog.components

end Assembly
