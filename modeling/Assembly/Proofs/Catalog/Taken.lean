import Mathlib.Logic.Basic
import Assembly.Catalog.Consistency

/-!
# What has been taken

Going through a catalog, what has been taken is what the components before have. The faults of a
component are therefore those that it has with regard to the components before it, whatever has been
found at them.
-/

namespace Assembly

/-- The faults of a component that it shares with one of the components before it, or that lie in the
number of its constructors. -/
def Component.duplicatesAfter (earlier : List Component) (component : Component) :
    List CatalogFault :=
  (if earlier.any (·.qualifiedName = component.qualifiedName) then
      [.duplicateQualifiedName component.qualifiedName] else [])
    ++ (if earlier.any (·.displayName = component.displayName) then
      [.duplicateDisplayName component.displayName] else [])
    ++ ((earlier.find? (·.declarationIndex = component.declarationIndex)).map fun first =>
      .duplicateIndex component.declarationIndex.toNat first.displayName component.displayName).toList
    ++ (if 1 < component.constructorCount then
      [.multipleConstructors component.displayName component.constructorCount] else [])

/-- The violations that a component adds to those of the components before it. -/
def Component.faultsAfter (earlier : List Component) (component : Component) :
    List CatalogFault :=
  component.duplicatesAfter earlier ++ component.contradictions

def faultsAmong (earlier : List Component) : List Component → List CatalogFault
  | [] => []
  | component :: rest => component.faultsAfter earlier ++ faultsAmong (earlier ++ [component]) rest

/-- What has been taken is what the components have. -/
structure Taken.IsBy (taken : Taken) (components : List Component) : Prop where
  qualifiedName : ∀ name, name ∈ taken.qualifiedNames ↔ components.any (·.qualifiedName = name)
  displayName : ∀ name, name ∈ taken.displayNames ↔ components.any (·.displayName = name)
  holder? : ∀ index, taken.holder? index = components.find? (·.declarationIndex = index)

namespace Taken

theorem isBy_nil : IsBy {} [] where
  qualifiedName _ := iff_of_false NameSet.not_mem_empty Bool.false_ne_true
  displayName _ := iff_of_false NameSet.not_mem_empty Bool.false_ne_true
  holder? _ := rfl

variable {taken : Taken} {earlier : List Component}

theorem holder?_add (component : Component) (index : UInt32) :
    (taken.add component).holder? index
      = (taken.holder? index).or (if component.declarationIndex = index then component else none) := by
  unfold add
  cases hholder : taken.holder? component.declarationIndex with
  | some first =>
      by_cases heq : component.declarationIndex = index
      · rw [← heq, hholder, Option.some_or]
        exact hholder
      · rw [if_neg heq, Option.or_none]
        rfl
  | none =>
      by_cases heq : component.declarationIndex = index
      · rw [← heq, hholder, if_pos rfl]
        exact List.find?_cons_of_pos (by simp)
      · rw [if_neg heq, Option.or_none]
        exact List.find?_cons_of_neg (by simpa using heq)

theorem IsBy.add (htaken : taken.IsBy earlier) (component : Component) :
    (taken.add component).IsBy (earlier ++ [component]) where
  qualifiedName name := by
    simp only [Taken.add, NameSet.mem_insert, htaken.qualifiedName, List.any_append, Bool.or_eq_true,
      List.any_cons, List.any_nil, Bool.or_false, decide_eq_true_eq]
    exact or_comm.trans (or_congr_right eq_comm)
  displayName name := by
    simp only [Taken.add, NameSet.mem_insert, htaken.displayName, List.any_append, Bool.or_eq_true,
      List.any_cons, List.any_nil, Bool.or_false, decide_eq_true_eq]
    exact or_comm.trans (or_congr_right eq_comm)
  holder? index := by
    rw [holder?_add, htaken.holder?, List.find?_append, List.find?_singleton]
    simp

theorem IsBy.faultsWith_eq (htaken : taken.IsBy earlier) (component : Component) :
    component.faultsWith taken = component.faultsAfter earlier := by
  unfold Component.faultsWith Component.faultsAfter Component.duplicatesAfter
  rw [if_congr (htaken.qualifiedName component.qualifiedName) rfl rfl,
    if_congr (htaken.displayName component.displayName) rfl rfl, htaken.holder?]
  cases earlier.find? (·.declarationIndex = component.declarationIndex) with
  | none => rfl
  | some first => rfl

theorem IsBy.faultsFrom_eq (htaken : taken.IsBy earlier) (components : List Component) :
    faultsFrom taken components = faultsAmong earlier components := by
  induction components generalizing taken earlier with
  | nil => rfl
  | cons component rest ih =>
      rw [faultsFrom, faultsAmong, htaken.faultsWith_eq, ih (htaken.add component)]

end Taken

theorem Catalog.faults_eq (catalog : Catalog) :
    catalog.faults = faultsAmong [] catalog.components :=
  Taken.isBy_nil.faultsFrom_eq catalog.components

end Assembly
