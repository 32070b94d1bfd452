import Mathlib.Data.List.Find
import Assembly.Proofs.Catalog.Distinct
import Assembly.Proofs.Lookup.Resemblance

/-!
# Consistent catalogs

A catalog is consistent if its components are distinct and each of them is consistent by itself, so
fewer components are consistent as well. The faults of a catalog say nothing of what the components
need, and of their indices only which ones are shared.
-/

namespace Assembly

/-- Components in the order of their indices stay in it. -/
theorem Catalog.ofList_of_pairwise {components : List Component}
    (hsorted : components.Pairwise (·.declarationIndex ≤ ·.declarationIndex)) :
    ofList components = ⟨components, hsorted⟩ := by
  have hbyIndex := byIndex_of_pairwise hsorted
  unfold ofList
  congr

namespace Catalog

variable {catalog : Catalog}

theorem faults_of_sublist {fewer : Catalog} (hfaults : catalog.faults = [])
    (hfewer : fewer.components.Sublist catalog.components) : fewer.faults = [] := by
  obtain ⟨hdistinct, hconsistent⟩ := faults_eq_nil_iff.mp hfaults
  exact faults_eq_nil_iff.mpr
    ⟨hdistinct.sublist hfewer, fun component hmem => hconsistent component (hfewer.subset hmem)⟩

end Catalog

/-! ### Components that resemble each other -/

/-- The indices of two items are shared by both assignments or by none of them, and a shared index
is the same in both. -/
structure SharesIndex {α : Type} (first second : α → Component) (item other : α) : Prop where
  iff : (second item).declarationIndex = (second other).declarationIndex
    ↔ (first item).declarationIndex = (first other).declarationIndex
  eq : (first item).declarationIndex = (first other).declarationIndex →
    (second other).declarationIndex = (first other).declarationIndex

section Resemblance

variable {α : Type} {first second : α → Component}
  (hresembles : ∀ item, (first item).Resembles (second item))
  (hcount : ∀ item, (second item).constructorCount = (first item).constructorCount)
  (hconditions : ∀ item, (second item).conditions = (first item).conditions)
include hresembles hcount hconditions

theorem faultsAfter_map {earlier : List α} {item : α}
    (hindex : ∀ other ∈ earlier, SharesIndex first second other item) :
    (second item).faultsAfter (earlier.map second)
      = (first item).faultsAfter (earlier.map first) := by
  have hcontradictions : (second item).contradictions = (first item).contradictions := by
    unfold Component.contradictions Component.missingTargets Component.presentTargets
    rw [hconditions item, (hresembles item).displayName]
  have hfind : earlier.find? (fun other =>
        (second other).declarationIndex = (second item).declarationIndex)
      = earlier.find? fun other => (first other).declarationIndex = (first item).declarationIndex :=
    List.find?_congr fun other hother => decide_eq_decide.mpr (hindex other hother).iff
  unfold Component.faultsAfter Component.duplicatesAfter
  rw [hcontradictions, hcount item, (hresembles item).qualifiedName, (hresembles item).displayName,
    List.any_map, List.any_map, List.any_map, List.any_map, List.find?_map, List.find?_map]
  simp only [Function.comp_def, (hresembles _).qualifiedName, (hresembles _).displayName]
  rw [hfind]
  cases hshared : earlier.find? (fun other =>
      (first other).declarationIndex = (first item).declarationIndex) with
  | none => rfl
  | some other =>
      have hsame := (hindex other (List.mem_of_find?_eq_some hshared)).eq
        (by simpa using List.find?_some hshared)
      simp only [Option.map_some, hsame, (hresembles other).displayName]

theorem faultsAmong_map (earlier items : List α)
    (hearlier : ∀ item ∈ earlier, ∀ other ∈ items, SharesIndex first second item other)
    (hitems : items.Pairwise (SharesIndex first second)) :
    faultsAmong (earlier.map second) (items.map second)
      = faultsAmong (earlier.map first) (items.map first) := by
  induction items generalizing earlier with
  | nil => rfl
  | cons item rest ih =>
      obtain ⟨hhead, hrest⟩ := List.pairwise_cons.mp hitems
      have hafter := faultsAfter_map hresembles hcount hconditions fun other hother =>
        hearlier other hother item List.mem_cons_self
      have hamong := ih (earlier ++ [item]) ?_ hrest
      · rw [List.map_append, List.map_append] at hamong
        exact congrArg₂ (· ++ ·) hafter hamong
      · intro other hother next hnext
        rcases List.mem_append.mp hother with hother | hother
        · exact hearlier other hother next (List.mem_cons_of_mem _ hnext)
        · rw [List.mem_singleton.mp hother]
          exact hhead next hnext

end Resemblance

end Assembly
