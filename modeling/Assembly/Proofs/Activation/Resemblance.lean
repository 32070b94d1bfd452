import Assembly.Proofs.Activation.Rivals
import Assembly.Proofs.Lookup.Resemblance

/-!
# Decisions about components that resemble each other

A decision looks at the conditions of the components and at what they are called and provide. Two
catalogs that agree on this, component by component, are decided alike: the components of the same
items take part in both.
-/

namespace Assembly

variable {α : Type} {first second : α → Component}
  (hresembles : ∀ item, (first item).Resembles (second item))
  (hconditions : ∀ item, (second item).conditions = (first item).conditions)

section Names

include hresembles

theorem isMetBy_eq (target : Target) (item : α) :
    target.isMetBy (second item) = target.isMetBy (first item) := by
  cases target with
  | type wanted => exact (hresembles item).provides_eq wanted
  | name wanted =>
      unfold Target.isMetBy
      simp only [(hresembles item).displayName]

theorem otherMeeting?_eq (items : List α) (item : α) (target : Target) :
    ((second item).otherMeeting? (items.map second) target).map (·.displayName)
      = ((first item).otherMeeting? (items.map first) target).map (·.displayName) := by
  unfold Component.otherMeeting?
  rw [List.find?_map, List.find?_map, Option.map_map, Option.map_map]
  simp only [Function.comp_def, (hresembles _).displayName, isMetBy_eq hresembles]

theorem clashes_eq (items : List α) (item : α) (condition : Condition) :
    (second item).clashes (items.map second) condition
      = (first item).clashes (items.map first) condition := by
  have hmeeting := otherMeeting?_eq hresembles items item
  cases condition with
  | missing types names =>
      apply List.filterMap_congr
      intro target _
      have htarget := congrArg (Option.map (ExclusionReason.targetPresent target.text))
        (hmeeting target)
      rwa [Option.map_map, Option.map_map] at htarget
  | present types names =>
      refine congrArg (List.map _) (List.filter_congr fun target _ => ?_)
      have htarget := congrArg Option.isNone (hmeeting target)
      rwa [Option.isNone_map, Option.isNone_map] at htarget
  | property name expected matchIfMissing => rfl
  | flags names => rfl
  | profile entries negated => rfl

end Names

section Conditions

include hconditions

theorem objections_eq (environment : Environment) (item : α) :
    environment.objections (second item) = environment.objections (first item) := by
  unfold Environment.objections
  rw [hconditions]

include hresembles

theorem mutualAbsences_eq (items : List α) :
    mutualAbsences (items.map second) = mutualAbsences (items.map first) := by
  have hyields : ∀ item other,
      (second item).yieldsTo (second other) = (first item).yieldsTo (first other) := by
    intro item other
    unfold Component.yieldsTo
    simp only [hconditions, isMetBy_eq hresembles]
  rw [mutualAbsences_map, mutualAbsences_map]
  simp only [hyields, (hresembles _).displayName]

theorem reasons_eq (environment : Environment) (items : List α) (item : α) :
    Activation.reasons environment (items.map second) (second item)
      = Activation.reasons environment (items.map first) (first item) := by
  have hclashes : (second item).clashes (items.map second)
      = (first item).clashes (items.map first) := funext (clashes_eq hresembles items item)
  unfold Activation.reasons
  rw [objections_eq hconditions, hclashes, hconditions]

end Conditions

namespace Catalog

variable {catalog other : Catalog} {items : List α}
  (hcatalog : catalog.components = items.map first) (hother : other.components = items.map second)
include hresembles hconditions hcatalog hother

/-- Either both catalogs leave the same pairs undecided, or the components of the same items take
part and the same components are left out. -/
theorem activate_cases (environment : Environment) :
    (∃ pairs, catalog.activate environment = .error pairs
        ∧ other.activate environment = .error pairs)
      ∨ ∃ (fewer : List α) (excluded : List Exclusion), fewer.Sublist items
        ∧ catalog.activate environment = .ok ⟨fewer.map first, excluded⟩
        ∧ other.activate environment = .ok ⟨fewer.map second, excluded⟩ := by
  let candidates := items.filter fun item => environment.admits (first item)
  have hcandidates : catalog.components.filter environment.admits = candidates.map first := by
    rw [hcatalog, List.filter_map]
    rfl
  have hcandidates' : other.components.filter environment.admits = candidates.map second := by
    rw [hother, List.filter_map]
    refine congrArg (List.map second) (List.filter_congr fun item _ => ?_)
    exact congrArg List.isEmpty (objections_eq hconditions environment item)
  have hmutual := mutualAbsences_eq hresembles hconditions candidates
  unfold activate
  rw [hcandidates, hcandidates']
  dsimp only
  rw [hmutual]
  cases mutualAbsences (candidates.map first) with
  | cons pair pairs => exact .inl ⟨_, rfl, rfl⟩
  | nil =>
      let reasons := fun item => Activation.reasons environment (candidates.map first) (first item)
      refine .inr ⟨items.filter fun item => (reasons item).isEmpty, _, List.filter_sublist,
        congrArg Except.ok (congrArg₂ Activation.mk ?_ rfl),
        congrArg Except.ok (congrArg₂ Activation.mk ?_ ?_)⟩
      · rw [hcatalog, List.filter_map]
        rfl
      · rw [hother, List.filter_map]
        refine congrArg (List.map second) (List.filter_congr fun item _ => ?_)
        exact congrArg List.isEmpty (reasons_eq hresembles hconditions environment candidates item)
      · rw [hother, hcatalog, List.filterMap_map, List.filterMap_map]
        apply List.filterMap_congr
        intro item _
        simp only [Function.comp_def, reasons_eq hresembles hconditions,
          (hresembles item).displayName]

end Catalog

end Assembly
