import Assembly.Graph.Findings
import Assembly.Proofs.Graph.Wiring

/-!
# When everything is bound

A graph has no fault of its bindings if every dependency that needs a provider has one and every
name that a component is ordered after belongs to a component. Strict mode asks for no less.
-/

namespace Assembly

/-- If the dependency cannot do without a provider, some component can be one. -/
def Dependency.IsProvided (components : List Component) (dependency : Dependency) : Prop :=
  dependency.literal = none → dependency.permitsAbsence = false → dependency.HasProvider components

instance {components : List Component} {dependency : Dependency} :
    Decidable (dependency.IsProvided components) :=
  inferInstanceAs (Decidable (_ → _ → _))

theorem Dependency.unbound?_lenient_eq_none_iff {lookup : Lookup} {dependency : Dependency} :
    dependency.unbound? lookup false = none
      ↔ (dependency.literal = none → dependency.permitsAbsence = false →
        (lookup.find dependency.requestedType dependency.qualifier).provider?.isSome) := by
  unfold unbound?
  cases dependency.literal with
  | some token => simp
  | none =>
      cases lookup.find dependency.requestedType dependency.qualifier with
      | found provider => simp [Provision.provider?]
      | ambiguous chosen candidates => simp [Provision.provider?]
      | notFound =>
          cases dependency.permitsAbsence <;> cases dependency.qualifier
            <;> simp [Provision.provider?]

/-- What strict mode accepts is accepted otherwise. -/
theorem Dependency.unbound?_lenient_of_strict {lookup : Lookup} {strict : Bool}
    {dependency : Dependency} (hunbound : dependency.unbound? lookup strict = none) :
    dependency.unbound? lookup false = none := by
  cases strict with
  | false => exact hunbound
  | true =>
      unfold unbound? at hunbound ⊢
      cases hliteral : dependency.literal with
      | some token => rfl
      | none =>
          cases hfind : lookup.find dependency.requestedType dependency.qualifier with
          | found provider => rfl
          | ambiguous chosen candidates => rfl
          | notFound =>
              rw [hliteral, hfind] at hunbound
              exact hunbound

namespace Graph

theorem errors_findings_eq_nil_iff {graph : Graph} {lookup : Lookup} {strict : Bool} :
    (graph.findings lookup strict).errors = []
      ↔ ∀ component ∈ graph.components,
        (∀ entry ∈ component.dependencies, entry.2.unbound? lookup strict = none)
          ∧ ∀ name ∈ component.dependsOn, (orderNode? lookup graph.index name).isSome := by
  simp [findings, faultsOf, List.flatMap_eq_nil_iff, List.filterMap_eq_nil_iff,
    List.filter_eq_nil_iff, Option.isSome_iff_ne_none]

variable {components : List Component}

theorem errors_lenient_of_strict {strict : Bool}
    (herrors : ((ofComponents components).findings (Lookup.ofList components) strict).errors = []) :
    ((ofComponents components).findings (Lookup.ofList components) false).errors = [] := by
  rw [errors_findings_eq_nil_iff] at herrors ⊢
  intro component hcomponent
  obtain ⟨hbound, horder⟩ := herrors component hcomponent
  exact ⟨fun entry hentry => Dependency.unbound?_lenient_of_strict (hbound entry hentry), horder⟩

variable (hdistinct : Distinct components)
  (hsorted : components.Pairwise (·.declarationIndex ≤ ·.declarationIndex))
include hdistinct hsorted

theorem unbound?_eq_none_iff {dependency : Dependency} :
    dependency.unbound? (Lookup.ofList components) false = none
      ↔ dependency.IsProvided components := by
  rw [Dependency.unbound?_lenient_eq_none_iff, provider?_find hdistinct hsorted,
    isSome_provider?_iff]
  rfl

/-- Everything is bound if every dependency and every order has its component. -/
theorem errors_lenient_eq_nil_iff :
    ((ofComponents components).findings (Lookup.ofList components) false).errors = []
      ↔ ∀ component ∈ components, (∀ entry ∈ component.dependencies, entry.2.IsProvided components)
        ∧ ∀ name ∈ component.dependsOn, ∃ provider ∈ components, provider.displayName = name := by
  rw [errors_findings_eq_nil_iff, components_ofComponents]
  simp only [unbound?_eq_none_iff hdistinct hsorted, orderNode?_isSome_iff hdistinct]

end Graph

end Assembly
