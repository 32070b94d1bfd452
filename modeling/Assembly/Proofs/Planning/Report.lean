import Assembly.Proofs.Activation.Rivals
import Assembly.Proofs.Planning.StrictMode
import Assembly.Proofs.Planning.Success

/-!
# What a run reports

A run that an inconsistent catalog or an open decision ends reports that and nothing else. Any other
run goes on after a fault, so that it reports every dependency that is not met, every unknown name
and a cycle, each component in its turn and the cycle last.
-/

namespace Assembly

/-- The dependency cannot do without a provider, and no component can be one. -/
def Dependency.IsUnmet (components : List Component) (dependency : Dependency) : Prop :=
  dependency.literal = none ∧ dependency.permitsAbsence = false
    ∧ ¬dependency.HasProvider components

instance {components : List Component} {dependency : Dependency} :
    Decidable (dependency.IsUnmet components) :=
  inferInstanceAs (Decidable (_ ∧ _ ∧ _))

def Dependency.unmetReason (dependency : Dependency) : UnboundReason :=
  match dependency.qualifier with
  | some _ => .qualifierNotFound
  | none => .notFound

/-- What a component lacks among the components: first providers and then components that it is
ordered after. -/
def Component.shortages (components : List Component) (component : Component) :
    List BindingFault :=
  (component.dependencies.filter fun entry => entry.2.IsUnmet components).map (fun entry =>
      ⟨component.displayName, ⟨entry.2.requestedType, entry.2.qualifier⟩, entry.1,
        entry.2.unmetReason⟩)
    ++ (component.dependsOn.filter fun name =>
      ¬∃ provider ∈ components, provider.displayName = name).map fun name =>
        ⟨component.displayName, ⟨name, none⟩, .dependsOn, .unknownName⟩

theorem Dependency.not_isUnmet_iff {components : List Component} {dependency : Dependency} :
    ¬dependency.IsUnmet components ↔ dependency.IsProvided components := by
  unfold IsUnmet IsProvided
  rw [not_and, not_and, not_not]

namespace Graph

variable {components : List Component} (hdistinct : Distinct components)
  (hsorted : components.Pairwise (·.declarationIndex ≤ ·.declarationIndex))
include hdistinct hsorted

theorem unbound?_of_isUnmet {dependency : Dependency} (hunmet : dependency.IsUnmet components) :
    dependency.unbound? (Lookup.ofList components) false = some dependency.unmetReason := by
  obtain ⟨hliteral, hneeded, hnoProvider⟩ := hunmet
  have hfind : (Lookup.ofList components).find dependency.requestedType dependency.qualifier
      = .notFound := by
    rw [← isSome_provider?_iff, ← provider?_find hdistinct hsorted] at hnoProvider
    cases hfound : (Lookup.ofList components).find dependency.requestedType
        dependency.qualifier with
    | found provider => simp [hfound, Provision.provider?] at hnoProvider
    | ambiguous chosen candidates => simp [hfound, Provision.provider?] at hnoProvider
    | notFound => rfl
  unfold Dependency.unbound? Dependency.unmetReason
  rw [hliteral, hfind]
  cases dependency.qualifier <;> simp [hneeded]

/-- Each component is reported with what it lacks. -/
theorem faultsOf_eq_shortages (component : Component) :
    (ofComponents components).faultsOf (Lookup.ofList components) false component
      = component.shortages components := by
  refine congrArg₂ (· ++ ·) ?_ (congrArg (List.map _) ?_)
  · rw [← List.filterMap_eq_filter, List.map_filterMap]
    refine List.filterMap_congr fun entry _ => ?_
    by_cases hunmet : entry.2.IsUnmet components
    · simp only [unbound?_of_isUnmet hdistinct hsorted hunmet, Option.guard, hunmet, decide_true,
        if_true, Option.map_some]
      rfl
    · have hprovided := Dependency.not_isUnmet_iff.mp hunmet
      have hbound := (unbound?_eq_none_iff hdistinct hsorted).mpr hprovided
      simp [hbound, Option.guard, hunmet]
  · refine List.filter_congr fun name _ => ?_
    rw [Bool.eq_iff_iff, decide_eq_true_eq, ← orderNode?_isSome_iff hdistinct,
      Option.not_isSome_iff_eq_none, Option.isNone_iff_eq_none]

end Graph

/-- The faults that are found without strict mode. -/
theorem Activation.errors_lenient (activation : Activation)
    (hdistinct : Distinct activation.enabled)
    (hsorted : activation.enabled.Pairwise (·.declarationIndex ≤ ·.declarationIndex)) :
    (activation.findings false).errors
      = (activation.enabled.flatMap (Component.shortages activation.enabled)).map .resolution
        ++ ((Graph.ofComponents activation.enabled).cycle?.toList.map .cycle) := by
  have hfaults : (Graph.ofComponents activation.enabled).components.flatMap
        ((Graph.ofComponents activation.enabled).faultsOf (Lookup.ofList activation.enabled) false)
      = activation.enabled.flatMap (Component.shortages activation.enabled) := by
    rw [Graph.components_ofComponents]
    exact congrArg (activation.enabled.flatMap ·)
      (funext (Graph.faultsOf_eq_shortages hdistinct hsorted))
  unfold Activation.findings Graph.allFindings Graph.findings
  rw [← hfaults]
  cases (Graph.ofComponents activation.enabled).cycle? <;> rfl

/-- A run reports the faults of the catalog or else all undecided pairs, and nothing else. Otherwise
it reports without strict mode what each enabled component lacks, and then a cycle if a component
needs itself, and there is a plan exactly if there is nothing to report. -/
theorem Catalog.faults_reported (catalog : Catalog) (options : Options)
    (environment : Environment) :
    (catalog.faults ≠ [] →
        catalog.plan options environment = .error ⟨catalog.faults.map .configuration, [], []⟩)
      ∧ (∀ pairs, catalog.faults = [] →
        catalog.activate (environment.withDefaults options) = .error pairs →
          catalog.plan options environment = .error ⟨pairs.map .configuration, [], []⟩)
      ∧ ∀ activation, catalog.faults = [] →
        catalog.activate (environment.withDefaults options) = .ok activation →
          options.strict = false →
            let components := catalog.enabled (environment.withDefaults options)
            let errors := (findingsOf (catalog.plan options environment)).errors
            (∃ cycles : List Cycle,
              errors = (components.flatMap (Component.shortages components)).map .resolution
                  ++ cycles.map .cycle
                ∧ ((∃ cycle, cycles = [cycle])
                    ∧ (∃ component, Relation.TransGen (Needs components) component component)
                  ∨ cycles = []
                    ∧ ∀ component, ¬Relation.TransGen (Needs components) component component))
              ∧ ((∃ plan, catalog.plan options environment = .ok plan) ↔ errors = []) := by
  refine ⟨plan_of_faults, fun pairs hfaults hactivate => plan_of_undecided hfaults hactivate, ?_⟩
  intro activation hfaults hactivate hlenient components errors
  have henabled : activation.enabled = components := enabled_of_activate hactivate
  have hdistinct : Distinct components := distinct_enabled hfaults
  have hsorted : components.Pairwise (·.declarationIndex ≤ ·.declarationIndex) := pairwise_enabled
  have hplan : catalog.plan options environment = activation.plan false :=
    hlenient ▸ plan_of_decided hfaults hactivate
  have hfound : errors = (activation.findings false).errors := by
    rw [← activation.findingsOf_plan, ← hplan]
  constructor
  · refine ⟨(Graph.ofComponents components).cycle?.toList, ?_, ?_⟩
    · rw [hfound, activation.errors_lenient (henabled ▸ hdistinct) (henabled ▸ hsorted), henabled]
    · have hacyclic := Graph.acyclic_iff hdistinct hsorted
      cases hcycle : (Graph.ofComponents components).cycle? with
      | none => exact .inr ⟨rfl, hacyclic.mp hcycle⟩
      | some cycle =>
          refine .inl ⟨⟨cycle, rfl⟩, ?_⟩
          rw [hcycle] at hacyclic
          simpa using hacyclic
  · rw [hplan, hfound, activation.plan_eq]
    by_cases hnone : (activation.findings false).errors = []
    · simp [hnone]
    · simp [hnone]

/-- A service without its clock, its disk and its ledger, and a store that needs the service. -/
def stranded : Catalog where
  components :=
    [{ qualifiedName := "Service", displayName := "service", declarationIndex := 0
       sites := [.constructor [.direct "Clock", (Dependency.direct "Store").qualified "disk",
        .optional "Metrics", .direct "Store"]]
       dependsOn := ["ledger"] },
     { qualifiedName := "Store", displayName := "store", declarationIndex := 1
       sites := [.field "service" (.direct "Service")] }]
  ascending := by decide

theorem everything_reported :
    doubled.plan {} {} = .error ⟨[.configuration (.duplicateDisplayName "service")], [], []⟩
      ∧ caches.plan {} {} = .error
        ⟨[.configuration (.mutualAbsence "heap" "disk"),
          .configuration (.mutualAbsence "heap" "remote"),
          .configuration (.mutualAbsence "disk" "remote")], [], []⟩
      ∧ ∃ cycle, (findingsOf (stranded.plan {} {})).errors =
        [.resolution ⟨"service", ⟨"Clock", none⟩, .constructorArgument 0, .notFound⟩,
          .resolution ⟨"service", ⟨"Store", some "disk"⟩, .constructorArgument 1,
            .qualifierNotFound⟩,
          .resolution ⟨"service", ⟨"ledger", none⟩, .dependsOn, .unknownName⟩,
          .cycle cycle] := by
  have hdoubled : doubled.faults = [.duplicateDisplayName "service"] := by decide +kernel
  refine ⟨?_, ?_, ?_⟩
  · have hplan := (Catalog.faults_reported doubled {} {}).1 (by simp [hdoubled])
    rwa [hdoubled] at hplan
  · exact (Catalog.faults_reported caches {} {}).2.1
      [.mutualAbsence "heap" "disk", .mutualAbsence "heap" "remote",
        .mutualAbsence "disk" "remote"] (by decide +kernel) (by decide +kernel)
  · obtain ⟨⟨cycles, herrors, hcycles⟩, -⟩ :=
      (Catalog.faults_reported stranded {} {}).2.2 _ (by decide +kernel) rfl rfl
    have hservice : stranded.components[0] ∈ stranded.enabled (Environment.withDefaults {} {}) := by
      decide +kernel
    have hstore : stranded.components[1] ∈ stranded.enabled (Environment.withDefaults {} {}) := by
      decide +kernel
    have htakes : Needs (stranded.enabled (Environment.withDefaults {} {}))
        stranded.components[0] stranded.components[1] :=
      ⟨hservice, hstore, .inl ⟨(.constructorArgument 3, .direct "Store"), by decide +kernel, rfl,
        by decide +kernel⟩⟩
    have hreturns : Needs (stranded.enabled (Environment.withDefaults {} {}))
        stranded.components[1] stranded.components[0] :=
      ⟨hstore, hservice, .inl ⟨_, List.mem_cons_self, rfl, by decide +kernel⟩⟩
    have hshortages : (stranded.enabled (Environment.withDefaults {} {})).flatMap
          (Component.shortages (stranded.enabled (Environment.withDefaults {} {})))
        = [⟨"service", ⟨"Clock", none⟩, .constructorArgument 0, .notFound⟩,
          ⟨"service", ⟨"Store", some "disk"⟩, .constructorArgument 1, .qualifierNotFound⟩,
          ⟨"service", ⟨"ledger", none⟩, .dependsOn, .unknownName⟩] := by
      decide +kernel
    rw [hshortages] at herrors
    rcases hcycles with ⟨⟨cycle, rfl⟩, -⟩ | ⟨-, hacyclic⟩
    · exact ⟨cycle, herrors⟩
    · exact absurd (.tail (.single htakes) hreturns) (hacyclic _)

end Assembly
