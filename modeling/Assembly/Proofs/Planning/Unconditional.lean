import Assembly.Proofs.Planning.Parallel

/-!
# Conditions have no part in the wiring

Conditions decide which components take part. If those that do are declared once more without their
conditions, then a run in any environment ends like the run that decided: it finds the same, except
for what it says of conditions.
-/

namespace Assembly

def Component.unconditional (component : Component) : Component :=
  { component with conditions := [] }

/-- The findings without those that conditions give rise to. -/
def Findings.unconditional (findings : Findings) : Findings where
  errors := findings.errors
  warnings := findings.warnings.filter (·.kind ≠ .conditionalDependency)
  excluded := []

def Step.unconditional (step : Step) : Step :=
  { step with
    inclusion := "unconditional"
    warnings := step.warnings.filter (·.kind ≠ .conditionalDependency) }

def Plan.unconditional (plan : Plan) : Plan where
  steps := plan.steps.map Step.unconditional
  edges := plan.edges
  findings := plan.findings.unconditional

theorem Component.resembles_unconditional (component : Component) :
    component.Resembles component.unconditional :=
  component.resembles_of_rest _ _ _

theorem Component.fragilities_unconditional (consumer provider : Component) :
    consumer.unconditional.fragilities provider.unconditional
      = (consumer.fragilities provider).filter (·.kind ≠ .conditionalDependency) := by
  have hconditional : (if !consumer.isConditional && provider.isConditional then
        [Warning.mk consumer.displayName .conditionalDependency (conditionalMessage provider)]
      else []).filter (·.kind ≠ .conditionalDependency) = [] := by
    split
    · rfl
    · rfl
  have hlazy : (if consumer.isEager && provider.isLazySingleton then
        [Warning.mk consumer.displayName .lazyForced (lazyForcedMessage provider)]
      else []).filter (·.kind ≠ .conditionalDependency)
      = if consumer.isEager && provider.isLazySingleton then
        [Warning.mk consumer.displayName .lazyForced (lazyForcedMessage provider)] else [] := by
    split
    · rfl
    · rfl
  unfold fragilities
  rw [List.filter_append, hconditional, hlazy]
  rfl

/-- Without conditions all components take part, in whatever environment. -/
theorem Catalog.activate_of_unconditional {catalog : Catalog}
    (hconditions : ∀ component ∈ catalog.components, component.conditions = [])
    (environment : Environment) : catalog.activate environment = .ok ⟨catalog.components, []⟩ := by
  have htentative : catalog.tentative environment = catalog.components := by
    apply List.filter_eq_self.mpr
    intro component hcomponent
    simp [hconditions component hcomponent]
  have hreasons : ∀ component ∈ catalog.components,
      Activation.reasons environment catalog.components component = [] := by
    intro component hcomponent
    rw [reasons_eq_nil_iff, hconditions component hcomponent]
    exact ⟨fun _ hmem => (nomatch hmem), fun _ hmem => (nomatch hmem)⟩
  rw [activate_eq_ok_iff, htentative]
  constructor
  · refine mutualAbsences_eq_nil_iff.mpr (List.pairwise_of_forall_mem_list ?_)
    intro first hfirst second _ hrivals
    obtain ⟨types, names, hmissing, -⟩ := hrivals.1
    rw [hconditions first hfirst] at hmissing
    cases hmissing
  · unfold Activation.among
    refine congrArg₂ Activation.mk (List.filter_eq_self.mpr ?_).symm
      (List.filterMap_eq_nil_iff.mpr ?_).symm
    · intro component hcomponent
      rw [hreasons component hcomponent]
      rfl
    · intro component hcomponent
      rw [hreasons component hcomponent]

/-! ### Components declared once more -/

namespace Catalog

variable {components : List Component}
  (hascending : components.Pairwise (·.declarationIndex ≤ ·.declarationIndex))
include hascending

theorem components_unconditional :
    (ofList (components.map Component.unconditional)).components
      = components.map Component.unconditional := by
  have hsorted : (components.map Component.unconditional).Pairwise
      (·.declarationIndex ≤ ·.declarationIndex) := List.pairwise_map.mpr hascending
  rw [ofList_of_pairwise hsorted]

theorem faults_unconditional (hdistinct : Distinct components)
    (hconsistent : ∀ component ∈ components, component.Consistent) :
    (ofList (components.map Component.unconditional)).faults = [] := by
  rw [faults_eq_nil_iff, components_unconditional hascending]
  constructor
  · refine List.pairwise_map.mpr (hdistinct.imp fun hapart => ?_)
    exact ⟨hapart.qualifiedName, hapart.displayName, hapart.declarationIndex⟩
  · intro bare hmem
    obtain ⟨component, hcomponent, rfl⟩ := List.mem_map.mp hmem
    exact
      { constructorCount := (hconsistent component hcomponent).constructorCount
        contradictions := rfl }

theorem activate_unconditional (environment : Environment) :
    (ofList (components.map Component.unconditional)).activate environment
      = .ok ⟨components.map Component.unconditional, []⟩ := by
  have hactivate := @activate_of_unconditional (ofList (components.map Component.unconditional))
  rw [components_unconditional hascending] at hactivate
  apply hactivate
  intro bare hmem
  obtain ⟨component, -, rfl⟩ := List.mem_map.mp hmem
  rfl

end Catalog

section Unconditional

variable {n : Nat} {component : Fin n → Component}
  (halike : Alike component fun node => (component node).unconditional)
include halike

/-- What conditions give rise to is only ever found about an edge. -/
theorem Alike.findings_unconditional (excluded : List Exclusion) :
    (Graph.ofFn fun node => (component node).unconditional).allFindings
        (Lookup.ofList (List.ofFn fun node => (component node).unconditional)) false []
      = ((Graph.ofFn component).allFindings (Lookup.ofList (List.ofFn component)) false
        excluded).unconditional := by
  have hsites : ∀ node, ((component node).unconditional).sites = (component node).sites :=
    fun _ => rfl
  have hbindings : ((Graph.ofFn component).findings (Lookup.ofList (List.ofFn component))
        false).warnings.filter (·.kind ≠ .conditionalDependency)
      = ((Graph.ofFn component).findings (Lookup.ofList (List.ofFn component)) false).warnings := by
    rw [Graph.warnings_findings_ofFn]
    apply List.filter_eq_self.mpr
    intro warning hwarning
    obtain ⟨node, -, hwarning⟩ := List.mem_flatMap.mp hwarning
    obtain ⟨entry, -, hwarning⟩ := List.mem_flatMap.mp hwarning
    rcases Dependency.kind_of_warnings _ _ _ _ hwarning with hkind | hkind
    · rw [hkind]
      rfl
    · rw [hkind]
      rfl
  have hfragilities : (Graph.ofFn fun node => (component node).unconditional).fragilities
      = (Graph.ofFn component).fragilities.filter (·.kind ≠ .conditionalDependency) := by
    rw [Graph.fragilities_ofFn, Graph.fragilities_ofFn, halike.hard_eq hsites, List.filter_flatMap]
    apply List.flatMap_congr
    intro node _
    rw [List.filter_flatMap]
    exact List.flatMap_congr fun provider _ =>
      (component node).fragilities_unconditional (component provider)
  unfold Graph.allFindings Findings.unconditional
  rw [halike.findings_eq hsites, halike.cycle?_eq (halike.hard_eq hsites), hfragilities]
  simp only [Bool.false_eq_true, if_false, List.filter_append, hbindings]

theorem Alike.step_unconditional (warnings : List Warning) (node : Fin n) :
    (Graph.ofFn fun node => (component node).unconditional).step
        (Graph.ofFn fun node => (component node).unconditional).levels
        (warnings.filter (·.kind ≠ .conditionalDependency)) node
      = ((Graph.ofFn component).step (Graph.ofFn component).levels warnings
        node).unconditional := by
  have hwarnings : (warnings.filter (·.kind ≠ .conditionalDependency)).filter
        (·.component = (component node).displayName)
      = (warnings.filter (·.component = (component node).displayName)).filter
        (·.kind ≠ .conditionalDependency) := by
    rw [List.filter_filter, List.filter_filter]
    exact List.filter_congr fun _ _ => Bool.and_comm _ _
  rw [halike.step_eq_of_sites (fun _ => rfl) warnings, hwarnings]
  unfold Step.unconditional Graph.step Graph.stepWith
  rw [Graph.component_ofFn]
  rfl

theorem Alike.endsLike_unconditional (excluded : List Exclusion) :
    EndsLike (fun plan bare => bare = plan.unconditional)
      (fun findings bare => bare = findings.unconditional)
      (Activation.plan ⟨List.ofFn component, excluded⟩ false)
      (Activation.plan ⟨List.ofFn fun node => (component node).unconditional, []⟩ false) := by
  have hsteps : ∀ findings : Findings,
      ((Graph.ofFn fun node => (component node).unconditional).plan
          (Graph.ofFn fun node => (component node).unconditional).sorted
          findings.unconditional).steps
        = ((Graph.ofFn component).plan (Graph.ofFn component).sorted findings).steps.map
          Step.unconditional := by
    intro findings
    rw [Graph.steps_plan (Graph.displayName_ofFn_injective halike.distinct_second),
      Graph.steps_plan (Graph.displayName_ofFn_injective halike.distinct), List.map_map,
      halike.sequence_eq (halike.hard_eq fun _ => rfl)]
    exact List.map_congr_left fun node _ => halike.step_unconditional findings.warnings node
  refine Activation.endsLike_ofFn rfl (halike.findings_unconditional excluded) rfl ?_ rfl
  exact congrArg₂ (Plan.mk · · _) (hsteps _) (halike.edges_eq fun _ => rfl)

end Unconditional

/-- The components that take part, declared once more without their conditions, are planned in any
environment as they were in the one that decided: with the same steps in the same order, the same
edges and the same faults, and with the same warnings but those about conditions. -/
theorem Catalog.plan_unconditional {catalog : Catalog} {options others : Options}
    {environment : Environment} {activation : Activation} (hfaults : catalog.faults = [])
    (hactivate : catalog.activate (environment.withDefaults options) = .ok activation)
    (hlenient : options.strict = false) (hothers : others.strict = false)
    (elsewhere : Environment) :
    EndsLike (fun plan bare => bare = plan.unconditional)
      (fun findings bare => bare = findings.unconditional)
      (catalog.plan options environment)
      ((ofList (activation.enabled.map Component.unconditional)).plan others elsewhere) := by
  obtain ⟨enabled, excluded⟩ := activation
  have henabled : enabled = catalog.enabled (environment.withDefaults options) :=
    enabled_of_activate hactivate
  have hascending : enabled.Pairwise (·.declarationIndex ≤ ·.declarationIndex) :=
    henabled ▸ pairwise_enabled
  have hdistinct : Distinct enabled := henabled ▸ distinct_enabled hfaults
  have hconsistent : ∀ component ∈ enabled, component.Consistent := by
    intro component hcomponent
    rw [henabled] at hcomponent
    exact (faults_eq_nil_iff.mp hfaults).2 component (enabled_sublist.subset hcomponent)
  rw [plan_of_decided hfaults hactivate,
    plan_of_decided (faults_unconditional hascending hdistinct hconsistent)
      (activate_unconditional hascending (elsewhere.withDefaults others)), hlenient, hothers]
  have halike : Alike enabled.get fun node => (enabled.get node).unconditional :=
    { resembles := fun node => (enabled.get node).resembles_unconditional
      declaredBefore := fun _ _ => rfl
      distinct := (List.ofFn_get enabled).symm ▸ hdistinct
      ascending := (List.ofFn_get enabled).symm ▸ hascending }
  have hplan := halike.endsLike_unconditional excluded
  have hmap : (List.ofFn fun node => (enabled.get node).unconditional)
      = enabled.map Component.unconditional := List.ofFn_getElem_eq_map enabled _
  rwa [List.ofFn_get, hmap] at hplan

/-- A service takes a lazy store, which takes part where there is an address. There may be a replica
of the store. -/
def addressed : Catalog where
  components :=
    [{ qualifiedName := "Service", displayName := "service", declarationIndex := 0
       sites := [.constructor [.direct "Store"]] },
     { qualifiedName := "Store", displayName := "store", declarationIndex := 1, lazy := true
       conditions := [.property "store.url" none false] },
     { qualifiedName := "Replica", displayName := "replica", declarationIndex := 2
       conditions := [.flags ["replica"]] }]
  ascending := by decide

/-- Declared once more, the store is still forced by the service, and nothing is said of its
condition. -/
theorem addressed_unconditional :
    ∃ plan bare,
      addressed.plan {} { properties := .ofList [("store.url", "local")] } = .ok plan
        ∧ (Catalog.ofList ((addressed.components.take 2).map Component.unconditional)).plan {} {}
          = .ok bare
        ∧ bare = plan.unconditional
        ∧ plan.findings.warnings.map (·.kind) = [.conditionalDependency, .lazyForced]
        ∧ bare.findings.warnings.map (·.kind) = [.lazyForced] := by
  let environment : Environment := { properties := .ofList [("store.url", "local")] }
  have hactivate : addressed.activate (environment.withDefaults {})
      = .ok ⟨addressed.components.take 2, [⟨"replica", [.flagsMissing ["replica"]]⟩]⟩ := by
    decide +kernel
  have hends := Catalog.plan_unconditional (by decide +kernel) hactivate rfl
    (rfl : (Options.mk false []).strict = false) {}
  obtain ⟨plan, hplan⟩ : ∃ plan, addressed.plan {} environment = .ok plan :=
    Catalog.exists_plan_iff.mpr ⟨by decide +kernel, _, hactivate, by decide +kernel⟩
  have hwarnings : plan.findings.warnings.map (·.kind) = [.conditionalDependency, .lazyForced] := by
    obtain ⟨-, activation, hsame, -, rfl⟩ := Catalog.plan_eq_ok_iff.mp hplan
    cases hactivate.symm.trans hsame
    decide +kernel
  obtain ⟨bare, hbare, hsame⟩ := hends.exists_plan hplan
  have hfilter : bare.findings.warnings.map (·.kind)
      = (plan.findings.warnings.map (·.kind)).filter (· ≠ .conditionalDependency) := by
    rw [hsame, List.filter_map]
    rfl
  rw [hwarnings] at hfilter
  exact ⟨plan, bare, hplan, hbare, hsame, hwarnings, hfilter⟩

end Assembly
