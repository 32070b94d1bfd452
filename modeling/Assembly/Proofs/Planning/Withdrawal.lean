import Assembly.Proofs.Activation.Declared
import Assembly.Proofs.Planning.Parallel
import Assembly.Proofs.Planning.StrictMode

/-!
# Components that the environment switches off

A component that does not suit the environment is as good as not declared. It is no provider, no
target of a condition and no rival of another component, so that a run without it ends like a run
with it, except that there is nothing to say of it.
-/

namespace Assembly

/-- The catalog without a component. -/
def Catalog.without (catalog : Catalog) (component : Component) : Catalog where
  components := catalog.components.erase component
  ascending := catalog.ascending.sublist List.erase_sublist

/-- The findings differ at most in the components that are left out. -/
structure Findings.Agree (first second : Findings) : Prop where
  errors : second.errors = first.errors
  warnings : second.warnings = first.warnings

/-- The plans differ at most in the components that are left out. -/
structure Plan.Agree (first second : Plan) : Prop where
  steps : second.steps = first.steps
  edges : second.edges = first.edges
  findings : first.findings.Agree second.findings

namespace Activation

variable (components : List Component) (excluded others : List Exclusion) (strict : Bool)

/-- What is left out has no part in what is found about the components that take part. -/
theorem agree_findings :
    (Activation.findings ⟨components, excluded⟩ strict).Agree
      (Activation.findings ⟨components, others⟩ strict) := by
  cases strict with
  | false => exact { errors := rfl, warnings := rfl }
  | true => exact { errors := rfl, warnings := rfl }

theorem excluded_findings (activation : Activation) :
    (activation.findings strict).excluded = activation.excluded :=
  Graph.excluded_allFindings

theorem agree_plan :
    EndsLike Plan.Agree Findings.Agree (Activation.plan ⟨components, excluded⟩ strict)
      (Activation.plan ⟨components, others⟩ strict) := by
  have hagree := agree_findings components excluded others strict
  refine endsLike_plan hagree.errors ?_ hagree
  refine { steps := ?_, edges := rfl, findings := hagree }
  unfold Graph.plan
  rw [hagree.warnings]

end Activation

section Exclusion

variable {environment : Environment} {tentative : List Component} {component : Component}

/-- The entry of a component that is left out. -/
def exclusion? (environment : Environment) (tentative : List Component) (component : Component) :
    Option Exclusion :=
  if Activation.reasons environment tentative component = [] then none
  else some ⟨component.displayName, Activation.reasons environment tentative component⟩

theorem excluded_among (components : List Component) :
    (Activation.among environment tentative components).excluded
      = components.filterMap (exclusion? environment tentative) := by
  apply List.filterMap_congr
  intro component _
  unfold exclusion?
  cases Activation.reasons environment tentative component with
  | nil => rfl
  | cons reason rest => rfl

theorem component_of_exclusion? {exclusion : Exclusion}
    (hexclusion : exclusion? environment tentative component = some exclusion) :
    exclusion.component = component.displayName := by
  unfold exclusion? at hexclusion
  split at hexclusion
  · cases hexclusion
  · cases hexclusion
    rfl

/-- A component that does not suit the environment is left out for its objections alone. -/
theorem exclusion?_of_not_suits (hunsuited : ¬component.Suits environment) :
    exclusion? environment tentative component
      = some ⟨component.displayName, environment.objections component⟩ := by
  rw [suits_iff, ← objections_eq_nil_iff] at hunsuited
  have hreasons : Activation.reasons environment tentative component
      = environment.objections component := by
    unfold Activation.reasons
    cases hobjections : environment.objections component with
    | nil => exact absurd hobjections hunsuited
    | cons objection rest => rfl
  unfold exclusion?
  rw [hreasons, if_neg hunsuited]

end Exclusion

namespace Catalog

variable {catalog : Catalog} {environment : Environment} {component : Component}
  (hunsuited : ¬component.Suits environment)
include hunsuited

theorem tentative_without :
    (catalog.without component).tentative environment = catalog.tentative environment := by
  rw [suits_iff] at hunsuited
  by_cases hcomponent : component ∈ catalog.components
  · obtain ⟨before, after, -, hsplit, herase⟩ := List.exists_erase_eq hcomponent
    unfold tentative without
    dsimp only
    rw [herase, hsplit, List.filter_append, List.filter_append,
      List.filter_cons_of_neg (by simpa using hunsuited)]
  · unfold tentative without
    dsimp only
    rw [List.erase_of_not_mem hcomponent]

theorem enabled_without :
    (catalog.without component).enabled environment = catalog.enabled environment := by
  unfold enabled
  rw [tentative_without hunsuited]

theorem activate_without_eq_error {pairs : List CatalogFault}
    (hactivate : catalog.activate environment = .error pairs) :
    (catalog.without component).activate environment = .error pairs := by
  rw [activate_eq_error_iff, tentative_without hunsuited]
  exact activate_eq_error_iff.mp hactivate

theorem activate_without_eq_ok {activation : Activation}
    (hactivate : catalog.activate environment = .ok activation) :
    (catalog.without component).activate environment = .ok ⟨activation.enabled,
      (Activation.among environment (catalog.tentative environment)
        (catalog.without component).components).excluded⟩ := by
  obtain ⟨hdecided, -⟩ := activate_eq_ok_iff.mp hactivate
  have hleft : (catalog.without component).activate environment
      = .ok (.among environment (catalog.tentative environment)
        (catalog.without component).components) := by
    rw [activate_eq_ok_iff, tentative_without hunsuited]
    exact ⟨hdecided, rfl⟩
  rw [hleft, enabled_of_activate hactivate, ← enabled_without hunsuited,
    ← enabled_of_activate hleft]

/-- The component is left out for its own objections, and it is left out once. -/
theorem excluded_without (hnames : (catalog.components.map (·.displayName)).Nodup)
    (hcomponent : component ∈ catalog.components) {tentative : List Component} :
    ∃ before after,
      (Activation.among environment tentative catalog.components).excluded
          = before ++ ⟨component.displayName, environment.objections component⟩ :: after
        ∧ (Activation.among environment tentative (catalog.without component).components).excluded
          = before ++ after
        ∧ ∀ exclusion ∈ before ++ after, exclusion.component ≠ component.displayName := by
  obtain ⟨before, after, -, hsplit, herase⟩ := List.exists_erase_eq hcomponent
  have hfewer : (catalog.without component).components = before ++ after := herase
  refine ⟨before.filterMap (exclusion? environment tentative),
    after.filterMap (exclusion? environment tentative), ?_, ?_, ?_⟩
  · rw [excluded_among, hsplit, List.filterMap_append,
      List.filterMap_cons_some (exclusion?_of_not_suits hunsuited)]
  · rw [excluded_among, hfewer, List.filterMap_append]
  · intro exclusion hexclusion
    rw [← List.filterMap_append] at hexclusion
    obtain ⟨other, hother, hexclusion⟩ := List.mem_filterMap.mp hexclusion
    rw [hsplit, List.map_append, List.map_cons] at hnames
    have hfresh := (List.nodup_middle.mp hnames).notMem
    rw [← List.map_append] at hfresh
    rw [component_of_exclusion? hexclusion]
    exact fun heq => hfresh (heq ▸ List.mem_map_of_mem hother)

end Catalog

/-- In a consistent catalog a component that does not suit the environment makes no difference to
how a run ends, except for its own entry among the components that are left out. -/
theorem Catalog.plan_without {catalog : Catalog} {options : Options} {environment : Environment}
    {component : Component} (hfaults : catalog.faults = [])
    (hcomponent : component ∈ catalog.components)
    (hunsuited : ¬component.Suits (environment.withDefaults options)) :
    let whole := catalog.plan options environment
    let fewer := (catalog.without component).plan options environment
    EndsLike Plan.Agree Findings.Agree whole fewer
      ∧ ((∀ activation, catalog.activate (environment.withDefaults options) ≠ .ok activation) →
        fewer = whole)
      ∧ ∀ activation, catalog.activate (environment.withDefaults options) = .ok activation →
        ∃ before after, (findingsOf whole).excluded = before
              ++ ⟨component.displayName,
                (environment.withDefaults options).objections component⟩ :: after
            ∧ (findingsOf fewer).excluded = before ++ after
            ∧ ∀ exclusion ∈ before ++ after, exclusion.component ≠ component.displayName := by
  intro whole fewer
  have hfewer : (catalog.without component).faults = [] :=
    faults_of_sublist hfaults List.erase_sublist
  cases hactivate : catalog.activate (environment.withDefaults options) with
  | error pairs =>
      have hwhole : whole = .error (.ofCatalog pairs) := plan_of_undecided hfaults hactivate
      have hsame : fewer = .error (.ofCatalog pairs) :=
        plan_of_undecided hfewer (activate_without_eq_error hunsuited hactivate)
      rw [hwhole, hsame]
      refine ⟨.failure { errors := rfl, warnings := rfl }, fun _ => rfl, ?_⟩
      intro activation hactivation
      cases hactivation
  | ok activation =>
      have hwhole : whole = activation.plan options.strict := plan_of_decided hfaults hactivate
      have hsame : fewer = Activation.plan ⟨activation.enabled, _⟩ options.strict :=
        plan_of_decided hfewer (activate_without_eq_ok hunsuited hactivate)
      rw [hwhole, hsame]
      refine ⟨Activation.agree_plan _ _ _ _, fun hnone => absurd rfl (hnone activation), ?_⟩
      rintro _ ⟨⟩
      rw [Activation.findingsOf_plan, Activation.findingsOf_plan, Activation.excluded_findings,
        Activation.excluded_findings, (activate_eq_ok_iff.mp hactivate).2]
      exact excluded_without hunsuited (distinct_of_faults_eq_nil hfaults).nodup_displayName
        hcomponent

/-- Without the address of the other cache the fallback takes part, declared beside that cache or
not. -/
theorem gated_without_redis :
    ∃ plan fewer, gated.plan {} {} = .ok plan
      ∧ (gated.without gated.components[1]).plan {} {} = .ok fewer
      ∧ plan.Agree fewer
      ∧ plan.findings.excluded = [⟨"redis", [.propertyMissing "redis.url"]⟩,
        ⟨"metrics", [.flagsMissing ["metrics"]]⟩, ⟨"monitor", [.targetMissing "redis"]⟩]
      ∧ fewer.findings.excluded =
        [⟨"metrics", [.flagsMissing ["metrics"]]⟩, ⟨"monitor", [.targetMissing "redis"]⟩] := by
  have hunsuited : ¬gated.components[1].Suits (Environment.withDefaults {} {}) := by
    rw [suits_iff]
    decide
  obtain ⟨hends, -, hexcluded⟩ := @Catalog.plan_without gated {} {} gated.components[1]
    (by decide +kernel) (by decide) hunsuited
  obtain ⟨plan, hplan⟩ : ∃ plan, gated.plan {} {} = .ok plan :=
    Catalog.exists_plan_iff.mpr ⟨by decide +kernel, _, rfl, by decide +kernel⟩
  have hentries : plan.findings.excluded = [⟨"redis", [.propertyMissing "redis.url"]⟩,
      ⟨"metrics", [.flagsMissing ["metrics"]]⟩, ⟨"monitor", [.targetMissing "redis"]⟩] := by
    obtain ⟨-, activation, hactivate, -, rfl⟩ := Catalog.plan_eq_ok_iff.mp hplan
    cases hactivate
    decide +kernel
  obtain ⟨fewer, hfewer, hagree⟩ := hends.exists_plan hplan
  rw [hplan, hfewer] at hexcluded
  obtain ⟨before, after, hwhole, hrest, hothers⟩ := hexcluded _ rfl
  rw [show (findingsOf (.ok plan)).excluded = _ from hentries] at hwhole
  cases before with
  | nil =>
      cases hwhole
      exact ⟨plan, fewer, hplan, hfewer, hagree, hentries, hrest⟩
  | cons first rest =>
      have hfirst := (List.cons.inj hwhole).1
      exact absurd (hfirst ▸ rfl) (hothers first List.mem_cons_self)

end Assembly
