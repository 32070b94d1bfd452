import Assembly.Planning
import Assembly.Proofs.Activation.Meaning
import Assembly.Proofs.Graph.Sequence

/-!
# How a run ends

A run ends with the faults of its catalog, with the pairs of components that yield to each other, or
else with the findings about the components that take part. In the last case there is a plan exactly
if none of the findings is a fault.
-/

namespace Assembly

/-- The findings of a run in which the components of an activation take part. -/
def Activation.findings (activation : Activation) (strict : Bool) : Findings :=
  (Graph.ofComponents activation.enabled).allFindings (Lookup.ofList activation.enabled) strict
    activation.excluded

namespace Graph

variable {graph : Graph} {lookup : Lookup} {strict : Bool} {excluded : List Exclusion}

/-- A run finds no fault if every dependency is bound, there is no cycle and, in strict mode, no
warning either. -/
theorem errors_allFindings_eq_nil_iff :
    (graph.allFindings lookup strict excluded).errors = []
      ↔ (graph.findings lookup strict).errors = [] ∧ graph.cycle? = none
        ∧ (strict = true →
          (graph.findings lookup strict).warnings = [] ∧ graph.fragilities = []) := by
  cases strict <;> simp [allFindings, Findings.promoteWarnings]

/-- The step of a node, with those of the warnings that are about its component. -/
def step (graph : Graph) (levels : Vector (Option Nat) graph.size) (warnings : List Warning)
    (node : Fin graph.size) : Step :=
  graph.stepWith levels (warnings.filter (·.component = (graph.component node).displayName)) node

/-- A step takes what is listed under its component, and what is listed under the components of
later steps is left. -/
theorem stepsWith_eq {levels : Vector (Option Nat) graph.size}
    {warnings : NameMap (List Warning)} {nodes : List (Fin graph.size)}
    (hnames : (nodes.map fun node => (graph.component node).displayName).Nodup) :
    graph.stepsWith levels warnings nodes
      = nodes.map fun node =>
        graph.stepWith levels (warnings.listed (graph.component node).displayName) node := by
  induction nodes generalizing warnings with
  | nil => rfl
  | cons node rest ih =>
      obtain ⟨hfresh, hrest⟩ := List.nodup_cons.mp hnames
      rw [stepsWith, ih hrest, List.map_cons]
      refine congrArg (_ :: ·) (List.map_congr_left fun other hother => ?_)
      have hother : (graph.component other).displayName ≠ (graph.component node).displayName :=
        fun heq => hfresh (List.mem_map.mpr ⟨other, hother, heq⟩)
      rw [NameMap.listed_erase, if_neg hother]

/-- Where no two nodes share a name, every step has all warnings about its component. -/
theorem steps_plan (hnames : Function.Injective fun node => (graph.component node).displayName)
    (findings : Findings) :
    (graph.plan graph.sorted findings).steps
      = graph.sequence.map (graph.step graph.levels findings.warnings) := by
  have hnodup : (graph.sequence.map fun node => (graph.component node).displayName).Nodup :=
    (sequence_perm.nodup_iff.mpr (List.nodup_finRange graph.size)).map hnames
  refine (stepsWith_eq hnodup).trans (List.map_congr_left fun node _ => ?_)
  rw [NameMap.listed_listedBy]
  rfl

theorem excluded_allFindings : (graph.allFindings lookup strict excluded).excluded = excluded := by
  cases strict with
  | false => rfl
  | true => rfl

end Graph

/-- There is a plan exactly if there is no fault. -/
theorem Activation.plan_eq (activation : Activation) (strict : Bool) :
    activation.plan strict
      = if (activation.findings strict).errors = [] then
          .ok ((Graph.ofComponents activation.enabled).plan
            (Graph.ofComponents activation.enabled).sorted (activation.findings strict))
        else .error (activation.findings strict) := by
  unfold Activation.plan
  dsimp only
  by_cases herrors : (activation.findings strict).errors = []
  · have hsorted := Graph.order_of_cycle?_eq_none
      (Graph.errors_allFindings_eq_nil_iff.mp herrors).2.1
    have hnone : (activation.findings strict).hasErrors = false := by
      simp [Findings.hasErrors, herrors]
    rw [if_pos herrors]
    split
    · next cycle horder => cases horder.symm.trans hsorted
    · next order horder =>
      cases horder.symm.trans hsorted
      exact if_neg (Bool.eq_false_iff.mp hnone)
  · have hsome : (activation.findings strict).hasErrors = true := by
      simp [Findings.hasErrors, herrors]
    rw [if_neg herrors]
    split
    · rfl
    · exact if_pos hsome

namespace Catalog

variable {catalog : Catalog} {options : Options} {environment : Environment}

theorem plan_of_faults (hfaults : catalog.faults ≠ []) :
    catalog.plan options environment = .error (.ofCatalog catalog.faults) := by
  unfold plan
  split
  · next hnil => exact absurd hnil hfaults
  · rfl

theorem plan_of_undecided (hfaults : catalog.faults = []) {pairs : List CatalogFault}
    (hactivate : catalog.activate (environment.withDefaults options) = .error pairs) :
    catalog.plan options environment = .error (.ofCatalog pairs) := by
  unfold plan
  rw [hfaults]
  simp only [hactivate]

theorem plan_of_decided (hfaults : catalog.faults = []) {activation : Activation}
    (hactivate : catalog.activate (environment.withDefaults options) = .ok activation) :
    catalog.plan options environment = activation.plan options.strict := by
  unfold plan
  rw [hfaults]
  simp only [hactivate]

/-- Whether the catalog ends the run does not depend on the mode. -/
theorem plan_cases (catalog : Catalog) (options : Options) (environment : Environment) :
    (∃ faults, faults ≠ [] ∧ ∀ strict,
        catalog.plan { options with strict } environment = .error (.ofCatalog faults))
      ∨ catalog.faults = [] ∧ ∃ activation,
        catalog.activate (environment.withDefaults options) = .ok activation ∧ ∀ strict,
          catalog.plan { options with strict } environment = activation.plan strict := by
  by_cases hfaults : catalog.faults = []
  · cases hactivate : catalog.activate (environment.withDefaults options) with
    | error pairs =>
        have hpairs := (activate_eq_error_iff.mp hactivate).2
        exact .inl ⟨pairs, hpairs, fun _ => plan_of_undecided hfaults hactivate⟩
    | ok activation =>
        exact .inr ⟨hfaults, activation, rfl, fun _ => plan_of_decided hfaults hactivate⟩
  · exact .inl ⟨catalog.faults, hfaults, fun _ => plan_of_faults hfaults⟩

theorem plan_eq_ok_iff {plan : Plan} :
    catalog.plan options environment = .ok plan
      ↔ catalog.faults = [] ∧ ∃ activation,
        catalog.activate (environment.withDefaults options) = .ok activation
          ∧ (activation.findings options.strict).errors = []
          ∧ plan = (Graph.ofComponents activation.enabled).plan
            (Graph.ofComponents activation.enabled).sorted
            (activation.findings options.strict) := by
  constructor
  · intro hplan
    rcases plan_cases catalog options environment with
      ⟨faults, -, hfailure⟩ | ⟨hfaults, activation, hactivate, hdecided⟩
    · cases hplan.symm.trans (hfailure options.strict)
    · have hok := (hdecided options.strict).symm.trans hplan
      rw [activation.plan_eq] at hok
      split at hok
      · next herrors =>
        cases hok
        exact ⟨hfaults, activation, hactivate, herrors, rfl⟩
      · cases hok
  · rintro ⟨hfaults, activation, hactivate, herrors, rfl⟩
    rw [plan_of_decided hfaults hactivate, activation.plan_eq, if_pos herrors]

theorem exists_plan_iff :
    (∃ plan, catalog.plan options environment = .ok plan)
      ↔ catalog.faults = [] ∧ ∃ activation,
        catalog.activate (environment.withDefaults options) = .ok activation
          ∧ (activation.findings options.strict).errors = [] := by
  constructor
  · rintro ⟨plan, hplan⟩
    obtain ⟨hfaults, activation, hactivate, herrors, -⟩ := plan_eq_ok_iff.mp hplan
    exact ⟨hfaults, activation, hactivate, herrors⟩
  · rintro ⟨hfaults, activation, hactivate, herrors⟩
    exact ⟨_, plan_eq_ok_iff.mpr ⟨hfaults, activation, hactivate, herrors, rfl⟩⟩

theorem errors_of_plan {plan : Plan} (hplan : catalog.plan options environment = .ok plan) :
    plan.findings.errors = [] := by
  obtain ⟨-, activation, -, herrors, rfl⟩ := plan_eq_ok_iff.mp hplan
  exact herrors

theorem errors_of_failure {findings : Findings}
    (hplan : catalog.plan options environment = .error findings) : findings.errors ≠ [] := by
  rcases plan_cases catalog options environment with
    ⟨faults, hfaults, hfailure⟩ | ⟨-, activation, -, hdecided⟩
  · cases hplan.symm.trans (hfailure options.strict)
    simpa [Findings.ofCatalog] using hfaults
  · have herror := (hdecided options.strict).symm.trans hplan
    rw [activation.plan_eq] at herror
    split at herror
    · cases herror
    · next herrors =>
      cases herror
      exact herrors

end Catalog

/-- What is known of a plan and of the components that take part in it. -/
structure Planned (components : List Component) (strict : Bool) (plan : Plan) : Prop where
  distinct : Distinct components
  ascending : components.Pairwise (·.declarationIndex ≤ ·.declarationIndex)
  bound : ((Graph.ofComponents components).findings (Lookup.ofList components) strict).errors = []
  acyclic : (Graph.ofComponents components).cycle? = none
  eq : plan =
    (Graph.ofComponents components).plan (Graph.ofComponents components).sorted plan.findings

theorem Catalog.planned {catalog : Catalog} {options : Options} {environment : Environment}
    {plan : Plan} (hplan : catalog.plan options environment = .ok plan) :
    Planned (catalog.enabled (environment.withDefaults options)) options.strict plan := by
  obtain ⟨hfaults, activation, hactivate, herrors, rfl⟩ := plan_eq_ok_iff.mp hplan
  obtain ⟨hbound, hcycle, -⟩ := Graph.errors_allFindings_eq_nil_iff.mp herrors
  rw [← enabled_of_activate hactivate]
  exact
    { distinct := enabled_of_activate hactivate ▸ distinct_enabled hfaults
      ascending := enabled_of_activate hactivate ▸ pairwise_enabled
      bound := hbound
      acyclic := hcycle
      eq := rfl }

end Assembly
