import Assembly.Proofs.Planning.Arguments

/-!
# Where warnings are attached

The warnings of a run are listed under the components that they are about, and the step of a component
takes its list away. Nothing is left over, because every warning is about a component that takes part,
and no list is asked for twice, because no two steps have one name.
-/

namespace Assembly

/-- Items are parted by their names without loss if the names are different and complete. -/
theorem flatMap_filter_perm {α : Type} {nameOf : α → String} {names : List String}
    {items : List α} (hnames : names.Nodup) (hcovered : ∀ item ∈ items, nameOf item ∈ names) :
    (names.flatMap fun name => items.filter (nameOf · = name)).Perm items := by
  induction names generalizing items with
  | nil =>
      have hnone : items = [] := List.eq_nil_iff_forall_not_mem.mpr fun item hitem =>
        List.not_mem_nil (hcovered item hitem)
      rw [hnone]
      exact .nil
  | cons name rest ih =>
      obtain ⟨hfresh, hrest⟩ := List.nodup_cons.mp hnames
      -- What has another name is covered by the other names.
      let others := items.filter fun item => !decide (nameOf item = name)
      have hothers : (rest.flatMap fun other => others.filter (nameOf · = other)).Perm others := by
        refine ih hrest fun item hitem => ?_
        obtain ⟨hmem, hdiffers⟩ := List.mem_filter.mp hitem
        refine (List.mem_cons.mp (hcovered item hmem)).resolve_left fun heq => ?_
        simp [heq] at hdiffers
      have hsame : rest.flatMap (fun other => items.filter (nameOf · = other))
          = rest.flatMap fun other => others.filter (nameOf · = other) := by
        refine List.flatMap_congr fun other hother => ?_
        have hne : other ≠ name := fun heq => hfresh (heq ▸ hother)
        rw [List.filter_filter]
        refine List.filter_congr fun item _ => ?_
        by_cases heq : nameOf item = other
        · simp [heq, hne]
        · simp [heq]
      rw [List.flatMap_cons, hsame]
      exact (hothers.append_left _).trans (List.filter_append_perm _ items)

theorem Component.component_of_mem_fragilities {consumer provider : Component} {warning : Warning}
    (hwarning : warning ∈ consumer.fragilities provider) :
    warning.component = consumer.displayName := by
  have hone : ∀ {holds : Prop} [Decidable holds] {kind : WarningKind} {message : String},
      warning ∈ (if holds then [⟨consumer.displayName, kind, message⟩] else []) →
        warning.component = consumer.displayName := by
    intro holds _ kind message hmem
    split at hmem
    · rw [List.mem_singleton.mp hmem]
    · cases hmem
  exact (List.mem_append.mp hwarning).elim hone hone

namespace Graph

theorem exists_component_of_warning {graph : Graph} {lookup : Lookup} {strict : Bool}
    {excluded : List Exclusion} {warning : Warning}
    (hwarning : warning ∈ (graph.allFindings lookup strict excluded).warnings) :
    ∃ component ∈ graph.components, component.displayName = warning.component := by
  cases strict with
  | true => cases hwarning
  | false =>
      rcases List.mem_append.mp hwarning with hdoubt | hfragile
      · obtain ⟨component, hcomponent, hdoubt⟩ := List.mem_flatMap.mp hdoubt
        obtain ⟨entry, -, hentry⟩ := List.mem_filterMap.mp hdoubt
        obtain ⟨doubt, -, rfl⟩ := Option.map_eq_some_iff.mp hentry
        exact ⟨component, hcomponent, rfl⟩
      · obtain ⟨node, hnode, hfragile⟩ := List.mem_flatMap.mp hfragile
        obtain ⟨provider, -, hprovider⟩ := List.mem_flatMap.mp hfragile
        exact ⟨_, List.mem_map_of_mem hnode,
          (Component.component_of_mem_fragilities hprovider).symm⟩

end Graph

namespace Catalog

variable {catalog : Catalog} {options : Options} {environment : Environment} {plan : Plan}
  (hplan : catalog.plan options environment = .ok plan)
include hplan

theorem warnings_of_mem_steps {step : Step} (hstep : step ∈ plan.steps) :
    step.warnings = plan.findings.warnings.filter (·.component = step.component) := by
  obtain ⟨node, rfl⟩ := (planned hplan).mem_steps_iff.mp hstep
  rfl

theorem exists_step_of_warning {warning : Warning} (hwarning : warning ∈ plan.findings.warnings) :
    ∃ step ∈ plan.steps, step.component = warning.component := by
  obtain ⟨-, activation, hactivate, -, rfl⟩ := plan_eq_ok_iff.mp hplan
  obtain ⟨component, hcomponent, hname⟩ := Graph.exists_component_of_warning hwarning
  rw [Graph.components_ofComponents, enabled_of_activate hactivate] at hcomponent
  obtain ⟨step, hstep, hstepOf⟩ := (planned hplan).exists_step hcomponent
  exact ⟨step, hstep, hstepOf.name.trans hname⟩

theorem perm_warnings : (plan.steps.flatMap (·.warnings)).Perm plan.findings.warnings := by
  have hnames : (plan.steps.map (·.component)).Nodup := (planned hplan).nodup_steps
  have hcovered : ∀ warning ∈ plan.findings.warnings,
      warning.component ∈ plan.steps.map (·.component) := by
    intro warning hwarning
    obtain ⟨step, hstep, hname⟩ := exists_step_of_warning hplan hwarning
    exact hname ▸ List.mem_map_of_mem hstep
  have hlists : plan.steps.flatMap (·.warnings)
      = (plan.steps.map (·.component)).flatMap fun name =>
        plan.findings.warnings.filter (·.component = name) := by
    rw [List.flatMap_map]
    exact List.flatMap_congr fun step hstep => warnings_of_mem_steps hplan hstep
  rw [hlists]
  exact flatMap_filter_perm hnames hcovered

end Catalog

/-- Each step of a plan has all warnings about its component, in the order in which they were found.
Each warning is attached to one step and to no other one, and none is lost or attached twice. -/
theorem Catalog.warnings_attached {catalog : Catalog} {options : Options}
    {environment : Environment} {plan : Plan}
    (hplan : catalog.plan options environment = .ok plan) :
    (∀ step ∈ plan.steps,
        step.warnings = plan.findings.warnings.filter (·.component = step.component))
      ∧ (∀ warning ∈ plan.findings.warnings,
        ∃ step, plan.steps.filter (warning ∈ ·.warnings) = [step])
      ∧ (plan.steps.flatMap (·.warnings)).Perm plan.findings.warnings
      ∧ (plan.steps.map (·.warnings.length)).sum = plan.findings.warnings.length := by
  have hperm := perm_warnings hplan
  refine ⟨fun step => warnings_of_mem_steps hplan, ?_, hperm, ?_⟩
  · intro warning hwarning
    obtain ⟨step, hstep, hname⟩ := exists_step_of_warning hplan hwarning
    refine ⟨step, Eq.trans (List.filter_congr fun other hother => ?_)
      ((planned hplan).onlyStep hstep)⟩
    rw [decide_eq_decide, warnings_of_mem_steps hplan hother, List.mem_filter, decide_eq_true_eq,
      hname]
    exact (and_iff_right hwarning).trans eq_comm
  · rw [← List.length_flatMap]
    exact hperm.length_eq

/-- A till and a scale, each of which takes a lazy store and takes it for a ledger as well. -/
def grocery : Catalog where
  components :=
    [{ qualifiedName := "Till", displayName := "till", declarationIndex := 0
       sites := [.constructor [.direct "Store", (Dependency.direct "Ledger").qualified "store"]] },
     { qualifiedName := "Store", displayName := "store", declarationIndex := 1, lazy := true },
     { qualifiedName := "Scale", displayName := "scale", declarationIndex := 2
       sites := [.field "ledger" ((Dependency.direct "Ledger").qualified "store")] }]
  ascending := by decide

/-- The warnings about the till and the scale are found by turns. -/
theorem till_warnings :
    ∃ plan till, grocery.plan {} {} = .ok plan
      ∧ plan.findings.warnings.map (·.component) = ["till", "scale", "till", "scale"]
      ∧ till ∈ plan.steps ∧ till.component = "till"
      ∧ till.warnings.map (·.kind) = [.qualifierTypeMismatch, .lazyForced]
      ∧ (plan.steps.map (·.warnings.length)).sum = 4 := by
  let activation : Activation := ⟨grocery.components, []⟩
  have hplan : grocery.plan {} {} = .ok ((Graph.ofComponents activation.enabled).plan
      (Graph.ofComponents activation.enabled).sorted (activation.findings false)) :=
    Catalog.plan_eq_ok_iff.mpr ⟨by decide +kernel, activation, rfl, by decide +kernel, rfl⟩
  have htill : grocery.components[0] ∈ grocery.enabled (Environment.withDefaults {} {}) := by
    decide +kernel
  obtain ⟨till, hstep, htillOf⟩ := (Catalog.planned hplan).exists_step htill
  obtain ⟨hwarnings, -, -, hsum⟩ := Catalog.warnings_attached hplan
  refine ⟨_, till, hplan, by decide +kernel, hstep, htillOf.name, ?_, hsum.trans (by decide +kernel)⟩
  rw [hwarnings till hstep, htillOf.name]
  decide +kernel

end Assembly
