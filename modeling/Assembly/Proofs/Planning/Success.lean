import Assembly.Proofs.Graph.Bound
import Assembly.Proofs.Planning.Run

/-!
# When there is a plan

The stages of a run fail for different reasons. Together they let exactly those catalogs pass that
are consistent, that leave nothing undecided or unbound, and in which no component needs itself.
-/

namespace Assembly

/-- A catalog that can be planned in an environment, in which the defaults are in force. -/
structure Catalog.Plannable (catalog : Catalog) (environment : Environment) : Prop where
  consistent : catalog.faults = []
  decided : ∀ first ∈ catalog.tentative environment, ∀ second ∈ catalog.tentative environment,
    first ≠ second → ¬first.Rivals second
  provided : ∀ component ∈ catalog.enabled environment, ∀ entry ∈ component.dependencies,
    entry.2.literal = none → entry.2.permitsAbsence = false →
      entry.2.HasProvider (catalog.enabled environment)
  ordered : ∀ component ∈ catalog.enabled environment, ∀ name ∈ component.dependsOn,
    ∃ provider ∈ catalog.enabled environment, provider.displayName = name
  acyclic : ∀ component,
    ¬Relation.TransGen (Needs (catalog.enabled environment)) component component

namespace Graph

variable {components : List Component} (hdistinct : Distinct components)
  (hsorted : components.Pairwise (·.declarationIndex ≤ ·.declarationIndex))
include hdistinct hsorted

theorem transGen_needs_iff {node below : Fin (ofComponents components).size} :
    Relation.TransGen (Needs components) ((ofComponents components).component node)
        ((ofComponents components).component below)
      ↔ Relation.TransGen (Walk.Leads (ofComponents components).hard) node below := by
  constructor
  · intro hpath
    have hback := @transGen_lift_back _ _ (Walk.Leads (ofComponents components).hard)
      (Needs components) (ofComponents components).component ?_
    · obtain ⟨goal, hgoal, hlifted⟩ := hback hpath
      rwa [component_injective hdistinct hgoal] at hlifted
    · intro first second hneeds
      obtain ⟨next, rfl⟩ := (mem_components_iff components).mp hneeds.2.1
      exact ⟨next, rfl, (mem_hard_iff hdistinct hsorted).mpr hneeds⟩
  · intro hpath
    exact hpath.lift _ fun _ _ hleads => (mem_hard_iff hdistinct hsorted).mp hleads

/-- There is no cycle of nodes if no component needs itself. -/
theorem acyclic_iff :
    (ofComponents components).cycle? = none
      ↔ ∀ component, ¬Relation.TransGen (Needs components) component component := by
  rw [cycle?_eq_none_iff]
  constructor
  · intro hacyclic component hpath
    -- A path lifts to nodes only from a component that takes part, as each end of a link does.
    have hmem : component ∈ components := by
      cases hpath with
      | single hneeds => exact hneeds.1
      | tail _ hneeds => exact hneeds.2.1
    obtain ⟨node, rfl⟩ := (mem_components_iff components).mp hmem
    exact hacyclic node ((transGen_needs_iff hdistinct hsorted).mp hpath)
  · intro hacyclic node hpath
    exact hacyclic _ ((transGen_needs_iff hdistinct hsorted).mpr hpath)

end Graph

/-- Without strict mode there is a plan exactly if the catalog can be planned. A plan comes without
faults, and where there is no plan there is a fault. -/
theorem Catalog.exists_plan_iff_plannable {catalog : Catalog} {options : Options}
    {environment : Environment} (hlenient : options.strict = false) :
    ((∃ plan, catalog.plan options environment = .ok plan)
        ↔ catalog.Plannable (environment.withDefaults options))
      ∧ (∀ plan, catalog.plan options environment = .ok plan → plan.findings.errors = [])
      ∧ ∀ findings, catalog.plan options environment = .error findings → findings.errors ≠ [] := by
  refine ⟨?_, fun _ => errors_of_plan, fun _ => errors_of_failure⟩
  rw [exists_plan_iff, hlenient]
  have hsorted := @pairwise_enabled catalog (environment.withDefaults options)
  constructor
  · rintro ⟨hfaults, activation, hactivate, herrors⟩
    obtain ⟨hbound, hcycle, -⟩ := Graph.errors_allFindings_eq_nil_iff.mp herrors
    have hdistinct := @distinct_enabled catalog (environment.withDefaults options) hfaults
    rw [enabled_of_activate hactivate] at hbound hcycle
    have hprovided := (Graph.errors_lenient_eq_nil_iff hdistinct hsorted).mp hbound
    exact
      { consistent := hfaults
        decided := (exists_activate_iff hfaults).mp ⟨activation, hactivate⟩
        provided := fun component hcomponent => (hprovided component hcomponent).1
        ordered := fun component hcomponent => (hprovided component hcomponent).2
        acyclic := (Graph.acyclic_iff hdistinct hsorted).mp hcycle }
  · intro hplannable
    have hdistinct := @distinct_enabled catalog (environment.withDefaults options)
      hplannable.consistent
    obtain ⟨activation, hactivate⟩ :=
      (exists_activate_iff hplannable.consistent).mpr hplannable.decided
    refine ⟨hplannable.consistent, activation, hactivate, ?_⟩
    refine Graph.errors_allFindings_eq_nil_iff.mpr ⟨?_, ?_, fun hstrict => by cases hstrict⟩
    · rw [enabled_of_activate hactivate]
      exact (Graph.errors_lenient_eq_nil_iff hdistinct hsorted).mpr fun component hcomponent =>
        ⟨hplannable.provided component hcomponent, hplannable.ordered component hcomponent⟩
    · rw [enabled_of_activate hactivate]
      exact (Graph.acyclic_iff hdistinct hsorted).mpr hplannable.acyclic

/-- A reader takes a writer that is ordered after the reader. -/
def knotted : Catalog where
  components :=
    [{ qualifiedName := "Reader", displayName := "reader", declarationIndex := 0
       sites := [.constructor [.direct "Writer"]] },
     { qualifiedName := "Writer", displayName := "writer", declarationIndex := 1
       dependsOn := ["reader"] }]
  ascending := by decide

theorem knotted_has_no_plan : ¬∃ plan, knotted.plan {} {} = .ok plan := by
  intro hplan
  have hplannable := (@Catalog.exists_plan_iff_plannable knotted {} {} rfl).1.mp hplan
  have hreader : knotted.components[0] ∈ knotted.enabled (Environment.withDefaults {} {}) := by
    decide +kernel
  have hwriter : knotted.components[1] ∈ knotted.enabled (Environment.withDefaults {} {}) := by
    decide +kernel
  have htakes : Needs (knotted.enabled (Environment.withDefaults {} {})) knotted.components[0]
      knotted.components[1] :=
    ⟨hreader, hwriter, .inl ⟨_, List.mem_cons_self, rfl, by decide +kernel⟩⟩
  have hfollows : Needs (knotted.enabled (Environment.withDefaults {} {})) knotted.components[1]
      knotted.components[0] :=
    ⟨hwriter, hreader, .inr List.mem_cons_self⟩
  exact hplannable.acyclic _ (.tail (.single htakes) hfollows)

end Assembly
