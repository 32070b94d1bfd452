import Assembly.Proofs.Planning.Steps

/-!
# The order of construction

Whatever a component needs, over any number of hard edges, has a lower level, and if it is a
singleton its step comes first.
-/

namespace Assembly

/-- An edge of the plan says that the provider has to be constructed before the consumer. -/
def Plan.Requires (plan : Plan) (consumer provider : String) : Prop :=
  ∃ edge ∈ plan.edges, edge.kind.isHard = true ∧ edge.consumer = consumer ∧ edge.provider = provider

namespace Planned

variable {components : List Component} {strict : Bool} {plan : Plan}
  (hplanned : Planned components strict plan)
include hplanned

/-- A chain of hard edges between components is one between their nodes. -/
theorem transGen_hard {node below : Fin (Graph.ofComponents components).size}
    (hpath : Relation.TransGen plan.Requires
      ((Graph.ofComponents components).component node).displayName
      ((Graph.ofComponents components).component below).displayName) :
    Relation.TransGen (Walk.Leads (Graph.ofComponents components).hard) node below := by
  have hinjective := Graph.displayName_injective hplanned.distinct
  have hback := @transGen_lift_back _ _ (Walk.Leads (Graph.ofComponents components).hard)
    plan.Requires (fun node => ((Graph.ofComponents components).component node).displayName) ?_
  · obtain ⟨goal, hname, hlifted⟩ := hback hpath
    rwa [hinjective hname] at hlifted
  · intro first second hrequires
    unfold Plan.Requires at hrequires
    rw [hplanned.edges_eq, Graph.exists_hard_edge_iff] at hrequires
    obtain ⟨origin, next, horigin, hnext, hhard⟩ := hrequires
    rw [hinjective horigin] at hhard
    exact ⟨next, hnext, hhard⟩

theorem level_lt_of_requires {consumer provider : Step} (hconsumer : consumer ∈ plan.steps)
    (hprovider : provider ∈ plan.steps)
    (hpath : Relation.TransGen plan.Requires consumer.component provider.component) :
    provider.level < consumer.level := by
  obtain ⟨node, rfl⟩ := hplanned.mem_steps_iff.mp hconsumer
  obtain ⟨below, rfl⟩ := hplanned.mem_steps_iff.mp hprovider
  exact Graph.level_lt_of_transGen hplanned.acyclic (hplanned.transGen_hard hpath)

/-- A singleton of a lower level comes first, also before a prototype. -/
theorem pair_sublist_steps {lower upper : Step} (hlower : lower ∈ plan.steps)
    (hupper : upper ∈ plan.steps) (hscope : lower.scope = .singleton)
    (hlevel : lower.level < upper.level) : [lower, upper].Sublist plan.steps := by
  obtain ⟨pairs, hsteps, -, -, hordered⟩ := hplanned.exists_pairs
  rw [hsteps] at hlower hupper ⊢
  obtain ⟨first, hfirst, rfl⟩ := List.mem_map.mp hlower
  obtain ⟨second, hsecond, rfl⟩ := List.mem_map.mp hupper
  have hne : first ≠ second := by
    rintro rfl
    exact Nat.lt_irrefl _ hlevel
  -- The ranks of all pairs are ordered, so it suffices that these two are not the other way round.
  have hnot := @Rank.not_precedes (first.1.rank first.2) (second.1.rank second.2) hscope hlevel
  exact (pair_sublist_of_pairwise hordered hfirst hsecond hne hnot).map Prod.fst

end Planned

/-- A plan has one step for each component that takes part, singletons by level and then prototypes,
and every singleton that a component needs is constructed before it. -/
theorem Catalog.construction_order {catalog : Catalog} {options : Options}
    {environment : Environment} {plan : Plan}
    (hplan : catalog.plan options environment = .ok plan) :
    (∃ pairs : List (Step × Component), plan.steps = pairs.map (·.1)
      ∧ (pairs.map (·.2)).Perm (catalog.enabled (environment.withDefaults options))
      ∧ (∀ pair ∈ pairs, pair.1.IsOf pair.2)
      ∧ pairs.Pairwise fun first second =>
        (first.1.rank first.2).Precedes (second.1.rank second.2))
      ∧ (plan.steps.map (·.component)).Nodup
      ∧ ∀ consumer ∈ plan.steps, ∀ provider ∈ plan.steps, provider.scope = .singleton →
        Relation.TransGen plan.Requires consumer.component provider.component →
          provider.level < consumer.level ∧ [provider, consumer].Sublist plan.steps := by
  have hplanned := planned hplan
  refine ⟨hplanned.exists_pairs, hplanned.nodup_steps, ?_⟩
  intro consumer hconsumer provider hprovider hscope hpath
  have hlevel := hplanned.level_lt_of_requires hconsumer hprovider hpath
  exact ⟨hlevel, hplanned.pair_sublist_steps hprovider hconsumer hscope hlevel⟩

/-- A service that needs a store through a prototype, with the store declared last. -/
def layered : Catalog where
  components :=
    [{ qualifiedName := "Service", displayName := "service", declarationIndex := 0
       sites := [.constructor [.direct "Template"]] },
     { qualifiedName := "Template", displayName := "template", declarationIndex := 1
       scope := .prototype, sites := [.constructor [.direct "Store"]] },
     { qualifiedName := "Store", displayName := "store", declarationIndex := 2 }]
  ascending := by decide

theorem store_precedes_service :
    ∃ plan, layered.plan {} {} = .ok plan ∧ ∃ consumer ∈ plan.steps, ∃ provider ∈ plan.steps,
      consumer.component = "service" ∧ provider.component = "store"
        ∧ provider.level < consumer.level ∧ [provider, consumer].Sublist plan.steps := by
  obtain ⟨plan, hplan⟩ : ∃ plan, layered.plan {} {} = .ok plan :=
    Catalog.exists_plan_iff.mpr ⟨by decide +kernel, _, rfl, by decide +kernel⟩
  have hplanned := Catalog.planned hplan
  have hedges : plan.edges = [⟨"service", "template", .direct⟩, ⟨"template", "store", .direct⟩] :=
    hplanned.edges_eq.trans (by decide +kernel)
  have hservice : layered.components[0] ∈ layered.enabled (Environment.withDefaults {} {}) := by
    decide +kernel
  have hstore : layered.components[2] ∈ layered.enabled (Environment.withDefaults {} {}) := by
    decide +kernel
  obtain ⟨consumer, hconsumer, hconsumerOf⟩ := hplanned.exists_step hservice
  obtain ⟨provider, hprovider, hproviderOf⟩ := hplanned.exists_step hstore
  have hneeds : plan.Requires "service" "template" :=
    ⟨_, hedges ▸ List.mem_cons_self, rfl, rfl, rfl⟩
  have hneeds' : plan.Requires "template" "store" :=
    ⟨_, hedges ▸ List.mem_cons_of_mem _ List.mem_cons_self, rfl, rfl, rfl⟩
  have hpath : Relation.TransGen plan.Requires consumer.component provider.component := by
    rw [hconsumerOf.name, hproviderOf.name]
    exact .tail (.single hneeds) hneeds'
  exact ⟨plan, hplan, consumer, hconsumer, provider, hprovider, hconsumerOf.name, hproviderOf.name,
    (Catalog.construction_order hplan).2.2 consumer hconsumer provider hprovider hproviderOf.scope
      hpath⟩

end Assembly
