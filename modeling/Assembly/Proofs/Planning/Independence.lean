import Assembly.Proofs.Plan.Batches
import Assembly.Proofs.Planning.ConstructionOrder

/-!
# Batches that may run side by side

The steps of one batch do not need each other, neither at once nor through components that are in no
batch, and whatever else they need at the start is in an earlier batch.
-/

namespace Assembly

/-- The batches are the eager steps of a plan in their order, cut where the level rises, and a batch
may run as soon as the batches in front of it have been run, its steps in any order or at once. -/
structure Plan.RunsBy (plan : Plan) (batches : List (List Step)) : Prop where
  nonempty : ∀ batch ∈ batches, batch ≠ []
  complete : batches.flatten = plan.eagerSteps
  level : ∀ batch ∈ batches, ∀ first ∈ batch, ∀ second ∈ batch, first.level = second.level
  ascending : batches.Pairwise fun earlier later =>
    ∀ first ∈ earlier, ∀ second ∈ later, first.level < second.level
  independent : ∀ batch ∈ batches, ∀ first ∈ batch, ∀ second ∈ batch,
    ¬Relation.TransGen plan.Requires first.component second.component
  prepared : ∀ before batch after, batches = before ++ batch :: after → ∀ consumer ∈ batch,
    ∀ provider ∈ plan.eagerSteps,
      Relation.TransGen plan.Requires consumer.component provider.component →
        ∃ earlier ∈ before, provider ∈ earlier

namespace Planned

variable {components : List Component} {strict : Bool} {plan : Plan}
  (hplanned : Planned components strict plan)
include hplanned

theorem pairwise_eagerSteps : plan.eagerSteps.Pairwise (·.level ≤ ·.level) := by
  obtain ⟨pairs, hsteps, -, -, hordered⟩ := hplanned.exists_pairs
  unfold Plan.eagerSteps
  rw [hsteps, List.filter_map, List.pairwise_map]
  refine List.Pairwise.imp_of_mem ?_ (hordered.filter _)
  intro first second hfirst hsecond hprecedes
  -- Between singletons the rank is the level first, so only the scopes have to be settled.
  have hscope : ∀ {pair : Step × Component}, pair ∈ pairs.filter ((·.isEager) ∘ (·.1)) →
      (pair.1.rank pair.2).scope = .singleton := by
    intro pair hpair
    have heager : pair.1.isEager = true := (List.mem_filter.mp hpair).2
    simp only [Step.isEager, Bool.and_eq_true, decide_eq_true_eq] at heager
    exact heager.1
  unfold Rank.Precedes at hprecedes
  rw [hscope hfirst, hscope hsecond] at hprecedes
  rcases hprecedes with hlt | ⟨heq, -⟩
  · exact Nat.le_of_lt hlt
  · exact Nat.le_of_eq heq

omit hplanned in
theorem mem_steps_of_mem_batch {batch : List Step} (hbatch : batch ∈ plan.eagerLevels) {step : Step}
    (hstep : step ∈ batch) : step ∈ plan.steps := by
  obtain ⟨-, level, rfl⟩ := Plan.mem_eagerLevels hbatch
  exact (List.mem_filter.mp (List.mem_filter.mp hstep).1).1

omit hplanned in
theorem level_eq_of_mem_batch {batch : List Step} (hbatch : batch ∈ plan.eagerLevels)
    {first second : Step} (hfirst : first ∈ batch) (hsecond : second ∈ batch) :
    first.level = second.level := by
  obtain ⟨-, level, rfl⟩ := Plan.mem_eagerLevels hbatch
  rw [of_decide_eq_true (List.mem_filter.mp hfirst).2,
    of_decide_eq_true (List.mem_filter.mp hsecond).2]

/-- What a step of a batch needs is neither in its batch nor in a later one. -/
theorem exists_earlier_batch {before after : List (List Step)} {batch : List Step}
    (hsplit : plan.eagerLevels = before ++ batch :: after) {consumer provider : Step}
    (hconsumer : consumer ∈ batch) (hprovider : provider ∈ plan.eagerSteps)
    (hpath : Relation.TransGen plan.Requires consumer.component provider.component) :
    ∃ earlier ∈ before, provider ∈ earlier := by
  have hbatch : batch ∈ plan.eagerLevels := hsplit ▸ List.mem_append_cons_self
  have hlevel : provider.level < consumer.level :=
    hplanned.level_lt_of_requires (mem_steps_of_mem_batch hbatch hconsumer)
      (List.mem_filter.mp hprovider).1 hpath
  rw [← Plan.flatten_eagerLevels hplanned.pairwise_eagerSteps] at hprovider
  obtain ⟨other, hother, hprovider⟩ := List.mem_flatten.mp hprovider
  rw [hsplit] at hother
  rcases List.mem_append.mp hother with hbefore | hfrom
  · exact ⟨other, hbefore, hprovider⟩
  · exfalso
    rcases List.mem_cons.mp hfrom with rfl | hafter
    · exact Nat.ne_of_lt hlevel (level_eq_of_mem_batch hbatch hprovider hconsumer)
    · have hascending := plan.pairwise_eagerLevels
      rw [hsplit, List.pairwise_append, List.pairwise_cons] at hascending
      have hgt := hascending.2.1.1 other hafter consumer hconsumer provider hprovider
      exact Nat.lt_asymm hlevel hgt

end Planned

/-- The batches of a plan hold all eager steps in their order, each batch those of one level. No step
needs one of its own batch over any number of hard edges, and all eager steps that it needs are in
earlier batches. -/
theorem Catalog.eager_levels_safe {catalog : Catalog} {options : Options}
    {environment : Environment} {plan : Plan}
    (hplan : catalog.plan options environment = .ok plan) : plan.RunsBy plan.eagerLevels := by
  have hplanned := planned hplan
  exact
    { nonempty := fun batch hbatch => (Plan.mem_eagerLevels hbatch).1
      complete := Plan.flatten_eagerLevels hplanned.pairwise_eagerSteps
      level := fun batch hbatch first hfirst second hsecond =>
        Planned.level_eq_of_mem_batch hbatch hfirst hsecond
      ascending := Plan.pairwise_eagerLevels
      independent := by
        intro batch hbatch first hfirst second hsecond hpath
        have hlt := hplanned.level_lt_of_requires (Planned.mem_steps_of_mem_batch hbatch hfirst)
          (Planned.mem_steps_of_mem_batch hbatch hsecond) hpath
        exact Nat.ne_of_lt hlt (Planned.level_eq_of_mem_batch hbatch hsecond hfirst)
      prepared := fun before batch after hsplit consumer hconsumer provider hprovider hpath =>
        hplanned.exists_earlier_batch hsplit hconsumer hprovider hpath }

/-- A bench that needs a socket through a lazy drill, with a lamp that needs nothing. -/
def workshop : Catalog where
  components :=
    [{ qualifiedName := "Bench", displayName := "bench", declarationIndex := 0
       sites := [.constructor [.direct "Drill"]] },
     { qualifiedName := "Drill", displayName := "drill", declarationIndex := 1, lazy := true
       sites := [.constructor [.direct "Socket"]] },
     { qualifiedName := "Socket", displayName := "socket", declarationIndex := 2 },
     { qualifiedName := "Lamp", displayName := "lamp", declarationIndex := 3 }]
  ascending := by decide

/-- The drill is in no batch, and the socket is in an earlier one than the bench all the same. -/
theorem socket_before_bench :
    ∃ plan bench socket, workshop.plan {} {} = .ok plan
      ∧ bench ∈ plan.eagerLevels.flatten ∧ bench.component = "bench"
      ∧ socket ∈ plan.eagerLevels.flatten ∧ socket.component = "socket"
      ∧ ∀ before batch after, plan.eagerLevels = before ++ batch :: after → bench ∈ batch →
        ∃ earlier ∈ before, socket ∈ earlier := by
  obtain ⟨plan, hplan⟩ : ∃ plan, workshop.plan {} {} = .ok plan :=
    Catalog.exists_plan_iff.mpr ⟨by decide +kernel, _, rfl, by decide +kernel⟩
  have hplanned := Catalog.planned hplan
  have hsafe := Catalog.eager_levels_safe hplan
  have hedges : plan.edges = [⟨"bench", "drill", .direct⟩, ⟨"drill", "socket", .direct⟩] :=
    hplanned.edges_eq.trans (by decide +kernel)
  have heager : ∀ component ∈ workshop.enabled (Environment.withDefaults {} {}),
      component.isEager = true →
        ∃ step ∈ plan.eagerSteps, step.component = component.displayName := by
    intro component hcomponent heager
    obtain ⟨step, hstep, hstepOf⟩ := hplanned.exists_step hcomponent
    refine ⟨step, List.mem_filter.mpr ⟨hstep, ?_⟩, hstepOf.name⟩
    rw [Step.isEager, hstepOf.scope, hstepOf.lazy]
    exact heager
  obtain ⟨bench, hbench, hbenchName⟩ := heager workshop.components[0] (by decide +kernel) rfl
  obtain ⟨socket, hsocket, hsocketName⟩ := heager workshop.components[2] (by decide +kernel) rfl
  have hneeds : plan.Requires "bench" "drill" := ⟨_, hedges ▸ List.mem_cons_self, rfl, rfl, rfl⟩
  have hneeds' : plan.Requires "drill" "socket" :=
    ⟨_, hedges ▸ List.mem_cons_of_mem _ List.mem_cons_self, rfl, rfl, rfl⟩
  have hpath : Relation.TransGen plan.Requires bench.component socket.component := by
    rw [hbenchName, hsocketName]
    exact .tail (.single hneeds) hneeds'
  refine ⟨plan, bench, socket, hplan, hsafe.complete ▸ hbench, hbenchName,
    hsafe.complete ▸ hsocket, hsocketName, ?_⟩
  intro before batch after hsplit hmem
  exact hsafe.prepared before batch after hsplit bench hmem socket hsocket hpath

end Assembly
