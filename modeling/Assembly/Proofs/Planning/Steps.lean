import Assembly.Proofs.Planning.Run

/-!
# The steps of a plan

Each component that takes part has one step, and the steps are in the order of their ranks.
-/

namespace Assembly

/-- The step is about the component and repeats what it declares. -/
structure Step.IsOf (step : Step) (component : Component) : Prop where
  name : step.component = component.displayName
  qualifiedName : step.qualifiedName = component.qualifiedName
  scope : step.scope = component.scope
  lazy : step.lazy = component.lazy
  primary : step.primary = component.primary
  hooks : step.hooks = component.hooks
  inclusion : step.inclusion = component.inclusion

/-- The rank of the step of a component. -/
def Step.rank (step : Step) (component : Component) : Rank where
  scope := step.scope
  level := step.level
  index := component.declarationIndex

namespace Planned

variable {components : List Component} {strict : Bool} {plan : Plan}

/-- The step of a node in a plan. -/
def stepOf (components : List Component) (plan : Plan)
    (node : Fin (Graph.ofComponents components).size) : Step :=
  (Graph.ofComponents components).step (Graph.ofComponents components).levels plan.findings.warnings
    node

theorem isOf_stepOf (node : Fin (Graph.ofComponents components).size) :
    (stepOf components plan node).IsOf ((Graph.ofComponents components).component node) where
  name := rfl
  qualifiedName := rfl
  scope := rfl
  lazy := rfl
  primary := rfl
  hooks := rfl
  inclusion := rfl

theorem arguments_stepOf (node : Fin (Graph.ofComponents components).size) :
    (stepOf components plan node).arguments
      = ((Graph.ofComponents components).component node).dependencies.map fun entry =>
        (Graph.ofComponents components).argument (entry.2.binding (Lookup.ofList components)
          (Graph.ofComponents components).index entry.1) := by
  have harguments : (stepOf components plan node).arguments
      = ((Graph.ofComponents components).bindings node).map
        (Graph.ofComponents components).argument := rfl
  rw [harguments, Graph.bindings_ofComponents, List.map_map]
  rfl

variable (hplanned : Planned components strict plan)
include hplanned

theorem steps_eq :
    plan.steps = (Graph.ofComponents components).sequence.map (stepOf components plan) :=
  (congrArg Plan.steps hplanned.eq).trans
    (Graph.steps_plan (Graph.displayName_injective hplanned.distinct) plan.findings)

theorem edges_eq : plan.edges = (Graph.ofComponents components).edges :=
  congrArg Plan.edges hplanned.eq

theorem mem_steps_iff {step : Step} :
    step ∈ plan.steps ↔ ∃ node, stepOf components plan node = step := by
  rw [hplanned.steps_eq, List.mem_map]
  constructor
  · rintro ⟨node, -, hnode⟩
    exact ⟨node, hnode⟩
  · rintro ⟨node, hnode⟩
    exact ⟨node, Graph.sequence_perm.mem_iff.mpr (List.mem_finRange node), hnode⟩

theorem steps_perm :
    (plan.steps.map (·.component)).Perm (components.map (·.displayName)) := by
  have hnames := Graph.sequence_perm.map fun node =>
    ((Graph.ofComponents components).component node).displayName
  rw [hplanned.steps_eq, List.map_map]
  refine hnames.trans (List.Perm.of_eq ?_)
  conv_rhs => rw [← Graph.components_ofComponents components]
  exact (List.map_map).symm

theorem nodup_steps : (plan.steps.map (·.component)).Nodup :=
  hplanned.steps_perm.nodup_iff.mpr hplanned.distinct.nodup_displayName

/-- A component that takes part has a step. -/
theorem exists_step {component : Component} (hcomponent : component ∈ components) :
    ∃ step ∈ plan.steps, step.IsOf component := by
  obtain ⟨node, rfl⟩ := (Graph.mem_components_iff components).mp hcomponent
  exact ⟨_, hplanned.mem_steps_iff.mpr ⟨node, rfl⟩, isOf_stepOf node⟩

/-- The steps and their components, one of each. -/
theorem exists_pairs :
    ∃ pairs : List (Step × Component), plan.steps = pairs.map (·.1)
      ∧ (pairs.map (·.2)).Perm components
      ∧ (∀ pair ∈ pairs, pair.1.IsOf pair.2)
      ∧ pairs.Pairwise fun first second =>
        (first.1.rank first.2).Precedes (second.1.rank second.2) := by
  refine ⟨(Graph.ofComponents components).sequence.map fun node =>
    (stepOf components plan node, (Graph.ofComponents components).component node), ?_, ?_, ?_, ?_⟩
  · rw [hplanned.steps_eq, List.map_map]
    rfl
  · rw [List.map_map]
    refine (Graph.sequence_perm.map _).trans (List.Perm.of_eq ?_)
    exact Graph.components_ofComponents components
  · intro pair hpair
    obtain ⟨node, -, rfl⟩ := List.mem_map.mp hpair
    exact isOf_stepOf node
  · exact List.pairwise_map.mpr
      (Graph.pairwise_sequence hplanned.distinct hplanned.ascending)

end Planned

end Assembly
