import Assembly.Proofs.Planning.Arguments

/-!
# The edges of a plan

The edges that leave a component and the references of its step give the same account of what the
component needs, one by one and in one order. An edge is hard where the component declares that the
provider comes first.
-/

namespace Assembly

/-- The edges that leave a component. -/
def Plan.edgesFrom (plan : Plan) (consumer : String) : List Edge :=
  plan.edges.filter (·.consumer = consumer)

/-- The component that a source refers to, with the kind of edge that says the same. -/
def Source.target? : Source → Option (String × EdgeKind)
  | .reference component => some (component, .direct)
  | .deferred component => some (component, .deferred)
  | .optional component => component.map (·, .optional)
  | .literal _ => none

def Step.targets (step : Step) : List (String × EdgeKind) :=
  step.arguments.filterMap (·.source.target?) ++ step.dependsOn.map (·, .dependsOn)

/-- The providers that a component declares, each with whether it has to be constructed first. -/
def Component.requirements (components : List Component) (component : Component) :
    List (String × Bool) :=
  component.dependencies.filterMap (fun entry =>
      match entry.2.literal with
      | some _ => none
      | none => (entry.2.provider? components).map (·.displayName, entry.2.isHard))
    ++ component.dependsOn.map (·, true)

theorem Source.component?_eq (source : Source) :
    source.component? = source.target?.map (·.1) := by
  cases source with
  | reference component => rfl
  | deferred component => rfl
  | optional component => cases component <;> rfl
  | literal token => rfl

theorem Step.references_eq (step : Step) : step.references = step.targets.map (·.1) := by
  unfold references targets
  rw [List.map_append, List.map_filterMap, List.map_map]
  simp only [Source.component?_eq]
  exact congrArg _ (List.map_id _).symm

/-- What a bound source refers to is what the dependency asks for. -/
theorem Binds.target?_eq {components : List Component} {dependency : Dependency}
    {source : Source} (hbinds : Binds components dependency source) :
    source.target?.map (fun target => (target.1, target.2.isHard))
      = match dependency.literal with
        | some _ => none
        | none => (dependency.provider? components).map (·.displayName, dependency.isHard) := by
  cases hbinds with
  | literal hliteral => rw [hliteral]; rfl
  | reference hliteral hprovider hdirect hneeded =>
      rw [hliteral, hprovider, Dependency.isHard, hliteral, hdirect, hneeded]
      rfl
  | deferred hliteral hprovider hdeferred =>
      rw [hliteral, hprovider, Dependency.isHard, hliteral, hdeferred]
      rfl
  | present hliteral hprovider hoptional =>
      rw [hliteral, hprovider, Dependency.isHard, hliteral]
      rcases hoptional with hoptional | ⟨hdirect, hallowed⟩
      · rw [hoptional]
        rfl
      · rw [hdirect, hallowed]
        rfl
  | absent hliteral hprovider hpermits =>
      rw [hliteral, hprovider]
      rfl

/-- Where all but one member of a list yield nothing, that one yields all. -/
theorem flatMap_eq_of_mem {α β : Type} {list : List α} {member : α} {yield : α → List β}
    (hnodup : list.Nodup) (hmem : member ∈ list)
    (hothers : ∀ other ∈ list, other ≠ member → yield other = []) :
    list.flatMap yield = yield member := by
  induction list with
  | nil => cases hmem
  | cons first rest ih =>
      obtain ⟨hfresh, hrest⟩ := List.nodup_cons.mp hnodup
      rw [List.flatMap_cons]
      by_cases heq : first = member
      · have hnone : rest.flatMap yield = [] := by
          refine List.flatMap_eq_nil_iff.mpr fun other hother => ?_
          refine hothers other (List.mem_cons_of_mem _ hother) ?_
          rintro rfl
          exact hfresh (heq ▸ hother)
        rw [hnone, heq, List.append_nil]
      · have hmem : member ∈ rest := (List.mem_cons.mp hmem).resolve_left (Ne.symm heq)
        rw [hothers first List.mem_cons_self heq, List.nil_append]
        exact ih hrest hmem fun other hother => hothers other (List.mem_cons_of_mem _ hother)

namespace Graph

variable {components : List Component}

theorem links_ofComponents (node : Fin (ofComponents components).size) :
    ((ofComponents components).nodes.get node).links
      = ((ofComponents components).component node).dependencies.filterMap (fun entry =>
          entry.2.link? (Lookup.ofList components) (ofComponents components).index)
        ++ ((ofComponents components).component node).dependsOn.filterMap fun name =>
          (orderNode? (Lookup.ofList components) (ofComponents components).index name).map
            fun target => ⟨target, .dependsOn⟩ :=
  congrArg Node.links (nodes_ofComponents components node)

/-- A dependency becomes an edge and an argument that say the same. -/
theorem target?_argument (position : Position) (dependency : Dependency) :
    ((ofComponents components).argument (dependency.binding (Lookup.ofList components)
        (ofComponents components).index position)).source.target?
      = (dependency.link? (Lookup.ofList components) (ofComponents components).index).map
        fun link => (((ofComponents components).component link.target).displayName, link.kind) := by
  unfold argument Dependency.binding Dependency.link? Dependency.edgeKind
  cases dependency.bound (Lookup.ofList components) (ofComponents components).index with
  | literal token => rfl
  | missing => rfl
  | provider node =>
      cases dependency.handover with
      | direct => cases dependency.allowMissing <;> rfl
      | deferred => rfl
      | optional => rfl

end Graph

namespace Planned

variable {components : List Component} {strict : Bool} {plan : Plan}
  (hplanned : Planned components strict plan)
include hplanned

theorem edgesFrom_eq (node : Fin (Graph.ofComponents components).size) :
    plan.edgesFrom ((Graph.ofComponents components).component node).displayName
      = (Graph.ofComponents components).edgesOf node := by
  have hconsumer : ∀ {other edge}, edge ∈ (Graph.ofComponents components).edgesOf other →
      edge.consumer = ((Graph.ofComponents components).component other).displayName := by
    intro other edge hedge
    obtain ⟨link, -, rfl⟩ := List.mem_map.mp hedge
    rfl
  unfold Plan.edgesFrom
  rw [hplanned.edges_eq, Graph.edges, Graph.allNodes, List.filter_flatMap,
    flatMap_eq_of_mem (List.nodup_finRange _) (List.mem_finRange node)]
  · refine List.filter_eq_self.mpr fun edge hedge => ?_
    exact decide_eq_true (hconsumer hedge)
  · intro other _ hne
    refine List.filter_eq_nil_iff.mpr fun edge hedge => ?_
    rw [decide_eq_true_eq, hconsumer hedge]
    exact fun hname => hne (Graph.displayName_injective hplanned.distinct hname)

theorem targets_eq (node : Fin (Graph.ofComponents components).size) :
    ((Graph.ofComponents components).edgesOf node).map (fun edge => (edge.provider, edge.kind))
      = (stepOf components plan node).targets := by
  have hmem := (Graph.mem_components_iff components).mpr ⟨node, rfl⟩
  unfold Step.targets Graph.edgesOf
  rw [List.map_map, Graph.links_ofComponents, List.map_append, List.map_filterMap,
    List.map_filterMap, arguments_stepOf, List.filterMap_map, hplanned.dependsOn_stepOf]
  refine congrArg₂ (· ++ ·) ?_ ?_
  · refine List.filterMap_congr fun entry _ => ?_
    exact (Graph.target?_argument entry.1 entry.2).symm
  · rw [← List.filterMap_eq_map]
    refine List.filterMap_congr fun name hname => ?_
    obtain ⟨provider, hprovider, rfl⟩ := (hplanned.isProvided hmem).2 name hname
    obtain ⟨target, rfl⟩ := (Graph.mem_components_iff components).mp hprovider
    rw [(Graph.orderNode?_eq_some_iff hplanned.distinct).mpr rfl]
    rfl

theorem requirements_eq (node : Fin (Graph.ofComponents components).size) :
    (stepOf components plan node).targets.map (fun target => (target.1, target.2.isHard))
      = ((Graph.ofComponents components).component node).requirements components := by
  have hmem := (Graph.mem_components_iff components).mpr ⟨node, rfl⟩
  unfold Step.targets Component.requirements
  rw [List.map_append, List.map_filterMap, arguments_stepOf, List.filterMap_map, List.map_map,
    hplanned.dependsOn_stepOf]
  refine congrArg₂ (· ++ ·) ?_ rfl
  refine List.filterMap_congr fun entry hentry => ?_
  exact (hplanned.binds_argument ((hplanned.isProvided hmem).1 entry hentry)).target?_eq

theorem edges_eq_flatMap :
    plan.edges = components.flatMap fun component => plan.edgesFrom component.displayName := by
  conv_rhs => arg 2; rw [← Graph.components_ofComponents components]
  rw [Graph.components, List.flatMap_map, hplanned.edges_eq]
  exact List.flatMap_congr fun node _ => (hplanned.edgesFrom_eq node).symm

end Planned

/-- In every plan the edges that leave a component and the references of its step are the same
components in the same order, with the kinds that the sources of the step have. An edge is hard
exactly where the component declares it. The edges of each component are side by side, in the order
of the components, and both ends of an edge have a step. -/
theorem Catalog.edges_of_steps {catalog : Catalog} {options : Options} {environment : Environment}
    {plan : Plan} (hplan : catalog.plan options environment = .ok plan) :
    let components := catalog.enabled (environment.withDefaults options)
    (∀ step ∈ plan.steps, ∃ component ∈ components, step.IsOf component
        ∧ (plan.edgesFrom step.component).map (·.provider) = step.references
        ∧ (plan.edgesFrom step.component).map (fun edge => (edge.provider, edge.kind))
          = step.targets
        ∧ (plan.edgesFrom step.component).map (fun edge => (edge.provider, edge.kind.isHard))
          = component.requirements components)
      ∧ plan.edges = components.flatMap (fun component => plan.edgesFrom component.displayName)
      ∧ ∀ edge ∈ plan.edges, (∃ step, plan.OnlyStep edge.consumer step)
        ∧ ∃ step, plan.OnlyStep edge.provider step := by
  intro components
  have hplanned : Planned components options.strict plan := planned hplan
  refine ⟨?_, hplanned.edges_eq_flatMap, ?_⟩
  · intro step hstep
    obtain ⟨node, rfl⟩ := hplanned.mem_steps_iff.mp hstep
    have hmem := (Graph.mem_components_iff components).mpr ⟨node, rfl⟩
    have htargets := hplanned.targets_eq node
    rw [← hplanned.edgesFrom_eq node] at htargets
    refine ⟨_, hmem, Planned.isOf_stepOf node, ?_, htargets, ?_⟩
    · rw [Step.references_eq, ← htargets, List.map_map]
      rfl
    · rw [← hplanned.requirements_eq node, ← htargets, List.map_map]
      rfl
  · intro edge hedge
    rw [hplanned.edges_eq] at hedge
    obtain ⟨node, -, hedge⟩ := List.mem_flatMap.mp hedge
    obtain ⟨link, -, rfl⟩ := List.mem_map.mp hedge
    constructor
    · exact hplanned.exists_onlyStep ((Graph.mem_components_iff components).mpr ⟨node, rfl⟩)
    · exact hplanned.exists_onlyStep ((Graph.mem_components_iff components).mpr ⟨link.target, rfl⟩)

theorem service_edges :
    ∃ plan, assorted.plan {} {} = .ok plan ∧ ∃ step ∈ plan.steps, step.component = "service"
      ∧ plan.edgesFrom "service" =
        [⟨"service", "store", .direct⟩, ⟨"service", "store", .deferred⟩,
          ⟨"service", "store", .optional⟩, ⟨"service", "store", .dependsOn⟩]
      ∧ step.references = ["store", "store", "store", "store"]
      ∧ step.targets =
        [("store", .direct), ("store", .deferred), ("store", .optional),
          ("store", .dependsOn)] := by
  obtain ⟨plan, hplan⟩ : ∃ plan, assorted.plan {} {} = .ok plan :=
    Catalog.exists_plan_iff.mpr ⟨by decide +kernel, _, rfl, by decide +kernel⟩
  have hplanned := Catalog.planned hplan
  have hservice : assorted.components[0] ∈ assorted.enabled (Environment.withDefaults {} {}) := by
    decide +kernel
  obtain ⟨step, hstep, hstepOf⟩ := hplanned.exists_step hservice
  have hname : step.component = "service" := hstepOf.name
  have hedges : plan.edgesFrom "service" =
      [⟨"service", "store", .direct⟩, ⟨"service", "store", .deferred⟩,
        ⟨"service", "store", .optional⟩, ⟨"service", "store", .dependsOn⟩] := by
    unfold Plan.edgesFrom
    rw [hplanned.edges_eq]
    decide +kernel
  obtain ⟨_, -, -, hreferences, htargets, -⟩ := (Catalog.edges_of_steps hplan).1 step hstep
  rw [hname, hedges] at hreferences htargets
  exact ⟨plan, hplan, step, hstep, hname, hedges, hreferences.symm, htargets.symm⟩

end Assembly
