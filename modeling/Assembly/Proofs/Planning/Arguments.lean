import Mathlib.Data.List.Forall2
import Assembly.Proofs.Graph.Bound
import Assembly.Proofs.Planning.Steps

/-!
# The arguments of a plan

Every argument of a step is bound as its dependency asks for, and a provider is left out only where
the dependency permits it and there is none.
-/

namespace Assembly

/-- A dependency is bound to a source among the components. -/
inductive Binds (components : List Component) (dependency : Dependency) : Source → Prop where
  | literal {token : String} (hliteral : dependency.literal = some token) :
    Binds components dependency (.literal token)
  | reference {provider : Component} (hliteral : dependency.literal = none)
    (hprovider : dependency.provider? components = some provider)
    (hdirect : dependency.handover = .direct) (hneeded : dependency.allowMissing = false) :
    Binds components dependency (.reference provider.displayName)
  | deferred {provider : Component} (hliteral : dependency.literal = none)
    (hprovider : dependency.provider? components = some provider)
    (hdeferred : dependency.handover = .deferred) :
    Binds components dependency (.deferred provider.displayName)
  | present {provider : Component} (hliteral : dependency.literal = none)
    (hprovider : dependency.provider? components = some provider)
    (hoptional : dependency.handover = .optional
      ∨ dependency.handover = .direct ∧ dependency.allowMissing = true) :
    Binds components dependency (.optional (some provider.displayName))
  | absent (hliteral : dependency.literal = none)
    (hprovider : dependency.provider? components = none)
    (hpermits : dependency.permitsAbsence = true) :
    Binds components dependency (.optional none)

theorem Binds.exists_component {components : List Component} {dependency : Dependency}
    {source : Source} {name : String} (hbinds : Binds components dependency source)
    (hname : source.component? = some name) :
    ∃ provider ∈ components, provider.displayName = name := by
  cases hbinds with
  | literal hliteral => cases hname
  | absent hliteral hprovider hpermits => cases hname
  | reference hliteral hprovider hdirect hneeded =>
      cases hname
      exact ⟨_, mem_of_provider? hprovider, rfl⟩
  | deferred hliteral hprovider hdeferred =>
      cases hname
      exact ⟨_, mem_of_provider? hprovider, rfl⟩
  | present hliteral hprovider hoptional =>
      cases hname
      exact ⟨_, mem_of_provider? hprovider, rfl⟩

/-- A dependency is bound to one source only. -/
theorem Binds.unique {components : List Component} {dependency : Dependency}
    {first second : Source} (hfirst : Binds components dependency first)
    (hsecond : Binds components dependency second) : first = second := by
  cases hfirst <;> cases hsecond <;> simp_all [Dependency.permitsAbsence]

/-- The step is the only one of the name. -/
def Plan.OnlyStep (plan : Plan) (name : String) (step : Step) : Prop :=
  plan.steps.filter (·.component = name) = [step]

namespace Planned

variable {components : List Component} {strict : Bool} {plan : Plan}
  (hplanned : Planned components strict plan)
include hplanned

theorem onlyStep {step : Step} (hstep : step ∈ plan.steps) : plan.OnlyStep step.component step := by
  have hsame : plan.steps.filter (·.component = step.component) = plan.steps.filter (· = step) := by
    refine List.filter_congr fun other hother => ?_
    rw [decide_eq_decide]
    exact ⟨List.inj_on_of_nodup_map hplanned.nodup_steps hother hstep, congrArg _⟩
  have honce := List.count_eq_one_of_mem hplanned.nodup_steps.of_map hstep
  unfold Plan.OnlyStep
  rw [hsame, List.filter_eq, honce]
  rfl

theorem exists_onlyStep {component : Component} (hcomponent : component ∈ components) :
    ∃ step, plan.OnlyStep component.displayName step := by
  obtain ⟨step, hstep, hstepOf⟩ := hplanned.exists_step hcomponent
  exact ⟨step, hstepOf.name ▸ hplanned.onlyStep hstep⟩

theorem isProvided {component : Component} (hcomponent : component ∈ components) :
    (∀ entry ∈ component.dependencies, entry.2.IsProvided components)
      ∧ ∀ name ∈ component.dependsOn, ∃ provider ∈ components, provider.displayName = name :=
  (Graph.errors_lenient_eq_nil_iff hplanned.distinct hplanned.ascending).mp
    (Graph.errors_lenient_of_strict hplanned.bound) component hcomponent

theorem binds_argument {entry : Position × Dependency} (hprovided : entry.2.IsProvided components) :
    Binds components entry.2 ((Graph.ofComponents components).argument (entry.2.binding
      (Lookup.ofList components) (Graph.ofComponents components).index entry.1)).source := by
  unfold Graph.argument Dependency.binding
  cases hbound : entry.2.bound (Lookup.ofList components) (Graph.ofComponents components).index with
  | literal token => exact .literal (Dependency.bound_eq_literal_iff.mp hbound)
  | missing =>
      obtain ⟨hliteral, hprovider⟩ :=
        (Graph.bound_eq_missing_iff hplanned.distinct hplanned.ascending).mp hbound
      refine .absent hliteral hprovider ?_
      -- A needed dependency without a provider would have been a fault, and then no plan.
      by_contra hneeded
      have hsome := isSome_provider?_iff.mpr (hprovided hliteral (Bool.eq_false_iff.mpr hneeded))
      rw [hprovider] at hsome
      cases hsome
  | provider node =>
      obtain ⟨hliteral, hprovider⟩ :=
        (Graph.bound_eq_provider_iff hplanned.distinct hplanned.ascending).mp hbound
      cases hhandover : entry.2.handover with
      | direct =>
          cases hmissing : entry.2.allowMissing with
          | false => exact .reference hliteral hprovider hhandover hmissing
          | true => exact .present hliteral hprovider (.inr ⟨hhandover, hmissing⟩)
      | deferred => exact .deferred hliteral hprovider hhandover
      | optional => exact .present hliteral hprovider (.inl hhandover)

theorem forall₂_arguments (node : Fin (Graph.ofComponents components).size) :
    List.Forall₂ (fun entry argument => argument.position = entry.1
        ∧ Binds components entry.2 argument.source)
      ((Graph.ofComponents components).component node).dependencies
      (stepOf components plan node).arguments := by
  have hmem := (Graph.mem_components_iff components).mpr ⟨node, rfl⟩
  rw [arguments_stepOf, List.forall₂_map_right_iff, List.forall₂_same]
  intro entry hentry
  exact ⟨rfl, hplanned.binds_argument ((hplanned.isProvided hmem).1 entry hentry)⟩

theorem dependsOn_stepOf (node : Fin (Graph.ofComponents components).size) :
    (stepOf components plan node).dependsOn
      = ((Graph.ofComponents components).component node).dependsOn := by
  have hmem := (Graph.mem_components_iff components).mpr ⟨node, rfl⟩
  refine (List.filterMap_congr fun name hname => ?_).trans List.filterMap_some
  obtain ⟨provider, hprovider, rfl⟩ := (hplanned.isProvided hmem).2 name hname
  obtain ⟨target, rfl⟩ := (Graph.mem_components_iff components).mp hprovider
  rw [(Graph.index_ofComponents hplanned.distinct).mpr rfl]
  rfl

/-- Whatever a step refers to takes part. -/
theorem exists_component_of_reference (node : Fin (Graph.ofComponents components).size)
    {name : String} (hname : name ∈ (stepOf components plan node).references) :
    ∃ provider ∈ components, provider.displayName = name := by
  have hmem := (Graph.mem_components_iff components).mpr ⟨node, rfl⟩
  rcases List.mem_append.mp hname with hargument | horder
  · obtain ⟨argument, hargument, hsource⟩ := List.mem_filterMap.mp hargument
    rw [arguments_stepOf] at hargument
    obtain ⟨entry, hentry, rfl⟩ := List.mem_map.mp hargument
    have hprovided := (hplanned.isProvided hmem).1 entry hentry
    exact (hplanned.binds_argument hprovided).exists_component hsource
  · rw [hplanned.dependsOn_stepOf] at horder
    exact (hplanned.isProvided hmem).2 name horder

end Planned

/-- In every plan each component that takes part has one step, whose arguments are bound as its
dependencies ask for, in their order, and whatever the step refers to has one step as well. -/
theorem Catalog.arguments_bound {catalog : Catalog} {options : Options} {environment : Environment}
    {plan : Plan} (hplan : catalog.plan options environment = .ok plan) {component : Component}
    (hcomponent : component ∈ catalog.enabled (environment.withDefaults options)) :
    ∃ step, plan.OnlyStep component.displayName step
      ∧ List.Forall₂ (fun entry argument => argument.position = entry.1
          ∧ Binds (catalog.enabled (environment.withDefaults options)) entry.2 argument.source)
        component.dependencies step.arguments
      ∧ step.dependsOn = component.dependsOn
      ∧ ∀ name ∈ step.references, ∃ other, plan.OnlyStep name other := by
  have hplanned := planned hplan
  obtain ⟨node, rfl⟩ := (Graph.mem_components_iff _).mp hcomponent
  have hstep := hplanned.mem_steps_iff.mpr ⟨node, rfl⟩
  refine ⟨_, hplanned.onlyStep hstep, hplanned.forall₂_arguments node,
    hplanned.dependsOn_stepOf node, ?_⟩
  intro name hname
  obtain ⟨provider, hprovider, rfl⟩ := hplanned.exists_component_of_reference node hname
  exact hplanned.exists_onlyStep hprovider

/-- A service that takes a literal, a store in each way and a cache that does not exist. -/
def assorted : Catalog where
  components :=
    [{ qualifiedName := "Service", displayName := "service", declarationIndex := 0
       sites := [.constructor [.ofLiteral "u16" "8080", .direct "Store", .deferred "Store",
        .optional "Store", .optional "Cache"]]
       dependsOn := ["store"] },
     { qualifiedName := "Store", displayName := "store", declarationIndex := 1 }]
  ascending := by decide

theorem service_arguments :
    ∃ plan step, assorted.plan {} {} = .ok plan ∧ plan.OnlyStep "service" step
      ∧ step.dependsOn = ["store"]
      ∧ step.arguments =
        [⟨.constructorArgument 0, .literal "8080"⟩, ⟨.constructorArgument 1, .reference "store"⟩,
          ⟨.constructorArgument 2, .deferred "store"⟩,
          ⟨.constructorArgument 3, .optional (some "store")⟩,
          ⟨.constructorArgument 4, .optional none⟩] := by
  obtain ⟨plan, hplan⟩ : ∃ plan, assorted.plan {} {} = .ok plan :=
    Catalog.exists_plan_iff.mpr ⟨by decide +kernel, _, rfl, by decide +kernel⟩
  have hservice : assorted.components[0] ∈ assorted.enabled (Environment.withDefaults {} {}) := by
    decide +kernel
  obtain ⟨step, honly, harguments, horder, -⟩ := Catalog.arguments_bound hplan hservice
  refine ⟨plan, step, hplan, honly, horder, ?_⟩
  have hunique : Relator.RightUnique fun (entry : Position × Dependency) (argument : Argument) =>
      argument.position = entry.1
        ∧ Binds (assorted.enabled (Environment.withDefaults {} {})) entry.2 argument.source := by
    rintro entry ⟨_, first⟩ ⟨_, second⟩ ⟨rfl, hfirst⟩ ⟨rfl, hsecond⟩
    exact congrArg (Argument.mk entry.1) (hfirst.unique hsecond)
  let store := assorted.components[1]
  refine List.right_unique_forall₂' hunique harguments ?_
  exact .cons ⟨rfl, .literal rfl⟩
    (.cons ⟨rfl, @Binds.reference _ _ store rfl (by decide +kernel) rfl rfl⟩
      (.cons ⟨rfl, @Binds.deferred _ _ store rfl (by decide +kernel) rfl⟩
        (.cons ⟨rfl, @Binds.present _ _ store rfl (by decide +kernel) (.inl rfl)⟩
          (.cons ⟨rfl, .absent rfl (by decide +kernel) rfl⟩ .nil))))

end Assembly
