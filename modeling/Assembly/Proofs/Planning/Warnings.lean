import Assembly.Proofs.Lookup.Listed
import Assembly.Proofs.Planning.Arguments
import Assembly.Proofs.Planning.StrictMode

/-!
# What a run warns of

Outside strict mode a run warns first of doubtful providers, in the order of the consumers and of
their dependencies, and then of the components that a consumer needs first, each of which strains it
once however many times it is needed. It does so whether or not there is a plan.
-/

namespace Assembly

/-- A warning about the provider of a dependency. It is doubtful if several components implement the
interface and none of them is the only primary one, and if a qualifier names a component that does
not provide the type. -/
inductive Component.Doubts (components : List Component) (consumer : Component)
    (position : Position) (dependency : Dependency) : Warning → Prop where
  | ambiguous {chosen : Component} {candidates : List Component}
    (hliteral : dependency.literal = none) (hqualifier : dependency.qualifier = none)
    (hnone : ∀ component ∈ components, component.qualifiedName ≠ dependency.requestedType)
    (hselects : Provision.Selects
      (components.filter (dependency.requestedType ∈ ·.interfaces)) (.ambiguous chosen candidates)) :
    Doubts components consumer position dependency ⟨consumer.displayName, .ambiguity,
      ambiguityMessage position dependency.request chosen candidates⟩
  | mistyped {provider : Component} (hliteral : dependency.literal = none)
    (hqualifier : dependency.qualifier = some provider.displayName)
    (hprovider : provider ∈ components)
    (hprovides : provider.provides dependency.requestedType = false) :
    Doubts components consumer position dependency ⟨consumer.displayName, .qualifierTypeMismatch,
      typeMismatchMessage position provider dependency.requestedType⟩

/-- The warnings about a component that needs another one first. -/
def Component.strains (consumer provider : Component) : List Warning :=
  (if consumer.conditions = [] ∧ provider.conditions ≠ [] then
      [⟨consumer.displayName, .conditionalDependency, conditionalMessage provider⟩] else [])
    ++ if (consumer.scope = .singleton ∧ consumer.lazy = false)
        ∧ provider.scope = .singleton ∧ provider.lazy = true then
      [⟨consumer.displayName, .lazyForced, lazyForcedMessage provider⟩] else []

theorem Component.strains_eq_fragilities (consumer provider : Component) :
    consumer.strains provider = consumer.fragilities provider := by
  unfold strains fragilities isConditional isEager isLazySingleton
  simp

/-- The warning about the provider of a dependency, if there is one. -/
def Component.doubtAbout (components : List Component) (consumer : Component)
    (position : Position) (dependency : Dependency) : Option Warning :=
  match dependency.literal with
  | some _ => none
  | none =>
    match dependency.qualifier with
    | some name =>
      match components.find? (·.displayName = name) with
      | some provider =>
        if provider.provides dependency.requestedType then none
        else some ⟨consumer.displayName, .qualifierTypeMismatch,
          typeMismatchMessage position provider dependency.requestedType⟩
      | none => none
    | none =>
      match components.find? (·.qualifiedName = dependency.requestedType) with
      | some _ => none
      | none =>
        match Provision.among (components.filter (dependency.requestedType ∈ ·.interfaces)) with
        | .ambiguous chosen candidates => some ⟨consumer.displayName, .ambiguity,
          ambiguityMessage position dependency.request chosen candidates⟩
        | _ => none

section Distinct

variable {components : List Component} (hdistinct : Distinct components)
  (hsorted : components.Pairwise (·.declarationIndex ≤ ·.declarationIndex))
include hdistinct hsorted

/-- A lookup makes out the same doubts as a search of the components. -/
theorem map_doubt? (consumer : Component) (position : Position) (dependency : Dependency) :
    (dependency.doubt? (Lookup.ofList components) false position).map (fun doubt =>
        ⟨consumer.displayName, doubt.1, doubt.2⟩)
      = consumer.doubtAbout components position dependency := by
  unfold Dependency.doubt? Component.doubtAbout
  cases dependency.literal with
  | some token => rfl
  | none =>
      cases dependency.qualifier with
      | some name =>
          rw [find_qualified hdistinct]
          dsimp only
          cases components.find? (·.displayName = name) with
          | none => rfl
          | some provider =>
              cases hprovides : provider.provides dependency.requestedType <;> simp [hprovides]
      | none =>
          rw [find_unqualified hdistinct hsorted]
          dsimp only
          cases components.find? (·.qualifiedName = dependency.requestedType) with
          | some own => rfl
          | none =>
              dsimp only [Option.elim_none]
              cases Provision.among (components.filter (dependency.requestedType ∈ ·.interfaces))
                <;> rfl

omit hsorted in
theorem doubts_of_doubtAbout {consumer : Component} {position : Position} {dependency : Dependency}
    {warning : Warning}
    (hdoubt : consumer.doubtAbout components position dependency = some warning) :
    consumer.Doubts components position dependency warning := by
  unfold Component.doubtAbout at hdoubt
  split at hdoubt
  · cases hdoubt
  · next hliteral =>
    split at hdoubt
    · next name hqualifier =>
      split at hdoubt
      · next provider hfind =>
        obtain ⟨hprovider, rfl⟩ := (find?_displayName_eq_some_iff hdistinct).mp hfind
        split at hdoubt
        · cases hdoubt
        · next hprovides =>
          cases hdoubt
          exact .mistyped hliteral hqualifier hprovider (Bool.eq_false_iff.mpr hprovides)
      · cases hdoubt
    · next hqualifier =>
      split at hdoubt
      · cases hdoubt
      · next hown =>
        split at hdoubt
        · next chosen candidates hamong =>
          cases hdoubt
          have hselects := Provision.selects_among
            (components.filter (dependency.requestedType ∈ ·.interfaces))
          exact .ambiguous hliteral hqualifier (by simpa using hown) (hamong ▸ hselects)
        · cases hdoubt

omit hsorted in
theorem doubtAbout_eq_some_iff {consumer : Component} {position : Position}
    {dependency : Dependency} {warning : Warning} :
    consumer.doubtAbout components position dependency = some warning
      ↔ consumer.Doubts components position dependency warning := by
  constructor
  · exact doubts_of_doubtAbout hdistinct
  · intro hdoubts
    unfold Component.doubtAbout
    cases hdoubts with
    | ambiguous hliteral hqualifier hnone hselects =>
        have hown := List.find?_eq_none.mpr fun component hmem =>
          mt of_decide_eq_true (hnone component hmem)
        simp only [hliteral, hqualifier, hown, ← hselects.eq_among]
    | mistyped hliteral hqualifier hprovider hprovides =>
        have hfind := (find?_displayName_eq_some_iff hdistinct).mpr ⟨hprovider, rfl⟩
        simp [hliteral, hqualifier, hfind, hprovides]

namespace Graph

theorem fragilities_eq :
    (ofComponents components).fragilities
      = components.flatMap fun consumer =>
        (consumer.needed components).eraseDups.flatMap consumer.strains := by
  have hnode : ∀ node, ((ofComponents components).hard node).flatMap (fun provider =>
        ((ofComponents components).component node).fragilities
          ((ofComponents components).component provider))
      = (((ofComponents components).component node).needed components).eraseDups.flatMap
        ((ofComponents components).component node).strains := by
    intro node
    rw [← map_component_hard hdistinct hsorted, List.flatMap_map]
    simp only [Component.strains_eq_fragilities]
  calc (ofComponents components).fragilities
    _ = (ofComponents components).components.flatMap fun consumer =>
        (consumer.needed components).eraseDups.flatMap consumer.strains := by
      unfold fragilities Graph.components
      simp only [hnode, List.flatMap_map]
    _ = components.flatMap fun consumer =>
        (consumer.needed components).eraseDups.flatMap consumer.strains := by
      rw [components_ofComponents]

theorem warnings_eq :
    ((ofComponents components).findings (Lookup.ofList components) false).warnings
      = components.flatMap fun consumer =>
        consumer.dependencies.filterMap fun (position, dependency) =>
          consumer.doubtAbout components position dependency := by
  unfold findings
  rw [components_ofComponents]
  refine congrArg (components.flatMap ·) (funext fun consumer => ?_)
  exact List.filterMap_congr fun entry _ => map_doubt? hdistinct hsorted consumer entry.1 entry.2

end Graph

end Distinct

/-- Outside strict mode a run that gets as far as the graph warns of every doubtful provider and then
of everything that strains a consumer, each provider where the consumer needs it first, and of nothing
else. It does not matter whether the run ends with a plan. -/
theorem Catalog.warnings_reported (catalog : Catalog) (options : Options)
    (environment : Environment) {activation : Activation} (hfaults : catalog.faults = [])
    (hactivate : catalog.activate (environment.withDefaults options) = .ok activation)
    (hlenient : options.strict = false) :
    let components := catalog.enabled (environment.withDefaults options)
    activation.enabled = components
      ∧ (∀ (consumer : Component) position dependency warning,
        consumer.doubtAbout components position dependency = some warning
          ↔ consumer.Doubts components position dependency warning)
      ∧ (findingsOf (catalog.plan options environment)).warnings
        = components.flatMap (fun consumer =>
            consumer.dependencies.filterMap fun (position, dependency) =>
              consumer.doubtAbout components position dependency)
          ++ components.flatMap (fun consumer =>
            (consumer.needed components).eraseDups.flatMap consumer.strains) := by
  intro components
  have henabled : activation.enabled = components := enabled_of_activate hactivate
  have hdistinct : Distinct components := distinct_enabled hfaults
  have hsorted : components.Pairwise (·.declarationIndex ≤ ·.declarationIndex) := pairwise_enabled
  refine ⟨henabled, fun _ _ _ _ => doubtAbout_eq_some_iff hdistinct, ?_⟩
  rw [plan_of_decided hfaults hactivate, activation.findingsOf_plan, hlenient,
    ← Graph.fragilities_eq hdistinct hsorted, ← Graph.warnings_eq hdistinct hsorted]
  unfold Activation.findings
  rw [henabled]
  rfl

/-- A hub that needs a lazy disk three times over, one of two ports, and more than there is. -/
def crowded : Catalog where
  components :=
    [{ qualifiedName := "Hub", displayName := "hub", declarationIndex := 0
       sites := [.constructor [.direct "Disk", .direct "Port",
         (Dependency.direct "Clock").qualified "disk", .direct "Screen", .deferred "Left"]]
       dependsOn := ["disk"] },
     { qualifiedName := "Disk", displayName := "disk", declarationIndex := 1, lazy := true
       conditions := [.missing ["Tape"] []] },
     { qualifiedName := "Left", displayName := "left", declarationIndex := 2, lazy := true
       interfaces := .ofList ["Port"] },
     { qualifiedName := "Right", displayName := "right", declarationIndex := 3
       interfaces := .ofList ["Port"] }]
  ascending := by decide

/-- There is no plan without a screen, and the warnings are complete all the same. -/
theorem hub_warnings :
    (∀ plan, crowded.plan {} {} ≠ .ok plan)
      ∧ (findingsOf (crowded.plan {} {})).warnings =
        [⟨"hub", .ambiguity, "constructor argument #1 resolved 'Port' to last declared 'right' among "
            ++ "[left, right] - mark one primary or add a qualifier"⟩,
          ⟨"hub", .qualifierTypeMismatch, "constructor argument #2 is qualified 'disk' but that "
            ++ "component does not declare 'Clock'"⟩,
          ⟨"hub", .conditionalDependency, "unconditional component depends on 'disk' which is only "
            ++ "enabled by [missing(Tape)]"⟩,
          ⟨"hub", .lazyForced, "eager singleton forces lazy 'disk' to be constructed at startup"⟩] := by
  have hfaults : crowded.faults = [] := by decide +kernel
  have hactivate : crowded.activate (Environment.withDefaults {} {})
      = .ok ⟨crowded.components, []⟩ := by
    decide +kernel
  constructor
  · intro plan hplan
    have hhub : crowded.components[0] ∈ crowded.enabled (Environment.withDefaults {} {}) := by
      decide +kernel
    have hscreen := ((Catalog.planned hplan).isProvided hhub).1
      (.constructorArgument 3, .direct "Screen") (by decide +kernel) rfl rfl
    exact absurd hscreen (by decide +kernel)
  · obtain ⟨henabled, -, hwarnings⟩ :=
      Catalog.warnings_reported crowded {} {} hfaults hactivate rfl
    rw [hwarnings, ← henabled]
    decide +kernel

end Assembly
