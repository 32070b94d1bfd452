import Assembly.Proofs.Catalog.Growth
import Assembly.Proofs.Graph.Bound
import Assembly.Proofs.Planning.Parallel

/-!
# Soft dependencies

A dependency is soft if its provider does not have to be constructed first: it is deferred, it may
be missing, or it is no provider at all but a literal. Soft dependencies that are bound can be added
anywhere. The same runs have a plan, with the same steps on the same levels, and there is nothing
new in it but the added arguments, edges that are not hard and warnings about the added
dependencies.
-/

namespace Assembly

/-- The step has further arguments where there is a mark, and further warnings about them. -/
structure Step.Grows (marks : List Bool) (caused : List Warning) (step grown : Step) : Prop where
  rest : grown = { step with arguments := grown.arguments, warnings := grown.warnings }
  arguments : ∃ further, Interleaved marks step.arguments further grown.arguments
  warnings : ∃ marks, Interleaved marks step.warnings
    (caused.filter (·.component = step.component)) grown.warnings

/-- Each step has further arguments for the further dependencies of its component, and the plan has
further warnings. The hard edges are the same. -/
structure Plan.Grows (additions : List (Component × (Nat → List Dependency)))
    (caused : List Warning) (plan grown : Plan) : Prop where
  steps : List.Forall₂ (fun step other => ∃ item ∈ additions, item.1.displayName = step.component
    ∧ step.Grows (item.1.addedMarks item.2) caused other) plan.steps grown.steps
  hardEdges : grown.edges.filter (·.kind.isHard) = plan.edges.filter (·.kind.isHard)
  errors : grown.findings.errors = plan.findings.errors
  warnings : ∃ marks, Interleaved marks plan.findings.warnings caused grown.findings.warnings
  excluded : grown.findings.excluded = plan.findings.excluded

/-- The warnings about the further dependencies of components. -/
def addedWarnings (lookup : Lookup) (items : List (Component × (Nat → List Dependency))) :
    List Warning :=
  items.flatMap fun (component, further) => (component.addedDependencies further).flatMap
    (Dependency.warnings lookup false component.displayName)

/-- The warnings about the further dependencies of the components that take part. -/
def Catalog.addedWarnings (catalog : Catalog) (added : Nat → Nat → List Dependency)
    (environment : Environment) : List Warning :=
  let enabled := catalog.enabled environment
  Assembly.addedWarnings (Lookup.ofList enabled)
    ((catalog.additions added).filter (·.1 ∈ enabled))

theorem kind_of_addedWarnings {lookup : Lookup}
    {items : List (Component × (Nat → List Dependency))} {warning : Warning}
    (hwarning : warning ∈ addedWarnings lookup items) :
    warning.kind = .ambiguity ∨ warning.kind = .qualifierTypeMismatch := by
  obtain ⟨item, -, hwarning⟩ := List.mem_flatMap.mp hwarning
  obtain ⟨entry, -, hwarning⟩ := List.mem_flatMap.mp hwarning
  exact Dependency.kind_of_warnings _ _ _ _ hwarning

/-- The components with the further dependencies that each of them gets. -/
abbrev grown {n : Nat} (component : Fin n → Component) (added : Fin n → Nat → List Dependency)
    (node : Fin n) : Component :=
  (component node).withAdded (added node)

namespace Alike

variable {n : Nat} {component : Fin n → Component} {added : Fin n → Nat → List Dependency}
  (halike : Alike component (grown component added))
include halike

section Soft

variable (hsoft : ∀ node, ∀ entry ∈ (component node).addedDependencies (added node),
  entry.2.isHard = false)
include hsoft

theorem hardLinks_grown (node : Fin n) :
    ((Graph.ofFn (grown component added)).nodes.get node).links.filter (·.kind.isHard)
      = ((Graph.ofFn component).nodes.get node).links.filter (·.kind.isHard) := by
  rw [Graph.nodes_ofFn, Graph.nodes_ofFn]
  unfold Node.ofComponent
  dsimp only
  rw [List.filter_append, List.filter_append]
  refine congrArg₂ (· ++ ·) ?_ (congrArg (List.filter _) (List.filterMap_congr fun name _ => ?_))
  · rw [List.filter_filterMap, List.filter_filterMap]
    let link? := fun entry : Position × Dependency =>
      (entry.2.link? (Lookup.ofList (List.ofFn component)) (Graph.ofFn component).index).filter
        (·.kind.isHard)
    obtain ⟨marks, hlinks⟩ :=
      ((component node).interleaved_dependencies (added node)).filterMap link?
    have hnone : ((component node).addedDependencies (added node)).filterMap link? = [] :=
      List.filterMap_eq_nil_iff.mpr fun entry hentry =>
        Dependency.filter_link?_of_soft (hsoft node entry hentry)
    rw [hnone] at hlinks
    refine Eq.trans (List.filterMap_congr fun entry _ => ?_) hlinks.eq_of_nil
    exact congrArg (Option.filter _) (halike.link?_eq entry.2)
  · rw [halike.orderNode?_eq]

theorem hard_grown : (Graph.ofFn (grown component added)).hard = (Graph.ofFn component).hard := by
  funext node
  unfold Graph.hard
  rw [Node.hard_eq, Node.hard_eq, halike.hardLinks_grown hsoft]

theorem hardEdges_grown :
    (Graph.ofFn (grown component added)).edges.filter (·.kind.isHard)
      = (Graph.ofFn component).edges.filter (·.kind.isHard) := by
  unfold Graph.edges
  rw [List.filter_flatMap, List.filter_flatMap]
  apply List.flatMap_congr
  intro node _
  rw [Graph.edgesOf_ofFn, Graph.edgesOf_ofFn, List.filter_map, List.filter_map]
  simp only [Function.comp_def]
  rw [halike.hardLinks_grown hsoft]
  rfl

theorem step_grows {warnings caused warnings' : List Warning}
    (hwarnings : ∃ marks, Interleaved marks warnings caused warnings') (node : Fin n) :
    ((Graph.ofFn component).step (Graph.ofFn component).levels warnings node).Grows
      ((component node).addedMarks (added node)) caused
      ((Graph.ofFn (grown component added)).step (Graph.ofFn (grown component added)).levels
        warnings' node) := by
  have hinclusion : (grown component added node).inclusion
      = ((Graph.ofFn component).component node).inclusion := by
    rw [Graph.component_ofFn]
    rfl
  have hname : (component node).displayName
      = ((Graph.ofFn component).component node).displayName := by
    rw [Graph.component_ofFn]
  rw [halike.step_eq (halike.hard_grown hsoft) warnings warnings' node, hinclusion, hname]
  refine { rest := rfl, arguments := ?_, warnings := ?_ }
  · have hbinding : ∀ entry : Position × Dependency,
        entry.2.binding (Lookup.ofList (List.ofFn (grown component added)))
            (Graph.ofFn (grown component added)).index entry.1
          = entry.2.binding (Lookup.ofList (List.ofFn component)) (Graph.ofFn component).index
            entry.1 := fun entry => halike.binding_eq entry.1 entry.2
    have hentries := (component node).interleaved_dependencies (added node)
    have harguments := (hentries.map fun entry => entry.2.binding
      (Lookup.ofList (List.ofFn component)) (Graph.ofFn component).index entry.1).map
      (Graph.ofFn component).argument
    rw [← Graph.bindings_ofFn] at harguments
    rw [Graph.bindings_ofFn]
    simp only [hbinding]
    exact ⟨_, harguments⟩
  · obtain ⟨marks, hwarnings⟩ := hwarnings
    exact hwarnings.filter _

end Soft

/-- What is bound is no fault. -/
theorem errors_grown
    (hprovided : ∀ node, ∀ entry ∈ (component node).addedDependencies (added node),
      entry.2.IsProvided (List.ofFn component)) :
    ((Graph.ofFn (grown component added)).findings
        (Lookup.ofList (List.ofFn (grown component added))) false).errors
      = ((Graph.ofFn component).findings (Lookup.ofList (List.ofFn component)) false).errors := by
  rw [Graph.errors_findings_ofFn, Graph.errors_findings_ofFn]
  refine List.flatMap_congr fun node _ => congrArg₂ (· ++ ·) ?_ (halike.orderFaults_eq node)
  rw [halike.faults_eq]
  let faults := Dependency.faults (Lookup.ofList (List.ofFn component)) false
    (component node).displayName
  obtain ⟨marks, hfaults⟩ := ((component node).interleaved_dependencies (added node)).bind faults
  have hnone : ((component node).addedDependencies (added node)).flatMap faults = [] := by
    apply List.flatMap_eq_nil_iff.mpr
    intro entry hentry
    have hbound := (Graph.unbound?_eq_none_iff halike.distinct halike.ascending).mpr
      (hprovided node entry hentry)
    simp only [faults, Dependency.faults, hbound]
    rfl
  rw [hnone] at hfaults
  exact hfaults.eq_of_nil

theorem warnings_grown :
    ∃ marks, Interleaved marks
      ((Graph.ofFn component).findings (Lookup.ofList (List.ofFn component)) false).warnings
      (addedWarnings (Lookup.ofList (List.ofFn component))
        (List.ofFn fun node => (component node, added node)))
      ((Graph.ofFn (grown component added)).findings
        (Lookup.ofList (List.ofFn (grown component added))) false).warnings := by
  have hitems : (List.ofFn fun node => (component node, added node))
      = (List.finRange n).map fun node => (component node, added node) := List.ofFn_eq_map
  unfold addedWarnings
  rw [Graph.warnings_findings_ofFn, Graph.warnings_findings_ofFn, hitems, List.flatMap_map]
  simp only [halike.warnings_eq]
  have hnode := fun node => ((component node).interleaved_dependencies (added node)).bind
    (Dependency.warnings (Lookup.ofList (List.ofFn component)) false (component node).displayName)
  choose marks hmarks using hnode
  exact ⟨_, Interleaved.flatMap fun node _ => hmarks node⟩

variable (hsoft : ∀ node, ∀ entry ∈ (component node).addedDependencies (added node),
  entry.2.isHard = false)
include hsoft

/-- What is fragile is an edge, and no edge that is hard has been added. -/
theorem allWarnings_grown (excluded : List Exclusion) :
    ∃ marks, Interleaved marks
      ((Graph.ofFn component).allFindings (Lookup.ofList (List.ofFn component)) false
        excluded).warnings
      (addedWarnings (Lookup.ofList (List.ofFn component))
        (List.ofFn fun node => (component node, added node)))
      ((Graph.ofFn (grown component added)).allFindings
        (Lookup.ofList (List.ofFn (grown component added))) false excluded).warnings := by
  obtain ⟨marks, hbindings⟩ := halike.warnings_grown
  have hall := hbindings.append (.of_kept (Graph.ofFn component).fragilities)
  rw [List.append_nil] at hall
  change ∃ marks, Interleaved marks (_ ++ (Graph.ofFn component).fragilities) _
    (_ ++ (Graph.ofFn (grown component added)).fragilities)
  rw [halike.fragilities_eq (halike.hard_grown hsoft) fun _ => rfl]
  exact ⟨_, hall⟩

theorem allErrors_grown
    (hprovided : ∀ node, ∀ entry ∈ (component node).addedDependencies (added node),
      entry.2.IsProvided (List.ofFn component)) (excluded : List Exclusion) :
    ((Graph.ofFn (grown component added)).allFindings
        (Lookup.ofList (List.ofFn (grown component added))) false excluded).errors
      = ((Graph.ofFn component).allFindings (Lookup.ofList (List.ofFn component)) false
        excluded).errors := by
  have herrors := halike.errors_grown hprovided
  have hcycle := halike.cycle?_eq (halike.hard_grown hsoft)
  unfold Graph.allFindings
  simp only [Bool.false_eq_true, if_false, herrors, hcycle]

theorem plan_grows {additions : List (Component × (Nat → List Dependency))}
    (hadditions : ∀ node, (component node, added node) ∈ additions)
    (hprovided : ∀ node, ∀ entry ∈ (component node).addedDependencies (added node),
      entry.2.IsProvided (List.ofFn component)) (excluded : List Exclusion) :
    EndsLike
      (Plan.Grows additions (addedWarnings (Lookup.ofList (List.ofFn component))
        (List.ofFn fun node => (component node, added node))))
      (fun findings others => others.errors = findings.errors)
      (Activation.plan ⟨List.ofFn component, excluded⟩ false)
      (Activation.plan ⟨List.ofFn (grown component added), excluded⟩ false) := by
  have hhard := halike.hard_grown hsoft
  have hwarnings := halike.allWarnings_grown hsoft excluded
  have herrors := halike.allErrors_grown hsoft hprovided excluded
  refine Activation.endsLike_ofFn rfl rfl herrors ?_ herrors
  refine
    { steps := ?_
      hardEdges := halike.hardEdges_grown hsoft
      errors := herrors
      warnings := hwarnings
      excluded := Graph.excluded_allFindings.trans Graph.excluded_allFindings.symm }
  rw [Graph.steps_plan (Graph.displayName_ofFn_injective halike.distinct),
    Graph.steps_plan (Graph.displayName_ofFn_injective halike.distinct_second),
    halike.sequence_eq hhard, List.forall₂_map_left_iff,
    List.forall₂_map_right_iff, List.forall₂_same]
  intro node _
  refine ⟨_, hadditions node, ?_, halike.step_grows hsoft hwarnings node⟩
  exact congrArg Component.displayName (Graph.component_ofFn component node).symm

end Alike

/-- Items of a part whose images are all different are found again by their images. -/
theorem filter_mem_map_of_sublist {α β : Type} [DecidableEq β] {f : α → β} {fewer items : List α}
    (hfewer : fewer.Sublist items) (hnodup : (items.map f).Nodup) :
    items.filter (fun item => f item ∈ fewer.map f) = fewer := by
  induction hfewer with
  | slnil => rfl
  | cons item hrest ih =>
      obtain ⟨hfresh, hnodup⟩ := List.nodup_cons.mp hnodup
      rw [List.filter_cons_of_neg, ih hnodup]
      rw [decide_eq_true_eq]
      exact fun hmem => hfresh ((hrest.map f).subset hmem)
  | cons_cons item hrest ih =>
      obtain ⟨hfresh, hnodup⟩ := List.nodup_cons.mp hnodup
      rw [List.filter_cons_of_pos (by simp)]
      refine congrArg (item :: ·) (Eq.trans (List.filter_congr fun other hother => ?_) (ih hnodup))
      have hother : f other ≠ f item := fun heq => hfresh (heq ▸ List.mem_map_of_mem hother)
      simp [hother]

namespace Catalog

variable {catalog : Catalog} {added : Nat → Nat → List Dependency}

theorem parallel_additions :
    Parallel (catalog.additions added) (·.1) fun item => item.1.withAdded item.2 where
  resembles := fun item => item.1.resembles_withAdded item.2
  constructorCount := fun item => item.1.constructorCount_withAdded item.2
  conditions := fun _ => rfl
  declaredBefore := fun _ _ _ _ => rfl
  sharedIndex := List.pairwise_of_forall fun _ _ _ => rfl

/-- The components that take part are found among the additions by themselves. -/
theorem addedWarnings_eq {environment : Environment} (hfaults : catalog.faults = [])
    {items : List (Component × (Nat → List Dependency))}
    (hitems : items.Sublist (catalog.additions added))
    (henabled : catalog.enabled environment = items.map (·.1)) :
    catalog.addedWarnings added environment
      = Assembly.addedWarnings (Lookup.ofList (items.map (·.1))) items := by
  have hnodup : ((catalog.additions added).map (·.1)).Nodup := by
    rw [components_additions]
    exact (distinct_of_faults_eq_nil hfaults).nodup
  unfold addedWarnings
  rw [henabled]
  exact congrArg (Assembly.addedWarnings _) (filter_mem_map_of_sublist hitems hnodup)

theorem of_mem_addedDependencies {property : Dependency → Prop}
    (hadded : ∀ place site, ∀ dependency ∈ added place site, property dependency)
    {item : Component × (Nat → List Dependency)} (hitem : item ∈ catalog.additions added)
    {entry : Position × Dependency} (hentry : entry ∈ item.1.addedDependencies item.2) :
    property entry.2 := by
  obtain ⟨place, hplace⟩ := catalog.mem_additions added hitem
  obtain ⟨site, hsite⟩ := item.1.mem_addedDependencies item.2 hentry
  rw [hplace] at hsite
  exact hadded place site entry.2 hsite

end Catalog

/-- Further dependencies that are soft and bound change neither whether there is a plan nor the
faults that prevent it. A plan has the same steps in the same order and on the same levels, with
further arguments for the further dependencies, the same hard edges, and further warnings about the
further dependencies. -/
theorem Catalog.plan_withAdded {catalog : Catalog} {options : Options} {environment : Environment}
    {added : Nat → Nat → List Dependency} (hlenient : options.strict = false)
    (hadded : ∀ place site, ∀ dependency ∈ added place site, dependency.isHard = false
      ∧ dependency.IsProvided (catalog.enabled (environment.withDefaults options))) :
    let caused := catalog.addedWarnings added (environment.withDefaults options)
    (∀ warning ∈ caused, warning.kind = .ambiguity ∨ warning.kind = .qualifierTypeMismatch)
      ∧ EndsLike (Plan.Grows (catalog.additions added) caused)
        (fun findings others => others.errors = findings.errors)
        (catalog.plan options environment)
        ((catalog.withAdded added).plan options environment) := by
  intro caused
  refine ⟨fun warning => kind_of_addedWarnings, ?_⟩
  have hcatalog := (catalog.components_additions added).symm
  have hother : (catalog.withAdded added).components
      = (catalog.additions added).map fun item => item.1.withAdded item.2 := rfl
  rcases parallel_additions.plan_cases hcatalog hother options environment with
    ⟨findings, hplan, hplan'⟩
    | ⟨n, item, excluded, halike, hfaults, hitems, henabled, hplan, hplan'⟩
  · rw [hplan, hplan']
    exact .failure rfl
  · have hnode : ∀ node, item node ∈ catalog.additions added := fun node =>
      hitems.subset (List.mem_ofFn.mpr ⟨node, rfl⟩)
    have hentry : ∀ node, ∀ entry ∈ (item node).1.addedDependencies (item node).2,
        entry.2.isHard = false ∧ entry.2.IsProvided (List.ofFn fun node => (item node).1) := by
      intro node entry hentry
      rw [← henabled]
      exact of_mem_addedDependencies hadded (hnode node) hentry
    have hmap : (List.ofFn item).map (·.1) = List.ofFn fun node => (item node).1 :=
      List.map_ofFn
    have hcaused : caused = Assembly.addedWarnings
        (Lookup.ofList (List.ofFn fun node => (item node).1)) (List.ofFn item) := by
      rw [← hmap] at henabled ⊢
      exact addedWarnings_eq hfaults hitems henabled
    rw [hplan, hplan', hlenient, hcaused]
    exact halike.plan_grows (fun node entry hmem => (hentry node entry hmem).1) hnode
      (fun node entry hmem => (hentry node entry hmem).2) excluded

/-- A service takes a store, which can be set up. -/
def serviced : Catalog where
  components :=
    [{ qualifiedName := "Service", displayName := "service", declarationIndex := 0
       sites := [.constructor [.direct "Store"]] },
     { qualifiedName := "Store", displayName := "store", declarationIndex := 1
       sites := [.method "setUp" []] }]
  ascending := by decide

/-- The service also takes a literal and what may be missing, and the store is set up with its own
service and with something that has its name. -/
def serviceAdditions : Nat → Nat → List Dependency
  | 0, 0 => [.ofLiteral "String" "name", .optional "Audit"]
  | 1, 0 => [.deferred "Service", (Dependency.optional "Audit").qualified "service"]
  | _, _ => []

/-- The service is known to the store before it is constructed, so that there is no cycle. -/
theorem serviced_withAdded :
    ∃ plan grown, serviced.plan {} {} = .ok plan
      ∧ (serviced.withAdded serviceAdditions).plan {} {} = .ok grown
      ∧ plan.Grows (serviced.additions serviceAdditions)
        (serviced.addedWarnings serviceAdditions {}) grown
      ∧ plan.findings.warnings = []
      ∧ grown.findings.warnings.map (·.kind) = [.qualifierTypeMismatch] := by
  have hadded : ∀ place site, ∀ dependency ∈ serviceAdditions place site,
      dependency.isHard = false ∧ dependency.IsProvided (serviced.enabled {}) := by
    intro place site
    unfold serviceAdditions
    split
    · decide +kernel
    · decide +kernel
    · decide
  obtain ⟨-, hends⟩ := @Catalog.plan_withAdded serviced {} {} serviceAdditions rfl hadded
  obtain ⟨plan, hplan⟩ : ∃ plan, serviced.plan {} {} = .ok plan :=
    Catalog.exists_plan_iff.mpr ⟨by decide +kernel, _, rfl, by decide +kernel⟩
  have hnone : plan.findings.warnings = [] := by
    obtain ⟨-, activation, hactivate, -, rfl⟩ := Catalog.plan_eq_ok_iff.mp hplan
    cases hactivate
    decide +kernel
  have hcaused : (serviced.addedWarnings serviceAdditions {}).map (·.kind)
      = [.qualifierTypeMismatch] := by
    decide +kernel
  obtain ⟨grown, hgrown, hgrows⟩ := hends.exists_plan hplan
  obtain ⟨marks, hwarnings⟩ := hgrows.warnings
  rw [hnone] at hwarnings
  refine ⟨plan, grown, hplan, hgrown, hgrows, hnone, ?_⟩
  rw [hwarnings.eq_of_kept_nil]
  exact hcaused

end Assembly
