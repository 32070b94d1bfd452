import Assembly.Proofs.Activation.Resemblance
import Assembly.Proofs.Catalog.Consistency
import Assembly.Proofs.Graph.Resemblance

/-!
# Runs side by side

Two runs end alike if both have a plan or neither has one. Two catalogs whose components resemble
each other, have the same conditions and are declared in one order are found consistent alike and
are decided alike. Either their runs end together before any provider is looked up, or they go on
with graphs that have the same nodes.
-/

namespace Assembly

/-- Both runs have a plan, or neither has one, and what they end with is related. -/
inductive EndsLike (plans : Plan → Plan → Prop) (failures : Findings → Findings → Prop) :
    Except Findings Plan → Except Findings Plan → Prop where
  | plan {plan other : Plan} (hplans : plans plan other) :
    EndsLike plans failures (.ok plan) (.ok other)
  | failure {findings other : Findings} (hfailures : failures findings other) :
    EndsLike plans failures (.error findings) (.error other)

theorem EndsLike.exists_plan {plans : Plan → Plan → Prop} {failures : Findings → Findings → Prop}
    {result other : Except Findings Plan} (hends : EndsLike plans failures result other)
    {plan : Plan} (hplan : result = .ok plan) :
    ∃ another, other = .ok another ∧ plans plan another := by
  cases hends with
  | plan hplans =>
      cases hplan
      exact ⟨_, rfl, hplans⟩
  | failure _ => cases hplan

/-- Runs with the same faults end alike. -/
theorem Activation.endsLike_plan {plans : Plan → Plan → Prop}
    {failures : Findings → Findings → Prop} {activation other : Activation} {strict : Bool}
    (herrors : (other.findings strict).errors = (activation.findings strict).errors)
    (hplans : plans
      ((Graph.ofComponents activation.enabled).plan (Graph.ofComponents activation.enabled).sorted
        (activation.findings strict))
      ((Graph.ofComponents other.enabled).plan (Graph.ofComponents other.enabled).sorted
        (other.findings strict)))
    (hfailures : failures (activation.findings strict) (other.findings strict)) :
    EndsLike plans failures (activation.plan strict) (other.plan strict) := by
  rw [plan_eq, plan_eq, herrors]
  split
  · exact .plan hplans
  · exact .failure hfailures

theorem Activation.endsLike_ofFn {plans : Plan → Plan → Prop}
    {failures : Findings → Findings → Prop} {n : Nat} {first second : Fin n → Component}
    {excluded others : List Exclusion} {strict : Bool} {findings found : Findings}
    (hfindings : (Graph.ofFn first).allFindings (Lookup.ofList (List.ofFn first)) strict excluded
      = findings)
    (hfound : (Graph.ofFn second).allFindings (Lookup.ofList (List.ofFn second)) strict others
      = found)
    (herrors : found.errors = findings.errors)
    (hplans : plans ((Graph.ofFn first).plan (Graph.ofFn first).sorted findings)
      ((Graph.ofFn second).plan (Graph.ofFn second).sorted found))
    (hfailures : failures findings found) :
    EndsLike plans failures (Activation.plan ⟨List.ofFn first, excluded⟩ strict)
      (Activation.plan ⟨List.ofFn second, others⟩ strict) := by
  subst hfindings hfound
  rw [plan_ofFn, plan_ofFn, herrors]
  split
  · exact .plan hplans
  · exact .failure hfailures

/-- The components of the items resemble each other, and no condition and no order tells them apart.
An index that is shared is the same in both. -/
structure Parallel {α : Type} (items : List α) (first second : α → Component) : Prop where
  resembles : ∀ item, (first item).Resembles (second item)
  constructorCount : ∀ item, (second item).constructorCount = (first item).constructorCount
  conditions : ∀ item, (second item).conditions = (first item).conditions
  declaredBefore : ∀ item ∈ items, ∀ other ∈ items,
    (second item).declaredBefore (second other) = (first item).declaredBefore (first other)
  sharedIndex : items.Pairwise fun item other =>
    (first item).declarationIndex = (first other).declarationIndex →
      (second other).declarationIndex = (first other).declarationIndex

/-- Components are declared at one place if each is declared before the other one. -/
theorem declarationIndex_eq_iff {component other : Component} :
    component.declarationIndex = other.declarationIndex
      ↔ component.declaredBefore other = true ∧ other.declaredBefore component = true := by
  simp only [Component.declaredBefore, decide_eq_true_eq]
  constructor
  · intro heq
    exact ⟨UInt32.le_of_eq heq, UInt32.le_of_eq heq.symm⟩
  · rintro ⟨hle, hge⟩
    exact UInt32.le_antisymm hle hge

namespace Parallel

variable {α : Type} {items : List α} {first second : α → Component}
  (hparallel : Parallel items first second) {catalog other : Catalog}
  (hcatalog : catalog.components = items.map first) (hother : other.components = items.map second)
include hparallel hcatalog hother

theorem faults_eq : other.faults = catalog.faults := by
  rw [Catalog.faults_eq, Catalog.faults_eq, hcatalog, hother]
  refine faultsAmong_map hparallel.resembles hparallel.constructorCount hparallel.conditions
    [] items (fun _ hmem => nomatch hmem) ?_
  refine hparallel.sharedIndex.imp_of_mem fun hitem hnext hshared => ⟨?_, hshared⟩
  rw [declarationIndex_eq_iff, declarationIndex_eq_iff, hparallel.declaredBefore _ hitem _ hnext,
    hparallel.declaredBefore _ hnext _ hitem]

/-- Either both runs end with the same findings, or they go on with the components of the same
items. -/
theorem plan_cases (options : Options) (environment : Environment) :
    (∃ findings, catalog.plan options environment = .error findings
        ∧ other.plan options environment = .error findings)
      ∨ ∃ (n : Nat) (item : Fin n → α) (excluded : List Exclusion),
        Alike (fun node => first (item node)) (fun node => second (item node))
          ∧ catalog.faults = [] ∧ (List.ofFn item).Sublist items
          ∧ catalog.enabled (environment.withDefaults options)
            = List.ofFn (fun node => first (item node))
          ∧ catalog.plan options environment
            = Activation.plan ⟨List.ofFn fun node => first (item node), excluded⟩ options.strict
          ∧ other.plan options environment
            = Activation.plan ⟨List.ofFn fun node => second (item node), excluded⟩
              options.strict := by
  have hsame := hparallel.faults_eq hcatalog hother
  by_cases hfaults : catalog.faults = []
  · have hnone := hsame.trans hfaults
    rcases Catalog.activate_cases hparallel.resembles hparallel.conditions hcatalog hother
        (environment.withDefaults options) with
      ⟨pairs, hactivate, hactivate'⟩ | ⟨fewer, excluded, hfewer, hactivate, hactivate'⟩
    · exact .inl ⟨_, Catalog.plan_of_undecided hfaults hactivate,
        Catalog.plan_of_undecided hnone hactivate'⟩
    · have henabled := Catalog.enabled_of_activate hactivate
      have hdistinct := @Catalog.distinct_enabled catalog (environment.withDefaults options) hfaults
      have hascending := @Catalog.pairwise_enabled catalog (environment.withDefaults options)
      have hmem : ∀ node : Fin fewer.length, fewer[node] ∈ items := fun node =>
        hfewer.subset (List.getElem_mem _)
      have hitems : (List.ofFn fun node : Fin fewer.length => fewer[node]).Sublist items :=
        (List.ofFn_get fewer).symm ▸ hfewer
      have hfirst := List.ofFn_getElem_eq_map fewer first
      have hsecond := List.ofFn_getElem_eq_map fewer second
      rw [← hfirst] at hactivate henabled
      rw [← hsecond] at hactivate'
      rw [← henabled] at hdistinct hascending
      refine .inr ⟨fewer.length, fun node => fewer[node], excluded, ?_, hfaults, hitems,
        henabled.symm, Catalog.plan_of_decided hfaults hactivate,
        Catalog.plan_of_decided hnone hactivate'⟩
      exact
        { resembles := fun node => hparallel.resembles _
          declaredBefore := fun node next => hparallel.declaredBefore _ (hmem node) _ (hmem next)
          distinct := hdistinct
          ascending := hascending }
  · refine .inl ⟨_, Catalog.plan_of_faults hfaults, ?_⟩
    rw [← hsame] at hfaults ⊢
    exact Catalog.plan_of_faults hfaults

end Parallel

end Assembly
