import Assembly.Proofs.Planning.Promotion
import Assembly.Proofs.Planning.Run

/-!
# Strict mode and the other mode

A run in strict mode ends with the same plan as a run in the other mode without warnings. Otherwise
it ends with the faults of the other run and, in the place of each of its warnings, one more fault.
-/

namespace Assembly

/-- The findings of a run, with a plan or without one. -/
def findingsOf : Except Findings Plan → Findings
  | .ok plan => plan.findings
  | .error findings => findings

/-- The catalog itself prevents a plan. -/
def Refused (result : Except Findings Plan) : Prop :=
  ∃ findings fault, result = .error findings ∧ .configuration fault ∈ findings.errors

theorem Graph.not_configuration {graph : Graph} {lookup : Lookup} {excluded : List Exclusion}
    {fault : CatalogFault} :
    PlanFault.configuration fault ∉ (graph.allFindings lookup false excluded).errors := by
  change PlanFault.configuration fault
    ∉ (graph.findings lookup false).errors ++ (graph.cycle?.map PlanFault.cycle).toList
  intro hfault
  rcases List.mem_append.mp hfault with hbinding | hcycle
  · obtain ⟨binding, -, hbinding⟩ := List.mem_map.mp hbinding
    cases hbinding
  · obtain ⟨cycle, -, hcycle⟩ := Option.map_eq_some_iff.mp (Option.mem_toList.mp hcycle)
    cases hcycle

namespace Activation

variable (activation : Activation)

theorem promotes_findings :
    Promotes (activation.findings false).errors (activation.findings false).warnings
      (activation.findings true).errors :=
  Graph.promotes_of_findings _ _ _

theorem findingsOf_plan (strict : Bool) :
    findingsOf (activation.plan strict) = activation.findings strict := by
  rw [plan_eq]
  split
  · rfl
  · rfl

/-- Where strict mode finds no fault, both modes find the same. -/
theorem findings_eq_of_errors (herrors : (activation.findings true).errors = []) :
    activation.findings true = activation.findings false := by
  obtain ⟨hlenient, hwarnings⟩ := activation.promotes_findings.eq_nil_iff.mp herrors
  calc activation.findings true
      = ⟨(activation.findings true).errors, [], activation.excluded⟩ := rfl
    _ = ⟨(activation.findings false).errors, (activation.findings false).warnings,
          activation.excluded⟩ := by rw [herrors, hlenient, hwarnings]
    _ = activation.findings false := rfl

theorem plan_strict_iff {plan : Plan} :
    activation.plan true = .ok plan
      ↔ activation.plan false = .ok plan ∧ plan.findings.warnings = [] := by
  have hnone := activation.promotes_findings.eq_nil_iff
  constructor
  · intro hplan
    rw [plan_eq] at hplan ⊢
    split at hplan
    · next herrors =>
      rw [if_pos (hnone.mp herrors).1, ← activation.findings_eq_of_errors herrors]
      cases hplan
      exact ⟨rfl, rfl⟩
    · cases hplan
  · rintro ⟨hplan, hwarnings⟩
    rw [plan_eq] at hplan ⊢
    split at hplan
    · next herrors =>
      cases hplan
      have hstrict := hnone.mpr ⟨herrors, hwarnings⟩
      rw [if_pos hstrict, activation.findings_eq_of_errors hstrict]
    · cases hplan

end Activation

/-- A run in strict mode has a plan exactly if the other run has one without warnings, and it is the
same plan. If the catalog is at fault, both runs end alike. Otherwise the faults of strict mode are
those of the other run and what its warnings become. -/
theorem Catalog.strict_mode (catalog : Catalog) (environment : Environment)
    (profiles : List String) :
    let lenient := catalog.plan { strict := false, defaultProfiles := profiles } environment
    let strict := catalog.plan { strict := true, defaultProfiles := profiles } environment
    (Refused lenient → strict = lenient)
      ∧ (∀ plan, strict = .ok plan ↔ lenient = .ok plan ∧ plan.findings.warnings = [])
      ∧ ∀ found, strict = .error found →
        found.warnings = [] ∧ found.excluded = (findingsOf lenient).excluded
          ∧ Promotes (findingsOf lenient).errors (findingsOf lenient).warnings found.errors := by
  intro lenient strict
  rcases plan_cases catalog ⟨false, profiles⟩ environment with
    ⟨faults, -, hplan⟩ | ⟨-, activation, -, hplan⟩
  · have hlenient : lenient = .error (.ofCatalog faults) := hplan false
    have hstrict : strict = .error (.ofCatalog faults) := hplan true
    rw [hlenient, hstrict]
    refine ⟨fun _ => rfl, fun plan => ?_, ?_⟩
    · constructor
      · intro hok
        cases hok
      · rintro ⟨hok, -⟩
        cases hok
    · intro found hfound
      cases hfound
      exact ⟨rfl, rfl, .unchanged _⟩
  · have hlenient : lenient = activation.plan false := hplan false
    have hstrict : strict = activation.plan true := hplan true
    rw [hlenient, hstrict]
    refine ⟨?_, fun plan => activation.plan_strict_iff, ?_⟩
    -- A run that gets as far as the graph has no fault of the catalog.
    · rintro ⟨findings, fault, hfindings, hfault⟩
      have hsame := activation.findingsOf_plan false
      rw [hfindings] at hsame
      cases hsame
      exact absurd hfault Graph.not_configuration
    · intro found hfound
      have hsame := activation.findingsOf_plan true
      rw [hfound] at hsame
      cases hsame
      rw [activation.findingsOf_plan]
      exact ⟨rfl, rfl, activation.promotes_findings⟩

/-- An eager service that takes a lazy store. -/
def drowsy : Catalog where
  components :=
    [{ qualifiedName := "Service", displayName := "service", declarationIndex := 0
       sites := [.constructor [.direct "Store"]] },
     { qualifiedName := "Store", displayName := "store", declarationIndex := 1, lazy := true }]
  ascending := by decide

/-- Two components of one name. -/
def doubled : Catalog where
  components :=
    [{ qualifiedName := "Service", displayName := "service", declarationIndex := 0 },
     { qualifiedName := "Store", displayName := "service", declarationIndex := 1 }]
  ascending := by decide

theorem strict_mode_of_drowsy_and_doubled :
    (∃ found, drowsy.plan ⟨true, []⟩ {} = .error found ∧ found.errors =
      [.strict ⟨"service", .lazyForced,
        "eager singleton forces lazy 'store' to be constructed at startup"⟩])
      ∧ doubled.plan ⟨true, []⟩ {} = doubled.plan ⟨false, []⟩ {} := by
  constructor
  · have hplan : ∀ strict,
        drowsy.plan ⟨strict, []⟩ {} = Activation.plan ⟨drowsy.components, []⟩ strict :=
      fun strict => Catalog.plan_of_decided (by decide +kernel) rfl
    have hlenient : findingsOf (drowsy.plan ⟨false, []⟩ {}) =
        { warnings := [⟨"service", .lazyForced,
          "eager singleton forces lazy 'store' to be constructed at startup"⟩] } := by
      rw [hplan, Activation.findingsOf_plan]
      decide +kernel
    obtain ⟨-, hplans, hfailures⟩ := Catalog.strict_mode drowsy {} []
    cases hstrict : drowsy.plan ⟨true, []⟩ {} with
    | ok plan =>
        obtain ⟨hok, hnone⟩ := (hplans plan).mp hstrict
        rw [hok] at hlenient
        rw [show plan.findings = _ from hlenient] at hnone
        cases hnone
    | error found =>
        obtain ⟨-, -, promoted, hbecomes, herrors⟩ := hfailures found hstrict
        rw [hlenient] at hbecomes herrors
        obtain ⟨fault, rest, hhead, htail, rfl⟩ := List.forall₂_cons_left_iff.mp hbecomes
        cases htail
        cases hhead
        exact ⟨found, rfl, List.perm_singleton.mp herrors⟩
  · refine (Catalog.strict_mode doubled {} []).1 ?_
    exact ⟨_, .duplicateDisplayName "service", Catalog.plan_of_faults (by decide +kernel),
      by decide +kernel⟩

end Assembly
