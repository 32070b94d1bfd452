import Assembly.Proofs.Activation.Declared
import Assembly.Proofs.Planning.Run

/-!
# Facts that nothing mentions

A run asks the environment for the properties, flags and profiles that the conditions of its catalog
mention, and for nothing else. Environments that agree on these facts lead to the same plan or to the
same findings, so that neither of them gives away anything else about the environment.
-/

namespace Assembly

variable {first second : Environment}

/-- The environments agree on the facts that the condition mentions. -/
def Condition.Agrees (first second : Environment) : Condition → Prop
  | .property name _ _ => first.properties.get? name = second.properties.get? name
  | .flags names => ∀ name ∈ names, name ∈ first.flags ↔ name ∈ second.flags
  | .profile entries _ => ∀ entry ∈ entries, ∀ profile entryNegated,
      EntryReads entry profile entryNegated →
        (profile ∈ first.profiles ↔ profile ∈ second.profiles)
  | .missing _ _ => True
  | .present _ _ => True

/-- The environments agree on all facts that a condition of the catalog mentions. -/
def Catalog.Agree (catalog : Catalog) (first second : Environment) : Prop :=
  ∀ component ∈ catalog.components, ∀ condition ∈ component.conditions,
    condition.Agrees first second

theorem agrees_profile_iff {entries : List String} {negated : Bool} :
    (Condition.profile entries negated).Agrees first second
      ↔ ∀ entry ∈ entries,
        (profileEntry entry).1 ∈ first.profiles ↔ (profileEntry entry).1 ∈ second.profiles := by
  simp only [Condition.Agrees, ← profileEntry_eq_iff]
  constructor
  · intro hagree entry hentry
    exact hagree entry hentry _ _ rfl
  · intro hagree entry hentry profile entryNegated hreads
    have hprofile := hagree entry hentry
    rwa [hreads] at hprofile

instance {condition : Condition} : Decidable (condition.Agrees first second) :=
  match condition with
  | .property name _ _ =>
    inferInstanceAs (Decidable (first.properties.get? name = second.properties.get? name))
  | .flags names =>
    inferInstanceAs (Decidable (∀ name ∈ names, name ∈ first.flags ↔ name ∈ second.flags))
  | .profile _ _ => decidable_of_iff _ agrees_profile_iff.symm
  | .missing _ _ => inferInstanceAs (Decidable True)
  | .present _ _ => inferInstanceAs (Decidable True)

instance {catalog : Catalog} : Decidable (catalog.Agree first second) :=
  inferInstanceAs (Decidable (∀ component ∈ catalog.components, ∀ condition ∈ component.conditions,
    condition.Agrees first second))

/-! ### Decisions -/

theorem objection?_eq_of_agrees {condition : Condition}
    (hagrees : condition.Agrees first second) :
    first.objection? condition = second.objection? condition := by
  cases condition with
  | property name expected matchIfMissing =>
      have hproperty : first.properties.get? name = second.properties.get? name := hagrees
      simp only [Environment.objection?, hproperty]
  | flags names =>
      have hmissing : names.filter (· ∉ first.flags) = names.filter (· ∉ second.flags) := by
        apply List.filter_congr
        intro name hname
        have hflag : name ∈ first.flags ↔ name ∈ second.flags := hagrees name hname
        simp only [hflag]
      simp only [Environment.objection?, hmissing]
  -- Which components there are is not for the environment to say.
  | missing types names => rfl
  | present types names => rfl
  | profile entries negated =>
      have hmatches :
          first.matchesProfiles entries negated = second.matchesProfiles entries negated := by
        unfold Environment.matchesProfiles
        congr 1
        rw [Bool.eq_iff_iff, List.any_eq_true, List.any_eq_true]
        refine exists_congr fun entry => and_congr_right fun hentry => ?_
        have hprofile := agrees_profile_iff.mp hagrees entry hentry
        simp only [hprofile]
      simp only [Environment.objection?, hmatches]

namespace Catalog

variable {catalog : Catalog} (hagree : catalog.Agree first second)
include hagree

theorem objections_eq_of_agree {component : Component}
    (hcomponent : component ∈ catalog.components) :
    first.objections component = second.objections component := by
  apply List.filterMap_congr
  intro condition hcondition
  exact objection?_eq_of_agrees (hagree component hcomponent condition hcondition)

theorem tentative_eq_of_agree : catalog.tentative first = catalog.tentative second := by
  rw [← filter_admits, ← filter_admits]
  apply List.filter_congr
  intro component hcomponent
  unfold Environment.admits
  rw [objections_eq_of_agree hagree hcomponent]

theorem among_eq_of_agree (tentative : List Component) :
    Activation.among first tentative catalog.components
      = Activation.among second tentative catalog.components := by
  have hreasons : ∀ component ∈ catalog.components,
      Activation.reasons first tentative component
        = Activation.reasons second tentative component := by
    intro component hcomponent
    unfold Activation.reasons
    rw [objections_eq_of_agree hagree hcomponent]
  unfold Activation.among
  congr 1
  · apply List.filter_congr
    intro component hcomponent
    rw [hreasons component hcomponent]
  · apply List.filterMap_congr
    intro component hcomponent
    rw [hreasons component hcomponent]

theorem activate_eq_of_agree : catalog.activate first = catalog.activate second := by
  have htentative := tentative_eq_of_agree hagree
  rw [← filter_admits, ← filter_admits] at htentative
  unfold activate
  dsimp only
  rw [htentative, among_eq_of_agree hagree]

end Catalog

/-- Two environments that agree, once the default profiles are counted, on every fact that a condition
of the catalog mentions lead to the same plan or to the same findings. -/
theorem Catalog.plan_eq_of_agree {catalog : Catalog} {options : Options}
    (hagree : catalog.Agree (first.withDefaults options) (second.withDefaults options)) :
    catalog.plan options first = catalog.plan options second := by
  unfold plan
  rw [activate_eq_of_agree hagree]

/-- A default profile stands in for the one that `staging` names, and nothing is said of a password. -/
theorem gated_in_crowded_staging :
    let options : Options := { defaultProfiles := ["test"] }
    let crowded : Environment :=
      { properties := .ofList [("redis.url", "localhost"), ("redis.password", "secret")]
        flags := .ofList ["tracing"] }
    gated.Agree (staging.withDefaults options) (crowded.withDefaults options)
      ∧ crowded ≠ staging
      ∧ gated.plan options staging = gated.plan options crowded
      ∧ ∃ plan, gated.plan options crowded = .ok plan := by
  intro options crowded
  have hagree : gated.Agree (staging.withDefaults options) (crowded.withDefaults options) := by
    decide +kernel
  refine ⟨hagree, by decide +kernel, Catalog.plan_eq_of_agree hagree, ?_⟩
  exact Catalog.exists_plan_iff.mpr ⟨by decide +kernel, _, rfl, by decide +kernel⟩

end Assembly
