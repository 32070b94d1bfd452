import Mathlib.Data.List.Forall2
import Assembly.Proofs.Activation.Meaning

/-!
# What a decision reports

A component takes part if all its conditions hold, those on other components among the components
that suit the environment. The other components are left out, each with the conditions that fail:
those on the environment if there are any, and otherwise the targets that are there but must not be,
or are not there but have to be.
-/

namespace Assembly

/-- An entry of a profile condition names a profile, and a mark in front of it makes it negated. -/
inductive EntryReads (entry : String) : String → Bool → Prop where
  | plain (hmark : ∀ name, Text.trim entry ≠ "!" ++ name) :
    EntryReads entry (Text.trim entry) false
  | negated {name : String} (hmark : Text.trim entry = "!" ++ name) :
    EntryReads entry (Text.trim name) true

/-- The profile of the entry is active, unless the entry or the condition is negated. -/
def Environment.Grants (environment : Environment) (negated : Bool) (entry : String) : Prop :=
  ∃ profile entryNegated, EntryReads entry profile entryNegated
    ∧ (decide (profile ∈ environment.profiles) ^^ (entryNegated ^^ negated)) = true

/-- All conditions on the environment hold. -/
structure Component.Suits (component : Component) (environment : Environment) : Prop where
  properties : ∀ name expected matchIfMissing,
    .property name expected matchIfMissing ∈ component.conditions →
      (environment.properties.get? name = none → matchIfMissing = true)
        ∧ ∀ actual, environment.properties.get? name = some actual →
          expected = none ∨ expected = some actual
  flags : ∀ names, .flags names ∈ component.conditions → ∀ name ∈ names, name ∈ environment.flags
  profiles : ∀ entries negated, .profile entries negated ∈ component.conditions →
    entries = [] ∨ ∃ entry ∈ entries, environment.Grants negated entry

/-- One of the components other than the given one meets the target. -/
def Target.IsMetByOther (target : Target) (component : Component) (tentative : List Component) :
    Prop :=
  ∃ other ∈ tentative, other ≠ component ∧ target.isMetBy other = true

/-- All conditions hold, those on other components among the tentative ones. -/
structure Component.TakesPart (component : Component) (environment : Environment)
    (tentative : List Component) : Prop extends component.Suits environment where
  missing : ∀ types names, .missing types names ∈ component.conditions →
    ∀ target ∈ Target.all types names, ¬target.IsMetByOther component tentative
  present : ∀ types names, .present types names ∈ component.conditions →
    ∀ target ∈ Target.all types names, target.IsMetByOther component tentative

/-- The condition fails in the environment, and this is how it is reported. -/
inductive Condition.FailsIn (environment : Environment) : Condition → ExclusionReason → Prop where
  | unset {name : String} {expected : Option String}
    (hunset : environment.properties.get? name = none) :
    FailsIn environment (.property name expected false) (.propertyMissing name)
  | differs {name expected actual : String} {matchIfMissing : Bool}
    (hactual : environment.properties.get? name = some actual) (hdiffers : actual ≠ expected) :
    FailsIn environment (.property name (some expected) matchIfMissing)
      (.propertyMismatch name expected actual)
  | flags {names : List String} (habsent : ∃ name ∈ names, name ∉ environment.flags) :
    FailsIn environment (.flags names) (.flagsMissing (names.filter (· ∉ environment.flags)))
  | profile {entries : List String} {negated : Bool} (hentries : entries ≠ [])
    (hdenied : ∀ entry ∈ entries, ¬environment.Grants negated entry) :
    FailsIn environment (.profile entries negated) (.profileMismatch entries negated)

/-- What a condition demands of a single target. -/
inductive Demand where
  | missing (target : Target)
  | present (target : Target)

def Condition.demands : Condition → List Demand
  | .missing types names => (Target.all types names).map .missing
  | .present types names => (Target.all types names).map .present
  | _ => []

/-- The demand of a component fails among the tentative components, and this is how it is reported.
A target that must be missing is reported with the first component that meets it. -/
inductive Demand.FailsFor (component : Component) (tentative : List Component) :
    Demand → ExclusionReason → Prop where
  | present {target : Target} {provider : Component} {before after : List Component}
    (htentative : tentative = before ++ provider :: after) (hother : provider ≠ component)
    (hmet : target.isMetBy provider = true) (hfirst : ¬target.IsMetByOther component before) :
    FailsFor component tentative (.missing target)
      (.targetPresent target.text provider.displayName)
  | missing {target : Target} (hmissing : ¬target.IsMetByOther component tentative) :
    FailsFor component tentative (.present target) (.targetMissing target.text)

open Classical in
/-- The reasons are those of the conditions that fail in the environment, in their order. If none of
them does, they are those of the demands that fail among the tentative components. -/
def Component.IsLeftOutFor (component : Component) (environment : Environment)
    (tentative : List Component) (reasons : List ExclusionReason) : Prop :=
  if component.Suits environment then
    List.Forall₂ (Demand.FailsFor component tentative)
      ((component.conditions.flatMap Condition.demands).filter
        fun demand => ∃ reason, demand.FailsFor component tentative reason)
      reasons
  else
    List.Forall₂ (Condition.FailsIn environment)
      (component.conditions.filter fun condition => ∃ reason, condition.FailsIn environment reason)
      reasons

/-- A list in which every failing member is replaced by its report. -/
theorem forall₂_filterMap {α β : Type} {report : α → Option β} {fails : α → Prop}
    [DecidablePred fails] {relation : α → β → Prop} {list : List α}
    (hfails : ∀ member ∈ list, fails member ↔ (report member).isSome)
    (hreport : ∀ member ∈ list, ∀ reported, report member = some reported →
      relation member reported) :
    List.Forall₂ relation (list.filter fails) (list.filterMap report) := by
  induction list with
  | nil => exact .nil
  | cons first rest ih =>
      have hrest := ih (fun member hmember => hfails member (List.mem_cons_of_mem _ hmember))
        (fun member hmember => hreport member (List.mem_cons_of_mem _ hmember))
      have hfirst := hfails first List.mem_cons_self
      cases hreported : report first with
      | none =>
          rw [hreported] at hfirst
          rw [List.filterMap_cons_none hreported, List.filter_cons_of_neg (by simpa using hfirst)]
          exact hrest
      | some reported =>
          rw [hreported] at hfirst
          rw [List.filterMap_cons_some hreported, List.filter_cons_of_pos (by simpa using hfirst)]
          exact .cons (hreport first List.mem_cons_self reported hreported) hrest

/-! ### Entries of profile conditions -/

theorem profileEntry_eq_iff {entry profile : String} {negated : Bool} :
    profileEntry entry = (profile, negated) ↔ EntryReads entry profile negated := by
  have htrim : ∀ name, Text.trim entry = "!" ++ name
      ↔ Text.trimChars entry.toList = '!' :: name.toList := by
    intro name
    rw [← String.toList_inj, Text.trim, String.toList_ofList, String.toList_append]
    rfl
  unfold profileEntry
  split
  · next name hchars =>
    have hmark : Text.trim entry = "!" ++ String.ofList name := by
      rw [htrim, hchars, String.toList_ofList]
    have hname : Text.trim (String.ofList name) = String.ofList (Text.trimChars name) := by
      rw [Text.trim, String.toList_ofList]
    constructor
    · intro heq
      cases heq
      exact hname ▸ .negated hmark
    · intro hreads
      cases hreads with
      | plain hplain => exact absurd hmark (hplain _)
      | @negated other hother =>
          have hchars' := (htrim other).mp hother
          rw [hchars] at hchars'
          rw [(List.cons.inj hchars').2]
          rfl
  · next hchars =>
    have hplain : ∀ name, Text.trim entry ≠ "!" ++ name := by
      intro name hmark
      exact hchars _ ((htrim name).mp hmark)
    constructor
    · intro heq
      cases heq
      exact .plain hplain
    · intro hreads
      cases hreads with
      | plain => rfl
      | negated hmark => exact absurd hmark (hplain _)

theorem matches_iff_grants {environment : Environment} {negated : Bool} {entry : String} :
    environment.Matches negated entry ↔ environment.Grants negated entry := by
  have hreads : EntryReads entry (profileEntry entry).1 (profileEntry entry).2 :=
    profileEntry_eq_iff.mp rfl
  have hxor : (decide ((profileEntry entry).1 ∈ environment.profiles)
      ^^ ((profileEntry entry).2 ^^ negated)) = true ↔ environment.Matches negated entry := by
    unfold Environment.Matches
    cases (profileEntry entry).2 <;> cases negated <;> simp
  rw [← hxor]
  constructor
  · intro hmatches
    exact ⟨_, _, hreads, hmatches⟩
  · rintro ⟨profile, entryNegated, hentry, hgrants⟩
    rw [profileEntry_eq_iff.mpr hentry]
    exact hgrants

/-! ### Conditions on the environment -/

section Environment

variable {environment : Environment} {component : Component}

theorem suits_iff :
    component.Suits environment
      ↔ ∀ condition ∈ component.conditions, condition.HoldsIn environment := by
  constructor
  · intro hsuits condition hcondition
    cases condition with
    | property name expected matchIfMissing =>
        obtain ⟨hunset, hset⟩ := hsuits.properties name expected matchIfMissing hcondition
        simp only [Condition.HoldsIn]
        cases hactual : environment.properties.get? name with
        | none => exact hunset hactual
        | some actual =>
            intro value hvalue
            have hexpected := hset actual hactual
            simpa [hvalue, eq_comm] using hexpected
    | flags names => exact hsuits.flags names hcondition
    | profile entries negated =>
        simpa only [Condition.HoldsIn, matches_iff_grants] using
          hsuits.profiles entries negated hcondition
    | missing types names => trivial
    | present types names => trivial
  · intro hholds
    refine { properties := ?_, flags := ?_, profiles := ?_ }
    · intro name expected matchIfMissing hcondition
      have hproperty := hholds _ hcondition
      simp only [Condition.HoldsIn] at hproperty
      constructor
      · intro hunset
        rwa [hunset] at hproperty
      · intro actual hactual
        rw [hactual] at hproperty
        cases expected with
        | none => exact .inl rfl
        | some value => exact .inr (congrArg some (hproperty value rfl).symm)
    · intro names hcondition
      exact hholds _ hcondition
    · intro entries negated hcondition
      have hprofile := hholds _ hcondition
      simpa only [Condition.HoldsIn, matches_iff_grants] using hprofile

theorem failsIn_of_objection? {condition : Condition} {reason : ExclusionReason}
    (hobjection : environment.objection? condition = some reason) :
    condition.FailsIn environment reason := by
  have hfails : ¬condition.HoldsIn environment := by
    rw [← objection?_eq_none_iff, hobjection]
    simp
  cases condition with
  | property name expected matchIfMissing =>
      simp only [Environment.objection?] at hobjection
      cases hactual : environment.properties.get? name with
      | none =>
          rw [hactual] at hobjection
          cases matchIfMissing with
          | true => cases hobjection
          | false =>
              cases hobjection
              exact .unset hactual
      | some actual =>
          rw [hactual] at hobjection
          cases expected with
          | none => cases hobjection
          | some value =>
              simp only [ite_eq_iff, reduceCtorEq, and_false, false_or] at hobjection
              obtain ⟨hdiffers, hreason⟩ := hobjection
              cases hreason
              exact .differs hactual hdiffers
  | flags names =>
      have habsent : ∃ name ∈ names, name ∉ environment.flags := by
        simpa [Condition.HoldsIn] using hfails
      have hreason : some reason
          = some (.flagsMissing (names.filter (· ∉ environment.flags))) := by
        rw [← hobjection, Environment.objection?]
        split
        · next hnone =>
          obtain ⟨name, hname, hflag⟩ := habsent
          simpa [hflag] using List.filter_eq_nil_iff.mp hnone name hname
        · rfl
      cases hreason
      exact .flags habsent
  | missing types names => cases hobjection
  | present types names => cases hobjection
  | profile entries negated =>
      simp only [Condition.HoldsIn, matches_iff_grants, not_or, not_exists, not_and] at hfails
      have hreason : some reason = some (.profileMismatch entries negated) := by
        rw [← hobjection, Environment.objection?, if_neg]
        simpa only [matchesProfiles_iff, matches_iff_grants, not_or, not_exists, not_and]
          using hfails
      cases hreason
      exact .profile hfails.1 hfails.2

theorem exists_failsIn_iff {condition : Condition} :
    (∃ reason, condition.FailsIn environment reason)
      ↔ (environment.objection? condition).isSome := by
  constructor
  · rintro ⟨reason, hfails⟩
    rw [Option.isSome_iff_ne_none, Ne, objection?_eq_none_iff]
    cases hfails with
    | unset hunset => simp [Condition.HoldsIn, hunset]
    | differs hactual hdiffers => simpa [Condition.HoldsIn, hactual] using hdiffers
    | flags habsent => simpa [Condition.HoldsIn] using habsent
    | profile hentries hdenied =>
        simpa [Condition.HoldsIn, matches_iff_grants, hentries] using hdenied
  · intro hsome
    obtain ⟨reason, hobjection⟩ := Option.isSome_iff_exists.mp hsome
    exact ⟨reason, failsIn_of_objection? hobjection⟩

end Environment

/-! ### Conditions on other components -/

section Tentative

variable {component : Component} {tentative : List Component}
  (hnames : ∀ other ∈ tentative, other.displayName = component.displayName → other = component)
include hnames

theorem displayName_ne_iff {other : Component} (hother : other ∈ tentative) :
    other.displayName ≠ component.displayName ↔ other ≠ component := by
  constructor
  · rintro hname rfl
    exact hname rfl
  · intro hne hname
    exact hne (hnames other hother hname)

theorem isMetByOther_iff {target : Target} :
    target.IsMetByOther component tentative
      ↔ target.IsMetBeside component.displayName tentative := by
  constructor
  · rintro ⟨other, hother, hne, hmet⟩
    exact ⟨other, hother, (displayName_ne_iff hnames hother).mpr hne, hmet⟩
  · rintro ⟨other, hother, hname, hmet⟩
    exact ⟨other, hother, (displayName_ne_iff hnames hother).mp hname, hmet⟩

theorem takesPart_iff {environment : Environment} :
    component.TakesPart environment tentative
      ↔ component.Suits environment ∧ ∀ condition ∈ component.conditions,
        condition.HoldsBeside component.displayName tentative := by
  constructor
  · intro htakes
    refine ⟨htakes.toSuits, ?_⟩
    intro condition hcondition
    cases condition with
    | missing types names =>
        intro target htarget
        rw [← isMetByOther_iff hnames]
        exact htakes.missing types names hcondition target htarget
    | present types names =>
        intro target htarget
        rw [← isMetByOther_iff hnames]
        exact htakes.present types names hcondition target htarget
    | property name expected matchIfMissing => trivial
    | flags names => trivial
    | profile entries negated => trivial
  · rintro ⟨hsuits, hholds⟩
    refine { toSuits := hsuits, missing := ?_, present := ?_ }
    · intro types names hcondition target htarget
      rw [isMetByOther_iff hnames]
      exact hholds _ hcondition target htarget
    · intro types names hcondition target htarget
      rw [isMetByOther_iff hnames]
      exact hholds _ hcondition target htarget

/-- The search for another component finds the first one. -/
theorem exists_first_of_otherMeeting? {target : Target} {provider : Component}
    (hmeeting : component.otherMeeting? tentative target = some provider) :
    ∃ before after, tentative = before ++ provider :: after ∧ provider ≠ component
      ∧ target.isMetBy provider = true ∧ ¬target.IsMetByOther component before := by
  obtain ⟨hprovider, before, after, hsplit, hbefore⟩ := List.find?_eq_some_iff_append.mp hmeeting
  rw [Bool.and_eq_true, decide_eq_true_eq] at hprovider
  have hmem : provider ∈ tentative := hsplit ▸ List.mem_append_right before List.mem_cons_self
  have hother := (displayName_ne_iff hnames hmem).mp hprovider.1
  refine ⟨before, after, hsplit, hother, hprovider.2, ?_⟩
  rintro ⟨other, hother, hne, hmet⟩
  have hmem : other ∈ tentative := hsplit ▸ List.mem_append_left _ hother
  have hname := (displayName_ne_iff hnames hmem).mpr hne
  simpa [hname, hmet] using hbefore other hother

end Tentative

/-- How a demand of a component is reported, if it fails. -/
def Demand.report? (component : Component) (tentative : List Component) :
    Demand → Option ExclusionReason
  | .missing target => (component.otherMeeting? tentative target).map fun provider =>
      .targetPresent target.text provider.displayName
  | .present target =>
    if (component.otherMeeting? tentative target).isNone then some (.targetMissing target.text)
    else none

theorem clashes_eq_filterMap {component : Component} {tentative : List Component}
    {condition : Condition} :
    component.clashes tentative condition
      = condition.demands.filterMap (Demand.report? component tentative) := by
  cases condition with
  | missing types names =>
      rw [Condition.demands, List.filterMap_map]
      rfl
  | present types names =>
      rw [Condition.demands, List.filterMap_map]
      simp only [Component.clashes]
      rw [← List.filterMap_eq_filter, List.map_filterMap]
      refine List.filterMap_congr fun target _ => ?_
      rw [Option.guard, apply_ite (Option.map _)]
      rfl
  | property name expected matchIfMissing => rfl
  | flags names => rfl
  | profile entries negated => rfl

section Tentative

variable {component : Component} {tentative : List Component}
  (hnames : ∀ other ∈ tentative, other.displayName = component.displayName → other = component)
include hnames

theorem failsFor_of_report? {demand : Demand} {reason : ExclusionReason}
    (hreport : demand.report? component tentative = some reason) :
    demand.FailsFor component tentative reason := by
  cases demand with
  | missing target =>
      obtain ⟨provider, hmeeting, rfl⟩ := Option.map_eq_some_iff.mp hreport
      obtain ⟨before, after, hsplit, hother, hmet, hfirst⟩ :=
        exists_first_of_otherMeeting? hnames hmeeting
      exact .present hsplit hother hmet hfirst
  | present target =>
      simp only [Demand.report?, Option.ite_none_right_eq_some, Option.some_inj] at hreport
      obtain ⟨hnone, rfl⟩ := hreport
      refine .missing ?_
      rw [isMetByOther_iff hnames, ← isSome_otherMeeting?_iff]
      simpa using hnone

theorem exists_failsFor_iff {demand : Demand} :
    (∃ reason, demand.FailsFor component tentative reason)
      ↔ (demand.report? component tentative).isSome := by
  constructor
  · rintro ⟨reason, hfails⟩
    cases hfails with
    | @present target provider before after hsplit hother hmet hfirst =>
        have hmeets : target.IsMetByOther component tentative :=
          ⟨provider, hsplit ▸ List.mem_append_right before List.mem_cons_self, hother, hmet⟩
        rw [isMetByOther_iff hnames, ← isSome_otherMeeting?_iff] at hmeets
        simpa [Demand.report?] using hmeets
    | missing hmissing =>
        rw [isMetByOther_iff hnames, ← isSome_otherMeeting?_iff] at hmissing
        simpa [Demand.report?] using hmissing
  · intro hsome
    obtain ⟨reason, hreport⟩ := Option.isSome_iff_exists.mp hsome
    exact ⟨reason, failsFor_of_report? hnames hreport⟩

/-- The reasons that are found are the reasons that there are. -/
theorem isLeftOutFor_reasons {environment : Environment} :
    component.IsLeftOutFor environment tentative
      (Activation.reasons environment tentative component) := by
  classical
  have hobjections : environment.objections component = [] ↔ component.Suits environment := by
    rw [objections_eq_nil_iff, suits_iff]
  unfold Component.IsLeftOutFor
  split
  · next hsuits =>
    have hreasons : Activation.reasons environment tentative component
        = (component.conditions.flatMap Condition.demands).filterMap
          (Demand.report? component tentative) := by
      rw [Activation.reasons, hobjections.mpr hsuits, List.filterMap_flatMap]
      exact congrArg component.conditions.flatMap (funext fun _ => clashes_eq_filterMap)
    rw [hreasons]
    refine forall₂_filterMap ?_ ?_
    · intro demand _
      exact exists_failsFor_iff hnames
    · intro demand _ reason hreport
      exact failsFor_of_report? hnames hreport
  · next hsuits =>
    have hreasons : Activation.reasons environment tentative component
        = component.conditions.filterMap environment.objection? := by
      unfold Activation.reasons
      split
      · next hnone => exact absurd (hobjections.mp hnone) hsuits
      · rfl
    rw [hreasons]
    refine forall₂_filterMap ?_ ?_
    · intro condition _
      exact exists_failsIn_iff
    · intro condition _ reason hobjection
      exact failsIn_of_objection? hobjection

end Tentative

namespace Catalog

variable {catalog : Catalog} {environment : Environment}

open Classical in
theorem filter_suits :
    catalog.components.filter (·.Suits environment) = catalog.tentative environment := by
  refine List.filter_congr fun component _ => ?_
  rw [decide_eq_decide]
  exact suits_iff

theorem eq_of_displayName (hnames : (catalog.components.map (·.displayName)).Nodup)
    {component : Component} (hcomponent : component ∈ catalog.components) :
    ∀ other ∈ catalog.tentative environment, other.displayName = component.displayName →
      other = component := by
  intro other hother hname
  exact List.inj_on_of_nodup_map hnames (tentative_sublist.subset hother) hcomponent hname

open Classical in
/-- Where a decision is made among components of different names, those take part whose conditions
hold, and each of the others is left out for what fails. -/
theorem decision_declared {activation : Activation}
    (hnames : (catalog.components.map (·.displayName)).Nodup)
    (hactivate : catalog.activate environment = .ok activation) :
    let tentative := catalog.components.filter (·.Suits environment)
    activation.enabled = catalog.components.filter (·.TakesPart environment tentative)
      ∧ List.Forall₂ (fun component exclusion => exclusion.component = component.displayName
          ∧ exclusion.reasons ≠ []
          ∧ component.IsLeftOutFor environment tentative exclusion.reasons)
        (catalog.components.filter fun component => ¬component.TakesPart environment tentative)
        activation.excluded := by
  intro tentative
  have htentative : tentative = catalog.tentative environment := filter_suits
  have htakes : ∀ component ∈ catalog.components, component.TakesPart environment tentative
      ↔ Activation.reasons environment tentative component = [] := by
    intro component hcomponent
    rw [htentative, takesPart_iff (eq_of_displayName hnames hcomponent), suits_iff,
      reasons_eq_nil_iff]
  rw [(activate_eq_ok_iff.mp hactivate).2, ← htentative]
  constructor
  · refine List.filter_congr fun component hcomponent => ?_
    rw [Bool.eq_iff_iff, List.isEmpty_iff, decide_eq_true_eq, htakes component hcomponent]
  · refine forall₂_filterMap ?_ ?_
    · intro component hcomponent
      rw [htakes component hcomponent]
      cases Activation.reasons environment tentative component <;> simp
    · intro component hcomponent exclusion hexclusion
      have hreasons := @isLeftOutFor_reasons component tentative
        (htentative ▸ eq_of_displayName hnames hcomponent) environment
      generalize Activation.reasons environment tentative component = reasons
        at hexclusion hreasons
      cases reasons with
      | nil => cases hexclusion
      | cons reason rest =>
          cases hexclusion
          exact ⟨rfl, List.cons_ne_nil reason rest, hreasons⟩

end Catalog

/-- A cache that stands in for another one, metrics that are not for tests, and a monitor. -/
def gated : Catalog where
  components :=
    [{ qualifiedName := "Fallback", displayName := "fallback", declarationIndex := 0
       interfaces := .ofList ["Cache"], conditions := [.missing ["Cache"] []] },
     { qualifiedName := "Redis", displayName := "redis", declarationIndex := 1
       interfaces := .ofList ["Cache"], conditions := [.property "redis.url" none false] },
     { qualifiedName := "Metrics", displayName := "metrics", declarationIndex := 2
       conditions := [.profile ["! test"] false, .flags ["metrics"], .present ["Cache"] []] },
     { qualifiedName := "Monitor", displayName := "monitor", declarationIndex := 3
       conditions := [.present [] ["redis"]] }]
  ascending := by decide

def staging : Environment where
  profiles := .ofList ["test"]
  properties := .ofList [("redis.url", "localhost")]

theorem gated_in_staging :
    gated.activate staging = .ok
        ⟨[gated.components[1], gated.components[3]],
          [⟨"fallback", [.targetPresent "Cache" "redis"]⟩,
            ⟨"metrics", [.profileMismatch ["! test"] false, .flagsMissing ["metrics"]]⟩]⟩
      ∧ gated.components[3].TakesPart staging (gated.tentative staging)
      ∧ gated.components[0].IsLeftOutFor staging (gated.tentative staging)
        [.targetPresent "Cache" "redis"]
      ∧ gated.components[2].IsLeftOutFor staging (gated.tentative staging)
        [.profileMismatch ["! test"] false, .flagsMissing ["metrics"]] := by
  classical
  have hnames : (gated.components.map (·.displayName)).Nodup := by decide
  have hactivate : gated.activate staging = .ok
      ⟨[gated.components[1], gated.components[3]],
        [⟨"fallback", [.targetPresent "Cache" "redis"]⟩,
          ⟨"metrics", [.profileMismatch ["! test"] false, .flagsMissing ["metrics"]]⟩]⟩ := by
    decide +kernel
  obtain ⟨henabled, hexcluded⟩ := Catalog.decision_declared hnames hactivate
  rw [Catalog.filter_suits] at henabled hexcluded
  obtain ⟨first, others, hfallback, hrest, hsplit⟩ := List.forall₂_cons_right_iff.mp hexcluded
  obtain ⟨second, none, hmetrics, -, rfl⟩ := List.forall₂_cons_right_iff.mp hrest
  have hfirst : first ∈ gated.components :=
    List.mem_of_mem_filter (hsplit ▸ List.mem_cons_self)
  have hsecond : second ∈ gated.components :=
    List.mem_of_mem_filter (hsplit ▸ List.mem_cons_of_mem _ List.mem_cons_self)
  -- Both are known by their names.
  have hfirstIs : first = gated.components[0] :=
    List.inj_on_of_nodup_map hnames hfirst (by decide) hfallback.1.symm
  have hsecondIs : second = gated.components[2] :=
    List.inj_on_of_nodup_map hnames hsecond (by decide) hmetrics.1.symm
  have hmonitor : gated.components[3] ∈ [gated.components[1], gated.components[3]] := by decide
  rw [show [gated.components[1], gated.components[3]] = _ from henabled] at hmonitor
  refine ⟨hactivate, ?_, hfirstIs ▸ hfallback.2.2, hsecondIs ▸ hmetrics.2.2⟩
  simpa using (List.mem_filter.mp hmonitor).2

end Assembly
