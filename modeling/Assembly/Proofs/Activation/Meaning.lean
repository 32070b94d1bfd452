import Mathlib.Data.List.Nodup
import Mathlib.Data.List.Pairwise
import Assembly.Activation
import Assembly.Proofs.Catalog.Distinct

/-!
# What the conditions mean

Each condition is read as a proposition, about the environment or about the components beside which
it is decided. The lists of tentative and of enabled components are then the components of the
catalog whose conditions hold, and a decision finds exactly these, unless two components yield to
each other.
-/

namespace Assembly

/-- An entry holds if its profile is active, unless the entry or the condition is negated. -/
def Environment.Matches (environment : Environment) (negated : Bool) (entry : String) : Prop :=
  (profileEntry entry).1 ∈ environment.profiles ↔ (profileEntry entry).2 = negated

namespace Condition

/-- The environment has nothing against the condition. -/
def HoldsIn (environment : Environment) : Condition → Prop
  | .property name expected matchIfMissing =>
    match environment.properties.get? name with
    | none => matchIfMissing = true
    | some actual => ∀ value, expected = some value → actual = value
  | .flags names => ∀ name ∈ names, name ∈ environment.flags
  | .profile entries negated => entries = [] ∨ ∃ entry ∈ entries, environment.Matches negated entry
  | .missing _ _ => True
  | .present _ _ => True

end Condition

/-- One of the components meets the target and does not have the given name. -/
def Target.IsMetBeside (target : Target) (name : String) (components : List Component) : Prop :=
  ∃ other ∈ components, other.displayName ≠ name ∧ target.isMetBy other = true

/-- The tentative components have nothing against the condition of a component with the given name.
-/
def Condition.HoldsBeside (name : String) (tentative : List Component) : Condition → Prop
  | .missing types names => ∀ target ∈ Target.all types names, ¬target.IsMetBeside name tentative
  | .present types names => ∀ target ∈ Target.all types names, target.IsMetBeside name tentative
  | _ => True

/-- The component would be missing beside the other one. -/
def Component.YieldsTo (component other : Component) : Prop :=
  ∃ types names, .missing types names ∈ component.conditions
    ∧ ((∃ type ∈ types, other.provides type = true) ∨ other.displayName ∈ names)

/-- Each of the two components yields to the other one. -/
def Component.Rivals (first second : Component) : Prop :=
  first.YieldsTo second ∧ second.YieldsTo first

/-! ### Conditions on the environment -/

section Environment

variable {environment : Environment}

theorem matchesProfiles_iff {entries : List String} {negated : Bool} :
    environment.matchesProfiles entries negated = true
      ↔ entries = [] ∨ ∃ entry ∈ entries, environment.Matches negated entry := by
  have hentry : ∀ entry, (decide ((profileEntry entry).1 ∈ environment.profiles)
      != ((profileEntry entry).2 != negated)) = true ↔ environment.Matches negated entry := by
    intro entry
    unfold Environment.Matches
    cases (profileEntry entry).2 <;> cases negated <;> simp
  unfold Environment.matchesProfiles
  rw [Bool.or_eq_true, List.isEmpty_iff, List.any_eq_true]
  simp only [hentry]

theorem objection?_eq_none_iff {condition : Condition} :
    environment.objection? condition = none ↔ condition.HoldsIn environment := by
  cases condition with
  | property name expected matchIfMissing =>
      simp only [Environment.objection?, Condition.HoldsIn]
      cases environment.properties.get? name with
      | none => simp
      | some actual => cases expected <;> simp
  | flags names =>
      simp only [Environment.objection?, Condition.HoldsIn]
      cases hmissing : names.filter (· ∉ environment.flags) with
      | nil => simpa using hmissing
      | cons name rest =>
          have hname := List.mem_filter.mp (hmissing ▸ List.mem_cons_self)
          refine iff_of_false (by simp) fun hall => ?_
          exact of_decide_eq_true hname.2 (hall name hname.1)
  | missing types names => simp [Environment.objection?, Condition.HoldsIn]
  | present types names => simp [Environment.objection?, Condition.HoldsIn]
  | profile entries negated =>
      simp [Environment.objection?, Condition.HoldsIn, ← matchesProfiles_iff]

instance {condition : Condition} : Decidable (condition.HoldsIn environment) :=
  decidable_of_iff _ objection?_eq_none_iff

theorem objections_eq_nil_iff {component : Component} :
    environment.objections component = []
      ↔ ∀ condition ∈ component.conditions, condition.HoldsIn environment := by
  simp only [Environment.objections, List.filterMap_eq_nil_iff, objection?_eq_none_iff]

end Environment

/-! ### Conditions on other components -/

section Beside

variable {component : Component} {tentative : List Component}

theorem isSome_otherMeeting?_iff {target : Target} :
    (component.otherMeeting? tentative target).isSome
      ↔ target.IsMetBeside component.displayName tentative := by
  simp [Component.otherMeeting?, Target.IsMetBeside]

theorem clashes_eq_nil_iff {condition : Condition} :
    component.clashes tentative condition = []
      ↔ condition.HoldsBeside component.displayName tentative := by
  cases condition with
  | missing types names =>
      simp only [Component.clashes, Condition.HoldsBeside, List.filterMap_eq_nil_iff,
        Option.map_eq_none_iff, ← isSome_otherMeeting?_iff, Option.not_isSome_iff_eq_none]
  | present types names =>
      simp [Component.clashes, Condition.HoldsBeside, List.filter_eq_nil_iff,
        ← isSome_otherMeeting?_iff, Option.isSome_iff_ne_none]
  | property name expected matchIfMissing => simp [Component.clashes, Condition.HoldsBeside]
  | flags names => simp [Component.clashes, Condition.HoldsBeside]
  | profile entries negated => simp [Component.clashes, Condition.HoldsBeside]

instance {condition : Condition} :
    Decidable (condition.HoldsBeside component.displayName tentative) :=
  decidable_of_iff _ clashes_eq_nil_iff

theorem any_all_isMetBy_iff {types names : List String} {other : Component} :
    (Target.all types names).any (·.isMetBy other) = true
      ↔ (∃ type ∈ types, other.provides type = true) ∨ other.displayName ∈ names := by
  simp [Target.all, Target.isMetBy]

theorem yieldsTo_iff {other : Component} :
    component.yieldsTo other = true ↔ component.YieldsTo other := by
  unfold Component.yieldsTo Component.YieldsTo
  rw [List.any_eq_true]
  constructor
  · rintro ⟨condition, hcondition, hmet⟩
    cases condition with
    | missing types names => exact ⟨types, names, hcondition, any_all_isMetBy_iff.mp hmet⟩
    | _ => cases hmet
  · rintro ⟨types, names, hcondition, hmet⟩
    exact ⟨_, hcondition, any_all_isMetBy_iff.mpr hmet⟩

end Beside

/-! ### The components that take part -/

theorem mutualAbsences_eq_nil_iff {components : List Component} :
    mutualAbsences components = []
      ↔ components.Pairwise fun first second => ¬first.Rivals second := by
  induction components with
  | nil => simp [mutualAbsences]
  | cons first rest ih =>
      simp only [mutualAbsences, List.append_eq_nil_iff, List.map_eq_nil_iff,
        List.filter_eq_nil_iff, ih, List.pairwise_cons, Bool.and_eq_true, yieldsTo_iff,
        Component.Rivals]

namespace Catalog

variable {catalog : Catalog} {environment : Environment}

/-- The components that no condition on the environment excludes. -/
def tentative (catalog : Catalog) (environment : Environment) : List Component :=
  catalog.components.filter fun component =>
    ∀ condition ∈ component.conditions, condition.HoldsIn environment

/-- The components all of whose conditions hold, those on other components beside the tentative
components. -/
def enabled (catalog : Catalog) (environment : Environment) : List Component :=
  (catalog.tentative environment).filter fun component =>
    ∀ condition ∈ component.conditions,
      condition.HoldsBeside component.displayName (catalog.tentative environment)

theorem tentative_sublist : (catalog.tentative environment).Sublist catalog.components :=
  List.filter_sublist

theorem enabled_sublist : (catalog.enabled environment).Sublist catalog.components :=
  List.filter_sublist.trans tentative_sublist

theorem pairwise_enabled :
    (catalog.enabled environment).Pairwise (·.declarationIndex ≤ ·.declarationIndex) :=
  List.Pairwise.sublist enabled_sublist catalog.ascending

theorem distinct_enabled (hfaults : catalog.faults = []) : Distinct (catalog.enabled environment) :=
  (distinct_of_faults_eq_nil hfaults).sublist enabled_sublist

theorem filter_admits :
    catalog.components.filter environment.admits = catalog.tentative environment := by
  refine List.filter_congr fun component _ => ?_
  rw [Bool.eq_iff_iff, decide_eq_true_eq, ← objections_eq_nil_iff, Environment.admits,
    List.isEmpty_iff]

theorem reasons_eq_nil_iff {tentative : List Component} {component : Component} :
    Activation.reasons environment tentative component = []
      ↔ (∀ condition ∈ component.conditions, condition.HoldsIn environment)
        ∧ ∀ condition ∈ component.conditions,
          condition.HoldsBeside component.displayName tentative := by
  rw [← objections_eq_nil_iff]
  unfold Activation.reasons
  cases environment.objections component with
  | nil => simp only [List.flatMap_eq_nil_iff, clashes_eq_nil_iff, true_and]
  | cons reason rest => simp

theorem enabled_among :
    (Activation.among environment (catalog.tentative environment) catalog.components).enabled
      = catalog.enabled environment := by
  unfold Activation.among enabled
  conv_rhs => arg 2; unfold tentative
  rw [List.filter_filter]
  refine List.filter_congr fun component _ => ?_
  rw [Bool.eq_iff_iff, List.isEmpty_iff, reasons_eq_nil_iff, Bool.and_eq_true, decide_eq_true_eq,
    decide_eq_true_eq, and_comm]

theorem activate_eq_ok_iff {activation : Activation} :
    catalog.activate environment = .ok activation
      ↔ mutualAbsences (catalog.tentative environment) = []
        ∧ activation = .among environment (catalog.tentative environment) catalog.components := by
  unfold activate
  rw [filter_admits]
  dsimp only
  cases mutualAbsences (catalog.tentative environment) with
  | nil => simp [eq_comm]
  | cons fault rest => simp

theorem activate_eq_error_iff {faults : List CatalogFault} :
    catalog.activate environment = .error faults
      ↔ faults = mutualAbsences (catalog.tentative environment) ∧ faults ≠ [] := by
  unfold activate
  rw [filter_admits]
  dsimp only
  cases mutualAbsences (catalog.tentative environment) with
  | nil => simp +contextual
  | cons fault rest => simp +contextual [eq_comm]

/-- A decision finds the enabled components. -/
theorem enabled_of_activate {activation : Activation}
    (hactivate : catalog.activate environment = .ok activation) :
    activation.enabled = catalog.enabled environment := by
  rw [(activate_eq_ok_iff.mp hactivate).2]
  exact enabled_among

/-- There is a decision unless two tentative components yield to each other. -/
theorem exists_activate_iff (hfaults : catalog.faults = []) :
    (∃ activation, catalog.activate environment = .ok activation)
      ↔ ∀ first ∈ catalog.tentative environment, ∀ second ∈ catalog.tentative environment,
        first ≠ second → ¬first.Rivals second := by
  have hnodup : (catalog.tentative environment).Nodup :=
    (distinct_of_faults_eq_nil hfaults).nodup.sublist tentative_sublist
  have hpairs := @mutualAbsences_eq_nil_iff (catalog.tentative environment)
  constructor
  · rintro ⟨activation, hactivate⟩
    have hnone := (activate_eq_ok_iff.mp hactivate).1
    have hsymm : Std.Symm fun first second : Component => ¬first.Rivals second :=
      ⟨fun _ _ hnot hrivals => hnot hrivals.symm⟩
    intro first hfirst second hsecond hne
    exact (hpairs.mp hnone).forall hfirst hsecond hne
  · intro hall
    have hnone := hpairs.mpr (hnodup.pairwise_of_forall_ne hall)
    exact ⟨_, activate_eq_ok_iff.mpr ⟨hnone, rfl⟩⟩

end Catalog

end Assembly
