import Assembly.Catalog.Basic
import Assembly.Environment
import Assembly.Finding.Basic
import Assembly.Text.Blank

/-!
Which components of a catalog take part in an environment.

The conditions on properties, flags and profiles are decided first, each component by itself. The
components that pass are the tentative ones, and the conditions on other components are then decided
against all of them at once, so the outcome does not depend on an order of decisions.
-/

namespace Assembly

/-- The bare name of an entry of a profile condition, and whether the entry is negated. -/
def profileEntry (entry : String) : String × Bool :=
  match Text.trimChars entry.toList with
  | '!' :: name => (String.ofList (Text.trimChars name), true)
  | name => (String.ofList name, false)

namespace Environment

/-- Whether one of the entries holds. No entries hold as well. -/
def matchesProfiles (environment : Environment) (entries : List String) (negated : Bool) : Bool :=
  entries.isEmpty || entries.any fun entry =>
    let (name, entryNegated) := profileEntry entry
    decide (name ∈ environment.profiles) != (entryNegated != negated)

/-- Why a condition does not hold in the environment. Conditions on other components are not
decided by it. -/
def objection? (environment : Environment) : Condition → Option ExclusionReason
  | .property name expected matchIfMissing =>
    match environment.properties.get? name, expected with
    | none, _ => if matchIfMissing then none else some (.propertyMissing name)
    | some _, none => none
    | some actual, some expected =>
      if actual = expected then none else some (.propertyMismatch name expected actual)
  | .flags names =>
    match names.filter (· ∉ environment.flags) with
    | [] => none
    | missing => some (.flagsMissing missing)
  | .profile entries negated =>
    if environment.matchesProfiles entries negated then none
    else some (.profileMismatch entries negated)
  | .missing _ _ => none
  | .present _ _ => none

def objections (environment : Environment) (component : Component) : List ExclusionReason :=
  component.conditions.filterMap environment.objection?

/-- Whether the environment alone does not exclude a component. -/
def admits (environment : Environment) (component : Component) : Bool :=
  (environment.objections component).isEmpty

end Environment

/-- What a condition on other components is about. -/
inductive Target where
  | type (wanted : String)
  | name (wanted : String)
deriving DecidableEq, Inhabited

namespace Target

def text : Target → String
  | .type wanted => wanted
  | .name wanted => wanted

def all (types names : List String) : List Target :=
  types.map .type ++ names.map .name

def isMetBy (target : Target) (component : Component) : Bool :=
  match target with
  | .type wanted => component.provides wanted
  | .name wanted => component.displayName = wanted

end Target

namespace Component

/-- The first of the components that meets a target and has another name. -/
def otherMeeting? (component : Component) (tentative : List Component) (target : Target) :
    Option Component :=
  tentative.find? fun other =>
    other.displayName ≠ component.displayName && target.isMetBy other

/-- Why a condition does not hold beside the tentative components. -/
def clashes (component : Component) (tentative : List Component) :
    Condition → List ExclusionReason
  | .missing types names =>
    (Target.all types names).filterMap fun target =>
      (component.otherMeeting? tentative target).map fun provider =>
        .targetPresent target.text provider.displayName
  | .present types names =>
    ((Target.all types names).filter fun target =>
      (component.otherMeeting? tentative target).isNone).map fun target =>
        .targetMissing target.text
  | _ => []

/-- Whether the component would be missing beside the other one. -/
def yieldsTo (component other : Component) : Bool :=
  component.conditions.any fun
    | .missing types names => (Target.all types names).any (·.isMetBy other)
    | _ => false

end Component

/-- The pairs of components each of which yields to the other one. -/
def mutualAbsences : List Component → List CatalogFault
  | [] => []
  | first :: rest =>
    (rest.filter fun second => first.yieldsTo second && second.yieldsTo first).map
        (fun second => .mutualAbsence first.displayName second.displayName)
      ++ mutualAbsences rest

structure Activation where
  enabled : List Component
  excluded : List Exclusion
deriving DecidableEq, Inhabited

namespace Activation

/-- Why a component is left out: its objections to the environment, or else its clashes with the
tentative components. -/
def reasons (environment : Environment) (tentative : List Component) (component : Component) :
    List ExclusionReason :=
  match environment.objections component with
  | [] => component.conditions.flatMap (component.clashes tentative)
  | objections => objections

def among (environment : Environment) (tentative components : List Component) : Activation where
  enabled := components.filter fun component => (reasons environment tentative component).isEmpty
  excluded := components.filterMap fun component =>
    match reasons environment tentative component with
    | [] => none
    | found => some ⟨component.displayName, found⟩

end Activation

/-- Decides which components take part. Where two components yield to each other there is no such
decision. -/
def Catalog.activate (catalog : Catalog) (environment : Environment) :
    Except (List CatalogFault) Activation :=
  let tentative := catalog.components.filter environment.admits
  match mutualAbsences tentative with
  | [] => .ok (.among environment tentative catalog.components)
  | faults => .error faults

end Assembly
