import Assembly.Component.Basic

/-!
What a planning run finds: faults, which prevent a plan, warnings, and components that are left out.
Components are named by their display names.
-/

namespace Assembly

/-- An inconsistency of a catalog. -/
inductive CatalogFault where
  | duplicateQualifiedName (name : String)
  | duplicateDisplayName (name : String)
  | duplicateIndex (index : Nat) (first second : String)
  | multipleConstructors (component : String) (count : Nat)
  /-- Each of the two takes part only if the other one is missing. -/
  | mutualAbsence (first second : String)
  /-- The component requires the target to be both present and missing. -/
  | contradictoryPresence (component target : String)
deriving DecidableEq, Inhabited

def CatalogFault.text : CatalogFault → String
  | .duplicateQualifiedName name =>
    "Qualified name '" ++ name ++ "' is declared by more than one component"
  | .duplicateDisplayName name =>
    "Display name '" ++ name ++ "' is declared by more than one component"
  | .duplicateIndex index first second =>
    "Declaration index " ++ toString index ++ " is used by both '" ++ first ++ "' and '" ++ second
      ++ "'"
  | .multipleConstructors component count =>
    "'" ++ component ++ "' has " ++ toString count
      ++ " constructor injection points, at most one is allowed"
  | .mutualAbsence first second =>
    "'" ++ first ++ "' and '" ++ second ++ "' are each only enabled if the other one is missing"
  | .contradictoryPresence component target =>
    "'" ++ component ++ "' requires '" ++ target ++ "' to be both present and missing"

/-- The component that a fault is about, if it is about a single one. -/
def CatalogFault.component? : CatalogFault → Option String
  | .duplicateQualifiedName _ => none
  | .duplicateDisplayName _ => none
  | .duplicateIndex _ _ second => some second
  | .multipleConstructors component _ => some component
  | .mutualAbsence first _ => some first
  | .contradictoryPresence component _ => some component

/-- The type and the qualifier that a dependency asks for. -/
structure Request where
  requestedType : String
  qualifier : Option String := none
deriving DecidableEq, Inhabited

def Request.text (request : Request) : String :=
  match request.qualifier with
  | some qualifier => request.requestedType ++ " (qualifier '" ++ qualifier ++ "')"
  | none => request.requestedType

def Dependency.request (dependency : Dependency) : Request :=
  ⟨dependency.requestedType, dependency.qualifier⟩

/-- Why a dependency is not bound. -/
inductive UnboundReason where
  | notFound
  | qualifierNotFound
  /-- Several components implement the interface and none of them is the only primary one. -/
  | ambiguous (candidates : List String)
  /-- No component that takes part has the name. -/
  | unknownName
deriving DecidableEq, Inhabited

def UnboundReason.text : UnboundReason → String
  | .notFound => "no enabled component provides it"
  | .qualifierNotFound => "no enabled component has the qualifier as its name"
  | .ambiguous candidates => "it is ambiguous between [" ++ ", ".intercalate candidates ++ "]"
  | .unknownName => "no enabled component has that name"

/-- A dependency without the provider that it needs. -/
structure BindingFault where
  component : String
  request : Request
  position : Position
  reason : UnboundReason
deriving DecidableEq, Inhabited

def BindingFault.text (fault : BindingFault) : String :=
  "'" ++ fault.component ++ "' needs '" ++ fault.request.text ++ "' at " ++ fault.position.text
    ++ " but " ++ fault.reason.text

/-- Components each of which needs the next one, and the last one the first. -/
structure Cycle where
  path : List String
deriving DecidableEq, Inhabited

def Cycle.text (cycle : Cycle) : String :=
  "A circular dependency exists through "
    ++ " -> ".intercalate (cycle.path ++ cycle.path.take 1)
    ++ " - Consider using a deferred dependency"

inductive WarningKind where
  | ambiguity
  /-- A qualifier selects a component that does not provide the requested type. -/
  | qualifierTypeMismatch
  /-- A component without conditions needs one with conditions. -/
  | conditionalDependency
  /-- A component that is constructed at the start needs a lazy one. -/
  | lazyForced
deriving DecidableEq, Inhabited

structure Warning where
  component : String
  kind : WarningKind
  message : String
deriving DecidableEq, Inhabited

def Warning.text (warning : Warning) : String :=
  "'" ++ warning.component ++ "': " ++ warning.message

/-- Why a condition does not hold. -/
inductive ExclusionReason where
  | propertyMissing (name : String)
  | propertyMismatch (name expected actual : String)
  | flagsMissing (names : List String)
  | profileMismatch (profiles : List String) (negated : Bool)
  /-- Another component meets a target that has to be missing. -/
  | targetPresent (target provider : String)
  /-- No other component meets a target that has to be present. -/
  | targetMissing (target : String)
deriving DecidableEq, Inhabited

def ExclusionReason.text : ExclusionReason → String
  | .propertyMissing name => "property '" ++ name ++ "' is not set"
  | .propertyMismatch name expected actual =>
    "property '" ++ name ++ "' is '" ++ actual ++ "' but '" ++ expected ++ "' is expected"
  | .flagsMissing names => "presence flags [" ++ ", ".intercalate names ++ "] are not set"
  | .profileMismatch profiles negated =>
    "no active profile matches " ++ (if negated then "!" else "") ++ "["
      ++ ", ".intercalate profiles ++ "]"
  | .targetPresent target provider =>
    "'" ++ target ++ "' must be missing but '" ++ provider ++ "' provides it"
  | .targetMissing target =>
    "'" ++ target ++ "' must be present but no other component provides it"

/-- A component that is left out, with all of its conditions that do not hold. -/
structure Exclusion where
  component : String
  reasons : List ExclusionReason
deriving DecidableEq, Inhabited

def Exclusion.text (exclusion : Exclusion) : String :=
  "'" ++ exclusion.component ++ "' excluded: "
    ++ "; ".intercalate (exclusion.reasons.map ExclusionReason.text)

/-- A finding that prevents a plan. -/
inductive PlanFault where
  | configuration (fault : CatalogFault)
  | resolution (fault : BindingFault)
  | cycle (cycle : Cycle)
  /-- A warning in strict mode. -/
  | strict (warning : Warning)
deriving DecidableEq, Inhabited

def PlanFault.text : PlanFault → String
  | .configuration fault => fault.text
  | .resolution fault => fault.text
  | .cycle found => found.text
  | .strict warning => warning.text ++ " (strict mode)"

/-- The component that a fault is about, if it is about a single one. -/
def PlanFault.component? : PlanFault → Option String
  | .configuration fault => fault.component?
  | .resolution fault => some fault.component
  | .cycle found => found.path.head?
  | .strict warning => some warning.component

/-- All findings of a run, each kind in the order of discovery. -/
structure Findings where
  errors : List PlanFault := []
  warnings : List Warning := []
  excluded : List Exclusion := []
deriving DecidableEq, Inhabited

namespace Findings

def addError (findings : Findings) (fault : PlanFault) : Findings :=
  { findings with errors := findings.errors ++ [fault] }

def addWarning (findings : Findings) (warning : Warning) : Findings :=
  { findings with warnings := findings.warnings ++ [warning] }

def addExclusion (findings : Findings) (exclusion : Exclusion) : Findings :=
  { findings with excluded := findings.excluded ++ [exclusion] }

def hasErrors (findings : Findings) : Bool :=
  !findings.errors.isEmpty

def warningsOf (findings : Findings) (kind : WarningKind) : List Warning :=
  findings.warnings.filter (·.kind = kind)

/-- Turns all warnings into faults. -/
def promoteWarnings (findings : Findings) : Findings :=
  { findings with
    errors := findings.errors ++ findings.warnings.map .strict
    warnings := [] }

/-- One line for each finding: first the faults, then the warnings, then the exclusions. -/
def report (findings : Findings) : String :=
  "\n".intercalate
    (findings.errors.map (fun fault => "error: " ++ fault.text)
      ++ findings.warnings.map (fun warning => "warning: " ++ warning.text)
      ++ findings.excluded.map (fun exclusion => "note: " ++ exclusion.text))

/-- The message of a run without a plan. -/
def failureText (findings : Findings) : String :=
  "\n".intercalate
    ("The wiring plan had one or more errors:"
      :: findings.errors.map (fun fault => "- " ++ fault.text))

end Findings

end Assembly
