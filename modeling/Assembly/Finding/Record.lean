import Assembly.Finding.Basic
import Assembly.Json.Value

/-!
The JSON form of findings.
-/

namespace Assembly

open Json (Value)

def Position.toJson : Position → Value
  | .constructorArgument index =>
    .object [("kind", .string "constructor_argument"), ("index", .nat index)]
  | .field name => .object [("kind", .string "field"), ("name", .string name)]
  | .methodArgument method index =>
    .object
      [("kind", .string "method_argument"), ("method", .string method), ("index", .nat index)]
  | .dependsOn => .object [("kind", .string "depends_on")]

def CatalogFault.toJson : CatalogFault → Value
  | .duplicateQualifiedName name =>
    .object [("kind", .string "duplicate_qualified_name"), ("name", .string name)]
  | .duplicateDisplayName name =>
    .object [("kind", .string "duplicate_display_name"), ("name", .string name)]
  | .duplicateIndex index first second =>
    .object
      [("kind", .string "duplicate_declaration_index"), ("index", .nat index),
        ("first", .string first), ("second", .string second)]
  | .multipleConstructors component count =>
    .object
      [("kind", .string "multiple_constructors"), ("component", .string component),
        ("count", .nat count)]
  | .mutualAbsence first second =>
    .object
      [("kind", .string "mutual_missing_condition"), ("first", .string first),
        ("second", .string second)]
  | .contradictoryPresence component target =>
    .object
      [("kind", .string "conflicting_presence_conditions"), ("component", .string component),
        ("target", .string target)]

/-- The qualifier is only written if there is one. -/
def Request.toJson (request : Request) : Value :=
  .object
    (("requested_type", .string request.requestedType)
      :: (request.qualifier.map fun qualifier => ("qualifier", Value.string qualifier)).toList)

def UnboundReason.toJson : UnboundReason → Value
  | .notFound => .object [("kind", .string "not_found")]
  | .qualifierNotFound => .object [("kind", .string "qualifier_not_found")]
  | .ambiguous candidates =>
    .object [("kind", .string "ambiguous"), ("candidates", .strings candidates)]
  | .unknownName => .object [("kind", .string "unknown_depends_on")]

def BindingFault.toJson (fault : BindingFault) : Value :=
  .object
    [("component", .string fault.component), ("dependency", fault.request.toJson),
      ("position", fault.position.toJson), ("reason", fault.reason.toJson)]

def Cycle.toJson (cycle : Cycle) : Value :=
  .object [("path", .strings cycle.path)]

def WarningKind.name : WarningKind → String
  | .ambiguity => "ambiguity"
  | .qualifierTypeMismatch => "qualifier_type_mismatch"
  | .conditionalDependency => "conditional_dependency"
  | .lazyForced => "lazy_forced"

def Warning.toJson (warning : Warning) : Value :=
  .object
    [("component", .string warning.component), ("kind", .string warning.kind.name),
      ("message", .string warning.message)]

def ExclusionReason.toJson : ExclusionReason → Value
  | .propertyMissing name =>
    .object [("kind", .string "property_missing"), ("name", .string name)]
  | .propertyMismatch name expected actual =>
    .object
      [("kind", .string "property_mismatch"), ("name", .string name),
        ("expected", .string expected), ("actual", .string actual)]
  | .flagsMissing names => .object [("kind", .string "flags_missing"), ("names", .strings names)]
  | .profileMismatch profiles negated =>
    .object
      [("kind", .string "profile_mismatch"), ("profiles", .strings profiles),
        ("negated", .bool negated)]
  | .targetPresent target provider =>
    .object
      [("kind", .string "target_present"), ("target", .string target),
        ("provider", .string provider)]
  | .targetMissing target =>
    .object [("kind", .string "target_missing"), ("target", .string target)]

def Exclusion.toJson (exclusion : Exclusion) : Value :=
  .object
    [("component", .string exclusion.component),
      ("reasons", .array (exclusion.reasons.map ExclusionReason.toJson))]

def PlanFault.toJson : PlanFault → Value
  | .configuration fault =>
    .object [("category", .string "configuration"), ("error", fault.toJson)]
  | .resolution fault => .object [("category", .string "resolution"), ("error", fault.toJson)]
  | .cycle found => .object [("category", .string "cycle"), ("error", found.toJson)]
  | .strict warning => .object [("category", .string "strict"), ("error", warning.toJson)]

def Findings.toJson (findings : Findings) : Value :=
  .object
    [("errors", .array (findings.errors.map PlanFault.toJson)),
      ("warnings", .array (findings.warnings.map Warning.toJson)),
      ("excluded", .array (findings.excluded.map Exclusion.toJson))]

end Assembly
