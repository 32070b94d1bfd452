import Assembly.Component.Record
import Assembly.Finding.Record
import Assembly.Json.Writer
import Assembly.Plan.Basic

/-!
The JSON form of a plan.
-/

namespace Assembly

open Json (Value)

def Source.toJson : Source → Value
  | .reference component =>
    .object [("kind", .string "reference"), ("value", .string component)]
  | .deferred component =>
    .object [("kind", .string "deferred_reference"), ("value", .string component)]
  | .optional component =>
    .object [("kind", .string "optional_reference"), ("value", .orNull .string component)]
  | .literal token =>
    .object [("kind", .string "literal_placeholder"), ("value", .string token)]

def Argument.toJson (argument : Argument) : Value :=
  .object [("position", argument.position.toJson), ("source", argument.source.toJson)]

def Step.toJson (step : Step) : Value :=
  .object
    [("component", .string step.component),
      ("qualified_name", .string step.qualifiedName),
      ("scope", .string step.scope.name),
      ("lazy", .bool step.lazy),
      ("primary", .bool step.primary),
      ("level", .nat step.level),
      ("argument_sources", .array (step.arguments.map Argument.toJson)),
      ("depends_on", .strings step.dependsOn),
      ("lifecycle_hooks", step.hooks.toJson),
      ("inclusion_reason", .string step.inclusion),
      ("warnings", .array (step.warnings.map Warning.toJson))]

def Edge.toJson (edge : Edge) : Value :=
  .object
    [("from", .string edge.consumer), ("to", .string edge.provider),
      ("kind", .string edge.kind.name)]

namespace Plan

def toJson (plan : Plan) : Value :=
  .object
    [("steps", .array (plan.steps.map Step.toJson)),
      ("edges", .array (plan.edges.map Edge.toJson)),
      ("diagnostics", plan.findings.toJson)]

/-- The plan as indented JSON text. -/
def jsonText (plan : Plan) : String :=
  plan.toJson.write Json.indented

end Plan

end Assembly
