import Assembly.Component.Basic
import Assembly.Json.Decode

/-!
The JSON form of a component. All fields are written; all but the names may be left out.
-/

namespace Assembly

open Json (Value Mismatch Entries Decode Gather)

/-- What the values of a type are called in JSON. -/
def named {α : Type} (name : α → String) (values : List α) : List (String × α) :=
  values.map fun value => (name value, value)

def Scope.name : Scope → String
  | .singleton => "singleton"
  | .prototype => "prototype"

def Handover.name : Handover → String
  | .direct => "direct"
  | .deferred => "deferred"
  | .optional => "optional"

def InjectionKind.name : InjectionKind → String
  | .constructor => "constructor"
  | .field => "field"
  | .method => "method"

def Scope.ofJson : Decode Scope :=
  .oneOf (named name [.singleton, .prototype])

def Handover.ofJson : Decode Handover :=
  .oneOf (named name [.direct, .deferred, .optional])

def InjectionKind.ofJson : Decode InjectionKind :=
  .oneOf (named name [.constructor, .field, .method])

namespace Dependency

def toJson (dependency : Dependency) : Value :=
  .object
    [("requested_type", .string dependency.requestedType),
      ("qualifier", .orNull .string dependency.qualifier),
      ("wrapper", .string dependency.handover.name),
      ("allow_missing", .bool dependency.allowMissing),
      ("literal", .orNull .string dependency.literal)]

def gather : Gather Dependency :=
  Dependency.mk <$> .required "requested_type" .text
    <*> .withDefault "qualifier" none (.option .text)
    <*> .withDefault "wrapper" .direct Handover.ofJson
    <*> .withDefault "allow_missing" false .flag
    <*> .withDefault "literal" none (.option .text)

def ofJson : Decode Dependency :=
  gather.record "struct DependencySpec"
    ["requested_type", "qualifier", "wrapper", "allow_missing", "literal"]

end Dependency

namespace InjectionSite

def toJson (site : InjectionSite) : Value :=
  .object
    [("kind", .string site.kind.name), ("name", .string site.name),
      ("dependencies", .array (site.dependencies.map Dependency.toJson))]

def gather : Gather InjectionSite :=
  InjectionSite.mk <$> .required "kind" InjectionKind.ofJson
    <*> .withDefault "name" "" .text
    <*> .withDefault "dependencies" [] (.list Dependency.ofJson)

def ofJson : Decode InjectionSite :=
  gather.record "struct InjectionPoint" ["kind", "name", "dependencies"]

end InjectionSite

namespace Hooks

def toJson (hooks : Hooks) : Value :=
  .object [("init", .strings hooks.init), ("destroy", .strings hooks.destroy)]

def gather : Gather Hooks :=
  Hooks.mk <$> .withDefault "init" [] (.list .text) <*> .withDefault "destroy" [] (.list .text)

def ofJson : Decode Hooks :=
  gather.record "struct LifecycleHooks" ["init", "destroy"]

end Hooks

namespace Condition

/-- The kinds of conditions, as the field `kind` names them. -/
inductive Kind where
  | property
  | flags
  | missing
  | present
  | profile
deriving DecidableEq, Inhabited

namespace Kind

def all : List Kind :=
  [.property, .flags, .missing, .present, .profile]

def name : Kind → String
  | .property => "property"
  | .flags => "class_presence"
  | .missing => "missing_component"
  | .present => "present_component"
  | .profile => "profile"

/-- A kind is written as its name or as its number. -/
def ofJson : Decode Kind
  | .string name => Decode.choice name (named Kind.name all)
  | .number (.whole index) =>
    match if 0 ≤ index then all[index.toNat]? else none with
    | some kind => .ok kind
    | none =>
      let value := Value.number (.whole index)
      .error (if 0 ≤ index then
          .invalidValue value.description "variant index 0 <= i < 5"
        else .invalidType value.description "variant identifier")
  | other => .error (.invalidType other.description "variant identifier")

/-- The description of the fields that belong to a kind, and their names. -/
def fields : Kind → String × List String
  | .property =>
    ("struct variant ConditionExpr::Property", ["name", "expected_value", "match_if_missing"])
  | .flags => ("struct variant ConditionExpr::ClassPresence", ["names"])
  | .missing => ("struct variant ConditionExpr::MissingComponent", ["target_types", "target_names"])
  | .present => ("struct variant ConditionExpr::PresentComponent", ["target_types", "target_names"])
  | .profile => ("struct variant ConditionExpr::Profile", ["profiles", "negated"])

/-- The fields of a condition of a kind. -/
def gather : Kind → Gather Condition
  | .property =>
    Condition.property <$> .required "name" .text
      <*> .withDefault "expected_value" none (.option .text)
      <*> .withDefault "match_if_missing" false .flag
  | .flags => Condition.flags <$> .required "names" (.list .text)
  | .missing =>
    Condition.missing <$> .withDefault "target_types" [] (.list .text)
      <*> .withDefault "target_names" [] (.list .text)
  | .present =>
    Condition.present <$> .withDefault "target_types" [] (.list .text)
      <*> .withDefault "target_names" [] (.list .text)
  | .profile =>
    Condition.profile <$> .required "profiles" (.list .text) <*> .withDefault "negated" false .flag

end Kind

def toJson : Condition → Value
  | .property name expected matchIfMissing =>
    .object
      [("kind", .string Kind.property.name), ("name", .string name),
        ("expected_value", .orNull .string expected), ("match_if_missing", .bool matchIfMissing)]
  | .flags names => .object [("kind", .string Kind.flags.name), ("names", .strings names)]
  | .missing types names =>
    .object
      [("kind", .string Kind.missing.name), ("target_types", .strings types),
        ("target_names", .strings names)]
  | .present types names =>
    .object
      [("kind", .string Kind.present.name), ("target_types", .strings types),
        ("target_names", .strings names)]
  | .profile entries negated =>
    .object
      [("kind", .string Kind.profile.name), ("profiles", .strings entries),
        ("negated", .bool negated)]

/-- The kind stands among the members of an object, and in front of the fields in an array. -/
def ofJson : Decode Condition
  | .object members => do
    let kind ← (Gather.required "kind" Kind.ofJson).ofMembers members
    kind.gather.ofMembers (members.filter (·.1 != "kind"))
  | .array [] => .error (.missingField "kind")
  | .array (first :: items) => do
    let kind ← Kind.ofJson first
    kind.gather.ofItems kind.fields.1 kind.fields.2 items
  | other => .error (.invalidType other.description "internally tagged enum ConditionExpr")

end Condition

namespace Component

def toJson (component : Component) : Value :=
  .object
    [("qualified_name", .string component.qualifiedName),
      ("display_name", .string component.displayName),
      ("scope", .string component.scope.name),
      ("lazy", .bool component.lazy),
      ("primary", .bool component.primary),
      ("implemented_interfaces", .strings component.interfaces.toList),
      ("injection_points", .array (component.sites.map InjectionSite.toJson)),
      ("lifecycle_hooks", component.hooks.toJson),
      ("conditions", .array (component.conditions.map Condition.toJson)),
      ("depends_on", .strings component.dependsOn),
      ("declaration_index", .nat component.declarationIndex.toNat)]

/-- All fields but the declaration index, which is the given one. -/
def gather (index : UInt32) : Gather Component :=
  (fun qualifiedName displayName scope lazy primary interfaces sites hooks conditions dependsOn =>
      ⟨qualifiedName, displayName, scope, lazy, primary, .ofList interfaces, sites, hooks,
        conditions, dependsOn, index⟩)
    <$> .required "qualified_name" .text
    <*> .required "display_name" .text
    <*> .withDefault "scope" .singleton Scope.ofJson
    <*> .withDefault "lazy" false .flag
    <*> .withDefault "primary" false .flag
    <*> .withDefault "implemented_interfaces" [] (.list .text)
    <*> .withDefault "injection_points" [] (.list InjectionSite.ofJson)
    <*> .withDefault "lifecycle_hooks" {} Hooks.ofJson
    <*> .withDefault "conditions" [] (.list Condition.ofJson)
    <*> .withDefault "depends_on" [] (.list .text)

end Component

end Assembly
