import Assembly.Decimal.Word
import Assembly.Settings.Basic
import Assembly.Settings.Setting
import Assembly.Text.Alternatives
import Assembly.Text.Blank

/-!
The meaning of written settings. A table is looked through in the order of its names and refused at its
first fault. A list may stand for a table whose fields are its items in their order.
-/

namespace Assembly

/-- Why a setting is refused. -/
inductive SettingCause where
  | unknownField (found : String) (expected : List String)
  | invalidType (found expected : String)
  | invalidValue (found expected : String)
  /-- The setting is none of the things that it may be. -/
  | noAlternative (choice : String)
deriving DecidableEq, Inhabited

def SettingCause.message : SettingCause → String
  | .unknownField found expected =>
    "unknown field: found `" ++ found ++ "`, expected `" ++ Text.alternatives expected ++ "`"
  | .invalidType found expected => "invalid type: found " ++ found ++ ", expected " ++ expected
  | .invalidValue found expected => "invalid value " ++ found ++ ", expected " ++ expected
  | .noAlternative choice => "data did not match any variant of untagged enum " ++ choice

/-- A refused setting, and where it stands: the names of the tables around it and its own name. -/
structure SettingFault where
  path : List String
  cause : SettingCause
deriving DecidableEq, Inhabited

namespace Setting

/-- The outcome for a setting that stands below a name. -/
def within {α : Type} (name : String) (outcome : Except SettingFault α) :
    Except SettingFault α :=
  outcome.mapError fun fault => { fault with path := name :: fault.path }

def refuse {α : Type} (cause : SettingCause) : Except SettingFault α :=
  .error ⟨[], cause⟩

/-- A field of a record: its name, and how its setting changes the record. -/
abbrev Field (ρ : Type) : Type :=
  String × (Setting → ρ → Except SettingFault ρ)

section Record

variable {ρ : Type} (fields : List (Field ρ))

def setNamed (record : ρ) (entry : String × Setting) : Except SettingFault ρ :=
  match fields.lookup entry.1 with
  | some change => within entry.1 (change entry.2 record)
  | none => .error ⟨[entry.1], .unknownField entry.1 (fields.map Prod.fst)⟩

def setPlaced (record : ρ) (entry : (Field ρ × Setting) × Nat) : Except SettingFault ρ :=
  within (toString entry.2) (entry.1.1.2 entry.1.2 record)

/-- A record: the given one, changed by the fields that are set. -/
def record (description : String) (default : ρ) : Setting → Except SettingFault ρ
  | .table entries => entries.foldlM (setNamed fields) default
  | .list items => (fields.zip items).zipIdx.foldlM setPlaced default
  | other => refuse (.invalidType other.description description)

end Record

/-- A switch: a truth value, zero or one, or one of their usual names. -/
def switch : Setting → Except SettingFault Bool
  | .flag value => .ok value
  | .integer value =>
    if value = 0 then .ok false
    else if value = 1 then .ok true
    else if fitsSigned64 value then
      refuse (.invalidValue (Setting.integer value).description "a switch")
    else refuse (.noAlternative "Switch")
  | .text value =>
    let word := Text.lowerAscii (Text.trim value)
    if word ∈ ["1", "true", "yes", "on"] then .ok true
    else if word ∈ ["0", "false", "no", "off", ""] then .ok false
    else refuse (.invalidValue (Setting.text value).description "a switch")
  | _ => refuse (.noAlternative "Switch")

def text? : Setting → Option String
  | .text value => some value
  | _ => none

/-- A list of texts, or one text that joins them. -/
def textList : Setting → Except SettingFault (List String)
  | .list items =>
    match items.mapM text? with
    | some values => .ok values
    | none => refuse (.noAlternative "StringList")
  | .text joined => .ok (Text.entries joined)
  | _ => refuse (.noAlternative "StringList")

def setProperty (properties : NameMap String) (entry : String × Setting) :
    Except SettingFault (NameMap String) :=
  match entry.2 with
  | .text value => .ok (properties.insert entry.1 value)
  | other => .error ⟨[entry.1], .invalidType other.description "a string"⟩

/-- A table of texts. -/
def propertyMap : Setting → Except SettingFault (NameMap String)
  | .table entries => entries.foldlM setProperty ∅
  | other => refuse (.invalidType other.description "a map")

end Setting

def Options.fields : List (Setting.Field Options) :=
  [("strict", fun setting options => do return { options with strict := ← setting.switch }),
    ("default_profiles", fun setting options => do
      return { options with defaultProfiles := ← setting.textList })]

def Options.ofSetting : Setting → Except SettingFault Options :=
  Setting.record fields "struct PlannerOptions" {}

def Facts.fields : List (Setting.Field Facts) :=
  [("profiles", fun setting facts => do return { facts with profiles := ← setting.textList }),
    ("properties", fun setting facts => do
      return { facts with properties := ← setting.propertyMap }),
    ("flags", fun setting facts => do return { facts with flags := ← setting.textList })]

def Facts.ofSetting : Setting → Except SettingFault Facts :=
  Setting.record fields "struct EnvironmentConfig" {}

def Settings.fields : List (Setting.Field Settings) :=
  [("planner", fun setting settings => do
      return { settings with planner := ← Options.ofSetting setting }),
    ("environment", fun setting settings => do
      return { settings with environment := ← Facts.ofSetting setting })]

def Settings.ofSetting : Setting → Except SettingFault Settings :=
  Setting.record fields "struct WiringConfig" {}

end Assembly
