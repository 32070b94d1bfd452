import Assembly.Collection.NameMap
import Assembly.Json.Value

/-!
The settings of a run: how to plan, and the facts about the environment that the plan is made for.
-/

namespace Assembly

structure Options where
  /-- Whether a warning prevents a plan. -/
  strict : Bool := false
  /-- The profiles that are active if the environment names none. -/
  defaultProfiles : List String := []
deriving DecidableEq, Inhabited

/-- The facts about the environment as the settings list them. -/
structure Facts where
  profiles : List String := []
  properties : NameMap String := ∅
  flags : List String := []
deriving DecidableEq, Inhabited

structure Settings where
  planner : Options := {}
  environment : Facts := {}
deriving DecidableEq, Inhabited

open Json (Value)

def Options.toJson (options : Options) : Value :=
  .object
    [("strict", .bool options.strict), ("default_profiles", .strings options.defaultProfiles)]

def Facts.toJson (facts : Facts) : Value :=
  .object
    [("profiles", .strings facts.profiles),
      ("properties", .object (facts.properties.mapValues Value.string).entries),
      ("flags", .strings facts.flags)]

def Settings.toJson (settings : Settings) : Value :=
  .object [("planner", settings.planner.toJson), ("environment", settings.environment.toJson)]

end Assembly
