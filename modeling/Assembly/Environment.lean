import Assembly.Collection.NameSet
import Assembly.Settings.Basic

/-!
The environment that a plan is made for: active profiles, properties with their values, and flags.
-/

namespace Assembly

structure Environment where
  profiles : NameSet := ∅
  properties : NameMap String := ∅
  flags : NameSet := ∅
deriving DecidableEq, Inhabited

namespace Environment

open Json (Value)

def ofFacts (facts : Facts) : Environment where
  profiles := .ofList facts.profiles
  properties := facts.properties
  flags := .ofList facts.flags

def withProfile (environment : Environment) (profile : String) : Environment :=
  { environment with profiles := environment.profiles.insert profile }

def withProperty (environment : Environment) (name value : String) : Environment :=
  { environment with properties := environment.properties.insert name value }

def withFlag (environment : Environment) (flag : String) : Environment :=
  { environment with flags := environment.flags.insert flag }

/-- Activates the default profiles unless the environment has an active profile of its own. -/
def withDefaults (environment : Environment) (options : Options) : Environment :=
  if environment.profiles.isEmpty then
    { environment with profiles := environment.profiles.union options.defaultProfiles }
  else environment

def toJson (environment : Environment) : Value :=
  .object
    [("active_profiles", .strings environment.profiles.toList),
      ("properties", .object (environment.properties.mapValues Value.string).entries),
      ("present_flags", .strings environment.flags.toList)]

end Environment

end Assembly
