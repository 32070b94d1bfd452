import Assembly.Catalog.File
import Assembly.Command.Arguments
import Assembly.Plan.Drawing
import Assembly.Plan.Record
import Assembly.Planning
import Assembly.Settings.Layers

/-!
A run of the command: settings come from the defaults, a file, the variables of the process and the
arguments, each of which goes before the ones in front of it.
-/

namespace Assembly

/-- What a run leaves behind. -/
structure Outcome where
  code : Nat
  output : String := ""
  errors : String := ""
deriving DecidableEq, Inhabited

/-- Settings changed by arguments: profiles are replaced unless there are none, properties are set one
after the other, flags are added, and strictness cannot be taken back. -/
def Settings.override (settings : Settings) (arguments : Arguments) : Settings where
  planner := { settings.planner with strict := settings.planner.strict || arguments.strict }
  environment :=
    { profiles :=
        if arguments.profiles.isEmpty then settings.environment.profiles else arguments.profiles
      properties := settings.environment.properties.insertAll arguments.properties
      flags := settings.environment.flags ++ arguments.flags }

namespace Command

variable (files : String → Found) (vars : NameMap String)

/-- The settings of a run. -/
def settings (arguments : Arguments) : Except LayerFault Settings := do
  let layers ←
    match arguments.config with
    | some path => Layers.initial.addFound path (files path)
    | none => .ok .initial
  let layers ← layers.addVariables vars
  return layers.settings.override arguments

def print (format : Format) (plan : Plan) : String :=
  match format with
  | .json => plan.jsonText ++ "\n"
  | .drawing => plan.drawing

def warningLines (warnings : List Warning) : String :=
  String.join (warnings.map fun warning => "warning: " ++ warning.text ++ "\n")

def failure (message : String) : Outcome :=
  { code := 1, errors := message ++ "\n" }

def planFailure (findings : Findings) : Outcome :=
  failure ("The wiring plan had one or more errors:\n" ++ findings.report)

def loadFailure (path : String) (fault : LoadFault) : Outcome :=
  failure ("Could not load catalog '" ++ path ++ "': " ++ fault.message)

/-- Plans a catalog and prints the plan. -/
def plan (arguments : Arguments) : Outcome :=
  match settings files vars arguments with
  | .error fault => failure fault.message
  | .ok settings =>
    match Catalog.ofFound arguments.catalog (files arguments.catalog) with
    | .error fault => loadFailure arguments.catalog fault
    | .ok catalog =>
      match catalog.plan settings.planner (.ofFacts settings.environment) with
      | .error findings => planFailure findings
      | .ok plan =>
        { code := 0
          output := print arguments.format plan
          errors := warningLines plan.findings.warnings }

def usage : String :=
  "Usage: assembly plan --catalog PATH [--config PATH] [--profile NAME] [--property KEY=VALUE]"
    ++ " [--flag NAME] [--strict] [--format json|dot]\n"

def version : String :=
  "assembly 0.1.0\n"

/-- Runs the command with the given arguments. -/
def run (arguments : List String) : Outcome :=
  match Arguments.read arguments with
  | none => { code := 2, errors := usage }
  | some .help => { code := 0, output := usage }
  | some .version => { code := 0, output := version }
  | some (.plan arguments) => plan files vars arguments

end Command

end Assembly
