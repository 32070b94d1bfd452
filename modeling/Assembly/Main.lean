import Assembly.Command.Run

/-!
The command on the files and variables of a process.
-/

namespace Assembly

/-- What is found at a path of the file system. A file that cannot be read counts as missing. -/
def foundAt (path : String) : IO Found := do
  try
    if ← (← IO.FS.realPath path).isDir then return .folder
    else return .file (← IO.FS.readFile path)
  catch _ => return .missing

/-- The files that the arguments name. -/
def namedFiles (arguments : List String) : IO (List (String × Found)) :=
  match Arguments.read arguments with
  | some (.plan arguments) =>
    (arguments.catalog :: arguments.config.toList).mapM fun path => do
      return (path, ← foundAt path)
  | _ => return []

/-- The variables of the process that may be settings. -/
def settingVariables : IO (NameMap String) := do
  let names := ["WRAPP_FLAGS", "WRAPP_PROFILES", "WRAPP_STRICT"]
  let values ← names.mapM fun name => do return (name, ← IO.getEnv name)
  return .ofList (values.filterMap fun (name, value) => value.map (name, ·))

/-- Runs the command and prints what it writes. -/
def runProcess (arguments : List String) : IO UInt32 := do
  let files ← namedFiles arguments
  let vars ← settingVariables
  let outcome := Command.run (fun path => (files.lookup path).getD .missing) vars arguments
  IO.print outcome.output
  IO.eprint outcome.errors
  return .ofNat outcome.code

end Assembly

def main (arguments : List String) : IO UInt32 :=
  Assembly.runProcess arguments
