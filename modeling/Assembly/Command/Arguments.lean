import Assembly.Text.Blank

/-!
The arguments of the command line.
-/

namespace Assembly

/-- What a plan is printed as. -/
inductive Format where
  | json
  | drawing
deriving DecidableEq, Inhabited

structure Arguments where
  catalog : String
  config : Option String := none
  /-- These take the place of the configured profiles, unless there are none. -/
  profiles : List String := []
  properties : List (String × String) := []
  flags : List String := []
  strict : Bool := false
  format : Format := .json
deriving DecidableEq, Inhabited

inductive Invocation where
  | plan (arguments : Arguments)
  | help
  | version
deriving DecidableEq, Inhabited

namespace Arguments

/-- The arguments as far as they have been read. -/
structure Reading where
  catalog : Option String := none
  config : Option String := none
  profiles : List String := []
  properties : List (String × String) := []
  flags : List String := []
  strict : Bool := false
  format : Option Format := none
deriving DecidableEq, Inhabited

/-- A name and a value with an equals sign between them. The name must not be blank. -/
def property? (text : String) : Option (String × String) :=
  let chars := text.toList
  let name := Text.trimChars (chars.takeWhile (· ≠ '='))
  match chars.dropWhile (· ≠ '=') with
  | [] => none
  | _ :: value =>
    if name.isEmpty then none else some (String.ofList name, String.ofList value)

def format? (text : String) : Option Format :=
  match text with
  | "json" => some .json
  | "dot" => some .drawing
  | _ => none

/-- A value for something that may be given once. -/
def once {α : Type} (before : Option α) (value : Option α) : Option (Option α) :=
  if before.isSome then none else value.map some

def path? (text : String) : Option String :=
  if text = "" then none else some text

/-- What an option with a value changes, or none if there is no such option. -/
def option? (name : String) : Option (String → Reading → Option Reading) :=
  match name with
  | "catalog" => some fun value reading => do
    return { reading with catalog := ← once reading.catalog (path? value) }
  | "config" => some fun value reading => do
    return { reading with config := ← once reading.config (path? value) }
  | "profile" => some fun value reading =>
    some { reading with profiles := reading.profiles ++ [value] }
  | "property" => some fun value reading => do
    return { reading with properties := reading.properties ++ [← property? value] }
  | "flag" => some fun value reading =>
    some { reading with flags := reading.flags ++ [value] }
  | "format" => some fun value reading => do
    return { reading with format := ← once reading.format (format? value) }
  | _ => none

/-- Whether an argument may be the value of the option in front of it. -/
def isValue (argument : String) : Bool :=
  argument = "-" || !argument.startsWith "-"

/-- An argument with two dashes: the name of an option, and the value behind an equals sign. -/
def long? (argument : String) : Option (String × Option String) :=
  match argument.toList with
  | '-' :: '-' :: rest =>
    let name := String.ofList (rest.takeWhile (· ≠ '='))
    match rest.dropWhile (· ≠ '=') with
    | [] => some (name, none)
    | _ :: value => some (name, some (String.ofList value))
  | _ => none

def finish (reading : Reading) : Option Invocation := do
  return .plan
    { catalog := ← reading.catalog
      config := reading.config
      profiles := reading.profiles
      properties := reading.properties
      flags := reading.flags
      strict := reading.strict
      format := reading.format.getD .json }

/-- The arguments behind the name of the command. -/
def readPlan (reading : Reading) : List String → Option Invocation
  | [] => finish reading
  | argument :: rest =>
    match long? argument with
    | some ("", none) => if rest.isEmpty then finish reading else none
    | some ("help", none) => some .help
    | some ("strict", none) =>
      if reading.strict then none else readPlan { reading with strict := true } rest
    | some (name, some value) =>
      match option? name with
      | some change => do readPlan (← change value reading) rest
      | none => none
    | some (name, none) =>
      match option? name, rest with
      | some change, value :: rest =>
        if isValue value then do readPlan (← change value reading) rest else none
      | _, _ => none
    | none => if argument.startsWith "-h" then some .help else none

/-- What a command line asks for. One that does not fit asks for nothing. -/
def read : List String → Option Invocation
  | [] => none
  | argument :: rest =>
    match argument with
    | "plan" => readPlan {} rest
    | "help" => if rest ∈ [[], ["plan"], ["help"]] then some .help else none
    | "--help" => some .help
    | "--version" => some .version
    | _ =>
      if argument.startsWith "-h" then some .help
      else if argument.startsWith "-V" then some .version
      else none

end Arguments

end Assembly
