import Assembly.Json.Fault

/-!
Reading typed data from JSON values.

A record is written as an object, or as an array of its fields in their order. Of all faults in a
record the one that comes first in the text is reported, and fields that are missing come last.
-/

namespace Assembly.Json

abbrev Decode (α : Type) : Type :=
  Value → Except Mismatch α

namespace Decode

variable {α : Type}

def text : Decode String
  | .string value => .ok value
  | other => .error (.invalidType other.description "a string")

def flag : Decode Bool
  | .bool value => .ok value
  | other => .error (.invalidType other.description "a boolean")

def list (item : Decode α) : Decode (List α)
  | .array items => items.mapM item
  | other => .error (.invalidType other.description "a sequence")

/-- A value, where `null` stands for none. -/
def option (item : Decode α) : Decode (Option α)
  | .null => .ok none
  | other => (item other).map some

/-- The value that has a name, among those that may be named. -/
def choice (name : String) (choices : List (String × α)) : Except Mismatch α :=
  match choices.lookup name with
  | some value => .ok value
  | none => .error (.unknownVariant name (choices.map Prod.fst))

/-- One of several names, or an object with the name as its only member, which holds nothing. -/
def oneOf (choices : List (String × α)) : Decode α
  | .string name => choice name choices
  | .object [(name, content)] => do
    let value ← choice name choices
    match content with
    | .null => .ok value
    | .object [] => .ok value
    | other => .error (.invalidType other.description "unit")
  | .object _ => .error (.invalidValue "map" "map with a single key")
  | other => .error (.invalidType other.description "string or map")

end Decode

/-- The members of a record, and what is wrong if one of them is missing. -/
structure Entries where
  members : List (String × Value)
  missing : String → Mismatch

/-- A part of a record, or the place of its first fault among the members and the fault. -/
abbrev Gather (α : Type) : Type :=
  Entries → Except (Nat × Mismatch) α

namespace Gather

variable {α β : Type}

/-- Two parts of a record. The fault that comes first counts, and at the same place the left one. -/
def both (first : Except (Nat × Mismatch) (α → β)) (second : Except (Nat × Mismatch) α) :
    Except (Nat × Mismatch) β :=
  match first, second with
  | .ok f, .ok value => .ok (f value)
  | .ok _, .error fault => .error fault
  | .error fault, .ok _ => .error fault
  | .error left, .error right => .error (if right.1 < left.1 then right else left)

instance : Functor Gather where
  map f gather entries := (gather entries).map f

instance : Seq Gather where
  seq first second entries := both (first entries) (second () entries)

/-- The value of a field that may be missing. The field must not occur twice. -/
def optional (name : String) (value : Decode α) : Gather (Option α) := fun entries =>
  let isField := fun (member : String × Value) => member.1 == name
  let place := entries.members.findIdx isField
  match entries.members.drop place with
  | [] => .ok none
  | (_, content) :: rest =>
    match value content with
    | .error fault => .error (place, fault)
    | .ok value =>
      if rest.any isField then
        .error (place + 1 + rest.findIdx isField, .duplicateField name)
      else .ok (some value)

/-- The value of a field, or another value if the field is missing. -/
def withDefault (name : String) (default : α) (value : Decode α) : Gather α := fun entries =>
  (optional name value entries).map (·.getD default)

def required (name : String) (value : Decode α) : Gather α := fun entries =>
  match optional name value entries with
  | .error fault => .error fault
  | .ok (some value) => .ok value
  | .ok none => .error (entries.members.length, entries.missing name)

/-- The parts of an object. -/
def ofMembers (gather : Gather α) (members : List (String × Value)) : Except Mismatch α :=
  (gather ⟨members, .missingField⟩).mapError Prod.snd

def counted (count : Nat) (noun : String) : String :=
  toString count ++ " " ++ noun ++ (if count = 1 then "" else "s")

/-- The parts of an array whose items are the named fields. -/
def ofItems (description : String) (names : List String) (gather : Gather α) (items : List Value) :
    Except Mismatch α := do
  let missing := fun name =>
    Mismatch.invalidLength (names.idxOf name)
      (description ++ " with " ++ counted names.length "element")
  let result ← (gather ⟨names.zip items, missing⟩).mapError Prod.snd
  if names.length < items.length then
    throw (.invalidLength items.length (counted names.length "element" ++ " in sequence"))
  return result

/-- The parts of an object or an array. -/
def record (description : String) (names : List String) (gather : Gather α) : Decode α
  | .object members => gather.ofMembers members
  | .array items => gather.ofItems description names items
  | other => .error (.invalidType other.description description)

end Gather

end Assembly.Json
