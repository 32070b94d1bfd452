import Assembly.Catalog.Basic
import Assembly.Component.Record
import Assembly.Decimal.Word
import Assembly.Json.Skip

/-!
Catalog documents: a JSON object whose member `components` lists the components, or an array with that
list as its only item. Other members of the object are passed over.

The text is read from left to right and refused at the first fault. A component is read to its end
before its fields are looked at; only its declaration index is looked at in passing.
-/

namespace Assembly

open Json (Value Fault Reader Mismatch Gather)

namespace Catalog

/-- The fault of a value that is not of the expected type. An array or an object is refused before its
items are read. -/
def unexpected (expected : String) (text : List Char) : Fault :=
  match Json.skipSpaces text with
  | '[' :: _ => .mismatch (.invalidType "sequence" expected)
  | '\x7b' :: _ => .mismatch (.invalidType "map" expected)
  | text =>
    match Json.scalar text with
    | .ok (value, _) => .mismatch (.invalidType value.description expected)
    | .error fault => fault

/-- A number as a declaration index. -/
def indexOfNumber (number : Json.Number) : Except Fault UInt32 :=
  let found := (Value.number number).description
  match number with
  | .whole value =>
    match word32? value with
    | some index => .ok index
    | none => .error (.mismatch (.invalidValue found "u32"))
  | .real _ => .error (.mismatch (.invalidType found "u32"))

/-- A declaration index, or `null` for none. -/
def readIndex : Reader (Option UInt32) := fun text =>
  match Json.skipSpaces text with
  | [] => .error .ended
  | c :: rest =>
    if c = 'n' then return (none, ← Json.word ['u', 'l', 'l'] rest)
    else if c = '-' ∨ c.isDigit then do
      let (number, rest) ← Json.readNumber (c :: rest)
      return (some (← indexOfNumber number), rest)
    else .error (unexpected "u32" (c :: rest))

/-- A component of a document while it is read. -/
structure Entry where
  /-- The declaration index, if there is a member for it, which may hold none. -/
  index : Option (Option UInt32) := none
  /-- The other members, the last one first. -/
  members : List (String × Value) := []
deriving Inhabited

/-- How many arrays and objects may be nested in a member of a component. -/
def memberNesting : Nat :=
  Json.nestingLimit - 3

def entryMember (bound : Nat) (entry : Entry) (name : String) : Reader Entry := fun text =>
  if name = "declaration_index" then
    if entry.index.isSome then .error (.mismatch (.duplicateField name))
    else do
      let (index, rest) ← readIndex (← Json.colon text)
      return ({ entry with index := some index }, rest)
  else do
    let (members, rest) ←
      Json.addMember (Json.value bound memberNesting) entry.members name text
    return ({ entry with members }, rest)

/-- A component, and its declaration index if it is written. -/
def readComponent (bound : Nat) : Reader (Option UInt32 × Component) := fun text =>
  match Json.skipSpaces text with
  | '\x7b' :: rest => do
    let (entry, rest) ← Json.members (entryMember bound) bound {} rest
    let component ← ((Component.gather 0).ofMembers entry.members.reverse).mapError .mismatch
    return ((entry.index.join, component), rest)
  | text => .error (unexpected "struct DocumentComponent" text)

def readComponents (bound : Nat) : Reader (List (Option UInt32 × Component)) := fun text =>
  match Json.skipSpaces text with
  | '[' :: rest => Json.items (readComponent bound) bound rest
  | text => .error (unexpected "a sequence" text)

def documentMember (bound : Nat) (found : Option (List (Option UInt32 × Component)))
    (name : String) : Reader (Option (List (Option UInt32 × Component))) := fun text =>
  if name = "components" then
    if found.isSome then .error (.mismatch (.duplicateField name))
    else do
      let (components, rest) ← readComponents bound (← Json.colon text)
      return (some components, rest)
  else return (found, ← Json.skip bound (← Json.colon text))

def readDocument (bound : Nat) : Reader (List (Option UInt32 × Component)) := fun text =>
  match Json.skipSpaces text with
  | '\x7b' :: rest => do
    let (found, rest) ← Json.members (documentMember bound) bound none rest
    match found with
    | some components => return (components, rest)
    | none => .error (.mismatch (.missingField "components"))
  | '[' :: rest =>
    match Json.skipSpaces rest with
    | ']' :: _ =>
      .error (.mismatch (.invalidLength 0 "struct CatalogDocument with 1 element"))
    | text => do
      let (components, rest) ← readComponents bound text
      match Json.skipSpaces rest with
      | [] => .error .ended
      | ']' :: rest => return (components, rest)
      | _ => .error .malformed
  | text => .error (unexpected "struct CatalogDocument" text)

/-- The components of a document: one without a declaration index takes its place in the list. -/
def ofEntries (entries : List (Option UInt32 × Component)) : Catalog :=
  ofList (entries.mapIdx fun place (index, component) =>
    component.withIndex (index.getD (.ofNat place)))

/-- Reads a catalog document. -/
def ofText (text : String) : Except Fault Catalog := do
  let chars := text.toList
  let (entries, rest) ← readDocument chars.length chars
  if (Json.skipSpaces rest).isEmpty then .ok (ofEntries entries) else .error .malformed

end Catalog

end Assembly
