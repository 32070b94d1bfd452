import Assembly.Decimal.Shortest
import Assembly.Json.Value

/-!
The text of a JSON value, either on one line without blanks or with two blanks for each level.
-/

namespace Assembly.Json

/-- The digit of a number below sixteen, in lower case. -/
def hexDigit (n : Nat) : Char :=
  Nat.digitChar n

/-- A character inside a string. All but the quote, the backslash and the control characters stand
for themselves. -/
def escapeChar (c : Char) : List Char :=
  if c = '"' then ['\\', '"']
  else if c = '\\' then ['\\', '\\']
  else if c = '\x08' then ['\\', 'b']
  else if c = '\x0c' then ['\\', 'f']
  else if c = '\n' then ['\\', 'n']
  else if c = '\r' then ['\\', 'r']
  else if c = '\t' then ['\\', 't']
  else if c.toNat < 0x20 then
    ['\\', 'u', '0', '0', hexDigit (c.toNat / 16), hexDigit (c.toNat % 16)]
  else [c]

def stringChars (value : String) : List Char :=
  '"' :: value.toList.flatMap escapeChar ++ ['"']

def Number.chars : Number → List Char
  | .whole value => (toString value).toList
  | .real value => (Decimal.render Decimal.marked value).toList

/-- The decisions about blanks: what stands before an item at a depth, and after a name's colon. -/
structure Spacing where
  line : Nat → List Char
  afterColon : List Char

def compact : Spacing where
  line _ := []
  afterColon := []

def indented : Spacing where
  line depth := '\n' :: List.replicate (2 * depth) ' '
  afterColon := [' ']

/-- Items between brackets, each on a line of its own one level deeper. Without items the brackets
stand side by side. -/
def enclose (spacing : Spacing) (depth : Nat) (opening closing : Char) :
    List (List Char) → List Char
  | [] => [opening, closing]
  | first :: rest =>
    opening :: spacing.line (depth + 1) ++ first
      ++ rest.flatMap (fun item => ',' :: spacing.line (depth + 1) ++ item)
      ++ spacing.line depth ++ [closing]

mutual

def Value.chars (spacing : Spacing) (depth : Nat) : Value → List Char
  | .null => "null".toList
  | .bool value => (toString value).toList
  | .number value => value.chars
  | .string value => stringChars value
  | .array items => enclose spacing depth '[' ']' (itemChars spacing (depth + 1) items)
  | .object members =>
    enclose spacing depth '\x7b' '\x7d' (memberChars spacing (depth + 1) members)
termination_by structural value => value

def itemChars (spacing : Spacing) (depth : Nat) : List Value → List (List Char)
  | [] => []
  | item :: rest => item.chars spacing depth :: itemChars spacing depth rest
termination_by structural items => items

def memberChars (spacing : Spacing) (depth : Nat) : List (String × Value) → List (List Char)
  | [] => []
  | (name, value) :: rest =>
    (stringChars name ++ ':' :: spacing.afterColon ++ value.chars spacing depth)
      :: memberChars spacing depth rest
termination_by structural members => members

end

def Value.write (spacing : Spacing) (value : Value) : String :=
  String.ofList (value.chars spacing 0)

end Assembly.Json
