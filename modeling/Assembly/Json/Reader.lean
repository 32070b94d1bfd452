import Assembly.Json.Numeral
import Assembly.Text.Hexadecimal

/-!
Reading JSON values from a text. A reader takes the text and returns what it has read with the rest.
Arrays and objects are read by loops over the reader of their items, so that a document can be read
item by item and refused at the first item that does not fit.
-/

namespace Assembly.Json

abbrev Reader (α : Type) : Type :=
  List Char → Except Fault (α × List Char)

def isSpace (c : Char) : Bool :=
  c = ' ' || c = '\n' || c = '\t' || c = '\r'

def skipSpaces (text : List Char) : List Char :=
  text.dropWhile isSpace

/-- Reads the rest of a word whose first letter has been read. -/
def word : List Char → List Char → Except Fault (List Char)
  | [], text => .ok text
  | _ :: _, [] => .error .ended
  | expected :: more, c :: rest => if c = expected then word more rest else .error .malformed

/-- The 16 bits that four hexadecimal digits name. -/
def unit? (a b c d : Char) : Option Nat :=
  Text.hexNumber? [a, b, c, d]

def isHighSurrogate (unit : Nat) : Bool :=
  0xD800 ≤ unit && unit ≤ 0xDBFF

def isLowSurrogate (unit : Nat) : Bool :=
  0xDC00 ≤ unit && unit ≤ 0xDFFF

/-- The character outside the basic plane that a pair of surrogates names. -/
def pairedChar (high low : Nat) : Char :=
  Char.ofNat (0x10000 + (high - 0xD800) * 0x400 + (low - 0xDC00))

/-- What is wrong where four digits are expected and fewer than four characters are left. The text
has only ended too early if it lacks bytes. -/
def cutUnit (rest : List Char) : Fault :=
  if rest.foldl (fun size c => size + c.utf8Size) 0 < 4 then .ended else .malformed

/-- What is wrong where the second half of a pair of surrogates is expected. -/
def cutPair : List Char → Fault
  | [] => .ended
  | ['\\'] => .ended
  | '\\' :: 'u' :: rest => cutUnit rest
  | _ => .malformed

/-- The character that a backslash and a letter stand for. -/
def shortEscape? (c : Char) : Option Char :=
  match c with
  | '"' => some '"'
  | '\\' => some '\\'
  | '/' => some '/'
  | 'b' => some '\x08'
  | 'f' => some '\x0c'
  | 'n' => some '\n'
  | 'r' => some '\r'
  | 't' => some '\t'
  | _ => none

/-- Puts a character in front of the characters that are read behind it. -/
def before (c : Char) : Except Fault (List Char × List Char) → Except Fault (List Char × List Char)
  | .ok (chars, rest) => .ok (c :: chars, rest)
  | .error fault => .error fault

/-- The characters of a string whose opening quote has been read. -/
def stringBody : Reader (List Char)
  | [] => .error .ended
  | c :: rest =>
    if c = '"' then .ok ([], rest)
    else if c = '\\' then
      match rest with
      | [] => .error .ended
      | 'u' :: a :: b :: c :: d :: rest =>
        match unit? a b c d with
        | none => .error .malformed
        | some unit =>
          if isHighSurrogate unit then
            match rest with
            | '\\' :: 'u' :: a :: b :: c :: d :: rest =>
              match unit? a b c d with
              | none => .error .malformed
              | some low =>
                if isLowSurrogate low then before (pairedChar unit low) (stringBody rest)
                else .error .malformed
            | _ => .error (cutPair rest)
          else if isLowSurrogate unit then .error .malformed
          else before (Char.ofNat unit) (stringBody rest)
      | letter :: rest =>
        if letter = 'u' then .error (cutUnit rest)
        else
          match shortEscape? letter with
          | some c => before c (stringBody rest)
          | none => .error .malformed
    else if c.toNat < 0x20 then .error .malformed
    else before c (stringBody rest)

def string : Reader String := fun text => do
  let (chars, rest) ← stringBody text
  return (String.ofList chars, rest)

/-- A value that is neither an array nor an object. -/
def scalar : Reader Value
  | [] => .error .ended
  | c :: rest =>
    if c = 'n' then return (.null, ← word ['u', 'l', 'l'] rest)
    else if c = 't' then return (.bool true, ← word ['r', 'u', 'e'] rest)
    else if c = 'f' then return (.bool false, ← word ['a', 'l', 's', 'e'] rest)
    else if c = '"' then do
      let (value, rest) ← string rest
      return (.string value, rest)
    else if c = '-' ∨ c.isDigit then do
      let (number, rest) ← readNumber (c :: rest)
      return (.number number, rest)
    else .error .malformed

/-- The items behind an item of an array. The number bounds how many there can be. -/
def moreItems {α : Type} (item : Reader α) : Nat → Reader (List α)
  | 0, _ => .error .malformed
  | bound + 1, text =>
    match skipSpaces text with
    | [] => .error .ended
    | ']' :: rest => .ok ([], rest)
    | ',' :: rest => do
      let (first, rest) ← item rest
      let (others, rest) ← moreItems item bound rest
      return (first :: others, rest)
    | _ => .error .malformed

/-- The items of an array whose opening bracket has been read. -/
def items {α : Type} (item : Reader α) (bound : Nat) : Reader (List α) := fun text =>
  match skipSpaces text with
  | ']' :: rest => .ok ([], rest)
  | text => do
    let (first, rest) ← item text
    let (others, rest) ← moreItems item bound rest
    return (first :: others, rest)

section Members

variable {σ : Type} (member : σ → String → Reader σ)

/-- The name of a member, and what `member` reads behind the name. -/
def named (state : σ) : Reader σ := fun text =>
  match skipSpaces text with
  | [] => .error .ended
  | '"' :: rest => do
    let (name, rest) ← string rest
    member state name rest
  | _ => .error .malformed

/-- The members behind a member of an object. -/
def moreMembers : Nat → σ → Reader σ
  | 0, _, _ => .error .malformed
  | bound + 1, state, text =>
    match skipSpaces text with
    | [] => .error .ended
    | '\x7d' :: rest => .ok (state, rest)
    | ',' :: rest => do
      let (state, rest) ← named member state rest
      moreMembers bound state rest
    | _ => .error .malformed

/-- The members of an object whose opening brace has been read: `member` takes the state that the
members before have left, and the text behind the name. -/
def members (bound : Nat) (state : σ) : Reader σ := fun text =>
  match skipSpaces text with
  | '\x7d' :: rest => .ok (state, rest)
  | text => do
    let (state, rest) ← named member state text
    moreMembers member bound state rest

end Members

/-- The colon between a name and its value. -/
def colon (text : List Char) : Except Fault (List Char) :=
  match skipSpaces text with
  | [] => .error .ended
  | ':' :: rest => .ok rest
  | _ => .error .malformed

/-- Reads a member with the reader of its value, and adds it to those before it, the last one first. -/
def addMember (value : Reader Value) (found : List (String × Value)) (name : String) :
    Reader (List (String × Value)) := fun text => do
  let (value, rest) ← value (← colon text)
  return ((name, value) :: found, rest)

/-- A value in which at most `depth` arrays and objects are nested. -/
def value (bound : Nat) : Nat → Reader Value
  | 0, text =>
    match skipSpaces text with
    | '[' :: _ => .error .malformed
    | '\x7b' :: _ => .error .malformed
    | text => scalar text
  | depth + 1, text =>
    match skipSpaces text with
    | '[' :: rest => do
      let (found, rest) ← items (value bound depth) bound rest
      return (.array found, rest)
    | '\x7b' :: rest => do
      let (found, rest) ← members (addMember (value bound depth)) bound [] rest
      return (.object found.reverse, rest)
    | text => scalar text

/-- How many arrays and objects may be nested. -/
def nestingLimit : Nat := 127

/-- A text that holds one value and nothing behind it but blanks. -/
def readValue (text : String) : Except Fault Value := do
  let chars := text.toList
  let (found, rest) ← value chars.length nestingLimit chars
  if (skipSpaces rest).isEmpty then .ok found else .error .malformed

end Assembly.Json
