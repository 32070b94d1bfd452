import Assembly.Toml.Draft
import Assembly.Toml.Moment
import Assembly.Toml.Numeral
import Assembly.Toml.Text

/-!
Values in a TOML document. A date or a time is a table with one entry, which holds its text.
-/

namespace Assembly.Toml

/-- The name under which the text of a date or a time stands. -/
def momentName : String := "$__toml_private_datetime"

def momentSetting (text : List Char) : Setting :=
  .table [(momentName, .text (String.ofList text))]

/-- A value that is neither an array nor a table. -/
def simple (bound : Nat) : Scan Setting
  | 't' :: 'r' :: 'u' :: 'e' :: rest => some (.flag true, rest)
  | 'f' :: 'a' :: 'l' :: 's' :: 'e' :: rest => some (.flag false, rest)
  | '"' :: rest => (string bound).map .text ('"' :: rest)
  | '\'' :: rest => (string bound).map .text ('\'' :: rest)
  | text => if isMoment text then (moment text).map fun (found, rest) => (momentSetting found, rest)
    else number text

/-- The items of an array behind its opening bracket. A comma may stand behind the last one, and lines
may end anywhere. -/
def items (value : Scan Setting) (bound : Nat) : Nat → Scan (List Setting)
  | 0, _ => none
  | more + 1, text =>
    match skipLines bound text with
    | ']' :: rest => some ([], rest)
    | text => do
      let (first, rest) ← value text
      match skipLines bound rest with
      | ']' :: rest => return ([first], rest)
      | ',' :: rest => do
        let (others, rest) ← items value bound more rest
        return (first :: others, rest)
      | _ => none

/-- A dotted name and a value with an equals sign between them. -/
def keyed (value : Scan Setting) (bound : Nat) : Scan (List String × Setting) := fun text => do
  let (names, rest) ← dottedName bound text
  match rest with
  | '=' :: rest => do
    let (setting, rest) ← value (skipBlanks rest)
    return ((names, setting), rest)
  | _ => none

/-- Adds a value under a dotted name, of which there is at least one part. -/
def assignNames (names : List String) (setting : Setting) (entries : Entries) : Option Entries :=
  match names.getLast? with
  | some name => assign names.dropLast name setting entries
  | none => none

/-- The entries of a table behind its first one. It stands on one line and no comma comes behind the
last entry. -/
def moreKeyed (value : Scan Setting) (bound : Nat) : Nat → Entries → Scan Entries
  | 0, _, _ => none
  | more + 1, entries, text =>
    match skipBlanks text with
    | '\x7d' :: rest => some (entries, rest)
    | ',' :: rest => do
      let ((names, setting), rest) ← keyed value bound rest
      moreKeyed value bound more (← assignNames names setting entries) rest
    | _ => none

/-- The entries of a table behind its opening brace. -/
def inlineTable (value : Scan Setting) (bound : Nat) : Scan Entries := fun text =>
  match skipBlanks text with
  | '\x7d' :: rest => some ([], rest)
  | text => do
    let ((names, setting), rest) ← keyed value bound text
    moreKeyed value bound bound (← assignNames names setting []) rest

/-- A value in which at most `depth` arrays and tables are nested. -/
def value (bound : Nat) : Nat → Scan Setting
  | 0, text =>
    match text with
    | '[' :: _ => none
    | '\x7b' :: _ => none
    | text => simple bound text
  | depth + 1, text =>
    match text with
    | '[' :: rest => (items (value bound depth) bound bound).map .list rest
    | '\x7b' :: rest =>
      (inlineTable (value bound depth) bound).map (fun entries => .table (settings entries)) rest
    | text => simple bound text

end Assembly.Toml
