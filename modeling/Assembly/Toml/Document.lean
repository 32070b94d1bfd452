import Assembly.Toml.Value
import Assembly.Toml.Wrapped

/-!
TOML documents: lines with values, and headers of tables.
-/

namespace Assembly.Toml

/-- A header behind its first bracket. -/
def header (bound : Nat) : Scan Header := fun text => do
  let (isElement, text) :=
    match text with
    | '[' :: rest => (true, rest)
    | _ => (false, text)
  let (names, rest) ← dottedName bound text
  let name ← names.getLast?
  let found : Header := ⟨names.dropLast, name, isElement⟩
  match isElement, rest with
  | true, ']' :: ']' :: rest => return (found, rest)
  | false, ']' :: rest => return (found, rest)
  | _, _ => none

/-- One line, of which the blanks at the start have been read. -/
def line (bound : Nat) (progress : Progress) (text : List Char) :
    Option (Progress × List Char) :=
  match text with
  | '[' :: rest => do
    let (header, rest) ← header bound rest
    return (← progress.openHeader header, ← lineEnd? rest)
  | '#' :: _ => do return (progress, ← lineEnd? text)
  | '\n' :: _ => do return (progress, ← lineEnd? text)
  | '\r' :: _ => do return (progress, ← lineEnd? text)
  | _ => do
    let ((names, setting), rest) ← keyed (value bound nestingLimit) bound text
    let rest ← lineEnd? rest
    let name ← names.getLast?
    return (← progress.assign names.dropLast name setting, rest)

def lines (bound : Nat) : Nat → Progress → List Char → Option Progress
  | 0, _, _ => none
  | more + 1, progress, text =>
    match skipBlanks text with
    | [] => some progress
    | text => do
      let (progress, rest) ← line bound progress text
      lines bound more progress rest

/-- The byte order mark, which may stand at the start of a document. -/
def byteOrderMark : Char := '\uFEFF'

/-- The table that a document describes, unless it is malformed. It is never a wrapper itself. -/
def read (document : String) : Option Setting := do
  let chars := document.toList
  let chars := if chars.head? = some byteOrderMark then chars.drop 1 else chars
  let bound := chars.length + 1
  let progress ← lines bound bound {} chars
  return .table (← unwrappedEntries? (settings (← progress.close)))

end Assembly.Toml
