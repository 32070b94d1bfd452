/-!
The smallest parts of a TOML document: blanks, comments and the ends of lines.
-/

namespace Assembly.Toml

/-- Reads the start of a text and returns what it has read with the rest, or refuses. -/
abbrev Scan (α : Type) : Type :=
  List Char → Option (α × List Char)

/-- Replaces what has been read. -/
def Scan.map {α β : Type} (f : α → β) (scan : Scan α) : Scan β := fun text =>
  (scan text).map fun (value, rest) => (f value, rest)

def isBlank (c : Char) : Bool :=
  c = ' ' || c = '\t'

def skipBlanks (text : List Char) : List Char :=
  text.dropWhile isBlank

/-- Whether a character may stand in a comment: all but the control characters other than the tab. -/
def isPrintable (c : Char) : Bool :=
  c = '\t' || 0x20 ≤ c.toNat && c.toNat ≠ 0x7F

/-- The text behind a line break, if there is one at its start. -/
def lineBreak? : List Char → Option (List Char)
  | '\n' :: rest => some rest
  | '\r' :: '\n' :: rest => some rest
  | _ => none

/-- The text behind a comment, if there is one at its start. -/
def skipComment : List Char → List Char
  | '#' :: rest => rest.dropWhile isPrintable
  | text => text

/-- The text behind the rest of a line, which may hold a comment. -/
def lineEnd? (text : List Char) : Option (List Char) :=
  match skipComment (skipBlanks text) with
  | [] => some []
  | text => lineBreak? text

/-- The text behind blanks, line breaks and comments. A comment without a line break behind it stays.
The number bounds how many lines there can be. -/
def skipLines : Nat → List Char → List Char
  | 0, text => text
  | bound + 1, text =>
    let text := skipBlanks text
    match lineBreak? (skipComment text) with
    | some rest => skipLines bound rest
    | none => text

end Assembly.Toml
