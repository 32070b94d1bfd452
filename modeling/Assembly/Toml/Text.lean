import Assembly.Text.Hexadecimal
import Assembly.Toml.Lexeme

/-!
Strings and names in a TOML document. Between quotes a backslash begins an escape, between apostrophes
all characters stand for themselves, and three of either kind hold a text of several lines.
-/

namespace Assembly.Toml

/-- The character that a backslash and a letter stand for. -/
def escape? (letter : Char) : Option Char :=
  match letter with
  | 'b' => some '\x08'
  | 't' => some '\t'
  | 'n' => some '\n'
  | 'f' => some '\x0c'
  | 'r' => some '\r'
  | '"' => some '"'
  | '\\' => some '\\'
  | _ => none

def codePoint? (digits : List Char) : Option Char :=
  (Text.hexNumber? digits).bind Text.scalar?

/-- The character of an escape whose backslash has been read. -/
def escaped : Scan Char
  | 'u' :: a :: b :: c :: d :: rest => (codePoint? [a, b, c, d]).map (·, rest)
  | 'U' :: a :: b :: c :: d :: e :: f :: g :: h :: rest =>
    (codePoint? [a, b, c, d, e, f, g, h]).map (·, rest)
  | letter :: rest => (escape? letter).map (·, rest)
  | [] => none

/-- The characters of a text on one line behind its opening quote. The number bounds how many there
can be. -/
def basicBody : Nat → Scan (List Char)
  | 0, _ => none
  | _, [] => none
  | bound + 1, c :: rest =>
    if c = '"' then some ([], rest)
    else if c = '\\' then do
      let (c, rest) ← escaped rest
      let (chars, rest) ← basicBody bound rest
      return (c :: chars, rest)
    else if isPrintable c then do
      let (chars, rest) ← basicBody bound rest
      return (c :: chars, rest)
    else none

/-- The characters of a text on one line behind its opening apostrophe. -/
def literalBody : Scan (List Char)
  | [] => none
  | c :: rest =>
    if c = '\'' then some ([], rest)
    else if isPrintable c then (literalBody rest).map fun (chars, rest) => (c :: chars, rest)
    else none

/-- A run of quotes in a text of several lines. Three or more end it, and the one or two in front of
the last three belong to the text. -/
def closing? (quote : Char) (text : List Char) : Option (List Char × List Char) :=
  let count := min 5 (text.takeWhile (· = quote)).length
  if count < 3 then none else some (List.replicate (count - 3) quote, text.drop count)

/-- Blanks and line breaks. -/
def skipBlankLines (text : List Char) : Nat → List Char
  | 0 => text
  | bound + 1 =>
    match lineBreak? (skipBlanks text) with
    | some rest => skipBlankLines rest bound
    | none => skipBlanks text

/-- The characters of a text of several lines behind its opening quotes. A backslash at the end of a
line takes away the line break and all blanks behind it. -/
def basicLines : Nat → Scan (List Char)
  | 0, _ => none
  | _, [] => none
  | bound + 1, c :: rest =>
    match closing? '"' (c :: rest) with
    | some found => some found
    | none =>
      if c = '\\' then
        match lineBreak? (skipBlanks rest) with
        | some below => basicLines bound (skipBlankLines below bound)
        | none => do
          let (c, rest) ← escaped rest
          let (chars, rest) ← basicLines bound rest
          return (c :: chars, rest)
      else
        match lineBreak? (c :: rest) with
        | some below => (basicLines bound below).map fun (chars, rest) => ('\n' :: chars, rest)
        | none =>
          if isPrintable c then do
            let (chars, rest) ← basicLines bound rest
            return (c :: chars, rest)
          else none

/-- The characters of a text of several lines behind its opening apostrophes. -/
def literalLines : Nat → Scan (List Char)
  | 0, _ => none
  | _, [] => none
  | bound + 1, c :: rest =>
    match closing? '\'' (c :: rest) with
    | some found => some found
    | none =>
      match lineBreak? (c :: rest) with
      | some below => (literalLines bound below).map fun (chars, rest) => ('\n' :: chars, rest)
      | none =>
        if isPrintable c then do
          let (chars, rest) ← literalLines bound rest
          return (c :: chars, rest)
        else none

/-- A text of several lines does not hold a line break at its very start. -/
def skipFirstBreak (text : List Char) : List Char :=
  (lineBreak? text).getD text

def stringChars (bound : Nat) : Scan (List Char)
  | '"' :: '"' :: '"' :: rest => basicLines bound (skipFirstBreak rest)
  | '"' :: rest => basicBody bound rest
  | '\'' :: '\'' :: '\'' :: rest => literalLines bound (skipFirstBreak rest)
  | '\'' :: rest => literalBody rest
  | _ => none

def string (bound : Nat) : Scan String :=
  (stringChars bound).map String.ofList

def isNameChar (c : Char) : Bool :=
  c.isAlphanum || c = '_' || c = '-'

/-- A name: letters, digits, lines and dashes, or a text on one line. -/
def name (bound : Nat) : Scan String
  | '"' :: rest => (basicBody bound).map String.ofList rest
  | '\'' :: rest => (literalBody.map String.ofList : Scan String) rest
  | text =>
    match text.takeWhile isNameChar with
    | [] => none
    | chars => some (String.ofList chars, text.dropWhile isNameChar)

/-- Names with points and blanks between them, the number of which is bounded. -/
def names (bound : Nat) : Nat → Scan (List String)
  | 0, _ => none
  | more + 1, text => do
    let (first, rest) ← name bound (skipBlanks text)
    match skipBlanks rest with
    | '.' :: rest => do
      let (others, rest) ← names bound more rest
      return (first :: others, rest)
    | rest => return ([first], rest)

/-- How many names a dotted name may have, and how deep arrays and tables may be nested. -/
def nestingLimit : Nat := 79

/-- A dotted name with the blanks around it. -/
def dottedName (bound : Nat) : Scan (List String) :=
  names bound nestingLimit

end Assembly.Toml
