import Assembly.Decimal.Word
import Assembly.Settings.Setting
import Assembly.Text.Blank
import Assembly.Text.Hexadecimal

/-!
Settings in the variables of the process.

The value of a variable is read as a truth value, a number, a letter between apostrophes, a text between
quotes, a list between brackets or a table between braces if all of it can be read so. Otherwise it is a
text as it stands.
-/

namespace Assembly.Variable

abbrev Scan (α : Type) : Type :=
  List Char → Option (α × List Char)

def skipBlanks (text : List Char) : List Char :=
  text.dropWhile Text.isAsciiBlank

/-- Whether a character may stand in a value without quotes. -/
def isBare (c : Char) : Bool :=
  c ≠ ',' && c ≠ '\x7b' && c ≠ '\x7d' && c ≠ '[' && c ≠ ']'

/-- Whether a character may stand in a name without quotes. -/
def isNameChar (c : Char) : Bool :=
  c.isAlphanum || c = '_' || c = '-'

/-- The characters up to the closing quote, without the meaning of the escapes among them. -/
def quotedBody : Scan (List Char)
  | [] => none
  | '"' :: rest => some ([], '"' :: rest)
  | '\\' :: c :: rest => (quotedBody rest).map fun (body, rest) => ('\\' :: c :: body, rest)
  | c :: rest => (quotedBody rest).map fun (body, rest) => (c :: body, rest)

/-- The character that a number of hexadecimal digits names. -/
def codePoint? (digits : List Char) : Option Char :=
  (Text.hexNumber? digits).bind Text.scalar?

/-- Whether a character may stand for itself between quotes: all but the control characters other than
the tab. -/
def isPlain (c : Char) : Bool :=
  c = '\t' || 0x20 ≤ c.toNat && c.toNat ≠ 0x7F

/-- The characters that a text with escapes stands for. -/
def unescape : List Char → Option (List Char)
  | [] => some []
  | '\\' :: 'u' :: a :: b :: c :: d :: rest => do
    return (← codePoint? [a, b, c, d]) :: (← unescape rest)
  | '\\' :: 'U' :: a :: b :: c :: d :: e :: f :: g :: h :: rest => do
    return (← codePoint? [a, b, c, d, e, f, g, h]) :: (← unescape rest)
  | '\\' :: '"' :: rest => (unescape rest).map ('"' :: ·)
  | '\\' :: '\\' :: rest => (unescape rest).map ('\\' :: ·)
  | '\\' :: 'b' :: rest => (unescape rest).map ('\x08' :: ·)
  | '\\' :: 'f' :: rest => (unescape rest).map ('\x0c' :: ·)
  | '\\' :: 'n' :: rest => (unescape rest).map ('\n' :: ·)
  | '\\' :: 'r' :: rest => (unescape rest).map ('\r' :: ·)
  | '\\' :: 't' :: rest => (unescape rest).map ('\t' :: ·)
  | '\\' :: _ => none
  | c :: rest => if isPlain c then (unescape rest).map (c :: ·) else none

/-- The characters that begin a text and take no more bytes than the number says. -/
def fitting : Nat → List Char → List Char
  | _, [] => []
  | size, c :: rest => if c.utf8Size ≤ size then c :: fitting (size - c.utf8Size) rest else []

/-- The characters that stand between quotes. In front of the first escape, as many bytes are kept as
there are characters, so a text of ASCII is kept whole. A text without escapes stands for itself. -/
def quotedChars? (body : List Char) : Option (List Char) := do
  let front ← unescape (body.takeWhile (· ≠ '\\'))
  match body.dropWhile (· ≠ '\\') with
  | [] => return front
  | rest => return fitting front.length front ++ (← unescape rest)

/-- A text behind its opening quote. -/
def quoted : Scan String := fun text => do
  let (body, rest) ← quotedBody text
  let chars ← quotedChars? body
  match rest with
  | '"' :: rest => some (String.ofList chars, rest)
  | _ => none

def natOf (digits : List Char) : Nat :=
  digits.foldl (fun value digit => value * 10 + (digit.toNat - '0'.toNat)) 0

def allDigits (text : List Char) : Bool :=
  !text.isEmpty && text.all Char.isDigit

/-- Whether there is a minus sign in front, and what stands behind a sign. -/
def signed : List Char → Bool × List Char
  | '-' :: rest => (true, rest)
  | '+' :: rest => (false, rest)
  | text => (false, text)

/-- A whole number of 64 bits, with or without a sign. -/
def integer? (text : List Char) : Option Int :=
  let (negative, digits) := signed text
  let size := natOf digits
  if !allDigits digits then none
  else if negative then if size ≤ halfRange64 then some (-size) else none
  else if size < wordRange64 then some size
  else none

/-- The exponent behind the digits of a number, if there is nothing else. -/
def exponent? : List Char → Option Int
  | [] => some 0
  | mark :: rest =>
    let (negative, digits) := signed rest
    let size : Int := natOf digits
    if (mark = 'e' || mark = 'E') && allDigits digits then some (if negative then -size else size)
    else none

/-- A number with a decimal point, before or behind which digits may be missing. -/
def real? (text : List Char) : Option Binary64 := do
  let (negative, rest) := signed text
  let whole := rest.takeWhile Char.isDigit
  match rest.dropWhile Char.isDigit with
  | '.' :: rest =>
    let fraction := rest.takeWhile Char.isDigit
    let exponent ← exponent? (rest.dropWhile Char.isDigit)
    if whole.isEmpty && fraction.isEmpty then none
    else some (.ofDecimal negative (natOf (whole ++ fraction)) (exponent - fraction.length))
  | _ => none

/-- A value without quotes or brackets. -/
def bare (text : List Char) : Setting :=
  match real? text, integer? text with
  | some value, _ => .real value
  | none, some value => .integer value
  | none, none => .text (String.ofList text)

def name : Scan String
  | '"' :: rest => quoted rest
  | text =>
    match text.takeWhile isNameChar with
    | [] => none
    | chars => some (String.ofList chars, text.dropWhile isNameChar)

/-- Items up to the closing bracket, which may follow a comma. The number bounds how many there can
be. -/
def collect {α : Type} (item : Scan α) (closing : Char) : Nat → Scan (List α)
  | 0, _ => none
  | _, [] => none
  | bound + 1, c :: text =>
    if c = closing then some ([], text)
    else
      match item (c :: text) with
      | some (first, ',' :: rest) =>
        (collect item closing bound rest).map fun (others, rest) => (first :: others, rest)
      | some (first, other :: rest) => if other = closing then some ([first], rest) else none
      | some (_, []) => none
      | none => none

/-- A name, an equals sign and a value, with blanks around them. -/
def entry (value : Scan Setting) : Scan (String × Setting) := fun text => do
  let (name, rest) ← name (skipBlanks text)
  match skipBlanks rest with
  | '=' :: rest => do
    let (setting, rest) ← value (skipBlanks rest)
    return ((name, setting), skipBlanks rest)
  | _ => none

/-- The table of entries, of which the last one of each name counts. -/
def tableOf (entries : List (String × Setting)) : Setting :=
  .table (NameMap.ofList entries).entries

/-- A value without the blanks around it, whose lists and tables are at most `depth` deep. -/
def value (bound : Nat) : Nat → Scan Setting
  | 0, _ => none
  | depth + 1, text =>
    match skipBlanks text with
    | 't' :: 'r' :: 'u' :: 'e' :: rest => some (.flag true, skipBlanks rest)
    | 'f' :: 'a' :: 'l' :: 's' :: 'e' :: rest => some (.flag false, skipBlanks rest)
    | '\x7b' :: rest =>
      (collect (entry (value bound depth)) '\x7d' bound rest).map fun (entries, rest) =>
        (tableOf entries, skipBlanks rest)
    | '[' :: rest =>
      (collect (value bound depth) ']' bound rest).map fun (items, rest) =>
        (.list items, skipBlanks rest)
    | '"' :: rest => (quoted rest).map fun (text, rest) => (.text text, skipBlanks rest)
    | '\'' :: c :: '\'' :: rest => some (.letter c, skipBlanks rest)
    | '\'' :: _ => none
    | text => some (bare (Text.trimChars (text.takeWhile isBare)), text.dropWhile isBare)

/-- The setting that the value of a variable stands for. -/
def read (text : String) : Setting :=
  let chars := text.toList
  match value (chars.length + 1) (chars.length + 1) chars with
  | some (setting, []) => setting
  | _ => .text text

/-- Where the setting of a variable belongs. -/
def place? (name : String) : Option (List String) :=
  match Text.lowerAscii (Text.trim name) with
  | "wrapp_profiles" => some ["environment", "profiles"]
  | "wrapp_flags" => some ["environment", "flags"]
  | "wrapp_strict" => some ["planner", "strict"]
  | _ => none

/-- Settings with that of a variable on top of them, if it has a place. -/
def lay (below : Setting) (entry : String × String) : Setting :=
  match place? entry.1 with
  | some names => below.merge (.nest names (read entry.2))
  | none => below

/-- The settings in variables. Of variables for the same setting the last one counts. -/
def layer (vars : NameMap String) : Setting :=
  vars.entries.foldl lay (.table [])

end Assembly.Variable
