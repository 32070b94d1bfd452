import Assembly.Decimal.Word
import Assembly.Settings.Setting
import Assembly.Text.Hexadecimal
import Assembly.Toml.Lexeme

/-!
Numbers in a TOML document. A single line may stand between two digits.
-/

namespace Assembly.Toml

/-- The digits behind a digit, without the lines between them. A line without a digit behind it is
refused. -/
def moreDigits (isDigit : Char → Bool) : Scan (List Char)
  | [] => some ([], [])
  | '_' :: c :: rest =>
    if isDigit c then (moreDigits isDigit rest).map fun (digits, rest) => (c :: digits, rest)
    else none
  | ['_'] => none
  | c :: rest =>
    if isDigit c then (moreDigits isDigit rest).map fun (digits, rest) => (c :: digits, rest)
    else some ([], c :: rest)

/-- One or more digits. -/
def digits (isDigit : Char → Bool) : Scan (List Char)
  | [] => none
  | c :: rest =>
    if isDigit c then (moreDigits isDigit rest).map fun (digits, rest) => (c :: digits, rest)
    else none

def decimals : Scan (List Char) :=
  digits Char.isDigit

/-- The digits of a whole number. A leading zero stands alone. -/
def wholeDigits : Scan (List Char)
  | '0' :: rest => some (['0'], rest)
  | text => decimals text

def sign : List Char → Bool × List Char
  | '-' :: rest => (true, rest)
  | '+' :: rest => (false, rest)
  | text => (false, text)

/-- The number that digits name, each of which has a value below the base. -/
def natOf (base : Nat) (digits : List Char) : Nat :=
  digits.foldl (fun value digit => value * base + (Text.hexValue? digit).getD 0) 0

/-- A whole number, which has to fit a word of 64 bits with a sign. -/
def bounded (value : Int) : Option Setting :=
  if fitsSigned64 value then some (.integer value) else none

def inBase (base : Nat) (isDigit : Char → Bool) (text : List Char) :
    Option (Setting × List Char) := do
  let (found, rest) ← digits isDigit text
  return (← bounded (natOf base found), rest)

/-- The fraction behind a point, without one no digits. -/
def fraction : Scan (Option (List Char))
  | '.' :: rest => decimals.map some rest
  | rest => some (none, rest)

def exponent : Scan (Option Int)
  | [] => some (none, [])
  | c :: rest =>
    if c = 'e' ∨ c = 'E' then do
      let (negative, rest) := sign rest
      let (found, rest) ← decimals rest
      let size : Int := natOf 10 found
      return (some (if negative then -size else size), rest)
    else some (none, c :: rest)

/-- A decimal number behind its sign. One that is too large for a floating point number is refused,
unless it is negative. -/
def decimal (negative : Bool) (text : List Char) : Option (Setting × List Char) := do
  let (whole, rest) ← wholeDigits text
  let (fraction, rest) ← fraction rest
  let (exponent, rest) ← exponent rest
  match fraction, exponent with
  | none, none =>
    let size : Int := natOf 10 whole
    return (← bounded (if negative then -size else size), rest)
  | _, _ =>
    let places := fraction.getD []
    let value := Binary64.ofDecimal negative (natOf 10 (whole ++ places))
      (exponent.getD 0 - places.length)
    if value = .infinite false then none else return (.real value, rest)

/-- A number behind its sign, which may also be infinite or none. -/
def signed (negative : Bool) : Scan Setting
  | 'i' :: 'n' :: 'f' :: rest => some (.real (.infinite negative), rest)
  | 'n' :: 'a' :: 'n' :: rest => some (.real .nan, rest)
  | text => decimal negative text

/-- A number. Only one without a sign may have a base other than ten. -/
def number : Scan Setting
  | '0' :: 'x' :: rest => inBase 16 (fun c => (Text.hexValue? c).isSome) rest
  | '0' :: 'o' :: rest => inBase 8 (fun c => '0' ≤ c && c ≤ '7') rest
  | '0' :: 'b' :: rest => inBase 2 (fun c => c = '0' || c = '1') rest
  | text =>
    let (negative, rest) := sign text
    signed negative rest

end Assembly.Toml
