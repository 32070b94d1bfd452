import Assembly.Decimal.Word
import Assembly.Json.Fault

/-!
Numbers in a JSON text: their parts, and the number that the parts name.

The digits form a significand of 64 bits, which is then multiplied or divided by a power of ten in
floating point. So the last bits of a long fraction may differ from the nearest number.
-/

namespace Assembly.Json

/-- The parts of a number, where the digits are characters from `0` to `9`. -/
structure Numeral where
  negative : Bool
  whole : List Char
  fraction : Option (List Char)
  exponent : Option Int
deriving DecidableEq, Inhabited

def digitValue (c : Char) : Nat :=
  c.toNat - '0'.toNat

def natOfDigits (digits : List Char) : Nat :=
  digits.foldl (fun value digit => value * 10 + digitValue digit) 0

/-- The digits at the start of a text, of which there has to be one. -/
def digits (text : List Char) : Except Fault (List Char × List Char) :=
  match text.takeWhile Char.isDigit, text.dropWhile Char.isDigit with
  | [], [] => .error .ended
  | [], _ :: _ => .error .malformed
  | found, rest => .ok (found, rest)

namespace Numeral

/-- The digits before the point. A leading zero stands alone. -/
def readWhole (text : List Char) : Except Fault (List Char × List Char) := do
  let (whole, rest) ← digits text
  if whole.head? = some '0' ∧ whole ≠ ['0'] then .error .malformed else .ok (whole, rest)

def readFraction : List Char → Except Fault (Option (List Char) × List Char)
  | '.' :: rest => do
    let (fraction, rest) ← digits rest
    return (some fraction, rest)
  | rest => .ok (none, rest)

/-- The sign in front of an exponent, if there is one. -/
def readSign : List Char → Bool × List Char
  | '-' :: rest => (true, rest)
  | '+' :: rest => (false, rest)
  | rest => (false, rest)

def readExponent : List Char → Except Fault (Option Int × List Char)
  | [] => .ok (none, [])
  | c :: rest =>
    if c = 'e' ∨ c = 'E' then do
      let (negative, rest) := readSign rest
      let (found, rest) ← digits rest
      let size : Int := natOfDigits found
      return (some (if negative then -size else size), rest)
    else .ok (none, c :: rest)

def read (text : List Char) : Except Fault (Numeral × List Char) := do
  let (negative, rest) :=
    match text with
    | '-' :: rest => (true, rest)
    | _ => (false, text)
  let (whole, rest) ← readWhole rest
  let (fraction, rest) ← readFraction rest
  let (exponent, rest) ← readExponent rest
  return (⟨negative, whole, fraction, exponent⟩, rest)

/-- Appends digits to a significand as long as it fits 64 bits, and leaves the others. -/
def absorb (significand : Nat) : List Char → Nat × List Char
  | [] => (significand, [])
  | digit :: rest =>
    let next := significand * 10 + digitValue digit
    if next < wordRange64 then absorb next rest else (significand, digit :: rest)

def powerOfTen (exponent : Nat) : Binary64 :=
  .ofFraction false (Nat.pow 10 exponent) 1

/-- A significand times a power of ten, unless it is too large. The powers in use end at `10 ^ 308`:
division by a larger one takes two steps, and the rest of a third would not change the zero. -/
def scale (negative : Bool) (significand : Nat) (exponent : Int) : Option Binary64 :=
  let size := Binary64.ofFraction negative significand 1
  if 0 ≤ exponent then
    if significand = 0 then some size
    else if 308 < exponent then none
    else
      let product := size.scaleUp (powerOfTen exponent.toNat)
      if product.isInfinite then none else some product
  else if -308 ≤ exponent then some (size.scaleDown (powerOfTen (-exponent).toNat))
  else
    let rest := min 308 (-exponent - 308).toNat
    some ((size.scaleDown (powerOfTen 308)).scaleDown (powerOfTen rest))

/-- A whole number of 64 bits, or the nearest floating point number. Zero with a sign is no whole
number. -/
def wholeNumber (negative : Bool) (significand : Nat) : Number :=
  if !negative then .whole significand
  else if 0 < significand ∧ significand ≤ halfRange64 then .whole (-significand)
  else .real (.ofFraction true significand 1)

/-- The number that the parts name. Digits of the whole part that the significand has no room for
count as zeros, and such digits of the fraction are dropped. -/
def number (numeral : Numeral) : Except Fault Number :=
  let (significand, beyond) := absorb 0 numeral.whole
  if beyond.isEmpty && numeral.fraction.isNone && numeral.exponent.isNone then
    .ok (wholeNumber numeral.negative significand)
  else
    let fraction := numeral.fraction.getD []
    let (significand, dropped) := absorb significand fraction
    let places : Int := fraction.length - dropped.length
    match scale numeral.negative significand (beyond.length - places + numeral.exponent.getD 0) with
    | some value => .ok (.real value)
    | none => .error .malformed

end Numeral

def readNumber (text : List Char) : Except Fault (Number × List Char) := do
  let (numeral, rest) ← Numeral.read text
  let number ← numeral.number
  return (number, rest)

end Assembly.Json
