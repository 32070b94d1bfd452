import Assembly.Decimal.Binary64

/-!
Decimal text of floating point numbers: the fewest digits that read back as the same number, and of
those the nearest to it. How the digits are laid out is a `Layout`.
-/

namespace Assembly.Decimal

/-- The fraction `size * 2 ^ binary / 10 ^ decimal`. -/
def onGrid (size : Nat) (binary decimal : Int) : Nat × Nat :=
  (size * Nat.pow 2 binary.toNat * Nat.pow 10 (-decimal).toNat,
    Nat.pow 2 (-binary).toNat * Nat.pow 10 decimal.toNat)

/-- The numbers that read back as a floating point number, between two bounds counted in quarters
of its last binary place. The bounds belong to them if the significand is even. -/
structure Neighbourhood where
  size : Nat
  low : Nat
  high : Nat
  binary : Int
  closed : Bool

def Neighbourhood.of (significand : Nat) (exponent : Int) : Neighbourhood where
  size := 4 * significand
  low :=
    if significand = Binary64.leadingBit ∧ -1074 < exponent then 4 * significand - 1
    else 4 * significand - 2
  high := 4 * significand + 2
  binary := exponent - 2
  closed := significand % 2 = 0

/-- Whether `count * 10 ^ decimal` lies in the neighbourhood. -/
def Neighbourhood.holds (around : Neighbourhood) (count : Nat) (decimal : Int) : Bool :=
  let (low, unit) := onGrid around.low around.binary decimal
  let (high, _) := onGrid around.high around.binary decimal
  if around.closed then decide (low ≤ count * unit) && decide (count * unit ≤ high)
  else decide (low < count * unit) && decide (count * unit < high)

/-- The nearest multiple of `10 ^ decimal` that lies in the neighbourhood, as a count. -/
def Neighbourhood.nearest? (around : Neighbourhood) (decimal : Int) : Option Nat :=
  let (size, unit) := onGrid around.size around.binary decimal
  let below := size / unit
  let above := below + 1
  match around.holds below decimal, around.holds above decimal with
  | true, true =>
    if 2 * size < (below + above) * unit then some below
    else if (below + above) * unit < 2 * size then some above
    else some (below + below % 2)
  | true, false => some below
  | false, true => some above
  | false, false => none

/-- Goes from coarse grids to fine ones. The widest exponent of a finite number is 308 and the
narrowest grid that is needed has the exponent -324. -/
def Neighbourhood.search (around : Neighbourhood) : Nat → Int → Nat × Int
  | 0, decimal => (0, decimal)
  | tries + 1, decimal =>
    match around.nearest? decimal with
    | some count => (count, decimal)
    | none => around.search tries (decimal - 1)

/-- The digits of a finite number other than zero, as a natural number and a power of ten. -/
def shortest (significand : Nat) (exponent : Int) : Nat × Int :=
  (Neighbourhood.of significand exponent).search 650 309

/-- The decisions about the text of a number. -/
structure Layout where
  /-- Whether a number with this decimal exponent is written without an exponent. -/
  positional : Int → Bool
  /-- What follows a whole number that is written without an exponent. -/
  wholeMark : String
  nan : String
  infinity : String

/-- The fraction of a number without an exponent is always marked. -/
def marked : Layout where
  positional exponent := -5 ≤ exponent && exponent ≤ 15
  wholeMark := ".0"
  nan := "NaN"
  infinity := "inf"

/-- Never with an exponent. -/
def plain : Layout where
  positional _ := true
  wholeMark := ""
  nan := "NaN"
  infinity := "inf"

def zeros (count : Nat) : List Char :=
  List.replicate count '0'

/-- The digits of `digits * 10 ^ exponent` around the decimal point. -/
def positionalChars (layout : Layout) (digits : List Char) (exponent : Int) : List Char :=
  if 0 ≤ exponent then digits ++ zeros exponent.toNat ++ layout.wholeMark.toList
  else
    let whole := digits.length + exponent
    if 0 < whole then digits.take whole.toNat ++ ['.'] ++ digits.drop whole.toNat
    else ['0', '.'] ++ zeros (-whole).toNat ++ digits

/-- An exponent has a sign, also if it is not negative. -/
def exponentChars (exponent : Int) : List Char :=
  (if exponent < 0 then '-' else '+') :: (toString exponent.natAbs).toList

def scientificChars (digits : List Char) (exponent : Int) : List Char :=
  let fraction := digits.drop 1
  digits.take 1 ++ (if fraction.isEmpty then [] else '.' :: fraction) ++ 'e' :: exponentChars exponent

def sizeChars (layout : Layout) (significand : Nat) (exponent : Int) : List Char :=
  if significand = 0 then '0' :: layout.wholeMark.toList
  else
    let (count, power) := shortest significand exponent
    let digits := (toString count).toList
    let leading := power + digits.length - 1
    if layout.positional leading then positionalChars layout digits power
    else scientificChars digits leading

def render (layout : Layout) : Binary64 → String
  | .nan => layout.nan
  | .infinite negative => (if negative then "-" else "") ++ layout.infinity
  | .finite negative significand exponent =>
    (if negative then "-" else "") ++ String.ofList (sizeChars layout significand exponent)

end Assembly.Decimal
