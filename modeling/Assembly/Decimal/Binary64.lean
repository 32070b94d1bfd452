/-!
Floating point numbers of 64 bits, held exactly, and the nearest such number to a quotient.
-/

namespace Assembly

/-- A finite number is `significand * 2 ^ exponent`, where the significand is below `2 ^ 53` and the
exponent is the smallest one possible, but at least `-1074`. -/
inductive Binary64 where
  | nan
  | infinite (negative : Bool)
  | finite (negative : Bool) (significand : Nat) (exponent : Int)
deriving DecidableEq, Inhabited

/-- The quotient rounded to the nearest natural number, halves to the even one. -/
def divNearest (numerator denominator : Nat) : Nat :=
  let quotient := numerator / denominator
  let twice := 2 * (numerator % denominator)
  if twice < denominator then quotient
  else if denominator < twice then quotient + 1
  else quotient + quotient % 2

/-- A fraction whose value is the given one divided by `2 ^ exponent`. -/
def overPowerOfTwo (numerator denominator : Nat) (exponent : Int) : Nat × Nat :=
  (numerator * Nat.pow 2 (-exponent).toNat, denominator * Nat.pow 2 exponent.toNat)

namespace Binary64

/-- The leading bit of a significand of 53 bits, which is `2 ^ 52`. -/
def leadingBit : Nat := 0x10000000000000

/-- The exponent at which the significand of the fraction has 53 bits, as far as it is allowed. -/
def exponentOf (numerator denominator : Nat) : Int :=
  let guess : Int := numerator.log2 - denominator.log2 - 52
  let (above, below) := overPowerOfTwo numerator denominator guess
  max (if above < below * leadingBit then guess - 1 else guess) (-1074)

/-- The nearest number to a fraction; beyond the largest finite number it is infinite. -/
def ofFraction (negative : Bool) (numerator denominator : Nat) : Binary64 :=
  if numerator = 0 then .finite negative 0 (-1074)
  else
    let exponent := exponentOf numerator denominator
    let (above, below) := overPowerOfTwo numerator denominator exponent
    let rounded := divNearest above below
    let (significand, exponent) :=
      if rounded = 2 * leadingBit then (leadingBit, exponent + 1) else (rounded, exponent)
    if 971 < exponent then .infinite negative else .finite negative significand exponent

/-- The nearest number to `digits * 10 ^ exponent`. An exponent far outside the range is cut, which
does not change the result as long as there are not that many digits. -/
def ofDecimal (negative : Bool) (digits : Nat) (exponent : Int) : Binary64 :=
  let limit : Int := 400 + (Nat.log2 digits : Int)
  let exponent := max (-limit) (min limit exponent)
  ofFraction negative (digits * Nat.pow 10 exponent.toNat) (Nat.pow 10 (-exponent).toNat)

/-- The size of a finite number as a fraction. -/
def fraction (significand : Nat) (exponent : Int) : Nat × Nat :=
  (significand * Nat.pow 2 exponent.toNat, Nat.pow 2 (-exponent).toNat)

def isInfinite : Binary64 → Bool
  | .infinite _ => true
  | _ => false

/-- Multiplication of sizes: the sign is the first operand's. -/
def scaleUp : Binary64 → Binary64 → Binary64
  | .finite negative m e, .finite _ n f =>
    let (a, b) := fraction m e
    let (c, d) := fraction n f
    ofFraction negative (a * c) (b * d)
  | x, _ => x

/-- Division of sizes by a number that is not zero: the sign is the first operand's. -/
def scaleDown : Binary64 → Binary64 → Binary64
  | .finite negative m e, .finite _ n f =>
    let (a, b) := fraction m e
    let (c, d) := fraction n f
    ofFraction negative (a * d) (b * c)
  | x, _ => x

end Binary64

end Assembly
