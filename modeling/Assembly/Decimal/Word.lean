/-!
The whole numbers that fit words of 32 and 64 bits.
-/

namespace Assembly

/-- The size of the range of 32 bits, which is `2 ^ 32`. -/
def wordRange32 : Nat := 0x100000000

/-- The size of the range of 64 bits, which is `2 ^ 64`. -/
def wordRange64 : Nat := 0x10000000000000000

/-- The size of each half of the range of 64 bits, which is `2 ^ 63`. -/
def halfRange64 : Nat := 0x8000000000000000

/-- The number as one of 32 bits without a sign, if it fits. -/
def word32? (value : Int) : Option UInt32 :=
  match value with
  | .ofNat size => if size < wordRange32 then some (.ofNat size) else none
  | .negSucc _ => none

/-- Whether a number fits 64 bits of which one is the sign. -/
def fitsSigned64 : Int → Bool
  | .ofNat size => size < halfRange64
  | .negSucc size => size < halfRange64

end Assembly
