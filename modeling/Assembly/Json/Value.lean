import Assembly.Decimal.Binary64

/-!
JSON values. The members of an object keep the order in which they are written, and a name may occur
more than once.
-/

namespace Assembly.Json

/-- Whole numbers that fit a signed or an unsigned word of 64 bits are kept apart from all others. -/
inductive Number where
  | whole (value : Int)
  | real (value : Binary64)
deriving DecidableEq, Inhabited

inductive Value where
  | null
  | bool (value : Bool)
  | number (value : Number)
  | string (value : String)
  | array (items : List Value)
  | object (members : List (String × Value))
deriving Inhabited

namespace Value

def nat (value : Nat) : Value :=
  .number (.whole value)

def strings (values : List String) : Value :=
  .array (values.map .string)

/-- The value itself, or `null` where there is none. -/
def orNull {α : Type} (write : α → Value) : Option α → Value
  | none => .null
  | some value => write value

end Value

/-- The value of the first member with a name. -/
def member? (name : String) (members : List (String × Value)) : Option Value :=
  members.lookup name

end Assembly.Json
