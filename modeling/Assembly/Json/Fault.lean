import Assembly.Decimal.Shortest
import Assembly.Json.Value
import Assembly.Text.Alternatives
import Assembly.Text.Quoted

/-!
Why a JSON text is refused: its syntax, or a well-formed part that is not what is expected there.
-/

namespace Assembly.Json

open Text (ticked alternatives)

/-- A well-formed part of a text that does not fit. -/
inductive Mismatch where
  | invalidType (found expected : String)
  | invalidValue (found expected : String)
  | invalidLength (length : Nat) (expected : String)
  | unknownVariant (found : String) (expected : List String)
  | missingField (name : String)
  | duplicateField (name : String)
deriving DecidableEq, Inhabited

inductive Fault where
  /-- The text ends too early. -/
  | ended
  | malformed
  | mismatch (cause : Mismatch)
deriving DecidableEq, Inhabited

def Mismatch.message : Mismatch → String
  | .invalidType found expected => "invalid type: " ++ found ++ ", expected " ++ expected
  | .invalidValue found expected => "invalid value: " ++ found ++ ", expected " ++ expected
  | .invalidLength length expected =>
    "invalid length " ++ toString length ++ ", expected " ++ expected
  | .unknownVariant found expected =>
    "unknown variant " ++ ticked found ++ ", expected " ++ alternatives expected
  | .missingField name => "missing field " ++ ticked name
  | .duplicateField name => "duplicate field " ++ ticked name

/-- What a value is called where another one is expected. -/
def Value.description : Value → String
  | .null => "null"
  | .bool value => "boolean " ++ ticked (toString value)
  | .number (.whole value) => "integer " ++ ticked (toString value)
  | .number (.real value) => "floating point " ++ ticked (Decimal.render Decimal.marked value)
  | .string value => "string " ++ Text.quote value
  | .array _ => "sequence"
  | .object _ => "map"

end Assembly.Json
