import Assembly.Json.Reader

/-!
Passing over a value that is not needed. This is more lenient than reading it: nesting has no limit,
a number may have any size, and an escape may name half of a surrogate pair. A number that the end of
the text cuts short counts as malformed.
-/

namespace Assembly.Json

/-- What an opened array or object is. -/
inductive Bracket where
  | list
  | table
deriving DecidableEq, Inhabited

/-- The text behind a string whose opening quote has been read. -/
def skipString : List Char → Except Fault (List Char)
  | [] => .error .ended
  | c :: rest =>
    if c = '"' then .ok rest
    else if c = '\\' then
      match rest with
      | [] => .error .ended
      | 'u' :: a :: b :: c :: d :: rest =>
        if (unit? a b c d).isSome then skipString rest else .error .malformed
      | letter :: rest =>
        if letter = 'u' then .error (cutUnit rest)
        else if (shortEscape? letter).isSome then skipString rest
        else .error .malformed
    else if c.toNat < 0x20 then .error .malformed
    else skipString rest

def skipNumber (text : List Char) : Except Fault (List Char) :=
  match Numeral.read text with
  | .ok (_, rest) => .ok rest
  | .error _ => .error .malformed

def skipScalar : List Char → Except Fault (List Char)
  | [] => .error .ended
  | c :: rest =>
    if c = 'n' then word ['u', 'l', 'l'] rest
    else if c = 't' then word ['r', 'u', 'e'] rest
    else if c = 'f' then word ['a', 'l', 's', 'e'] rest
    else if c = '"' then skipString rest
    else if c = '-' ∨ c.isDigit then skipNumber (c :: rest)
    else .error .malformed

/-- The name of a member and the colon behind it. -/
def skipName (text : List Char) : Except Fault (List Char) :=
  match skipSpaces text with
  | [] => .error .ended
  | '"' :: rest => do colon (← skipString rest)
  | _ => .error .malformed

mutual

/-- Passes over a value and over all that is open around it, the innermost first. Each step takes at
least one character, which bounds the number of steps. -/
def skipValue : Nat → List Bracket → List Char → Except Fault (List Char)
  | 0, _, _ => .error .malformed
  | bound + 1, around, text =>
    match skipSpaces text with
    | '[' :: rest =>
      match skipSpaces rest with
      | ']' :: rest => skipRest bound around rest
      | rest => skipValue bound (.list :: around) rest
    | '\x7b' :: rest =>
      match skipSpaces rest with
      | '\x7d' :: rest => skipRest bound around rest
      | rest => do skipValue bound (.table :: around) (← skipName rest)
    | text => do skipRest bound around (← skipScalar text)

/-- Passes over what is left of all that is open. -/
def skipRest : Nat → List Bracket → List Char → Except Fault (List Char)
  | _, [], text => .ok text
  | 0, _ :: _, _ => .error .malformed
  | bound + 1, bracket :: around, text =>
    match bracket, skipSpaces text with
    | _, [] => .error .ended
    | .list, ']' :: rest => skipRest bound around rest
    | .list, ',' :: rest => skipValue bound (.list :: around) rest
    | .table, '\x7d' :: rest => skipRest bound around rest
    | .table, ',' :: rest => do skipValue bound (.table :: around) (← skipName rest)
    | _, _ :: _ => .error .malformed

end

/-- The text behind the value at its start. -/
def skip (bound : Nat) (text : List Char) : Except Fault (List Char) :=
  skipValue (bound + 1) [] text

end Assembly.Json
