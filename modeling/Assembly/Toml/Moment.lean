import Assembly.Toml.Lexeme

/-!
Dates and times in a TOML document, and the one text that each of them has.
-/

namespace Assembly.Toml

/-- A number of exactly `count` digits between two bounds. -/
def fixed (count low high : Nat) : Scan Nat := fun text =>
  let digits := text.take count
  let value := digits.foldl (fun value digit => value * 10 + (digit.toNat - '0'.toNat)) 0
  if digits.length = count ∧ digits.all Char.isDigit ∧ low ≤ value ∧ value ≤ high then
    some (value, text.drop count)
  else none

def skipChar (c : Char) : List Char → Option (List Char)
  | [] => none
  | d :: rest => if d = c then some rest else none

def isLeapYear (year : Nat) : Bool :=
  year % 4 = 0 && (year % 100 ≠ 0 || year % 400 = 0)

def daysIn (year month : Nat) : Nat :=
  if month = 2 then if isLeapYear year then 29 else 28
  else if month ∈ [4, 6, 9, 11] then 30
  else 31

/-- A number with leading zeros. -/
def padded (width value : Nat) : List Char :=
  let digits := (toString value).toList
  List.replicate (width - digits.length) '0' ++ digits

def date : Scan (List Char) := fun text => do
  let (year, rest) ← fixed 4 0 9999 text
  let (month, rest) ← fixed 2 1 12 (← skipChar '-' rest)
  let (day, rest) ← fixed 2 1 (daysIn year month) (← skipChar '-' rest)
  return (padded 4 year ++ '-' :: padded 2 month ++ '-' :: padded 2 day, rest)

/-- The fraction of a second, of which nine digits count. Zeros at its end are not written. -/
def secondFraction : Scan (List Char)
  | '.' :: rest =>
    match rest.takeWhile Char.isDigit with
    | [] => none
    | digits =>
      let kept := ((digits.take 9).reverse.dropWhile (· = '0')).reverse
      some (if kept.isEmpty then [] else '.' :: kept, rest.dropWhile Char.isDigit)
  | rest => some ([], rest)

/-- A time of day. The last minute of a day may have a second more. -/
def time : Scan (List Char) := fun text => do
  let (hour, rest) ← fixed 2 0 23 text
  let (minute, rest) ← fixed 2 0 59 (← skipChar ':' rest)
  let (second, rest) ← fixed 2 0 60 (← skipChar ':' rest)
  let (fraction, rest) ← secondFraction rest
  return (padded 2 hour ++ ':' :: padded 2 minute ++ ':' :: padded 2 second ++ fraction, rest)

/-- Hours and minutes behind a sign. Without a difference the sign is written as a plus. -/
def difference (negative : Bool) (text : List Char) : Option (List Char × List Char) := do
  let (hour, rest) ← fixed 2 0 23 text
  let (minute, rest) ← fixed 2 0 59 (← skipChar ':' rest)
  let mark := if negative && 0 < hour * 60 + minute then '-' else '+'
  return (mark :: padded 2 hour ++ ':' :: padded 2 minute, rest)

/-- The distance from universal time, if it is given. -/
def zone : Scan (List Char)
  | 'Z' :: rest => some (['Z'], rest)
  | 'z' :: rest => some (['Z'], rest)
  | '+' :: rest => difference false rest
  | '-' :: rest => difference true rest
  | rest => some ([], rest)

/-- The time of day behind a date, if there is one. -/
def timeOfDay : Scan (List Char)
  | [] => some ([], [])
  | c :: rest =>
    if c = 'T' || c = 't' || c = ' ' then
      match skipChar ':' (rest.drop 2), (fixed 2 0 23 rest) with
      | some _, some _ => do
        let (time, rest) ← time rest
        let (zone, rest) ← zone rest
        return ('T' :: time ++ zone, rest)
      | _, _ => some ([], c :: rest)
    else some ([], c :: rest)

/-- Whether a text begins like a date or a time. -/
def isMoment (text : List Char) : Bool :=
  let count := (text.takeWhile Char.isDigit).length
  match count, text.drop count with
  | 4, '-' :: _ => true
  | 2, ':' :: _ => true
  | _, _ => false

/-- A date, a time or both. -/
def moment (text : List Char) : Option (List Char × List Char) :=
  match text.drop 2 with
  | ':' :: _ => time text
  | _ => do
    let (date, rest) ← date text
    let (time, rest) ← timeOfDay rest
    return (date ++ time, rest)

end Assembly.Toml
