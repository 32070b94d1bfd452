/-!
Blank characters, trimming, and the splitting of joined lists.

A character is blank if it has the Unicode property `White_Space`.
-/

namespace Assembly.Text

/-- The code points with the property `White_Space`, as inclusive ranges. -/
def blankRanges : List (Nat × Nat) :=
  [(0x9, 0xD), (0x20, 0x20), (0x85, 0x85), (0xA0, 0xA0), (0x1680, 0x1680), (0x2000, 0x200A),
    (0x2028, 0x2029), (0x202F, 0x202F), (0x205F, 0x205F), (0x3000, 0x3000)]

def isBlank (c : Char) : Bool :=
  blankRanges.any fun (low, high) => low ≤ c.toNat && c.toNat ≤ high

/-- Space, tab, line feed, form feed and carriage return. -/
def isAsciiBlank (c : Char) : Bool :=
  c = ' ' || c = '\t' || c = '\n' || c = '\x0c' || c = '\r'

def trimChars (chars : List Char) : List Char :=
  ((chars.dropWhile isBlank).reverse.dropWhile isBlank).reverse

/-- The text without the blank characters at its two ends. -/
def trim (text : String) : String :=
  String.ofList (trimChars text.toList)

/-- The maximal non-empty runs of characters that do not satisfy `separates`, in order. -/
def runs (separates : Char → Bool) (chars : List Char) : List (List Char) :=
  chars.foldr
    (fun c (run, done) =>
      if separates c then ([], if run.isEmpty then done else run :: done) else (c :: run, done))
    ([], [])
  |> fun (run, done) => if run.isEmpty then done else run :: done

/-- The entries of a list written as one text: commas and blank characters separate them. -/
def entries (joined : String) : List String :=
  (runs (fun c => c = ',' || isBlank c) joined.toList).map String.ofList

/-- The text with `A` to `Z` in lower case. -/
def lowerAscii (text : String) : String :=
  String.ofList (text.toList.map Char.toLower)

end Assembly.Text
