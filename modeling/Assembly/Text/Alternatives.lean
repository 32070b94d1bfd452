/-!
Names between grave accents, and the choice between several of them, as messages show them.
-/

namespace Assembly.Text

def ticked (name : String) : String :=
  "`" ++ name ++ "`"

/-- A choice between names. -/
def alternatives : List String → String
  | [only] => ticked only
  | [first, second] => ticked first ++ " or " ++ ticked second
  | names => "one of " ++ ", ".intercalate (names.map ticked)

end Assembly.Text
