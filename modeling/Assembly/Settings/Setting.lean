import Assembly.Collection.NameMap
import Assembly.Decimal.Shortest
import Assembly.Text.Quoted

/-!
Settings as they are written, before it is known what they mean, and how one layer of them is laid on
top of another.
-/

namespace Assembly

/-- A written setting. The names in a table are ascending. -/
inductive Setting where
  | text (value : String)
  | letter (value : Char)
  | flag (value : Bool)
  | integer (value : Int)
  | real (value : Binary64)
  | list (items : List Setting)
  | table (entries : List (String × Setting))
deriving Inhabited

namespace Setting

/-- What a setting is called where another one is expected. -/
def description : Setting → String
  | .text value => "string " ++ Text.quote value
  | .letter value => "char '" ++ String.singleton value ++ "'"
  | .flag value => "bool " ++ toString value
  | .integer value => "signed int `" ++ toString value ++ "`"
  | .real value => "float `" ++ Decimal.render Decimal.plain value ++ "`"
  | .list _ => "sequence"
  | .table _ => "map"

def texts (values : List String) : Setting :=
  .list (values.map .text)

mutual

/-- Lays a setting on top of another one. Tables are united, and any other setting takes the place of
the one below. -/
def merge (below : Setting) : Setting → Setting
  | .table above =>
    match below with
    | .table entries => .table (mergeEntries entries above)
    | _ => .table above
  | above => above
termination_by structural above => above

def mergeEntries (entries : List (String × Setting)) :
    List (String × Setting) → List (String × Setting)
  | [] => entries
  | (name, above) :: rest =>
    let merged :=
      match entries.lookup name with
      | some below => below.merge above
      | none => above
    mergeEntries (insertEntry name merged entries) rest
termination_by structural above => above

end

/-- A setting below the given names, the outermost first. -/
def nest (names : List String) (setting : Setting) : Setting :=
  names.foldr (fun name inner => .table [(name, inner)]) setting

end Setting

end Assembly
