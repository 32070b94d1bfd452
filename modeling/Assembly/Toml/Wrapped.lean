import Assembly.Settings.Setting

/-!
Tables that wrap a value. A table with an entry under a reserved name stands for the value of that
entry, and its other entries count for nothing. A mark on a table is reserved too and always refused.
-/

namespace Assembly.Toml

/-- The name under which a wrapped value stands. -/
def wrappedName : String := "___figment_value_value"

/-- The name of a mark. -/
def markName : String := "___figment_value_id"

/-- What a table stands for, whose entries are unwrapped. -/
def wrapped? (entries : List (String × Setting)) : Option Setting :=
  if (entries.lookup markName).isSome then none
  else some ((entries.lookup wrappedName).getD (.table entries))

mutual

/-- A setting without wrappers, at any depth. There is none if a table in it is marked. -/
def unwrapped? : Setting → Option Setting
  | .list items => (unwrappedItems? items).map .list
  | .table entries => (unwrappedEntries? entries).bind wrapped?
  | setting => some setting
termination_by structural setting => setting

def unwrappedItems? : List Setting → Option (List Setting)
  | [] => some []
  | item :: rest => do
    return (← unwrapped? item) :: (← unwrappedItems? rest)
termination_by structural items => items

/-- The entries of a table with their settings unwrapped. The names are kept, reserved ones too. -/
def unwrappedEntries? : List (String × Setting) → Option (List (String × Setting))
  | [] => some []
  | (name, setting) :: rest => do
    return (name, ← unwrapped? setting) :: (← unwrappedEntries? rest)
termination_by structural entries => entries

end

end Assembly.Toml
