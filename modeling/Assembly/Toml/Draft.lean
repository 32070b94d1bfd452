import Assembly.Settings.Setting

/-!
The tables of a TOML document while it is read. How a table came about decides what may still be added
to it.
-/

namespace Assembly.Toml

/-- How a table came about. -/
inductive Origin where
  /-- By a header of its own, or as a value. -/
  | declared
  /-- As part of the header of another table. -/
  | implied
  /-- As part of a dotted name. -/
  | dotted
deriving DecidableEq, Inhabited

inductive Draft where
  /-- A value, to which nothing can be added. -/
  | value (setting : Setting)
  | table (origin : Origin) (entries : List (String × Draft))
  /-- An array of tables, which are declared one after the other. -/
  | tables (elements : List (List (String × Draft)))
deriving Inhabited

abbrev Entries : Type :=
  List (String × Draft)

mutual

def Draft.setting : Draft → Setting
  | .value setting => setting
  | .table _ entries => .table (settings entries)
  | .tables elements => .list (elementSettings elements)
termination_by structural draft => draft

def settings : List (String × Draft) → List (String × Setting)
  | [] => []
  | (name, draft) :: rest => (name, draft.setting) :: settings rest
termination_by structural entries => entries

def elementSettings : List (List (String × Draft)) → List Setting
  | [] => []
  | entries :: rest => .table (settings entries) :: elementSettings rest
termination_by structural elements => elements

end

/-- Changes the table at the end of a path, and makes the tables on the way that are missing. Of an
array of tables the last one counts. A dotted name cannot pass a table that has been declared. -/
def alter {α : Type} (isDotted : Bool) (change : Origin → Entries → Option (Entries × α)) :
    List String → Origin → Entries → Option (Entries × α)
  | [], origin, entries => change origin entries
  | name :: path, _, entries =>
    match entries.lookup name with
    | none => do
      let origin := if isDotted then .dotted else .implied
      let (inner, result) ← alter isDotted change path origin []
      return (insertEntry name (.table origin inner) entries, result)
    | some (.table origin inner) =>
      if isDotted && origin = .declared then none
      else do
        let (inner, result) ← alter isDotted change path origin inner
        return (insertEntry name (.table origin inner) entries, result)
    | some (.tables elements) =>
      match elements.getLast? with
      | none => none
      | some last => do
        let (inner, result) ← alter isDotted change path .declared last
        return (insertEntry name (.tables (elements.dropLast ++ [inner])) entries, result)
    | some (.value _) => none

/-- Adds an entry that is not there yet. -/
def addEntry (name : String) (draft : Draft) (entries : Entries) : Option Entries :=
  if (entries.lookup name).isSome then none else some (insertEntry name draft entries)

/-- Adds a value under a dotted name. The tables on the way have to be dotted ones. -/
def assign (path : List String) (name : String) (setting : Setting) (entries : Entries) :
    Option Entries :=
  (alter true
    (fun origin entries =>
      if path.isEmpty || origin = .dotted then
        (addEntry name (.value setting) entries).map (·, ())
      else none)
    path .declared entries).map Prod.fst

/-- Where a header leads: the names on the way and the last one, and whether it adds a table to an
array of tables. -/
structure Header where
  path : List String
  name : String
  isElement : Bool
deriving DecidableEq, Inhabited

/-- The part of a document that has been read. The entries under the last header are kept apart until
the next one. -/
structure Progress where
  root : Entries := []
  header : Option Header := none
  current : Entries := []
deriving Inhabited

namespace Progress

/-- Puts the entries under the last header where they belong. -/
def close (progress : Progress) : Option Entries :=
  match progress.header with
  | none => some progress.current
  | some header =>
    (alter false
      (fun _ entries =>
        if header.isElement then
          match entries.lookup header.name with
          | some (.tables elements) =>
            some (insertEntry header.name (.tables (elements ++ [progress.current])) entries, ())
          | _ => none
        else
          (addEntry header.name (.table .declared progress.current) entries).map (·, ()))
      header.path .declared progress.root).map Prod.fst

/-- Begins an array of tables, or goes on with one. -/
def openElement (name : String) (entries : Entries) : Option (Entries × Entries) :=
  match entries.lookup name with
  | none => some (insertEntry name (.tables []) entries, [])
  | some (.tables _) => some (entries, [])
  | some _ => none

/-- Begins a table. One that is only implied by others is declared now. -/
def openTable (name : String) (entries : Entries) : Option (Entries × Entries) :=
  match entries.lookup name with
  | none => some (entries, [])
  | some (.table .implied inner) => some (entries.filter (·.1 != name), inner)
  | some _ => none

def openHeader (progress : Progress) (header : Header) : Option Progress := do
  let root ← progress.close
  let begin := if header.isElement then openElement else openTable
  let (root, current) ← alter false (fun _ => begin header.name) header.path .declared root
  return ⟨root, some header, current⟩

def assign (progress : Progress) (path : List String) (name : String) (setting : Setting) :
    Option Progress := do
  return { progress with current := ← Toml.assign path name setting progress.current }

end Progress

end Assembly.Toml
