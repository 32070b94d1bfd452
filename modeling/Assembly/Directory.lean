/-!
The files that a run can read, and what is found at a path.
-/

namespace Assembly

/-- What is found at a path. -/
inductive Found where
  | missing
  | folder
  | file (text : String)
deriving DecidableEq, Inhabited

/-- The files and folders below a working directory. -/
inductive Tree where
  | file (text : String)
  | folder (entries : List (String × Tree))
deriving Inhabited

/-- The parts of a path between its slashes. -/
def pathParts (path : String) : List String :=
  path.splitOn "/"

namespace Tree

def empty : Tree :=
  .folder []

def entries : Tree → List (String × Tree)
  | .file _ => []
  | .folder entries => entries

/-- Puts a tree at a path and makes the folders on the way. -/
def insert (added : Tree) : List String → Tree → Tree
  | [], tree => if tree.entries.isEmpty then added else tree
  | part :: path, tree =>
    let below := (tree.entries.lookup part).getD empty
    .folder ((part, insert added path below) :: tree.entries.filter (·.1 != part))

/-- Puts a tree at the end of a path, and folders at every place on the way, where `place` is the one
at which the path begins. One dot stays at a place, two go back to the folder around it. -/
def insertAlong (added : Tree) (place : List String) : List String → Tree → Tree
  | [], tree => insert added place tree
  | part :: path, tree =>
    let next :=
      if part = "" || part = "." then place
      else if part = ".." then place.dropLast
      else place ++ [part]
    insertAlong added next path (insert empty place tree)

/-- The tree of files by their relative paths. A path that ends in a slash is a folder. -/
def ofFiles (files : List (String × String)) : Tree :=
  files.foldl
    (fun tree (path, text) =>
      let added := if path.endsWith "/" then empty else .file text
      insertAlong added [] (pathParts path) tree)
    empty

def found : Tree → Found
  | .file text => .file text
  | .folder _ => .folder

/-- Follows a path, where `around` are the folders that lead to the tree, the innermost first. -/
def follow : List String → List Tree → Tree → Found
  | [], _, tree => tree.found
  | _ :: _, _, .file _ => .missing
  | part :: path, around, .folder entries =>
    if part = "" || part = "." then follow path around (.folder entries)
    else if part = ".." then
      match around with
      | [] => follow path [] empty
      | outer :: others => follow path others outer
    else
      match entries.lookup part with
      | some tree => follow path (.folder entries :: around) tree
      | none => .missing

/-- What is found at a path. Nothing outside of the working directory can be seen. -/
def find (tree : Tree) (path : String) : Found :=
  if path = "" then .missing
  else if path.startsWith "/" then follow (pathParts path) [] empty
  else follow (pathParts path) [] tree

end Tree

end Assembly
