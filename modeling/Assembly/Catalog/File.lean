import Assembly.Catalog.Document
import Assembly.Directory

/-!
Catalogs in files.
-/

namespace Assembly

/-- Why a catalog is not loaded. -/
inductive LoadFault where
  | unreadable (path : String)
  | refused (fault : Json.Fault)
deriving DecidableEq, Inhabited

def LoadFault.message : LoadFault → String
  | .unreadable path => "Failed to read catalog '" ++ path ++ "'"
  | .refused fault =>
    "Catalog is not valid JSON: " ++
      match fault with
      | .ended => "the text ends too early"
      | .malformed => "the text is malformed"
      | .mismatch cause => cause.message

/-- The catalog in what is found at a path. -/
def Catalog.ofFound (path : String) : Found → Except LoadFault Catalog
  | .file text => (ofText text).mapError .refused
  | .folder => .error (.unreadable path)
  | .missing => .error (.unreadable path)

end Assembly
