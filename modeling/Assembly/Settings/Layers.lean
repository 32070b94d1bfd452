import Assembly.Directory
import Assembly.Settings.Decode
import Assembly.Settings.Variable
import Assembly.Toml.Document

/-!
Settings in layers: the default ones, then documents, then the variables of the process, in any order
and number. A layer that does not fit is refused and changes nothing.
-/

namespace Assembly

/-- Why a layer is refused. -/
inductive LayerFault where
  | unreadable (path : String)
  /-- The document is no TOML. -/
  | malformed (origin : String)
  | setting (origin : String) (fault : SettingFault)
deriving DecidableEq, Inhabited

def LayerFault.message : LayerFault → String
  | .unreadable path => "Failed to read config file '" ++ path ++ "'"
  | .malformed origin => "Failed to load config layer '" ++ origin ++ "': malformed document"
  | .setting origin fault =>
    "Failed to load config layer '" ++ origin ++ "': " ++ fault.cause.message ++ " for key \""
      ++ ".".intercalate fault.path ++ "\""

/-- Where a layer comes from. -/
inductive LayerSource where
  | document (origin text : String)
  | file (path : String) (found : Found)
  /-- The variables of the process. -/
  | process (vars : NameMap String)
deriving DecidableEq, Inhabited

namespace LayerSource

/-- What the refusal of the layer names. -/
def origin : LayerSource → String
  | .document origin _ => origin
  | .file path _ => path
  | .process _ => "environment"

/-- The layer, or what prevents it from being read. A folder counts as a document without settings. -/
def layer : LayerSource → Except LayerFault Setting
  | .document origin text => (Toml.read text).elim (.error (.malformed origin)) .ok
  | .file path (.file text) => (Toml.read text).elim (.error (.malformed path)) .ok
  | .file _ .folder => .ok (.table [])
  | .file path .missing => .error (.unreadable path)
  | .process vars => .ok (Variable.layer vars)

end LayerSource

/-- The layers so far: the settings as they are written, and what they mean. -/
structure Layers where
  merged : Setting
  settings : Settings
  meaning : Settings.ofSetting merged = .ok settings

namespace Layers

/-- The default settings. -/
def defaults : Setting :=
  .table
    [("environment",
        .table
          [("flags", .texts []), ("profiles", .texts []), ("properties", .table [])]),
      ("planner", .table [("default_profiles", .texts []), ("strict", .flag false)])]

def initial : Layers :=
  ⟨defaults, {}, by rfl⟩

instance : Inhabited Layers := ⟨initial⟩

/-- Lays settings on top of the others. They are kept only if all of them together have a meaning. -/
def lay (layers : Layers) (origin : String) (layer : Setting) : Layers × Except LayerFault Unit :=
  match meaning : Settings.ofSetting (layers.merged.merge layer) with
  | .ok settings => (⟨layers.merged.merge layer, settings, meaning⟩, .ok ())
  | .error fault => (layers, .error (.setting origin fault))

/-- Attempts to add a layer: the layers afterwards, and whether it has been added. -/
def add (layers : Layers) (source : LayerSource) : Layers × Except LayerFault Unit :=
  match source.layer with
  | .ok layer => layers.lay source.origin layer
  | .error fault => (layers, .error fault)

/-- What can be done with layers: to add another one, and to ask what they mean. -/
inductive Call where
  | add (source : LayerSource)
  | extract
deriving DecidableEq, Inhabited

inductive Reply where
  | added
  | refused (fault : LayerFault)
  | meaning (settings : Settings)
  /-- The layers that were kept mean nothing. -/
  | meaningless (fault : SettingFault)
deriving DecidableEq, Inhabited

def Reply.isError : Reply → Bool
  | .added => false
  | .refused _ => true
  | .meaning _ => false
  | .meaningless _ => true

/-- The layers after a call, and its reply. -/
def call (layers : Layers) : Call → Layers × Reply
  | .add source =>
    match layers.add source with
    | (next, .ok ()) => (next, .added)
    | (next, .error fault) => (next, .refused fault)
  | .extract =>
    match Settings.ofSetting layers.merged with
    | .ok settings => (layers, .meaning settings)
    | .error fault => (layers, .meaningless fault)

/-- The layers with another one, for a run that ends where one is refused. -/
def addSource (layers : Layers) (source : LayerSource) : Except LayerFault Layers :=
  match layers.add source with
  | (next, .ok ()) => .ok next
  | (_, .error fault) => .error fault

def addText (layers : Layers) (origin document : String) : Except LayerFault Layers :=
  layers.addSource (.document origin document)

def addFound (layers : Layers) (path : String) (found : Found) : Except LayerFault Layers :=
  layers.addSource (.file path found)

def addVariables (layers : Layers) (vars : NameMap String) : Except LayerFault Layers :=
  layers.addSource (.process vars)

end Layers

end Assembly
