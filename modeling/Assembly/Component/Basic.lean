import Assembly.Collection.NameSet

/-!
Declared components: what they are called, what they provide, what they need and when they take part.
-/

namespace Assembly

/-- How long an instance lives. -/
inductive Scope where
  /-- One instance is shared. -/
  | singleton
  /-- Every request makes an instance. -/
  | prototype
deriving DecidableEq, Inhabited

/-- How a dependency is handed to the component that needs it. -/
inductive Handover where
  /-- The provider itself, which is constructed first. -/
  | direct
  /-- A handle that is bound when the provider exists. -/
  | deferred
  /-- The provider, or nothing if none takes part. -/
  | optional
deriving DecidableEq, Inhabited

/-- A request for a provider, or a literal that is passed on as it is. -/
structure Dependency where
  requestedType : String
  qualifier : Option String := none
  handover : Handover := .direct
  allowMissing : Bool := false
  literal : Option String := none
deriving DecidableEq, Inhabited

namespace Dependency

def direct (requestedType : String) : Dependency :=
  { requestedType }

def deferred (requestedType : String) : Dependency :=
  { requestedType, handover := .deferred }

def optional (requestedType : String) : Dependency :=
  { requestedType, handover := .optional }

def ofLiteral (requestedType token : String) : Dependency :=
  { requestedType, literal := some token }

def qualified (dependency : Dependency) (qualifier : String) : Dependency :=
  { dependency with qualifier := some qualifier }

def allowingMissing (dependency : Dependency) : Dependency :=
  { dependency with allowMissing := true }

/-- Whether the provider has to be constructed before the component that needs it. -/
def isHard (dependency : Dependency) : Bool :=
  dependency.literal.isNone && dependency.handover = .direct && !dependency.allowMissing

/-- Whether there may be no provider. -/
def permitsAbsence (dependency : Dependency) : Bool :=
  dependency.allowMissing || dependency.handover = .optional

end Dependency

inductive InjectionKind where
  | constructor
  | field
  | method
deriving DecidableEq, Inhabited

/-- Where a component receives an injected dependency. The last case is an order without injection. -/
inductive Position where
  | constructorArgument (index : Nat)
  | field (name : String)
  | methodArgument (method : String) (index : Nat)
  | dependsOn
deriving DecidableEq, Inhabited

def Position.text : Position → String
  | .constructorArgument index => "constructor argument #" ++ toString index
  | .field name => "field '" ++ name ++ "'"
  | .methodArgument method index =>
    "argument #" ++ toString index ++ " of method '" ++ method ++ "'"
  | .dependsOn => "depends-on"

/-- A constructor, field or method with the dependencies that it takes. The name of a constructor has
no meaning. -/
structure InjectionSite where
  kind : InjectionKind
  name : String := ""
  dependencies : List Dependency := []
deriving DecidableEq, Inhabited

namespace InjectionSite

def constructor (dependencies : List Dependency) : InjectionSite :=
  { kind := .constructor, dependencies }

def field (name : String) (dependency : Dependency) : InjectionSite :=
  { kind := .field, name, dependencies := [dependency] }

def method (name : String) (dependencies : List Dependency) : InjectionSite :=
  { kind := .method, name, dependencies }

def position (site : InjectionSite) (index : Nat) : Position :=
  match site.kind with
  | .constructor => .constructorArgument index
  | .field => .field site.name
  | .method => .methodArgument site.name index

def positioned (site : InjectionSite) : List (Position × Dependency) :=
  site.dependencies.mapIdx fun index dependency => (site.position index, dependency)

end InjectionSite

/-- A condition on which a component takes part. -/
inductive Condition where
  /-- The property has the expected value, or any value if none is expected. -/
  | property (name : String) (expected : Option String) (matchIfMissing : Bool)
  /-- All flags are present. -/
  | flags (names : List String)
  /-- No other component provides one of the types or has one of the names. -/
  | missing (types names : List String)
  /-- Other components provide all of the types and have all of the names. -/
  | present (types names : List String)
  /-- One of the profiles is active. An entry that begins with `!` stands for the opposite. -/
  | profile (entries : List String) (negated : Bool)
deriving DecidableEq, Inhabited

namespace Condition

/-- Whether the condition is about other components. -/
def concernsComponents : Condition → Bool
  | .missing _ _ => true
  | .present _ _ => true
  | _ => false

def joined (names : List String) : String :=
  ", ".intercalate names

def targetsText (types names : List String) : String :=
  joined (types ++ names.map fun name => "\"" ++ name ++ "\"")

def text : Condition → String
  | .property name expected matchIfMissing =>
    "property(" ++ name
      ++ (match expected with
          | some value => " = \"" ++ value ++ "\""
          | none => "")
      ++ (if matchIfMissing then ", match if missing" else "") ++ ")"
  | .flags names => "present(" ++ joined names ++ ")"
  | .missing types names => "missing(" ++ targetsText types names ++ ")"
  | .present types names => "present-component(" ++ targetsText types names ++ ")"
  | .profile entries negated =>
    "profile(" ++ (if negated then "!" else "") ++ joined entries ++ ")"

end Condition

/-- What is to be called when an instance has been made and before it is given up. -/
structure Hooks where
  init : List String := []
  destroy : List String := []
deriving DecidableEq, Inhabited

/-- A declared component. Its display name identifies it, and its declaration index decides wherever
an order is open. -/
structure Component where
  qualifiedName : String
  displayName : String
  scope : Scope := .singleton
  lazy : Bool := false
  primary : Bool := false
  interfaces : NameSet := ∅
  sites : List InjectionSite := []
  hooks : Hooks := {}
  conditions : List Condition := []
  /-- The display names of components that are constructed first without being injected. -/
  dependsOn : List String := []
  declarationIndex : UInt32 := 0
deriving DecidableEq, Inhabited

namespace Component

def asPrototype (component : Component) : Component :=
  { component with scope := .prototype }

def asLazy (component : Component) : Component :=
  { component with lazy := true }

def asPrimary (component : Component) : Component :=
  { component with primary := true }

def implementing (component : Component) (interface : String) : Component :=
  { component with interfaces := component.interfaces.insert interface }

def injecting (component : Component) (site : InjectionSite) : Component :=
  { component with sites := component.sites ++ [site] }

def onCondition (component : Component) (condition : Condition) : Component :=
  { component with conditions := component.conditions ++ [condition] }

def after (component : Component) (name : String) : Component :=
  { component with dependsOn := component.dependsOn ++ [name] }

def onInit (component : Component) (token : String) : Component :=
  { component with hooks.init := component.hooks.init ++ [token] }

def onDestroy (component : Component) (token : String) : Component :=
  { component with hooks.destroy := component.hooks.destroy ++ [token] }

def withIndex (component : Component) (index : UInt32) : Component :=
  { component with declarationIndex := index }

/-- Whether a type is the component's own or one of its interfaces. -/
def provides (component : Component) (type : String) : Bool :=
  component.qualifiedName = type || decide (type ∈ component.interfaces)

def isConditional (component : Component) : Bool :=
  !component.conditions.isEmpty

/-- All injected dependencies in the order of their declaration. -/
def dependencies (component : Component) : List (Position × Dependency) :=
  component.sites.flatMap InjectionSite.positioned

def constructorCount (component : Component) : Nat :=
  component.sites.countP (·.kind = .constructor)

/-- Whether the component is constructed when the program starts. -/
def isEager (component : Component) : Bool :=
  component.scope = .singleton && !component.lazy

def isLazySingleton (component : Component) : Bool :=
  component.scope = .singleton && component.lazy

end Component

end Assembly
