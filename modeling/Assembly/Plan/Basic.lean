import Assembly.Finding.Basic
import Assembly.Graph.Basic

/-!
Plans: how each component is constructed, in which order, and what there is to know about it.
-/

namespace Assembly

/-- Where an argument comes from. Components are named by their display names. -/
inductive Source where
  /-- The instance of a component that is constructed first. -/
  | reference (component : String)
  /-- A handle that is bound when the component exists. -/
  | deferred (component : String)
  /-- The instance of a component, or nothing. -/
  | optional (component : Option String)
  /-- A literal that is passed on as it is. -/
  | literal (token : String)
deriving DecidableEq, Inhabited

/-- The component that an argument refers to. -/
def Source.component? : Source → Option String
  | .reference component => some component
  | .deferred component => some component
  | .optional component => component
  | .literal _ => none

structure Argument where
  position : Position
  source : Source
deriving DecidableEq, Inhabited

/-- How a component is constructed. -/
structure Step where
  component : String
  qualifiedName : String
  scope : Scope
  lazy : Bool
  primary : Bool
  /-- Components of one level may be constructed side by side. -/
  level : Nat
  arguments : List Argument
  /-- The components that are constructed first without being injected. -/
  dependsOn : List String
  hooks : Hooks
  /-- Why the component takes part. -/
  inclusion : String
  warnings : List Warning
deriving DecidableEq, Inhabited

namespace Step

/-- Whether the component is constructed when the program starts. -/
def isEager (step : Step) : Bool :=
  step.scope = .singleton && !step.lazy

/-- All components that the step refers to. -/
def references (step : Step) : List String :=
  step.arguments.filterMap (·.source.component?) ++ step.dependsOn

end Step

/-- The steps of the singletons come first, each behind those that it needs, and then those of the
prototypes in the order of declaration. -/
structure Plan where
  steps : List Step
  edges : List Edge
  /-- Warnings and exclusions. -/
  findings : Findings
deriving DecidableEq, Inhabited

namespace Plan

def step? (plan : Plan) (component : String) : Option Step :=
  plan.steps.find? (·.component = component)

def eagerSteps (plan : Plan) : List Step :=
  plan.steps.filter (·.isEager)

def lazySteps (plan : Plan) : List Step :=
  plan.steps.filter fun step => step.scope = .singleton && step.lazy

def prototypeSteps (plan : Plan) : List Step :=
  plan.steps.filter (·.scope = .prototype)

/-- Puts a step behind those of its level. The first list is that of level zero, and there are as many
lists as levels have been needed. -/
def addToLevel (step : Step) : Nat → List (List Step) → List (List Step)
  | 0, [] => [[step]]
  | 0, first :: rest => (first ++ [step]) :: rest
  | level + 1, [] => [] :: addToLevel step level []
  | level + 1, first :: rest => first :: addToLevel step level rest

/-- The eager steps of each level that has some, the lowest level first. -/
def eagerLevels (plan : Plan) : List (List Step) :=
  (plan.eagerSteps.foldl (fun levels step => addToLevel step step.level levels) []).filter
    (!·.isEmpty)

end Plan

end Assembly
