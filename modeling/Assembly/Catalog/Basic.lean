import Assembly.Component.Basic

/-!
Catalogs: all declared components in the order of their declaration indices.
-/

namespace Assembly

/-- Components of equal index keep the order in which they were given. -/
structure Catalog where
  components : List Component
  ascending : components.Pairwise (·.declarationIndex ≤ ·.declarationIndex)
deriving DecidableEq

def Component.declaredBefore (first second : Component) : Bool :=
  first.declarationIndex ≤ second.declarationIndex

theorem Component.declaredBefore_trans (first second third : Component)
    (before : first.declaredBefore second) (behind : second.declaredBefore third) :
    first.declaredBefore third := by
  simp only [declaredBefore, decide_eq_true_eq] at before behind ⊢
  exact UInt32.le_trans before behind

theorem Component.declaredBefore_total (first second : Component) :
    first.declaredBefore second || second.declaredBefore first := by
  simpa [declaredBefore] using UInt32.le_total _ _

/-- The components in the order of their indices. The sort is stable. -/
def byIndex (components : List Component) : List Component :=
  components.mergeSort Component.declaredBefore

theorem pairwise_byIndex (components : List Component) :
    (byIndex components).Pairwise (·.declarationIndex ≤ ·.declarationIndex) := by
  have sorted : (byIndex components).Pairwise (fun a b => a.declaredBefore b = true) :=
    List.pairwise_mergeSort Component.declaredBefore_trans Component.declaredBefore_total components
  exact sorted.imp fun before => by simpa [Component.declaredBefore] using before

namespace Catalog

def ofList (components : List Component) : Catalog :=
  ⟨byIndex components, pairwise_byIndex components⟩

/-- The catalog of components whose indices are their places in the list. -/
def numbered (components : List Component) : Catalog :=
  ofList (components.mapIdx fun place component => component.withIndex (.ofNat place))

def size (catalog : Catalog) : Nat :=
  catalog.components.length

def isEmpty (catalog : Catalog) : Bool :=
  catalog.components.isEmpty

/-- The first component with a display name. -/
def get? (catalog : Catalog) (name : String) : Option Component :=
  catalog.components.find? (·.displayName = name)

end Catalog

instance : Inhabited Catalog := ⟨.ofList []⟩

end Assembly
