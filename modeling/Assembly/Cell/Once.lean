import Assembly.Cell.Deferred

/-!
A cell whose value is made when it is first asked for, and not a second time. Who finds no value waits
until nobody else makes one, and looks again before making it.
-/

namespace Assembly

structure Once (α : Type) where
  value : Option α := none
deriving DecidableEq

namespace Once

variable {α ε : Type}

def empty : Once α := {}

instance : Inhabited (Once α) := ⟨empty⟩

/-- What a request yields, and whether the value was made for it. -/
structure Answer (ε α : Type) where
  outcome : Except ε α
  made : Bool

/-- Puts a value into the cell if there is none, and yields the one that is there then. -/
def settle (cell : Once α) (value : α) : α × Once α :=
  match cell.value with
  | some kept => (kept, cell)
  | none => (value, ⟨some value⟩)

/-- The request of somebody who has waited to make the value: there may be one by now. -/
def getOrTryAlone (cell : Once α) (make : Unit → Except ε α) : Answer ε α × Once α :=
  match cell.value with
  | some value => (⟨.ok value, false⟩, cell)
  | none =>
    match make () with
    | .ok value =>
      let (kept, settled) := cell.settle value
      (⟨.ok kept, true⟩, settled)
    | .error fault => (⟨.error fault, true⟩, cell)

/-- The value, made by `make` if there is none. If that fails the cell stays as it is. -/
def getOrTry (cell : Once α) (make : Unit → Except ε α) : Answer ε α × Once α :=
  match cell.value with
  | some value => (⟨.ok value, false⟩, cell)
  | none => cell.getOrTryAlone make

/-- The value, made by `make` if there is none, which cannot fail. -/
def getOrMake (cell : Once α) (make : Unit → α) : (α × Bool) × Once α :=
  let (answer, next) := cell.getOrTry fun _ => (.ok (make ()) : Except Empty α)
  match answer.outcome with
  | .ok value => ((value, answer.made), next)
  | .error never => nomatch never

def text (write : α → String) (cell : Once α) : String :=
  cellText "LazySingleton" (cell.value.map write)

end Once

end Assembly
