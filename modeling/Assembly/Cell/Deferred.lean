/-!
A cell that is bound after it has been handed out. All its handles see the same value, and a value that
is waited for is delivered when the cell is bound.
-/

namespace Assembly

inductive CellFault where
  | unbound
  | alreadyBound
  /-- All handles have been dropped. -/
  | abandoned
deriving DecidableEq, Inhabited

/-- The message of a fault of a cell whose values have the named type. -/
def CellFault.message (type : String) : CellFault → String
  | .unbound => "Deferred '" ++ type ++ "' accessed before it was bound"
  | .alreadyBound => "Deferred '" ++ type ++ "' is already bound - use rebind to replace it"
  | .abandoned => "Deferred '" ++ type ++ "' was dropped before it was bound"

/-- What somebody waits for: a value that was there, or one to be delivered under a number. -/
inductive Promise (α : Type) where
  | ready (value : α)
  | ticket (number : Nat)
deriving DecidableEq

structure Deferred (α : Type) where
  value : Option α := none
  handles : Nat := 1
  /-- The numbers under which a value is waited for. -/
  waiting : List Nat := []
  /-- The values that have been delivered, with their numbers. -/
  delivered : List (Nat × α) := []
  /-- The next number to be given out. -/
  next : Nat := 0
deriving DecidableEq

namespace Deferred

variable {α : Type}

/-- A cell with one handle and without a value. -/
def empty : Deferred α := {}

instance : Inhabited (Deferred α) := ⟨empty⟩

def isBound (cell : Deferred α) : Bool :=
  cell.value.isSome

def get (cell : Deferred α) : Except CellFault α :=
  match cell.value with
  | some value => .ok value
  | none => .error .unbound

def addHandle (cell : Deferred α) : Deferred α :=
  { cell with handles := cell.handles + 1 }

def dropHandle (cell : Deferred α) : Deferred α :=
  { cell with handles := cell.handles - 1 }

/-- Sets the value and delivers it to all who wait. -/
def deliver (cell : Deferred α) (value : α) : Deferred α :=
  { cell with
    value := some value
    waiting := []
    delivered := cell.delivered ++ cell.waiting.map (·, value) }

/-- Sets the value of a cell that has none. -/
def bind (cell : Deferred α) (value : α) : Except CellFault (Deferred α) :=
  if cell.isBound then .error .alreadyBound else .ok (cell.deliver value)

/-- Sets the value, and returns the one before. -/
def rebind (cell : Deferred α) (value : α) : Option α × Deferred α :=
  (cell.value, cell.deliver value)

/-- Waits for a value. -/
def wait (cell : Deferred α) : Promise α × Deferred α :=
  match cell.value with
  | some value => (.ready value, cell)
  | none =>
    (.ticket cell.next,
      { cell with waiting := cell.waiting ++ [cell.next], next := cell.next + 1 })

/-- The outcome of waiting, if there is one yet. -/
def poll? (cell : Deferred α) : Promise α → Option (Except CellFault α)
  | .ready value => some (.ok value)
  | .ticket number =>
    match cell.delivered.lookup number with
    | some value => some (.ok value)
    | none => if cell.handles = 0 then some (.error .abandoned) else none

end Deferred

/-- A cell with the text of its value, if it has one. -/
def cellText (name : String) : Option String → String
  | some value => name ++ "(Some(" ++ value ++ "))"
  | none => name ++ "(None)"

def Deferred.text {α : Type} (write : α → String) (cell : Deferred α) : String :=
  cellText "Deferred" (cell.value.map write)

end Assembly
