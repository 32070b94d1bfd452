import Assembly.Cell.Once

/-!
# At most one value is made

Requests for the value of a cell are made one after the other, and each comes with a way to make the
value, which may fail. Until one of them succeeds each request tries its own way, and no request does
so afterwards: what was made first is what everybody gets.
-/

namespace Assembly.Once

inductive Request (ε α : Type) where
  | get
  | getOrMake (make : Unit → α)
  | getOrTry (make : Unit → Except ε α)

inductive Reply (ε α : Type) where
  | found (value : Option α)
  | given (value : α)
  | failed (fault : ε)

variable {ε α : Type}

/-- What a request comes to: the cell behind it, the reply, and whether its way to make the value was
tried. -/
structure Response (ε α : Type) where
  cell : Once α
  reply : Reply ε α
  tried : Bool

def respond (cell : Once α) : Request ε α → Response ε α
  | .get => ⟨cell, .found cell.value, false⟩
  | .getOrMake make =>
    match cell.getOrMake make with
    | ((value, made), next) => ⟨next, .given value, made⟩
  | .getOrTry make =>
    match cell.getOrTry make with
    | (⟨.ok value, made⟩, next) => ⟨next, .given value, made⟩
    | (⟨.error fault, made⟩, next) => ⟨next, .failed fault, made⟩

def run (cell : Once α) (requests : List (Request ε α)) : Once α :=
  requests.foldl (fun cell request => (cell.respond request).cell) cell

def exchange : Once α → List (Request ε α) → List (Request ε α × Response ε α)
  | _, [] => []
  | cell, request :: rest => (request, cell.respond request) :: exchange (cell.respond request).cell rest

/-! ### What the requests say -/

/-- What the way to make the value comes to, if the request has one. -/
def Request.attempt? : Request ε α → Option (Except ε α)
  | .get => none
  | .getOrMake make => some (.ok (make ()))
  | .getOrTry make => some (make ())

def Request.value? (request : Request ε α) : Option α :=
  request.attempt?.bind Except.toOption

def Request.replyWith (value : α) : Request ε α → Reply ε α
  | .get => .found (some value)
  | _ => .given value

def Request.replyWithout (request : Request ε α) : Reply ε α :=
  match request.attempt? with
  | none => .found none
  | some (.ok value) => .given value
  | some (.error fault) => .failed fault

/-- Whether requests ask for the same and differ at most in the way to make the value. -/
def Request.Like : Request ε α → Request ε α → Prop
  | .get, .get => True
  | .getOrMake _, .getOrMake _ => True
  | .getOrTry _, .getOrTry _ => True
  | _, _ => False

/-- The way of the request was tried and a value was made. -/
def Makes (entry : Request ε α × Response ε α) : Prop :=
  entry.2.tried = true ∧ entry.1.value?.isSome = true

/-! ### What one request does -/

variable {cell : Once α}

/-- Who has waited and looks again gets what anybody gets who asks only then. -/
theorem getOrTry_eq_alone (cell : Once α) (make : Unit → Except ε α) :
    cell.getOrTry make = cell.getOrTryAlone make := by
  unfold getOrTry getOrTryAlone
  cases cell.value <;> rfl

theorem getOrTry_of_some {value : α} (hvalue : cell.value = some value)
    (make : Unit → Except ε α) : cell.getOrTry make = (⟨.ok value, false⟩, cell) := by
  simp only [getOrTry, hvalue]

theorem getOrTry_of_none (hvalue : cell.value = none) (make : Unit → Except ε α) :
    cell.getOrTry make = (⟨make (), true⟩, ⟨(make ()).toOption⟩) := by
  rw [getOrTry_eq_alone]
  obtain ⟨held⟩ := cell
  cases hvalue
  unfold getOrTryAlone
  cases make () <;> rfl

theorem respond_of_some {value : α} (hvalue : cell.value = some value) (request : Request ε α) :
    cell.respond request = ⟨cell, request.replyWith value, false⟩ := by
  cases request with
  | get => simp only [respond, hvalue, Request.replyWith]
  | getOrMake make =>
      simp only [respond, getOrMake, getOrTry_of_some hvalue, Request.replyWith]
  | getOrTry make => simp only [respond, getOrTry_of_some hvalue, Request.replyWith]

theorem respond_of_none (hvalue : cell.value = none) (request : Request ε α) :
    cell.respond request = ⟨⟨request.value?⟩, request.replyWithout, request.attempt?.isSome⟩ := by
  cases request with
  | get =>
      obtain ⟨held⟩ := cell
      cases hvalue
      rfl
  | getOrMake make => simp only [respond, getOrMake, getOrTry_of_none hvalue]; rfl
  | getOrTry make =>
      simp only [respond, getOrTry_of_none hvalue, Request.value?, Request.replyWithout,
        Request.attempt?, Option.isSome_some, Option.bind_some]
      cases make () <;> rfl

/-! ### What holds throughout a sequence -/

theorem run_cons (request : Request ε α) (rest : List (Request ε α)) :
    cell.run (request :: rest) = (cell.respond request).cell.run rest :=
  rfl

theorem run_append (before after : List (Request ε α)) :
    cell.run (before ++ after) = (cell.run before).run after :=
  List.foldl_append

theorem run_of_some {value : α} (hvalue : cell.value = some value) (requests : List (Request ε α)) :
    cell.run requests = cell := by
  induction requests with
  | nil => rfl
  | cons request rest ih => rw [run_cons, respond_of_some hvalue, ih]

theorem makes_iff (cell : Once α) (request : Request ε α) :
    Makes (request, cell.respond request)
      ↔ cell.value = none ∧ (cell.respond request).cell.value ≠ none := by
  unfold Makes
  cases hvalue : cell.value with
  | some value => simp [respond_of_some hvalue]
  | none =>
      rw [respond_of_none hvalue]
      cases hattempt : request.attempt? with
      | none => simp [Request.value?, hattempt]
      | some attempt => simp [Option.isSome_iff_ne_none]

/-- As long as the cell stays without a value, nobody has made one. -/
theorem forall_not_makes_iff (hvalue : cell.value = none) (requests : List (Request ε α)) :
    (∀ entry ∈ cell.exchange requests, ¬Makes entry) ↔ (cell.run requests).value = none := by
  induction requests generalizing cell with
  | nil => simp [exchange, run, hvalue]
  | cons request rest ih =>
      rw [exchange, List.forall_mem_cons, makes_iff, run_cons]
      cases hnext : (cell.respond request).cell.value with
      -- This request has made the value, and no later one changes it.
      | some value => simp [run_of_some hnext, hnext, hvalue]
      | none =>
          rw [ih hnext]
          simp

theorem Request.Like.replyWith_eq {request other : Request ε α} (hlike : other.Like request)
    (value : α) : other.replyWith value = request.replyWith value := by
  cases request <;> cases other <;> first | rfl | cases hlike

/-- A request whose way to make a value is not tried has none, or there is a value. -/
theorem respond_of_not_tried {request other : Request ε α}
    (htried : (cell.respond request).tried = false) (hlike : other.Like request) :
    cell.respond other = cell.respond request := by
  cases hvalue : cell.value with
  | some value => rw [respond_of_some hvalue, respond_of_some hvalue, hlike.replyWith_eq]
  | none =>
      rw [respond_of_none hvalue] at htried
      cases request with
      | get =>
          cases other with
          | get => rfl
          | getOrMake make | getOrTry make => cases hlike
      | getOrMake make | getOrTry make => cases htried

theorem respond_of_made {before : List (Request ε α)} {request : Request ε α} {value : α}
    (hvalue : (empty.run before).value = none) (hmade : request.value? = some value)
    (later : List (Request ε α)) (next : Request ε α) :
    (empty.run (before ++ request :: later)).respond next
      = ⟨⟨some value⟩, next.replyWith value, false⟩ := by
  have hcell : empty.run (before ++ request :: later) = ⟨some value⟩ := by
    rw [run_append, run_cons, respond_of_none hvalue, hmade]
    exact run_of_some rfl later
  rw [hcell]
  exact respond_of_some rfl next

/-- The way of a request to make a value is tried exactly if it has one and no value has been made for
an earlier request. As long as none has been, the reply says what comes of the request, and a way that
fails leaves the cell empty. Once a value has been made, all later requests get it, try nothing and leave
the cell as it is. What is not tried does not matter. -/
theorem made_at_most_once (before : List (Request ε α)) (request : Request ε α) :
    (((empty.run before).respond request).tried = true
        ↔ request.attempt?.isSome = true ∧ ∀ entry ∈ empty.exchange before, ¬Makes entry)
      ∧ ((∀ entry ∈ empty.exchange before, ¬Makes entry) →
        ((empty.run before).respond request).reply = request.replyWithout)
      ∧ (((empty.run before).respond request).tried = true →
        (∀ fault, request.attempt? = some (.error fault) →
          ((empty.run before).respond request).reply = .failed fault
            ∧ ((empty.run before).respond request).cell = empty)
        ∧ ∀ value, request.attempt? = some (.ok value) →
          ((empty.run before).respond request).reply = .given value
            ∧ ∀ (later : List (Request ε α)) (next : Request ε α),
              (empty.run (before ++ request :: later)).respond next
                = ⟨⟨some value⟩, next.replyWith value, false⟩)
      ∧ (((empty.run before).respond request).tried = false → ∀ other : Request ε α,
        other.Like request →
          (empty.run before).respond other = (empty.run before).respond request) := by
  have hnobody : (∀ entry ∈ (empty : Once α).exchange before, ¬Makes entry)
      ↔ ((empty : Once α).run before).value = none := forall_not_makes_iff rfl before
  rw [hnobody]
  refine ⟨?_, fun hnone => ?_, fun htried => ?_, fun htried other hlike =>
    respond_of_not_tried htried hlike⟩
  · cases hvalue : (empty.run before).value with
    | some value => simp [respond_of_some hvalue]
    | none => simp [respond_of_none hvalue]
  · rw [respond_of_none hnone]
  · have hnone : (empty.run before).value = none := by
      cases hvalue : (empty.run before).value with
      | none => rfl
      | some value =>
          rw [respond_of_some hvalue] at htried
          cases htried
    rw [respond_of_none hnone]
    constructor
    · intro fault hattempt
      simp [Request.replyWithout, Request.value?, hattempt, Except.toOption, empty]
    · intro value hattempt
      have hmade : request.value? = some value := by
        rw [Request.value?, hattempt]
        rfl
      refine ⟨?_, respond_of_made hnone hmade⟩
      simp [Request.replyWithout, hattempt]

def pooled : List (Request String Nat) :=
  [.get, .getOrTry fun _ => .error "unavailable"]

def retry : Request String Nat :=
  .getOrTry fun _ => .ok 5

theorem pooled_made_once :
    ((empty.run pooled).respond retry).tried = true
      ∧ ((empty.run pooled).respond retry).reply = .given 5
      ∧ (empty.run (pooled ++ retry :: [.getOrMake fun _ => 7])).respond
          (.getOrTry fun _ => .error "ignored") = ⟨⟨some 5⟩, .given 5, false⟩ := by
  obtain ⟨htried, -, hmade, -⟩ := made_at_most_once pooled retry
  have hnobody : ∀ entry ∈ (empty : Once Nat).exchange pooled, ¬Makes entry :=
    (forall_not_makes_iff rfl pooled).mpr rfl
  have htried := htried.mpr ⟨rfl, hnobody⟩
  obtain ⟨hreply, hlater⟩ := (hmade htried).2 5 rfl
  exact ⟨htried, hreply, hlater [.getOrMake fun _ => 7] (.getOrTry fun _ => .error "ignored")⟩

end Assembly.Once
