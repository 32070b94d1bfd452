import Assembly.Cell.Deferred

/-!
# The history of a cell

A cell is bound, asked and waited for through its handles, which are cloned and dropped in between. What a
call replies depends on the values that were set before it. A promise made without a value is kept with the
first value offered after it, whenever one asks, and it is given up when the last handle is dropped.
-/

namespace Assembly.Deferred

/-- What is done with a handle of a cell. -/
inductive Call (α : Type) where
  | clone
  | drop
  | bind (value : α)
  | rebind (value : α)
  | get
  | tryGet
  | isBound
  | wait
deriving DecidableEq

inductive Reply (α : Type) where
  | done
  | refused (fault : CellFault)
  | value (value : α)
  | found (value : Option α)
  | bound (flag : Bool)
  | promise (promise : Promise α)
deriving DecidableEq

variable {α : Type}

/-- The cell after a call, and its reply. -/
def call (cell : Deferred α) : Call α → Deferred α × Reply α
  | .clone => (cell.addHandle, .done)
  | .drop => (cell.dropHandle, .done)
  | .bind value =>
    match cell.bind value with
    | .ok next => (next, .done)
    | .error fault => (cell, .refused fault)
  | .rebind value => ((cell.rebind value).2, .found (cell.rebind value).1)
  | .get =>
    match cell.get with
    | .ok value => (cell, .value value)
    | .error fault => (cell, .refused fault)
  | .tryGet => (cell, .found cell.value)
  | .isBound => (cell, .bound cell.isBound)
  | .wait => (cell.wait.2, .promise cell.wait.1)

/-- The cell after a sequence of calls. -/
def run (cell : Deferred α) (calls : List (Call α)) : Deferred α :=
  calls.foldl (fun cell call => (cell.call call).1) cell

/-- The calls of a sequence with their replies. -/
def exchange : Deferred α → List (Call α) → List (Call α × Reply α)
  | _, [] => []
  | cell, call :: rest => (call, (cell.call call).2) :: exchange (cell.call call).1 rest

/-! ### What the calls say -/

/-- The value that a call offers to the cell. -/
def Call.offered? : Call α → Option α
  | .bind value => some value
  | .rebind value => some value
  | _ => none

/-- The value that a call has set. -/
def set? : Call α × Reply α → Option α
  | (.bind value, .done) => some value
  | (.rebind value, _) => some value
  | _ => none

/-- The value that was set last in the history of a cell. -/
def held (calls : List (Call α)) : Option α :=
  ((empty.exchange calls).filterMap set?).getLast?

/-- The number of handles behind a call. -/
def Call.handles (before : Nat) : Call α → Nat
  | .clone => before + 1
  | .drop => before - 1
  | _ => before

/-- The number of handles after the history of a cell, which begins with one. -/
def handlesAfter (calls : List (Call α)) : Nat :=
  calls.foldl Call.handles 1

/-- Every call is made on a handle that has not been dropped. -/
def Possible (calls : List (Call α)) : Prop :=
  ∀ place < calls.length, 0 < handlesAfter (calls.take place)

instance (calls : List (Call α)) : Decidable (Possible calls) :=
  inferInstanceAs (Decidable (∀ place < calls.length, 0 < handlesAfter (calls.take place)))

/-- What a call has to reply where a value is held, or none. -/
def Call.Replies (held : Option α) : Call α → Reply α → Prop
  | .clone, reply => reply = .done
  | .drop, reply => reply = .done
  | .bind _, reply => reply = if held.isSome then .refused .alreadyBound else .done
  | .rebind _, reply => reply = .found held
  | .get, reply => reply = held.elim (.refused .unbound) .value
  | .tryGet, reply => reply = .found held
  | .isBound, reply => reply = .bound held.isSome
  | .wait, reply => ∃ promise, reply = .promise promise

/-- What has become of a promise: the value held when it was made, or else the first one offered later.
Without handles there is none to come. -/
def outcome (held : Option α) (later : List (Call α)) (handles : Nat) :
    Option (Except CellFault α) :=
  match held.or (later.findSome? Call.offered?) with
  | some value => some (.ok value)
  | none => if handles = 0 then some (.error .abandoned) else none

/-! ### What one call does -/

variable {cell : Deferred α}

theorem run_cons (first : Call α) (rest : List (Call α)) :
    cell.run (first :: rest) = (cell.call first).1.run rest :=
  rfl

theorem run_append (before after : List (Call α)) :
    cell.run (before ++ after) = (cell.run before).run after :=
  List.foldl_append

theorem call_bind_of_bound (hbound : cell.isBound = true) (value : α) :
    cell.call (.bind value) = (cell, .refused .alreadyBound) := by
  simp only [call, bind, hbound, if_true]

theorem call_bind_of_unbound (hunbound : cell.isBound = false) (value : α) :
    cell.call (.bind value) = (cell.deliver value, .done) := by
  simp only [call, bind, hunbound, Bool.false_eq_true, if_false]

/-- Either the cell delivers the value that a call offers, or it keeps value and deliveries. -/
theorem call_cases (cell : Deferred α) (first : Call α) :
    (∃ value, first.offered? = some value ∧ set? (first, (cell.call first).2) = some value
        ∧ (cell.call first).1 = cell.deliver value)
      ∨ (set? (first, (cell.call first).2) = none ∧ (first.offered? = none ∨ cell.isBound = true)
        ∧ (cell.call first).1.value = cell.value
        ∧ (cell.call first).1.delivered = cell.delivered
        ∧ ((cell.call first).1.waiting = cell.waiting ∧ (cell.call first).1.next = cell.next
          ∨ cell.value = none ∧ (cell.call first).1.waiting = cell.waiting ++ [cell.next]
            ∧ (cell.call first).1.next = cell.next + 1)) := by
  cases first with
  | clone | drop | tryGet | isBound => exact .inr ⟨rfl, .inl rfl, rfl, rfl, .inl ⟨rfl, rfl⟩⟩
  | bind value =>
      cases hbound : cell.isBound with
      | true =>
          rw [call_bind_of_bound hbound]
          exact .inr ⟨rfl, .inr rfl, rfl, rfl, .inl ⟨rfl, rfl⟩⟩
      | false =>
          rw [call_bind_of_unbound hbound]
          exact .inl ⟨value, rfl, rfl, rfl⟩
  | rebind value => exact .inl ⟨value, rfl, rfl, rfl⟩
  | get =>
      have hsame : (cell.call .get).1 = cell := by
        unfold call
        dsimp only
        split <;> rfl
      rw [hsame]
      exact .inr ⟨rfl, .inl rfl, rfl, rfl, .inl ⟨rfl, rfl⟩⟩
  | wait =>
      refine .inr ⟨rfl, .inl rfl, ?_⟩
      cases hvalue : cell.value with
      | some value => simp [call, wait, hvalue]
      | none => simp [call, wait, hvalue]

theorem value_call (cell : Deferred α) (first : Call α) :
    (cell.call first).1.value = (set? (first, (cell.call first).2)).or cell.value := by
  obtain ⟨value, -, hset, hcell⟩ | ⟨hset, -, hvalue, -⟩ := call_cases cell first
  · rw [hset, hcell]
    rfl
  · rw [hset, hvalue]
    rfl

theorem handles_call (cell : Deferred α) (first : Call α) :
    (cell.call first).1.handles = first.handles cell.handles := by
  cases first with
  | clone | drop | rebind | tryGet | isBound => rfl
  | bind value =>
      cases hbound : cell.isBound with
      | true =>
          rw [call_bind_of_bound hbound]
          rfl
      | false =>
          rw [call_bind_of_unbound hbound]
          rfl
  | get =>
      unfold call
      dsimp only
      split <;> rfl
  | wait => cases hvalue : cell.value <;> simp [call, wait, hvalue, Call.handles]

/-- A call replies what is due to the value of the cell. -/
theorem replies_call (cell : Deferred α) (first : Call α) :
    first.Replies cell.value (cell.call first).2 := by
  cases first with
  | clone | drop | rebind | tryGet | isBound => rfl
  | bind value =>
      cases hbound : cell.isBound with
      | true =>
          rw [call_bind_of_bound hbound]
          exact (if_pos hbound).symm
      | false =>
          rw [call_bind_of_unbound hbound]
          exact (if_neg (Bool.eq_false_iff.mp hbound)).symm
  | get => cases hvalue : cell.value <;> simp [Call.Replies, call, get, hvalue]
  | wait => exact ⟨_, rfl⟩

/-! ### What holds throughout a history -/

/-- The numbers of the promises that have been kept, and of those that have not. -/
def numbers (cell : Deferred α) : List Nat :=
  cell.delivered.map Prod.fst ++ cell.waiting

structure Sound (cell : Deferred α) : Prop where
  drained : cell.isBound = true → cell.waiting = []
  nodup : cell.numbers.Nodup
  fresh : ∀ number ∈ cell.numbers, number < cell.next

theorem sound_empty : (empty : Deferred α).Sound :=
  ⟨fun _ => rfl, .nil, nofun⟩

theorem numbers_deliver (cell : Deferred α) (value : α) :
    (cell.deliver value).numbers = cell.numbers := by
  simp [numbers, deliver, Function.comp_def]

theorem Sound.call (hsound : cell.Sound) (first : Call α) : (cell.call first).1.Sound := by
  obtain ⟨hdrained, hnodup, hfresh⟩ := hsound
  obtain ⟨value, -, -, hcell⟩ | ⟨-, -, hvalue, hdelivered, hwaiting⟩ := call_cases cell first
  · rw [hcell]
    refine ⟨fun _ => rfl, ?_, ?_⟩
    · rw [numbers_deliver]
      exact hnodup
    · rw [numbers_deliver]
      exact hfresh
  obtain ⟨hsame, hnext⟩ | ⟨hnone, hmore, hnext⟩ := hwaiting
  · have hnumbers : (cell.call first).1.numbers = cell.numbers := by
      rw [numbers, numbers, hdelivered, hsame]
    refine ⟨?_, hnumbers ▸ hnodup, ?_⟩
    · rw [isBound, hvalue, hsame]
      exact hdrained
    · rw [hnumbers, hnext]
      exact hfresh
  · have hnumbers : (cell.call first).1.numbers = cell.numbers ++ [cell.next] := by
      rw [numbers, numbers, hdelivered, hmore, List.append_assoc]
    refine ⟨?_, ?_, ?_⟩
    · rw [isBound, hvalue, hnone]
      nofun
    · rw [hnumbers, List.nodup_append]
      refine ⟨hnodup, List.pairwise_singleton _ _, fun number hnumber other hother => ?_⟩
      rw [List.mem_singleton.mp hother]
      exact Nat.ne_of_lt (hfresh number hnumber)
    · rw [hnumbers, hnext]
      intro number hnumber
      rcases List.mem_append.mp hnumber with hbefore | hlast
      · exact Nat.lt_succ_of_lt (hfresh number hbefore)
      · exact List.mem_singleton.mp hlast ▸ Nat.lt_succ_self _

theorem Sound.run (hsound : cell.Sound) (calls : List (Call α)) : (cell.run calls).Sound := by
  induction calls generalizing cell with
  | nil => exact hsound
  | cons first rest ih => exact ih (hsound.call first)

theorem value_run (cell : Deferred α) (calls : List (Call α)) :
    (cell.run calls).value = ((cell.exchange calls).filterMap set?).getLast?.or cell.value := by
  induction calls generalizing cell with
  | nil => rfl
  | cons first rest ih =>
      rw [run_cons, ih, value_call, exchange, List.filterMap_cons]
      cases set? (first, (cell.call first).2) with
      | none => rfl
      | some value =>
          simp only [List.getLast?_cons]
          cases ((cell.call first).1.exchange rest).filterMap set? with
          | nil => rfl
          | cons second others => simp [List.getLast?_cons]

/-- What is held is the value of the cell. -/
theorem value_history (calls : List (Call α)) :
    (empty.run calls).value = held calls := by
  rw [value_run]
  exact Option.or_none

theorem isBound_history (calls : List (Call α)) :
    (empty.run calls).isBound = (held calls).isSome := by
  rw [isBound, value_history]

theorem handles_history (calls : List (Call α)) :
    (empty.run calls).handles = handlesAfter calls := by
  have hrun : ∀ cell : Deferred α, (cell.run calls).handles = calls.foldl Call.handles cell.handles := by
    induction calls with
    | nil => exact fun cell => rfl
    | cons first rest ih =>
        intro cell
        rw [run_cons, ih, handles_call, List.foldl_cons]
  exact hrun empty

theorem isBound_call (cell : Deferred α) (first : Call α) :
    (cell.call first).1.isBound = (first.offered?.isSome || cell.isBound) := by
  obtain ⟨value, hoffered, -, hcell⟩ | ⟨-, hoffered | hbound, hvalue, -⟩ := call_cases cell first
  · rw [hcell, hoffered]
    rfl
  · rw [hoffered, isBound, hvalue]
    rfl
  · rw [hbound, isBound, hvalue, Bool.or_true]
    exact hbound

/-- A cell has a value if it had one, or if one was offered. -/
theorem isBound_run (cell : Deferred α) (calls : List (Call α)) :
    (cell.run calls).isBound = (calls.any (·.offered?.isSome) || cell.isBound) := by
  induction calls generalizing cell with
  | nil => rfl
  | cons first rest ih =>
      rw [run_cons, ih, isBound_call, List.any_cons, Bool.or_left_comm, Bool.or_assoc]

/-! ### Promises -/

/-- There is no value yet for a number that is waited for. -/
structure Awaits (cell : Deferred α) (number : Nat) : Prop where
  unbound : cell.value = none
  waiting : number ∈ cell.waiting
  undelivered : cell.delivered.lookup number = none

theorem lookup_delivered {number : Nat} {waiting : List Nat} (hwaiting : number ∈ waiting) (value : α) :
    (waiting.map (·, value)).lookup number = some value := by
  induction waiting with
  | nil => cases hwaiting
  | cons first rest ih =>
      rw [List.map_cons, List.lookup_cons]
      split
      · rfl
      · next hne =>
        refine ih (List.mem_of_ne_of_mem ?_ hwaiting)
        rintro rfl
        simp at hne

theorem lookup_eq_none {number : Nat} {delivered : List (Nat × α)}
    (hfresh : ∀ other ∈ delivered.map Prod.fst, other < number) :
    delivered.lookup number = none := by
  refine List.lookup_eq_none_iff.mpr fun entry hentry => ?_
  have hlt := hfresh entry.1 (List.mem_map_of_mem hentry)
  exact bne_iff_ne.mpr (Nat.ne_of_gt hlt)

/-- What has been delivered stays so. -/
theorem lookup_call {number : Nat} {value : α} (hlookup : cell.delivered.lookup number = some value)
    (first : Call α) : (cell.call first).1.delivered.lookup number = some value := by
  obtain ⟨other, -, -, hcell⟩ | ⟨-, -, -, hdelivered, -⟩ := call_cases cell first
  · rw [hcell, deliver, List.lookup_append, hlookup]
    rfl
  · rw [hdelivered, hlookup]

theorem lookup_run {number : Nat} {value : α} (hlookup : cell.delivered.lookup number = some value)
    (calls : List (Call α)) : (cell.run calls).delivered.lookup number = some value := by
  induction calls generalizing cell with
  | nil => exact hlookup
  | cons first rest ih => exact ih (lookup_call hlookup first)

theorem Awaits.call_of_offered {number : Nat} (hawaits : cell.Awaits number) {first : Call α}
    {value : α} (hoffered : first.offered? = some value) :
    (cell.call first).1.delivered.lookup number = some value := by
  obtain ⟨hunbound, hwaiting, hundelivered⟩ := hawaits
  obtain ⟨other, hother, -, hcell⟩ | ⟨-, hnone | hbound, -⟩ := call_cases cell first
  · cases hother.symm.trans hoffered
    rw [hcell, deliver, List.lookup_append, hundelivered, lookup_delivered hwaiting]
    rfl
  · cases hnone.symm.trans hoffered
  · rw [isBound, hunbound] at hbound
    cases hbound

theorem Awaits.call_of_not_offered {number : Nat} (hawaits : cell.Awaits number) {first : Call α}
    (hoffered : first.offered? = none) : (cell.call first).1.Awaits number := by
  obtain ⟨hunbound, hwaiting, hundelivered⟩ := hawaits
  obtain ⟨other, hother, -⟩ | ⟨-, -, hvalue, hdelivered, hmore⟩ := call_cases cell first
  · cases hother.symm.trans hoffered
  refine ⟨hvalue.trans hunbound, ?_, hdelivered ▸ hundelivered⟩
  obtain ⟨hsame, -⟩ | ⟨-, hsame, -⟩ := hmore
  · exact hsame ▸ hwaiting
  · rw [hsame]
    exact List.mem_append_left _ hwaiting

/-- Who waits gets the first value that is offered. -/
theorem Awaits.run {number : Nat} (hawaits : cell.Awaits number) (calls : List (Call α)) :
    match calls.findSome? Call.offered? with
    | some value => (cell.run calls).delivered.lookup number = some value
    | none => (cell.run calls).Awaits number := by
  induction calls generalizing cell with
  | nil => exact hawaits
  | cons first rest ih =>
      rw [List.findSome?_cons]
      cases hoffered : first.offered? with
      | some value => exact lookup_run (hawaits.call_of_offered hoffered) rest
      | none => exact ih (hawaits.call_of_not_offered hoffered)

theorem poll?_run (hsound : cell.Sound) (later : List (Call α)) :
    (cell.wait.2.run later).poll? cell.wait.1
      = outcome cell.value later (cell.wait.2.run later).handles := by
  unfold outcome
  cases hvalue : cell.value with
  | some value =>
      have hwait : cell.wait = (.ready value, cell) := by
        unfold wait
        rw [hvalue]
      rw [hwait]
      rfl
  | none =>
      -- The number is fresh, so nothing that was delivered before counts for it.
      have hawaits : cell.wait.2.Awaits cell.next := by
        have hundelivered := lookup_eq_none fun other hother =>
          hsound.fresh other (List.mem_append_left _ hother)
        refine ⟨?_, ?_, ?_⟩ <;> simp [wait, hvalue, hundelivered]
      have hwait : cell.wait.1 = .ticket cell.next := by
        unfold wait
        rw [hvalue]
      have hrun := hawaits.run later
      rw [hwait, Option.none_or]
      unfold poll?
      cases hfirst : later.findSome? Call.offered? with
      | some value =>
          rw [hfirst] at hrun
          simp only [hrun]
      | none =>
          rw [hfirst] at hrun
          simp only [hrun.undelivered]

/-- Only who waits gets a promise. -/
theorem eq_wait_of_promise {first : Call α} {promise : Promise α}
    (hreply : (cell.call first).2 = .promise promise) :
    first = .wait ∧ promise = cell.wait.1 := by
  cases first with
  | clone | drop | rebind | tryGet | isBound => cases hreply
  | bind value =>
      cases hbound : cell.isBound with
      | true =>
          rw [call_bind_of_bound hbound] at hreply
          cases hreply
      | false =>
          rw [call_bind_of_unbound hbound] at hreply
          cases hreply
  | get => cases hvalue : cell.value <;> simp [call, get, hvalue] at hreply
  | wait => exact ⟨rfl, (Reply.promise.inj hreply).symm⟩

/-- A promise made after the calls before is settled by those behind. -/
theorem poll?_history (before later : List (Call α)) :
    (empty.run (before ++ .wait :: later)).poll? (empty.run before).wait.1
      = outcome (held before) later (handlesAfter (before ++ .wait :: later)) := by
  rw [← handles_history, run_append, run_cons, ← value_history]
  exact poll?_run (sound_empty.run before) later

/-- What has become of a promise stays so: a value that was offered first stays the first, and without a
handle nothing is offered any more. -/
theorem outcome_append {held : Option α} {before later rest : List (Call α)}
    {result : Except CellFault α} (hpossible : Possible (before ++ later ++ rest))
    (houtcome : outcome held later (handlesAfter (before ++ later)) = some result) :
    outcome held (later ++ rest) (handlesAfter (before ++ later ++ rest)) = some result := by
  unfold outcome at *
  rw [List.findSome?_append, ← Option.or_assoc]
  cases hfirst : held.or (later.findSome? Call.offered?) with
  | some value =>
      rw [hfirst] at houtcome
      exact houtcome
  | none =>
      rw [hfirst] at houtcome
      dsimp only at houtcome
      split at houtcome
      · next hhandles =>
        have hrest : rest = [] := by
          cases rest with
          | nil => rfl
          | cons first others =>
              have hpositive := hpossible (before ++ later).length (by simp)
              rw [List.take_left, hhandles] at hpositive
              cases hpositive
        subst hrest
        rw [List.append_nil, hhandles]
        exact houtcome
      · cases houtcome

/-- At every moment of a history the cell has the value that was set last. Once it has one it keeps one, lets
nobody wait and is not changed by another attempt to bind it, and no number is delivered twice. Each call
replies by the value that was set last. Whoever waits gets the value that is there, or the first one offered
later, or hears that all handles are gone, and the answer stays the same until the end of the history. -/
theorem promises_kept (calls : List (Call α)) (hpossible : Possible calls) :
    (∀ before after, calls = before ++ after →
      (empty.run before).value = held before
        ∧ ((held before).isSome = true ↔ ∃ call ∈ before, call.offered?.isSome = true)
        ∧ ((empty.run before).isBound = true →
          (empty.run before).waiting = [] ∧ (empty.run calls).isBound = true)
        ∧ (empty.run before).numbers.Nodup)
      ∧ ∀ before call after, calls = before ++ call :: after →
        call.Replies (held before) ((empty.run before).call call).2
          ∧ (∀ value, call = .bind value → (empty.run before).isBound = true →
            (empty.run (before ++ [call])) = empty.run before)
          ∧ ∀ promise, ((empty.run before).call call).2 = .promise promise →
            ∀ later rest, after = later ++ rest →
              (empty.run (before ++ call :: later)).poll? promise
                  = outcome (held before) later (handlesAfter (before ++ call :: later))
                ∧ ∀ result, (empty.run (before ++ call :: later)).poll? promise = some result →
                  (empty.run calls).poll? promise = some result := by
  refine ⟨fun before after hsplit =>
    ⟨value_history before, ?_, fun hbound => ⟨?_, ?_⟩, ?_⟩, ?_⟩
  · rw [← isBound_history, isBound_run, ← List.any_eq_true]
    simp [isBound, empty]
  · exact (sound_empty.run before).drained hbound
  · rw [hsplit, run_append, isBound_run, hbound, Bool.or_true]
  · exact (sound_empty.run before).nodup
  rintro before call after rfl
  refine ⟨?_, ?_, ?_⟩
  · rw [← value_history]
    exact replies_call _ call
  · rintro value rfl hbound
    rw [run_append, run_cons, call_bind_of_bound hbound]
    rfl
  · rintro promise hreply later rest rfl
    obtain ⟨rfl, rfl⟩ := eq_wait_of_promise hreply
    rw [poll?_history]
    refine ⟨rfl, fun result hresult => ?_⟩
    rw [poll?_history]
    have hsplit : ∀ later, before ++ Call.wait :: later = before ++ [Call.wait] ++ later := by simp
    rw [hsplit] at hresult hpossible ⊢
    rw [← List.append_assoc] at hpossible ⊢
    exact outcome_append hpossible hresult

/-- Somebody waits before the cell is bound, and somebody before it is bound anew. -/
def relay : List (Call Nat) :=
  [.clone, .wait, .drop, .bind 1, .bind 2, .wait, .rebind 3, .get, .drop]

theorem relay_kept :
    Possible relay
      ∧ (empty.run (relay.take 3)).poll? (.ticket 0) = none
      ∧ (empty.run (relay.take 4)).poll? (.ticket 0) = some (.ok 1)
      ∧ (empty.run relay).poll? (.ticket 0) = some (.ok 1)
      ∧ (empty.run relay).poll? (.ready 1) = some (.ok 1) := by
  have hpossible : Possible relay := by decide
  have hkept := (promises_kept relay hpossible).2
  have hfirst := (hkept [.clone] .wait _ rfl).2.2 (.ticket 0) rfl
  have hsecond := (hkept (relay.take 5) .wait _ rfl).2.2 (.ready 1) rfl (relay.drop 6) [] rfl
  obtain ⟨hdelivered, hlasting⟩ := hfirst [.drop, .bind 1] _ rfl
  exact ⟨hpossible, (hfirst [.drop] _ rfl).1, hdelivered, hlasting _ hdelivered, hsecond.1⟩

/-- The only handle is dropped while somebody waits. -/
example : (empty.run [Call.wait (α := Nat), .drop]).poll? (.ticket 0) = some (.error .abandoned) :=
  rfl

end Assembly.Deferred
