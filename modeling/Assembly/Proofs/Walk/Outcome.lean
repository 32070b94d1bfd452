import Mathlib.Data.List.Chain
import Assembly.Proofs.Walk.Completion

/-!
# What a walk finds

A node has a level exactly if it does not reach a cycle, and its level is then one more than the
highest level of its successors. A walk that is watched for active successors comes upon nodes that
form a cycle, or leaves every node with a level.
-/

namespace Assembly.Walk

variable {n : Nat} (successors : Fin n → List (Fin n))

/-- Each of the nodes leads to the next one, and the last one to the first. -/
structure IsCycle (nodes : List (Fin n)) : Prop where
  nodup : nodes.Nodup
  chain : nodes.IsChain (Leads successors)
  closed : ∃ first last, nodes.head? = some first ∧ nodes.getLast? = some last
    ∧ Leads successors last first

/-- If the next successor to be looked at is active, the nodes of the stack from it to the innermost
one. -/
def closing? (walk : Walk n) : Option (List (Fin n)) :=
  match walk.stack with
  | [] => none
  | frame :: _ =>
    match frame.rest with
    | [] => none
    | next :: _ =>
      if walk.mark next = .active then
        some ((walk.stack.map (·.node)).reverse.dropWhile (· ≠ next))
      else none

/-- The first cycle that a walk comes upon. -/
def search : Nat → Walk n → Option (List (Fin n))
  | 0, _ => none
  | steps + 1, walk =>
    match walk.closing? with
    | some cycle => some cycle
    | none =>
      match walk.step successors with
      | none => none
      | some next => search steps next

/-- No node without a level has been met. -/
def Levelled (walk : Walk n) : Prop :=
  (∀ frame ∈ walk.stack, frame.level ≠ none) ∧ ∀ node, walk.mark node ≠ .finished none

variable {successors} {walk newWalk : Walk n}

/-! ### Levels -/

theorem get_levels (node : Fin n) :
    (levels successors).get node = (finish successors).level? node := by
  change (levels successors)[(node : Nat)] = Mark.level? (finish successors).marks[(node : Nat)]
  rw [levels, Vector.getElem_map]
  cases (finish successors).marks[(node : Nat)] <;> rfl

theorem levelOver_levels {node : Fin n} {level : Nat}
    (hlevel : (levels successors).get node = some level) :
    levelOver (levels successors).get (successors node) = some level := by
  rw [get_levels, level?_eq_some] at hlevel
  have hget : (levels successors).get = (finish successors).level? := funext get_levels
  rw [hget]
  exact sound_finish.finished node (some level) hlevel

/-- A successor of a node with a level has a lower one. -/
theorem lt_of_leads {node next : Fin n} {level : Nat}
    (hlevel : (levels successors).get node = some level) (hleads : Leads successors node next) :
    ∃ below, (levels successors).get next = some below ∧ below < level :=
  lt_of_levelOver_eq_some (levelOver_levels hlevel) hleads

theorem lt_of_transGen {node other : Fin n} {level : Nat}
    (hlevel : (levels successors).get node = some level)
    (hpath : Relation.TransGen (Leads successors) node other) :
    ∃ below, (levels successors).get other = some below ∧ below < level := by
  induction hpath with
  | single hleads => exact lt_of_leads hlevel hleads
  | tail _ hleads ih =>
      obtain ⟨middle, hmiddle, hlt⟩ := ih
      obtain ⟨below, hbelow, hlt'⟩ := lt_of_leads hmiddle hleads
      exact ⟨below, hbelow, hlt'.trans hlt⟩

theorem levels_eq_none_iff {node : Fin n} :
    (levels successors).get node = none ↔ ReachesCycle successors node := by
  constructor
  · intro hnone
    obtain ⟨level, hmark⟩ := exists_mark_finish successors node
    rw [get_levels, level?, hmark] at hnone
    have hsettled := sound_finish.finished node level hmark
    rw [show level = none from hnone] at hsettled
    exact hsettled
  · rintro ⟨member, hreach, hcycle⟩
    by_contra hsome
    obtain ⟨level, hlevel⟩ := Option.ne_none_iff_exists'.mp hsome
    obtain ⟨_, hmember⟩ : ∃ below, (levels successors).get member = some below := by
      rcases Relation.reflTransGen_iff_eq_or_transGen.mp hreach with heq | hpath
      · exact ⟨level, heq ▸ hlevel⟩
      · obtain ⟨below, hbelow, -⟩ := lt_of_transGen hlevel hpath
        exact ⟨below, hbelow⟩
    obtain ⟨below, hbelow, hlt⟩ := lt_of_transGen hmember hcycle
    rw [hmember] at hbelow
    cases hbelow
    exact Nat.lt_irrefl _ hlt

/-! ### Cycles -/

theorem Stacked.isChain {levelOf : Fin n → Option Nat} {awaited : List (Fin n)}
    {stack : List (Frame n)} (hstacked : Stacked successors levelOf awaited stack) :
    (stack.map (·.node)).IsChain fun child parent => Leads successors parent child := by
  induction stack generalizing awaited with
  | nil => exact .nil
  | cons frame below ih =>
      cases below with
      | nil => exact .singleton _
      | cons parent others =>
          obtain ⟨-, hbelow⟩ := hstacked
          exact .cons_cons (hbelow.leads List.mem_cons_self) (ih hbelow)

/-- What remains of a list from the first place of a node on. -/
theorem exists_dropWhile_eq {nodes : List (Fin n)} {node : Fin n} (hnode : node ∈ nodes) :
    ∃ before after, nodes = before ++ node :: after
      ∧ nodes.dropWhile (· ≠ node) = node :: after := by
  obtain ⟨before, after, hsplit, hbefore⟩ := List.eq_append_cons_of_mem hnode
  refine ⟨before, after, hsplit, ?_⟩
  rw [hsplit, List.dropWhile_append_of_pos, List.dropWhile_cons]
  · simp
  · intro other hother
    simpa using fun heq : other = node => hbefore (heq ▸ hother)

theorem isCycle_of_closing? {nodes : List (Fin n)} (hsound : Sound successors [] walk)
    (hclosing : walk.closing? = some nodes) : IsCycle successors nodes := by
  unfold closing? at hclosing
  split at hclosing
  · cases hclosing
  · next frame below hstack =>
    split at hclosing
    · cases hclosing
    · next next rest hrest =>
      split at hclosing
      · next hmark =>
        have hmem := (hsound.active_iff next).mp hmark
        have hnodup := hsound.nodup
        have hstacked := hsound.stacked
        have hchain := List.isChain_reverse.mpr hstacked.isChain
        obtain ⟨before, after, hsplit, hdrop⟩ := exists_dropWhile_eq (List.mem_reverse.mpr hmem)
        have hnodes : nodes = next :: after := (Option.some.inj hclosing).symm.trans hdrop
        have hlast : (next :: after).getLast? = some frame.node := by
          have hreverse := List.getLast?_reverse (l := walk.stack.map (·.node))
          rw [hsplit, List.getLast?_append_cons, hstack] at hreverse
          exact hreverse
        rw [hstack] at hstacked
        have hleads := hstacked.leads (hrest ▸ List.mem_cons_self)
        have hsuffix : nodes <:+ (walk.stack.map (·.node)).reverse := by
          rw [hsplit, hnodes]
          exact List.suffix_append _ _
        exact
          { nodup := (List.nodup_reverse.mpr hnodup).sublist hsuffix.sublist
            chain := hchain.suffix hsuffix
            closed := ⟨next, frame.node, by rw [hnodes]; rfl, hnodes ▸ hlast, hleads⟩ }
      · cases hclosing

theorem reflTransGen_of_isChain {relation : Fin n → Fin n → Prop} {first last : Fin n}
    {rest : List (Fin n)} (hchain : (first :: rest).IsChain relation)
    (hlast : (first :: rest).getLast? = some last) : Relation.ReflTransGen relation first last := by
  induction rest generalizing first with
  | nil =>
      cases hlast
      exact .refl
  | cons second rest ih =>
      rw [List.isChain_cons_cons] at hchain
      rw [List.getLast?_cons_cons] at hlast
      exact .head hchain.1 (ih hchain.2 hlast)

theorem IsCycle.transGen {nodes : List (Fin n)} (hcycle : IsCycle successors nodes) :
    ∃ node, Relation.TransGen (Leads successors) node node := by
  obtain ⟨first, last, hfirst, hlast, hleads⟩ := hcycle.closed
  obtain ⟨rest, rfl⟩ := List.head?_eq_some_iff.mp hfirst
  exact ⟨first, .tail' (reflTransGen_of_isChain hcycle.chain hlast) hleads⟩

theorem isCycle_of_search {nodes : List (Fin n)} {steps : Nat} (hsound : Sound successors [] walk)
    (hsearch : search successors steps walk = some nodes) : IsCycle successors nodes := by
  induction steps generalizing walk with
  | zero => cases hsearch
  | succ steps ih =>
      rw [search] at hsearch
      split at hsearch
      · next found hclosing =>
        cases hsearch
        exact isCycle_of_closing? hsound hclosing
      · split at hsearch
        · cases hsearch
        · next newWalk hstep => exact ih (hsound.moves (moves_of_step hstep)) hsearch

/-- Without a cycle that closes, a step meets no node without a level. -/
theorem Levelled.moves (hlevelled : Levelled walk) (hclosing : walk.closing? = none)
    (hmoves : Moves successors walk newWalk) : Levelled newWalk := by
  obtain ⟨hframes, hfinished⟩ := hlevelled
  cases hmoves with
  | @begin root roots hstack hroots hmark =>
      refine ⟨fun frame hframe => ?_, fun node => ?_⟩
      · rcases List.mem_cons.mp hframe with rfl | hbelow
        · simp
        · exact hframes frame hbelow
      · rw [mark_enter]
        split
        · simp
        · exact hfinished node
  | skip hstack hroots hmark => exact ⟨hframes, hfinished⟩
  | @leave frame below hstack hrest =>
      rw [hstack] at hframes
      have hlevel := hframes frame List.mem_cons_self
      refine ⟨fun other hother => ?_, fun node => ?_⟩
      · cases below with
        | nil => cases hother
        | cons parent others =>
            rcases List.mem_cons.mp hother with rfl | hothers
            · obtain ⟨old, hold⟩ := Option.ne_none_iff_exists'.mp (hframes parent (by simp))
              obtain ⟨known, hknown⟩ := Option.ne_none_iff_exists'.mp hlevel
              simp [hold, hknown, deeper]
            · exact hframes other (by simp [hothers])
      · rw [mark_leave]
        split
        · simpa using hlevel
        · exact hfinished node
  | @descend frame below next rest hstack hrest hmark =>
      rw [hstack] at hframes
      refine ⟨fun other hother => ?_, fun node => ?_⟩
      · rcases List.mem_cons.mp hother with rfl | hothers
        · simp
        · rcases List.mem_cons.mp hothers with rfl | hbelow
          · exact hframes frame List.mem_cons_self
          · exact hframes other (by simp [hbelow])
      · rw [mark_enter]
        split
        · simp
        · exact hfinished node
  | @close frame below next rest hstack hrest hmark =>
      simp [closing?, hstack, hrest, hmark] at hclosing
  | @pass frame below next rest level hstack hrest hmark =>
      rw [hstack] at hframes
      refine ⟨fun other hother => ?_, hfinished⟩
      rcases List.mem_cons.mp hother with rfl | hbelow
      · obtain ⟨old, hold⟩ := Option.ne_none_iff_exists'.mp (hframes frame List.mem_cons_self)
        cases level with
        | none => exact absurd hmark (hfinished next)
        | some known => simp [hold, deeper]
      · exact hframes other (by simp [hbelow])

theorem levelled_of_search {steps : Nat} (hsearch : search successors steps walk = none)
    (hlevelled : Levelled walk) (hwork : work successors walk ≤ steps)
    (hsound : Sound successors [] walk) : Levelled (run successors steps walk) := by
  induction steps generalizing walk with
  | zero => exact hlevelled
  | succ steps ih =>
      rw [search] at hsearch
      rw [run]
      split at hsearch
      · cases hsearch
      · next hclosing =>
        cases hstep : walk.step successors with
        | none => exact hlevelled
        | some newWalk =>
            rw [hstep] at hsearch
            have hmoves := moves_of_step hstep
            have hdone := work_moves hsound hmoves
            exact ih hsearch (hlevelled.moves hclosing hmoves) (by omega) (hsound.moves hmoves)

end Assembly.Walk
