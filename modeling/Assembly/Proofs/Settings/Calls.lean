import Mathlib.Data.List.Forall2
import Assembly.Settings.Layers

/-!
# Sequences of layers

Layers are added one after the other, and in between it is asked what they mean. A layer is looked at
together with the layers below it before it is kept. So what is kept always has a meaning, and a layer
that is refused might as well not have been tried.
-/

namespace Assembly

namespace Layers

/-- The layers after a sequence of calls. -/
def run (layers : Layers) (calls : List Call) : Layers :=
  calls.foldl (fun layers call => (layers.call call).1) layers

/-- The calls of a sequence with their replies. -/
def exchange : Layers → List Call → List (Call × Reply)
  | _, [] => []
  | layers, call :: rest =>
    (call, (layers.call call).2) :: exchange (layers.call call).1 rest

/-- The calls of a sequence that do not reply with an error. -/
def successes (layers : Layers) (calls : List Call) : List Call :=
  ((layers.exchange calls).filter fun entry => !entry.2.isError).map Prod.fst

/-- The layer that a call has added. -/
def addedLayer? : Call × Reply → Option Setting
  | (.add source, .added) => source.layer.toOption
  | _ => none

/-- The layers that a sequence of calls has added. -/
def addedLayers (layers : Layers) (calls : List Call) : List Setting :=
  (layers.exchange calls).filterMap addedLayer?

def addedSource? : Call × Reply → Option LayerSource
  | (.add source, .added) => some source
  | _ => none

/-- The sources of the layers that a sequence of calls has added. -/
def addedSources (layers : Layers) (calls : List Call) : List LayerSource :=
  (layers.exchange calls).filterMap addedSource?

variable {layers next : Layers} {source : LayerSource} {calls : List Call}

/-- What is written decides what is meant. -/
theorem eq_of_merged {first second : Layers} (hmerged : first.merged = second.merged) :
    first = second := by
  obtain ⟨merged, settings, hmeaning⟩ := first
  obtain ⟨merged', settings', hmeaning'⟩ := second
  cases hmerged
  cases hmeaning.symm.trans hmeaning'
  rfl

/-- What an attempt to add a layer comes to. -/
inductive Attempt (layers : Layers) (source : LayerSource) : Layers × Except LayerFault Unit → Prop where
  | unread {fault : LayerFault} (hlayer : source.layer = .error fault) :
      Attempt layers source (layers, .error fault)
  | refused {layer : Setting} {fault : SettingFault} (hlayer : source.layer = .ok layer)
      (hfault : Settings.ofSetting (layers.merged.merge layer) = .error fault) :
      Attempt layers source (layers, .error (.setting source.origin fault))
  | kept {layer : Setting} {next : Layers} (hlayer : source.layer = .ok layer)
      (hmerged : next.merged = layers.merged.merge layer) : Attempt layers source (next, .ok ())

theorem attempt_add (layers : Layers) (source : LayerSource) :
    Attempt layers source (layers.add source) := by
  unfold add
  cases hlayer : source.layer with
  | error fault => exact .unread hlayer
  | ok layer =>
      dsimp only
      unfold lay
      split
      · exact .kept hlayer rfl
      · next fault hfault => exact .refused hlayer hfault

theorem addSource_eq_ok_iff :
    layers.addSource source = .ok next
      ↔ ∃ layer, source.layer = .ok layer ∧ next.merged = layers.merged.merge layer := by
  have hattempt := attempt_add layers source
  unfold addSource
  generalize layers.add source = attempt at hattempt ⊢
  cases hattempt with
  | unread hlayer => simp [hlayer]
  | refused hlayer hfault =>
      constructor
      · intro hnext
        cases hnext
      · rintro ⟨other, hother, hmerged⟩
        cases hlayer.symm.trans hother
        cases hfault.symm.trans (hmerged ▸ next.meaning)
  | @kept layer kept hlayer hmerged =>
      constructor
      · intro hnext
        cases hnext
        exact ⟨layer, hlayer, hmerged⟩
      · rintro ⟨other, hother, hnext⟩
        cases hlayer.symm.trans hother
        rw [eq_of_merged (hmerged.trans hnext.symm)]

theorem addSource_eq_error {layer : Setting} {fault : SettingFault} (hlayer : source.layer = .ok layer)
    (hfault : Settings.ofSetting (layers.merged.merge layer) = .error fault) :
    layers.addSource source = .error (.setting source.origin fault) := by
  have hattempt := attempt_add layers source
  unfold addSource
  generalize layers.add source = attempt at hattempt ⊢
  cases hattempt with
  | unread hother => cases hlayer.symm.trans hother
  | refused hother hrefused =>
      cases hlayer.symm.trans hother
      cases hfault.symm.trans hrefused
      rfl
  | @kept other next hother hmerged =>
      cases hlayer.symm.trans hother
      cases hfault.symm.trans (hmerged ▸ next.meaning)

/-- A layer is added exactly if there is a meaning with it. -/
theorem exists_addSource_iff :
    (∃ next, layers.addSource source = .ok next)
      ↔ ∃ layer settings, source.layer = .ok layer
        ∧ Settings.ofSetting (layers.merged.merge layer) = .ok settings := by
  simp only [addSource_eq_ok_iff]
  constructor
  · rintro ⟨next, layer, hlayer, hmerged⟩
    exact ⟨layer, next.settings, hlayer, hmerged ▸ next.meaning⟩
  · rintro ⟨layer, settings, hlayer, hmeaning⟩
    exact ⟨⟨_, settings, hmeaning⟩, layer, hlayer, rfl⟩

theorem call_add_of_ok (hadd : layers.addSource source = .ok next) :
    layers.call (.add source) = (next, .added) := by
  unfold addSource at hadd
  split at hadd
  · next hadded =>
    cases hadd
    simp only [call, hadded]
  · cases hadd

theorem call_add_of_error {fault : LayerFault} (hadd : layers.addSource source = .error fault) :
    layers.call (.add source) = (layers, .refused fault) := by
  have hattempt := attempt_add layers source
  unfold addSource at hadd
  simp only [call]
  generalize layers.add source = attempt at hattempt hadd ⊢
  cases hattempt with
  | unread hlayer | refused hlayer hfault =>
      cases hadd
      rfl
  | kept hlayer hmerged => cases hadd

theorem call_add_eq_added_iff :
    (layers.call (.add source)).2 = .added ↔ ∃ next, layers.addSource source = .ok next := by
  cases hadd : layers.addSource source with
  | ok next => simp [call_add_of_ok hadd]
  | error fault => simp [call_add_of_error hadd]

theorem addSource_of_not_isError (hadded : (layers.call (.add source)).2.isError = false) :
    layers.addSource source = .ok (layers.call (.add source)).1 := by
  cases hadd : layers.addSource source with
  | ok next => rw [call_add_of_ok hadd]
  | error fault =>
      rw [call_add_of_error hadd] at hadded
      cases hadded

theorem call_extract : layers.call .extract = (layers, .meaning layers.settings) := by
  simp only [call, layers.meaning]

/-- An error changes nothing. -/
theorem call_of_isError {call : Call} (herror : (layers.call call).2.isError = true) :
    (layers.call call).1 = layers := by
  cases call with
  | add source =>
      cases hadd : layers.addSource source with
      | ok next =>
          rw [call_add_of_ok hadd] at herror
          cases herror
      | error fault => rw [call_add_of_error hadd]
  | extract => rw [call_extract]

/-- A call writes the layer that it adds over the others. -/
theorem merged_call (layers : Layers) (call : Call) :
    (layers.call call).1.merged
      = (addedLayer? (call, (layers.call call).2)).toList.foldl Setting.merge layers.merged := by
  cases call with
  | add source =>
      cases hadd : layers.addSource source with
      | ok next =>
          obtain ⟨layer, hlayer, hmerged⟩ := addSource_eq_ok_iff.mp hadd
          rw [call_add_of_ok hadd, addedLayer?, hlayer]
          exact hmerged
      | error fault =>
          rw [call_add_of_error hadd]
          rfl
  | extract =>
      rw [call_extract]
      rfl

theorem run_cons (call : Call) (rest : List Call) :
    layers.run (call :: rest) = (layers.call call).1.run rest :=
  rfl

theorem exchange_cons (call : Call) (rest : List Call) :
    layers.exchange (call :: rest)
      = (call, (layers.call call).2) :: (layers.call call).1.exchange rest :=
  rfl

theorem addedLayers_cons (call : Call) (rest : List Call) :
    layers.addedLayers (call :: rest)
      = (addedLayer? (call, (layers.call call).2)).toList
        ++ (layers.call call).1.addedLayers rest := by
  unfold addedLayers
  rw [exchange_cons, List.filterMap_cons]
  cases addedLayer? (call, (layers.call call).2) with
  | none => rfl
  | some layer => rfl

/-- What is merged in the end are the layers that were added. -/
theorem merged_run (layers : Layers) (calls : List Call) :
    (layers.run calls).merged = (layers.addedLayers calls).foldl Setting.merge layers.merged := by
  induction calls generalizing layers with
  | nil => rfl
  | cons call rest ih =>
      rw [run_cons, ih, merged_call, addedLayers_cons, List.foldl_append]

theorem addedSources_cons (call : Call) (rest : List Call) :
    layers.addedSources (call :: rest)
      = (addedSource? (call, (layers.call call).2)).toList
        ++ (layers.call call).1.addedSources rest := by
  unfold addedSources
  rw [exchange_cons, List.filterMap_cons]
  cases addedSource? (call, (layers.call call).2) with
  | none => rfl
  | some source => rfl

/-- What was added are the layers of the sources. -/
theorem forall₂_added (layers : Layers) (calls : List Call) :
    List.Forall₂ (fun source layer => source.layer = .ok layer) (layers.addedSources calls)
      (layers.addedLayers calls) := by
  induction calls generalizing layers with
  | nil => exact .nil
  | cons call rest ih =>
      rw [addedSources_cons, addedLayers_cons]
      cases call with
      | add source =>
          cases hadd : layers.addSource source with
          | ok next =>
              obtain ⟨layer, hlayer, -⟩ := addSource_eq_ok_iff.mp hadd
              rw [call_add_of_ok hadd, addedLayer?, hlayer]
              exact .cons hlayer (ih next)
          | error fault =>
              rw [call_add_of_error hadd]
              exact ih layers
      | extract =>
          rw [call_extract]
          exact ih layers

/-- Sources none of which is refused are all added. -/
theorem addedSources_map_add {sources : List LayerSource}
    (hadded : ∀ entry ∈ layers.exchange (sources.map .add), entry.2.isError = false) :
    layers.addedSources (sources.map .add) = sources := by
  induction sources generalizing layers with
  | nil => rfl
  | cons source rest ih =>
      rw [List.map_cons, exchange_cons] at hadded
      obtain ⟨hfirst, hrest⟩ := List.forall_mem_cons.mp hadded
      have hadd := addSource_of_not_isError hfirst
      rw [List.map_cons, addedSources_cons, ih hrest, call_add_of_ok hadd]
      rfl

theorem successes_cons_of_isError {call : Call} {rest : List Call}
    (herror : (layers.call call).2.isError = true) :
    layers.successes (call :: rest) = layers.successes rest := by
  unfold successes
  rw [exchange_cons, List.filter_cons_of_neg (by simpa using herror), call_of_isError herror]

theorem successes_cons_of_not_isError {call : Call} {rest : List Call}
    (hsuccess : (layers.call call).2.isError = false) :
    layers.successes (call :: rest) = call :: (layers.call call).1.successes rest := by
  unfold successes
  rw [exchange_cons, List.filter_cons_of_pos (by simpa using hsuccess), List.map_cons]

/-- Without the calls that reply with an error the others reply as before. -/
theorem exchange_successes (layers : Layers) (calls : List Call) :
    layers.exchange (layers.successes calls)
      = (layers.exchange calls).filter fun entry => !entry.2.isError := by
  induction calls generalizing layers with
  | nil => rfl
  | cons call rest ih =>
      cases herror : (layers.call call).2.isError with
      | true =>
          -- A call that fails leaves the layers as they were, so the rest starts from the same ones.
          rw [successes_cons_of_isError herror, ih, exchange_cons,
            List.filter_cons_of_neg (by simpa using herror), call_of_isError herror]
      | false =>
          rw [successes_cons_of_not_isError herror, exchange_cons, exchange_cons, ih,
            List.filter_cons_of_pos (by simpa using herror)]

theorem not_meaningless (layers : Layers) (calls : List Call) :
    ∀ entry ∈ layers.exchange calls, ∀ fault, entry.2 ≠ .meaningless fault := by
  induction calls generalizing layers with
  | nil => simp [exchange]
  | cons call rest ih =>
      intro entry hentry fault
      rcases List.mem_cons.mp hentry with rfl | hrest
      · cases call with
        | add source =>
            cases hadd : layers.addSource source with
            | ok next => simp [call_add_of_ok hadd]
            | error fault => simp [call_add_of_error hadd]
        | extract => simp [call_extract]
      · exact ih _ entry hrest fault

/-- Whatever is tried, the layers that were kept can be read together, and they are all that counts:
the calls that did not fail reply the same, without the others, as they did among them. -/
theorem refused_without_trace (calls : List Call) :
    (∀ entry ∈ initial.exchange calls, ∀ fault, entry.2 ≠ .meaningless fault)
      ∧ Settings.ofSetting ((initial.addedLayers calls).foldl Setting.merge defaults)
        = .ok (initial.run calls).settings
      ∧ initial.exchange (initial.successes calls)
        = (initial.exchange calls).filter fun entry => !entry.2.isError := by
  refine ⟨not_meaningless initial calls, ?_, exchange_successes initial calls⟩
  have hmerged := merged_run initial calls
  rw [show initial.merged = defaults from rfl] at hmerged
  rw [← hmerged]
  exact (initial.run calls).meaning

end Layers

end Assembly
