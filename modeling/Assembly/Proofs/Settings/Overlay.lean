import Assembly.Proofs.Settings.Readings
import Assembly.Proofs.Settings.Written

/-!
# What sources set

A document sets what is written in it, each setting at its place, and a variable sets what its name says.
Of several things for one place the last one is found there in the end, if it is no table.
-/

namespace Assembly

/-! ### The last of several things -/

/-- The last of the items that give something gives the value. -/
def LastGives {ι α : Type} (gives : ι → α → Prop) (items : List ι) (value : α) : Prop :=
  ∃ front item back, items = front ++ item :: back ∧ gives item value
    ∧ ∀ later ∈ back, ∀ other, ¬gives later other

section LastGives

variable {ι α : Type} {gives : ι → α → Prop} {first : ι} {items rest : List ι} {value : α}

theorem lastGives_cons_iff :
    LastGives gives (first :: rest) value
      ↔ LastGives gives rest value
        ∨ (∀ item ∈ rest, ∀ other, ¬gives item other) ∧ gives first value := by
  constructor
  · rintro ⟨front, item, back, heq, hitem, hback⟩
    cases front with
    | nil =>
        obtain ⟨rfl, rfl⟩ := List.cons.inj heq
        exact .inr ⟨hback, hitem⟩
    | cons head front =>
        obtain ⟨rfl, rfl⟩ := List.cons.inj heq
        exact .inl ⟨front, item, back, rfl, hitem, hback⟩
  · rintro (⟨front, item, back, rfl, hitem, hback⟩ | ⟨hrest, hfirst⟩)
    · exact ⟨first :: front, item, back, rfl, hitem, hback⟩
    · exact ⟨[], first, rest, rfl, hfirst, hrest⟩

theorem LastGives.exists_item (hlast : LastGives gives items value) :
    ∃ item ∈ items, gives item value := by
  obtain ⟨front, item, back, rfl, hitem, -⟩ := hlast
  exact ⟨item, by simp, hitem⟩

theorem forall_not_lastGives_iff :
    (∀ value, ¬LastGives gives items value) ↔ ∀ item ∈ items, ∀ value, ¬gives item value := by
  constructor
  · induction items with
    | nil => simp
    | cons first rest ih =>
        intro hnone
        have hrest := ih fun value hlast => hnone value (lastGives_cons_iff.mpr (.inl hlast))
        refine List.forall_mem_cons.mpr ⟨fun value hfirst => ?_, hrest⟩
        exact hnone value (lastGives_cons_iff.mpr (.inr ⟨hrest, hfirst⟩))
  · intro hnone value hlast
    obtain ⟨item, hitem, hvalue⟩ := hlast.exists_item
    exact hnone item hitem value hvalue

theorem LastGives.unique (hgives : Relator.RightUnique gives) {other : α}
    (hlast : LastGives gives items value) (hother : LastGives gives items other) : value = other := by
  induction items with
  | nil =>
      obtain ⟨item, hitem, -⟩ := hlast.exists_item
      cases hitem
  | cons first rest ih =>
      rcases lastGives_cons_iff.mp hlast with hlast | ⟨hsilent, hfirst⟩
      · rcases lastGives_cons_iff.mp hother with hother | ⟨hsilent, -⟩
        · exact ih hlast hother
        · exact absurd hlast (forall_not_lastGives_iff.mpr hsilent value)
      · rcases lastGives_cons_iff.mp hother with hother | ⟨-, hfirstOther⟩
        · exact absurd hother (forall_not_lastGives_iff.mpr hsilent other)
        · exact hgives hfirst hfirstOther

end LastGives

/-! ### Settings over settings -/

/-- What is found where a setting was laid over others. -/
structure Covers (written found : Setting) : Prop where
  table : written.IsTable → found.IsTable
  leaf : ¬written.IsTable → found = written

theorem Covers.refl (setting : Setting) : Covers setting setting :=
  ⟨id, fun _ => rfl⟩

theorem Covers.trans {written middle found : Setting} (hfirst : Covers written middle)
    (hsecond : Covers middle found) : Covers written found where
  table htable := hsecond.table (hfirst.table htable)
  leaf hleaf := by
    have hmiddle := hfirst.leaf hleaf
    rw [hmiddle] at hsecond
    exact hsecond.leaf hleaf

theorem covers_merge (below : Option Setting) (above : Setting) :
    Covers above (below.elim above (·.merge above)) := by
  cases below with
  | none => exact .refl above
  | some below =>
      exact ⟨Setting.isTable_merge below, fun hleaf => Setting.merge_of_not_isTable hleaf⟩

/-- What is found at a place where the one thing that may be given is laid over what is there. -/
inductive Overlaid (gives : Setting → Prop) (below : Option Setting) : Option Setting → Prop where
  | kept (hnone : ∀ written, ¬gives written) : Overlaid gives below below
  | covered {written found : Setting} (hgives : ∀ other, gives other ↔ other = written)
      (hcovers : Covers written found) : Overlaid gives below (some found)

namespace Overlaid

variable {gives others : Setting → Prop} {below after : Option Setting}

theorem congr (hoverlaid : Overlaid gives below after) (hiff : ∀ written, others written ↔ gives written) :
    Overlaid others below after := by
  cases hoverlaid with
  | kept hnone => exact .kept fun written hother => hnone written ((hiff written).mp hother)
  | covered hgives hcovers => exact .covered (fun other => (hiff other).trans (hgives other)) hcovers

theorem self (written : Option Setting) : Overlaid (written = some ·) none written := by
  cases written with
  | none => exact .kept nofun
  | some setting =>
      exact .covered (fun other => by rw [Option.some.injEq, eq_comm]) (.refl setting)

theorem eq_below (hoverlaid : Overlaid gives below after) (hnone : ∀ written, ¬gives written) :
    after = below := by
  cases hoverlaid with
  | kept => rfl
  | covered hgives => exact absurd ((hgives _).mpr rfl) (hnone _)

/-- Without tables, what is found is what was given. -/
theorem gives_iff {written : Setting} (hoverlaid : Overlaid gives none after)
    (hleaf : ∀ given found, gives given → after = some found → ¬(given.IsTable ∧ found.IsTable)) :
    gives written ↔ after = some written := by
  cases hoverlaid with
  | kept hnone => simp [hnone]
  | @covered given found hgives hcovers =>
      have hgiven : ¬given.IsTable := fun htable =>
        hleaf given found ((hgives given).mpr rfl) rfl ⟨htable, hcovers.table htable⟩
      rw [hgives, hcovers.leaf hgiven, Option.some.injEq, eq_comm]

theorem merge {above : Setting} {path : List String} (habove : above.Ascending)
    (htables : ∀ front back, path = front ++ back → back ≠ [] →
      ∀ setting, above.at? front = some setting → setting.IsTable)
    (hlayer : Overlaid gives none (above.at? path)) (below : Setting) :
    Overlaid gives (below.at? path) ((below.merge above).at? path) := by
  rw [Setting.at?_merge habove htables]
  cases hat : above.at? path with
  | none =>
      rw [hat] at hlayer
      cases hlayer with
      | kept hnone => exact .kept hnone
  | some upper =>
      rw [hat] at hlayer
      cases hlayer with
      | covered hgives hcovers => exact .covered hgives (hcovers.trans (covers_merge _ upper))

/-- Of two things over one another the upper one counts, if it is given. -/
theorem trans {upper : Setting → Prop} {middle : Option Setting} (hlower : Overlaid gives below middle)
    (hupper : Overlaid upper middle after) :
    Overlaid (fun written => upper written ∨ (∀ other, ¬upper other) ∧ gives written) below after := by
  cases hupper with
  | kept hnone =>
      exact hlower.congr fun written =>
        ⟨fun hwritten => hwritten.elim (absurd · (hnone written)) And.right,
          fun hwritten => .inr ⟨hnone, hwritten⟩⟩
  | @covered written found hgives hcovers =>
      have hupper := (hgives written).mpr rfl
      refine .covered (fun other => ?_) hcovers
      rw [← hgives]
      exact ⟨fun hother => hother.elim id fun hlower => absurd hupper (hlower.1 written), .inl⟩

/-- What the last of several items gives is laid over what was there before all of them. -/
theorem foldl {ι σ : Type} {gives : ι → Setting → Prop} {step : Setting → σ → Setting}
    {path : List String} {items : List ι} {given : List σ}
    (hsteps : List.Forall₂ (fun item upper => ∀ below : Setting,
      Overlaid (gives item) (below.at? path) ((step below upper).at? path)) items given)
    (below : Setting) :
    Overlaid (LastGives gives items) (below.at? path) ((given.foldl step below).at? path) := by
  induction hsteps generalizing below with
  | nil => exact .kept (forall_not_lastGives_iff.mpr nofun)
  | @cons first upper rest given hfirst hrest ih =>
      refine ((hfirst below).trans (ih (step below upper))).congr fun written => ?_
      rw [lastGives_cons_iff, forall_not_lastGives_iff]

end Overlaid

/-! ### Variables -/

namespace Variable

/-- The names of the variables that count, and where their settings belong. -/
def places : List (String × List String) :=
  [("wrapp_profiles", ["environment", "profiles"]), ("wrapp_flags", ["environment", "flags"]),
    ("wrapp_strict", ["planner", "strict"])]

/-- A variable of one of the names sets what its value is read as. -/
inductive Sets : String × String → List String → Setting → Prop where
  | mk {word name : String} {path : List String} (hplace : (word, path) ∈ places)
      (hname : Text.IsWord word name) (text : String) : Sets (name, text) path (read text)

theorem place?_eq_some_iff {name : String} {path : List String} :
    place? name = some path ↔ ∃ word, (word, path) ∈ places ∧ Text.IsWord word name := by
  have hblank : (places.all (·.1.toList.all (!Text.isBlank ·))) = true := by decide +kernel
  have hword : ∀ {word path}, (word, path) ∈ places →
      (Text.lowerAscii (Text.trim name) = word ↔ Text.IsWord word name) := by
    intro word path hplace
    refine Text.lowerAscii_trim_eq_iff fun c hc => ?_
    simpa using List.all_eq_true.mp (List.all_eq_true.mp hblank _ hplace) c hc
  have hfound : place? name = places.lookup (Text.lowerAscii (Text.trim name)) := by
    unfold place?
    split
    · next heq => rw [heq]; rfl
    · next heq => rw [heq]; rfl
    · next heq => rw [heq]; rfl
    · next hprofiles hflags hstrict =>
      rw [places, lookup_entries_cons, if_neg hprofiles, lookup_entries_cons, if_neg hflags,
        lookup_entries_cons, if_neg hstrict]
      rfl
  rw [hfound]
  constructor
  · intro hlookup
    have hplace := mem_of_lookup hlookup
    exact ⟨_, hplace, (hword hplace).mp rfl⟩
  · rintro ⟨word, hplace, hname⟩
    rw [(hword hplace).mpr hname]
    have hlookup : ∀ place ∈ places, places.lookup place.1 = some place.2 := by decide
    exact hlookup _ hplace

theorem sets_iff {entry : String × String} {path : List String} {written : Setting} :
    Sets entry path written ↔ place? entry.1 = some path ∧ read entry.2 = written := by
  rw [place?_eq_some_iff]
  constructor
  · rintro ⟨hplace, hname, text⟩
    exact ⟨⟨_, hplace, hname⟩, rfl⟩
  · rintro ⟨⟨word, hplace, hname⟩, rfl⟩
    exact .mk hplace hname entry.2

theorem rightUnique_sets (path : List String) : Relator.RightUnique (Sets · path) :=
  fun _ _ _ hwritten hother => (sets_iff.mp hwritten).2.symm.trans (sets_iff.mp hother).2

theorem Sets.mem_places {entry : String × String} {path : List String} {written : Setting}
    (hsets : Sets entry path written) : path ∈ places.map (·.2) := by
  cases hsets with
  | mk hplace => exact List.mem_map_of_mem hplace

theorem exists_pair_of_mem_places {path : List String} (hpath : path ∈ places.map (·.2)) :
    ∃ outer name, path = [outer, name] ∧ outer ∈ ["planner", "environment"] := by
  have hpairs : ∀ path ∈ places.map (·.2),
      path.length = 2 ∧ path.headD "" ∈ ["planner", "environment"] := by decide
  obtain ⟨hlength, houter⟩ := hpairs path hpath
  obtain ⟨outer, name, rfl⟩ := List.length_eq_two.mp hlength
  exact ⟨outer, name, rfl, houter⟩

theorem exists_pair_of_place? {name : String} {path : List String} (hplace : place? name = some path) :
    ∃ outer inner, path = [outer, inner] ∧ outer ∈ ["planner", "environment"] := by
  obtain ⟨word, hmem, -⟩ := place?_eq_some_iff.mp hplace
  exact exists_pair_of_mem_places (List.mem_map_of_mem hmem)

theorem at?_nest_single {outer name other : String} {setting : Setting} :
    (Setting.nest [outer, name] setting).at? [other]
      = if other = outer then some (.table [(name, setting)]) else none := by
  simp only [Setting.nest, List.foldr_cons, List.foldr_nil, Setting.at?_cons_table,
    lookup_entries_cons, List.lookup_nil]
  split <;> rfl

theorem at?_nest_pair {outer name other inner : String} {setting : Setting} :
    (Setting.nest [outer, name] setting).at? [other, inner]
      = if [outer, name] = [other, inner] then some setting else none := by
  simp only [Setting.nest, List.foldr_cons, List.foldr_nil, Setting.at?_cons_table,
    lookup_entries_cons, List.lookup_nil]
  by_cases houter : other = outer
  · by_cases hname : inner = name
    · simp [houter, hname, Setting.at?]
    · simp [houter, hname, Ne.symm hname, Setting.at?_cons_table, lookup_entries_cons]
  · simp [houter, Ne.symm houter]

/-- There are tables all the way to where the setting of a variable is. -/
theorem isTable_of_nest {outer name : String} {setting : Setting} {path front back : List String}
    (hlength : path.length ≤ 2) (hpath : path = front ++ back) (hback : back ≠ [])
    {inner : Setting} (hat : (Setting.nest [outer, name] setting).at? front = some inner) :
    inner.IsTable := by
  have hpositive := List.length_pos_iff.mpr hback
  rw [hpath, List.length_append] at hlength
  match front with
  | [] =>
      cases hat
      exact ⟨_, rfl⟩
  | [first] =>
      rw [at?_nest_single] at hat
      split at hat
      · cases hat
        exact ⟨_, rfl⟩
      · cases hat
  | first :: second :: front =>
      simp only [List.length_cons] at hlength
      omega

/-- What a variable holds is laid over what is there. -/
theorem overlaid_lay (entry : String × String) {path : List String} (hlength : path.length ≤ 2)
    (below : Setting) :
    Overlaid
      (fun written => ∃ names, place? entry.1 = some names
        ∧ (Setting.nest names (read entry.2)).at? path = some written)
      (below.at? path) ((lay below entry).at? path) := by
  unfold lay
  cases hplace : place? entry.1 with
  | none => exact .kept fun written ⟨names, hnames, _⟩ => nomatch hnames
  | some names =>
      obtain ⟨outer, name, rfl, -⟩ := exists_pair_of_place? hplace
      refine (Overlaid.merge (Setting.ascending_nest (ascending_read entry.2))
        (fun front back hpath hback setting hat => isTable_of_nest hlength hpath hback hat)
        (Overlaid.self _) below).congr fun written => ?_
      simp

variable (vars : NameMap String)

/-- The last of the variables for a setting is found at its place. -/
theorem overlaid_layer (outer name : String) :
    Overlaid (LastGives (Sets · [outer, name]) vars.entries) none
      ((layer vars).at? [outer, name]) := by
  have hstep : ∀ entry ∈ vars.entries, ∀ below : Setting,
      Overlaid (Sets entry [outer, name]) (below.at? [outer, name])
        ((lay below entry).at? [outer, name]) := by
    intro entry _ below
    refine (@overlaid_lay entry [outer, name] (Nat.le_refl 2) below).congr fun written => ?_
    rw [sets_iff]
    constructor
    · rintro ⟨hplace, rfl⟩
      exact ⟨_, hplace, at?_nest_pair.trans (if_pos rfl)⟩
    · rintro ⟨names, hplace, hat⟩
      obtain ⟨other, inner, rfl, -⟩ := exists_pair_of_place? hplace
      rw [at?_nest_pair] at hat
      split at hat
      · next heq =>
        cases hat
        exact ⟨heq ▸ hplace, rfl⟩
      · cases hat
  exact Overlaid.foldl (List.forall₂_same.mpr hstep) (.table [])

theorem isTable_of_at?_layer {outer : String} {inner : Setting}
    (hat : (layer vars).at? [outer] = some inner) :
    inner.IsTable ∧ outer ∈ ["planner", "environment"] := by
  have hsteps := fun entry (_ : entry ∈ vars.entries) => @overlaid_lay entry [outer] (Nat.le_succ 1)
  have hoverlaid := Overlaid.foldl (List.forall₂_same.mpr hsteps) (.table [])
  change Overlaid _ none ((layer vars).at? [outer]) at hoverlaid
  rw [hat] at hoverlaid
  cases hoverlaid with
  | @covered written _ hgives hcovers =>
      obtain ⟨entry, -, names, hplace, hnest⟩ := ((hgives written).mpr rfl).exists_item
      obtain ⟨top, name, rfl, htop⟩ := exists_pair_of_place? hplace
      rw [at?_nest_single] at hnest
      split at hnest
      · next heq =>
        cases hnest
        exact ⟨hcovers.table ⟨_, rfl⟩, heq ▸ htop⟩
      · cases hnest

end Variable

/-! ### Sources -/

namespace LayerSource

/-- What a source sets, and where: the settings of a document in their tables, or the last of the
variables for each setting. -/
inductive Sets : LayerSource → List String → Setting → Prop where
  | document {origin text : String} {layer written : Setting} {path : List String}
      (hread : Toml.read text = some layer) (hat : layer.at? path = some written) :
      Sets (.document origin text) path written
  | file {name text : String} {layer written : Setting} {path : List String}
      (hread : Toml.read text = some layer) (hat : layer.at? path = some written) :
      Sets (.file name (.file text)) path written
  | process {vars : NameMap String} {written : Setting} {path : List String}
      (hlast : LastGives (Variable.Sets · path) vars.entries written) :
      Sets (.process vars) path written

inductive Readable : LayerSource → Prop where
  | document {origin text : String} (hread : (Toml.read text).isSome = true) :
      Readable (.document origin text)
  | file {name text : String} (hread : (Toml.read text).isSome = true) :
      Readable (.file name (.file text))
  | folder (name : String) : Readable (.file name .folder)
  | process (vars : NameMap String) : Readable (.process vars)

variable {source : LayerSource} {layer : Setting}

theorem exists_layer_iff : (∃ layer, source.layer = .ok layer) ↔ source.Readable := by
  have hread : ∀ {text : String} {fault : LayerFault},
      (∃ layer, (Toml.read text).elim (.error fault) .ok = Except.ok layer)
        ↔ (Toml.read text).isSome = true := by
    intro text fault
    cases Toml.read text <;> simp
  cases source with
  | document origin text =>
      exact hread.trans ⟨.document, fun hreadable => by cases hreadable; assumption⟩
  | file name found =>
      cases found with
      | missing =>
          constructor
          · rintro ⟨layer, hlayer⟩
            cases hlayer
          · rintro ⟨⟩
      | folder => exact ⟨fun _ => .folder name, fun _ => ⟨_, rfl⟩⟩
      | file text => exact hread.trans ⟨.file, fun hreadable => by cases hreadable; assumption⟩
  | process vars => exact ⟨fun _ => .process vars, fun _ => ⟨_, rfl⟩⟩

/-- Whatever is no process sets what is found in its layer. -/
theorem sets_cases (hlayer : source.layer = .ok layer) :
    (∀ path ≠ [], ∀ written, source.Sets path written ↔ layer.at? path = some written)
      ∨ ∃ vars, source = .process vars ∧ layer = Variable.layer vars := by
  have hread : ∀ {text : String} {fault : LayerFault},
      (Toml.read text).elim (.error fault) .ok = Except.ok layer → Toml.read text = some layer := by
    intro text fault hok
    cases hread : Toml.read text with
    | none =>
        rw [hread] at hok
        cases hok
    | some found =>
        rw [hread] at hok
        exact congrArg some (Except.ok.inj hok)
  cases source with
  | document origin text =>
      refine .inl fun path _ written => ⟨?_, fun hat => .document (hread hlayer) hat⟩
      rintro (⟨hother, hat⟩)
      cases (hread hlayer).symm.trans hother
      exact hat
  | file name found =>
      cases found with
      | missing => cases hlayer
      | folder =>
          cases hlayer
          refine .inl fun path hpath written => ⟨nofun, fun hat => ?_⟩
          cases path with
          | nil => exact absurd rfl hpath
          | cons first path => cases hat
      | file text =>
          refine .inl fun path _ written => ⟨?_, fun hat => .file (hread hlayer) hat⟩
          rintro (_ | ⟨hother, hat⟩)
          cases (hread hlayer).symm.trans hother
          exact hat
  | process vars => exact .inr ⟨vars, rfl, (Except.ok.inj hlayer).symm⟩

theorem sets_process_iff {vars : NameMap String} {path : List String} {written : Setting} :
    (process vars).Sets path written ↔ LastGives (Variable.Sets · path) vars.entries written :=
  ⟨fun hsets => by cases hsets; assumption, .process⟩

theorem rightUnique_sets (path : List String) : Relator.RightUnique (LayerSource.Sets · path) := by
  intro source written other hwritten hother
  cases hwritten with
  | document hread hat =>
      obtain ⟨hotherRead, hotherAt⟩ := hother
      cases hread.symm.trans hotherRead
      exact Option.some.inj (hat.symm.trans hotherAt)
  | file hread hat =>
      obtain _ | ⟨hotherRead, hotherAt⟩ := hother
      cases hread.symm.trans hotherRead
      exact Option.some.inj (hat.symm.trans hotherAt)
  | process hlast => exact hlast.unique (Variable.rightUnique_sets path) (sets_process_iff.mp hother)

/-- What a source sets is what is found in its layer. -/
theorem overlaid_pair (hlayer : source.layer = .ok layer) (outer name : String) :
    Overlaid (source.Sets [outer, name]) none (layer.at? [outer, name]) := by
  rcases sets_cases hlayer with hsets | ⟨vars, rfl, rfl⟩
  · refine (Overlaid.self _).congr fun written => ?_
    rw [hsets _ (List.cons_ne_nil _ _), eq_comm]
  · exact (Variable.overlaid_layer vars outer name).congr fun written => sets_process_iff

theorem overlaid_property (hlayer : source.layer = .ok layer) (name : String) :
    Overlaid (source.Sets ["environment", "properties", name]) none
      (layer.at? ["environment", "properties", name]) := by
  rcases sets_cases hlayer with hsets | ⟨vars, rfl, rfl⟩
  · refine (Overlaid.self _).congr fun written => ?_
    rw [hsets _ (List.cons_ne_nil _ _), eq_comm]
  · have hnone : ∀ written, ¬LastGives (Variable.Sets · ["environment", "properties"]) vars.entries
        written := by
      intro written hlast
      obtain ⟨entry, -, hsets⟩ := hlast.exists_item
      exact absurd hsets.mem_places (by decide)
    have hat := (Variable.overlaid_layer vars "environment" "properties").eq_below hnone
    rw [show ["environment", "properties", name] = ["environment", "properties"] ++ [name] from rfl,
      Setting.at?_append, hat]
    refine .kept fun written hsets => ?_
    obtain ⟨entry, -, hentry⟩ := (sets_process_iff.mp hsets).exists_item
    have hmem := hentry.mem_places
    simp [Variable.places] at hmem

end LayerSource

end Assembly
