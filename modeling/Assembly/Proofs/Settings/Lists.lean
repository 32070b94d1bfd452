import Assembly.Proofs.Settings.Composition
import Assembly.Proofs.Settings.Marked

/-!
# Lists set by variables

A variable with a list is laid on top of the layers so far, whatever they are. The list takes the place
of the one below it and leaves everything else as it is, unless the facts are written as a list of their
own, which gives way to a table as a whole.
-/

namespace Assembly

/-- The facts that a variable can set. -/
inductive FactList where
  | profiles
  | flags
deriving DecidableEq

namespace FactList

def name : FactList → String
  | .profiles => "profiles"
  | .flags => "flags"

def variableName : FactList → String
  | .profiles => "WRAPP_PROFILES"
  | .flags => "WRAPP_FLAGS"

def get : FactList → Facts → List String
  | .profiles => Facts.profiles
  | .flags => Facts.flags

def set : FactList → List String → Facts → Facts
  | .profiles => fun profiles facts => { facts with profiles }
  | .flags => fun flags facts => { facts with flags }

def slot (list : FactList) : Slot Facts :=
  ⟨list.name, List String, Setting.textList, list.get, list.set⟩

theorem slot_mem (list : FactList) : list.slot ∈ Facts.slots.list := by
  cases list with
  | profiles => exact List.mem_cons_self
  | flags => exact List.mem_cons_of_mem _ (List.mem_cons_of_mem _ List.mem_cons_self)

theorem eq_set {list : FactList} {facts next : Facts}
    (hothers : ∀ other ∈ Facts.slots.list, other.name ≠ list.name →
      other.get next = other.get facts) : next = list.set (list.get next) facts := by
  obtain ⟨profiles, properties, flags⟩ := facts
  obtain ⟨nextProfiles, nextProperties, nextFlags⟩ := next
  simp only [Facts.slots, List.forall_mem_cons] at hothers
  obtain ⟨hprofiles, hproperties, hflags, -⟩ := hothers
  cases list with
  | profiles =>
      cases hproperties (by decide)
      cases hflags (by decide)
      rfl
  | flags =>
      cases hprofiles (by decide)
      cases hproperties (by decide)
      rfl

theorem set_injective (list : FactList) {facts : Facts} {values others : List String}
    (hset : list.set values facts = list.set others facts) : values = others := by
  cases list with
  | profiles => exact congrArg Facts.profiles hset
  | flags => exact congrArg Facts.flags hset

theorem place?_variableName (list : FactList) :
    Variable.place? list.variableName = some ["environment", list.name] := by
  cases list <;> decide +kernel

end FactList

/-! ### One setting on top of a record -/

namespace Slots

variable {ρ : Type} {slots : Slots ρ} {slot : Slot ρ} (hslot : slot ∈ slots.list)
  {entries : List (String × Setting)} {description : String} {default record : ρ} {above : Setting}
  (hnames : entries.Pairwise (·.1 < ·.1))
  (hrecord : slots.decode description default (.table entries) = .ok record)

theorem lookup_mergeEntries_other {name other : String} (hother : other ≠ name) :
    (Setting.mergeEntries entries [(name, above)]).lookup other = entries.lookup other := by
  refine Setting.lookup_mergeEntries_of_none ?_
  rw [lookup_entries_cons, if_neg hother]
  rfl

theorem lookup_mergeEntries_same (entries : List (String × Setting)) (name : String) :
    (Setting.mergeEntries entries [(name, above)]).lookup name
      = some ((entries.lookup name).elim above (·.merge above)) := by
  refine Setting.lookup_mergeEntries_of_some entries (List.pairwise_singleton _ _) ?_
  rw [lookup_entries_cons, if_pos rfl]

include hnames hrecord in
theorem fits_of_other {name : String} :
    ∀ entry ∈ Setting.mergeEntries entries [(name, above)], entry.1 ≠ name → slots.Fits entry := by
  intro entry hentry hother
  have hmerged := Setting.pairwise_mergeEntries hnames [(name, above)]
  have hlookup := (lookup_eq_some_iff hmerged).mpr hentry
  rw [lookup_mergeEntries_other hother] at hlookup
  exact exists_decode_iff.mp ⟨record, hrecord⟩ entry (mem_of_lookup hlookup)

include hslot hnames hrecord

/-- A part that is set takes its place and leaves the others as they are. -/
theorem decode_merge_of_ok {part : slot.Part}
    (hpart : slot.decode ((entries.lookup slot.name).elim above (·.merge above)) = .ok part) :
    ∃ next, slots.decode description default
        ((Setting.table entries).merge (.table [(slot.name, above)])) = .ok next
      ∧ slot.get next = part
      ∧ ∀ other ∈ slots.list, other.name ≠ slot.name → other.get next = other.get record := by
  have hmerged := Setting.pairwise_mergeEntries hnames [(slot.name, above)]
  have hsame := @lookup_mergeEntries_same above entries slot.name
  have hfits : ∀ entry ∈ Setting.mergeEntries entries [(slot.name, above)], slots.Fits entry := by
    intro entry hentry
    by_cases hname : entry.1 = slot.name
    · have hlookup := (lookup_eq_some_iff hmerged).mpr hentry
      rw [hname, hsame] at hlookup
      exact ⟨slot, hslot, hname.symm, part, Option.some.inj hlookup ▸ hpart⟩
    · exact fits_of_other hnames hrecord entry hentry hname
  obtain ⟨next, hnext⟩ := exists_decode_iff.mpr hfits
  refine ⟨next, hnext, ?_, fun other hother hname => ?_⟩
  · have hmeans := means_of_decode hslot hmerged hnext
    rw [hsame] at hmeans
    exact Except.ok.inj (hmeans.symm.trans hpart)
  · have hmeans := means_of_decode hother hmerged hnext
    rw [lookup_mergeEntries_other hname] at hmeans
    exact hmeans.unique (means_of_decode hother hnames hrecord)

theorem decode_merge_of_error {fault : SettingFault}
    (hfault : slot.decode ((entries.lookup slot.name).elim above (·.merge above)) = .error fault) :
    slots.decode description default
        ((Setting.table entries).merge (.table [(slot.name, above)]))
      = .error { fault with path := slot.name :: fault.path } :=
  decode_eq_error hslot (Setting.pairwise_mergeEntries hnames _)
    (lookup_mergeEntries_same entries slot.name) hfault (fits_of_other hnames hrecord)

end Slots

/-! ### A list on top of the facts -/

theorem Setting.textList_merge (below above : Setting) :
    (below.merge above).textList = above.textList := by
  by_cases habove : above.IsTable
  · obtain ⟨entries, hmerged⟩ := isTable_merge below habove
    obtain ⟨others, rfl⟩ := habove
    rw [hmerged]
    rfl
  · rw [merge_of_not_isTable habove]

theorem Setting.textList_elim (below : Option Setting) (above : Setting) :
    (below.elim above (·.merge above)).textList = above.textList := by
  cases below with
  | none => rfl
  | some below => exact textList_merge below above

/-- The facts that stay when one of them is set: those in a table. -/
def Facts.kept (written : Option Setting) (facts : Facts) : Facts :=
  match written with
  | some (.table _) => facts
  | _ => {}

theorem Facts.kept_eq {written : Option Setting} {facts : Facts}
    (hmeans : Means Facts.ofSetting {} facts written)
    (hlist : ∀ items, written ≠ some (.list items)) : Facts.kept written facts = facts := by
  cases written with
  | none => exact hmeans.symm
  | some inner =>
      cases inner with
      | table entries => rfl
      | list items => exact absurd rfl (hlist items)
      | _ => cases hmeans

theorem Setting.merge_empty_single (name : String) (setting : Setting) :
    (Setting.table []).merge (.table [(name, setting)]) = .table [(name, setting)] := by
  rw [merge_table_table, mergeEntries_cons]
  rfl

section Facts

variable {written : Option Setting} {facts : Facts} {setting : Setting}
  (hmeans : Means Facts.ofSetting {} facts written)
  (hascending : ∀ inner ∈ written, inner.Ascending)
include hmeans hascending

/-- A list of facts gives way to a table as if there had been an empty one. -/
theorem Facts.exists_kept (name : String) (setting : Setting) :
    ∃ entries, entries.Pairwise (·.1 < ·.1)
      ∧ Facts.ofSetting (.table entries) = .ok (Facts.kept written facts)
      ∧ written.elim (.table [(name, setting)]) (·.merge (.table [(name, setting)]))
        = (Setting.table entries).merge (.table [(name, setting)]) := by
  have hempty := Setting.merge_empty_single name setting
  cases written with
  | none => exact ⟨[], .nil, rfl, hempty.symm⟩
  | some inner =>
      by_cases htable : inner.IsTable
      · obtain ⟨entries, rfl⟩ := htable
        exact ⟨entries, hascending _ rfl [] entries rfl, hmeans, rfl⟩
      · have hkept : Facts.kept (some inner) facts = {} := by
          cases inner with
          | table entries => exact absurd ⟨entries, rfl⟩ htable
          | _ => rfl
        rw [hkept]
        exact ⟨[], .nil, rfl, (Setting.merge_table_of_not_isTable htable).trans hempty.symm⟩

variable (list : FactList)

theorem Facts.ofSetting_merge_of_ok {values : List String}
    (hvalues : setting.textList = .ok values) :
    Facts.ofSetting (written.elim (.table [(list.name, setting)])
        (·.merge (.table [(list.name, setting)])))
      = .ok (list.set values (Facts.kept written facts)) := by
  obtain ⟨entries, hnames, hfacts, hmerged⟩ :=
    Facts.exists_kept hmeans hascending list.name setting
  rw [hmerged]
  rw [← Setting.textList_elim (entries.lookup list.name)] at hvalues
  obtain ⟨next, hnext, hget, hothers⟩ :=
    Slots.decode_merge_of_ok list.slot_mem hnames hfacts hvalues
  rw [FactList.eq_set hothers, show list.get next = values from hget] at hnext
  exact hnext

theorem Facts.ofSetting_merge_of_error {fault : SettingFault}
    (hfault : setting.textList = .error fault) :
    Facts.ofSetting (written.elim (.table [(list.name, setting)])
        (·.merge (.table [(list.name, setting)])))
      = .error { fault with path := list.name :: fault.path } := by
  obtain ⟨entries, hnames, hfacts, hmerged⟩ :=
    Facts.exists_kept hmeans hascending list.name setting
  rw [hmerged]
  rw [← Setting.textList_elim (entries.lookup list.name)] at hfault
  exact Slots.decode_merge_of_error list.slot_mem hnames hfacts hfault

end Facts

section Settings

def Settings.environmentSlot : Slot Settings :=
  ⟨"environment", Facts, Facts.ofSetting, Settings.environment, fun environment settings =>
    { settings with environment }⟩

theorem Settings.environmentSlot_mem : environmentSlot ∈ slots.list :=
  List.mem_cons_of_mem _ List.mem_cons_self

variable {below : Setting} {settings : Settings} {setting : Setting} (hascending : below.Ascending)
  (htable : below.IsTable) (hsettings : Settings.ofSetting below = .ok settings) (list : FactList)
include hascending htable hsettings

theorem Settings.ofSetting_merge_of_ok {values : List String}
    (hvalues : setting.textList = .ok values) :
    Settings.ofSetting (below.merge (.nest ["environment", list.name] setting))
      = .ok { settings with
          environment :=
            list.set values (Facts.kept (below.at? ["environment"]) settings.environment) } := by
  obtain ⟨entries, rfl⟩ := htable
  obtain ⟨hnames, hentries⟩ := Setting.ascending_table_iff.mp hascending
  have hmeans := means_environment hnames hsettings
  have hinner : ∀ inner ∈ entries.lookup "environment", inner.Ascending :=
    fun inner hinner => hentries _ (mem_of_lookup hinner)
  have hfacts := Facts.ofSetting_merge_of_ok hmeans hinner list hvalues
  obtain ⟨next, hnext, hget, hothers⟩ :=
    Slots.decode_merge_of_ok environmentSlot_mem hnames hsettings hfacts
  have hplanner : next.planner = settings.planner :=
    hothers _ List.mem_cons_self (by decide)
  have henvironment : next.environment = _ := hget
  rw [Setting.at?_singleton, ← hplanner, ← henvironment]
  exact hnext

theorem Settings.ofSetting_merge_of_error {fault : SettingFault}
    (hfault : setting.textList = .error fault) :
    Settings.ofSetting (below.merge (.nest ["environment", list.name] setting))
      = .error { fault with path := "environment" :: list.name :: fault.path } := by
  obtain ⟨entries, rfl⟩ := htable
  obtain ⟨hnames, hentries⟩ := Setting.ascending_table_iff.mp hascending
  have hinner : ∀ inner ∈ entries.lookup "environment", inner.Ascending :=
    fun inner hinner => hentries _ (mem_of_lookup hinner)
  have hfacts :=
    Facts.ofSetting_merge_of_error (means_environment hnames hsettings) hinner list hfault
  exact Slots.decode_merge_of_error environmentSlot_mem hnames hsettings hfacts

end Settings

/-! ### The layer of one variable -/

namespace Variable

variable {vars : NameMap String} {name text : String}

theorem foldl_lay_of_place? {entries : List (String × String)}
    (hnone : ∀ entry ∈ entries, place? entry.1 = none) (below : Setting) :
    entries.foldl lay below = below := by
  induction entries with
  | nil => rfl
  | cons first rest ih =>
      obtain ⟨hfirst, hrest⟩ := List.forall_mem_cons.mp hnone
      rw [List.foldl_cons, lay, hfirst]
      exact ih hrest

/-- Where no other variable has a place, the layer is the setting of the one that has. -/
theorem layer_eq_nest {outer : String} {path : List String} (hset : vars.get? name = some text)
    (hplace : place? name = some (outer :: path))
    (hothers : ∀ other, other ≠ name → vars.get? other ≠ none → place? other = none) :
    layer vars = .nest (outer :: path) (read text) := by
  obtain ⟨front, back, hentries⟩ := List.append_of_mem (mem_of_lookup hset)
  have hascending := vars.ascending
  have hnone : ∀ entry ∈ vars.entries, entry.1 ≠ name → place? entry.1 = none := by
    intro entry hentry hother
    refine hothers entry.1 hother ?_
    rw [NameMap.get?, (lookup_eq_some_iff hascending).mpr hentry]
    exact Option.some_ne_none _
  rw [hentries] at hascending hnone
  obtain ⟨-, hback, hfront⟩ := List.pairwise_append.mp hascending
  have hfrontNone : ∀ entry ∈ front, place? entry.1 = none := by
    intro entry hentry
    refine hnone entry (List.mem_append_left _ hentry) fun hsame => ?_
    exact String.lt_irrefl _ (hsame ▸ hfront entry hentry _ List.mem_cons_self)
  have hbackNone : ∀ entry ∈ back, place? entry.1 = none := by
    intro entry hentry
    refine hnone entry (List.mem_append_right _ (List.mem_cons_of_mem _ hentry)) fun hsame => ?_
    exact String.lt_irrefl _ (hsame ▸ List.rel_of_pairwise_cons hback hentry)
  rw [layer, hentries, List.foldl_append, foldl_lay_of_place? hfrontNone, List.foldl_cons,
    foldl_lay_of_place? hbackNone, lay, hplace]
  exact Setting.merge_empty_single outer _

end Variable

namespace Layers

/-- Whatever is tried, the settings are ascending tables. -/
theorem ascending_run (calls : List Call) :
    (initial.run calls).merged.Ascending ∧ (initial.run calls).merged.IsTable := by
  have hadded : ∀ layer ∈ initial.addedLayers calls, layer.Ascending ∧ layer.IsTable := by
    intro layer hlayer
    obtain ⟨source, -, hsource⟩ := LayerSource.exists_of_mem_layers (forall₂_added initial calls) hlayer
    exact LayerSource.ascending_layer hsource
  rw [merged_run]
  refine List.foldlRecOn (motive := fun merged : Setting => merged.Ascending ∧ merged.IsTable)
    (initial.addedLayers calls) _ ⟨regular_initial.ascending, _, rfl⟩ ?_
  rintro below ⟨hbelow, -⟩ layer hlayer
  obtain ⟨hascending, htable⟩ := hadded layer hlayer
  exact ⟨Setting.ascending_merge hbelow hascending, Setting.isTable_merge below htable⟩

def withList (layers : Layers) (list : FactList) (values : List String) : Settings :=
  { layers.settings with
    environment :=
      list.set values (Facts.kept (layers.merged.at? ["environment"]) layers.settings.environment) }

section Variables

variable {layers : Layers} (hascending : layers.merged.Ascending) (htable : layers.merged.IsTable)
  {list : FactList} {vars : NameMap String} {text : String}
  (hlayer : Variable.layer vars = .nest ["environment", list.name] (Variable.read text))
include hascending htable hlayer

theorem exists_addVariables {values : List String} (hvalues : Variable.list text = .ok values) :
    ∃ next, layers.addVariables vars = .ok next ∧ next.settings = layers.withList list values := by
  have hmeaning := Settings.ofSetting_merge_of_ok hascending htable layers.meaning list hvalues
  rw [← hlayer] at hmeaning
  exact ⟨⟨_, _, hmeaning⟩, addSource_eq_ok_iff.mpr ⟨_, rfl, rfl⟩, rfl⟩

theorem addVariables_of_error {fault : SettingFault} (hfault : Variable.list text = .error fault) :
    layers.addVariables vars = .error
      (.setting "environment" ⟨["environment", list.name], .noAlternative "StringList"⟩) := by
  have hrefused := Settings.ofSetting_merge_of_error hascending htable layers.meaning list hfault
  rw [← hlayer, Variable.list_error hfault] at hrefused
  exact addSource_eq_error rfl hrefused

end Variables

theorem withList_eq {layers : Layers} (hascending : layers.merged.Ascending)
    (htable : layers.merged.IsTable)
    (hfacts : ∀ items, layers.merged.at? ["environment"] ≠ some (.list items)) (list : FactList)
    (values : List String) :
    layers.withList list values
      = { layers.settings with
          environment := list.set values layers.settings.environment } := by
  obtain ⟨entries, hentries⟩ := htable
  have hsettings := layers.meaning
  rw [hentries] at hascending hsettings
  have hmeans := means_environment (Setting.ascending_table_iff.mp hascending).1 hsettings
  rw [← Setting.at?_singleton, ← hentries] at hmeans
  rw [withList, Facts.kept_eq hmeans hfacts]

/-- A variable with a list is set, and no other one that counts. If the facts so far are not written as a
list, the runs of characters between the commas and blanks of the value become the list, with nothing else
changed, exactly for a plain value. A truth value or a number is refused. Whatever else the value is read
as, it is a list of texts or a text, and then the list is what it says, or it is refused. -/
theorem list_set_by_variable (calls : List Call) (list : FactList) (vars : NameMap String)
    (text : String) (hset : vars.get? list.variableName = some text)
    (hothers : ∀ name, name ≠ list.variableName → vars.get? name ≠ none →
      Variable.place? name = none) :
    ((∀ items, (initial.run calls).merged.at? ["environment"] ≠ some (.list items)) →
        ((∃ next values, (initial.run calls).addVariables vars = .ok next
            ∧ Text.Splits Text.isSeparator text.toList (values.map String.toList)
            ∧ next.settings = { (initial.run calls).settings with
                environment := list.set values (initial.run calls).settings.environment })
          ↔ Variable.IsPlain text))
      ∧ (Variable.IsTruth text ∨ Variable.IsNumber text →
        (initial.run calls).addVariables vars = .error
          (.setting "environment" ⟨["environment", list.name], .noAlternative "StringList"⟩))
      ∧ (∀ values, Variable.list text = .ok values →
        ∃ next, (initial.run calls).addVariables vars = .ok next
          ∧ next.settings = (initial.run calls).withList list values)
      ∧ ∀ fault, Variable.list text = .error fault →
        (initial.run calls).addVariables vars = .error
          (.setting "environment" ⟨["environment", list.name], .noAlternative "StringList"⟩) := by
  obtain ⟨hascending, htable⟩ := ascending_run calls
  have hlayer := Variable.layer_eq_nest hset list.place?_variableName hothers
  refine ⟨fun hfacts => ?_, fun htaken => ?_,
    fun values hvalues => exists_addVariables hascending htable hlayer hvalues,
    fun fault hfault => addVariables_of_error hascending htable hlayer hfault⟩
  · rw [← Variable.list_eq_entries_iff]
    constructor
    · rintro ⟨next, values, hnext, hsplits, hsettings⟩
      cases hread : Variable.list text with
      | ok others =>
          -- The list that was read is the one that was set, and that one is known to be the split.
          obtain ⟨other, hother, hlist⟩ := exists_addVariables hascending htable hlayer hread
          cases hnext.symm.trans hother
          rw [withList_eq hascending htable hfacts, hsettings] at hlist
          have hsame : values = others := list.set_injective (congrArg Settings.environment hlist)
          rw [← hsame, Text.entries_eq_iff.mpr hsplits]
      | error fault =>
          cases hnext.symm.trans (addVariables_of_error hascending htable hlayer hread)
    · intro hvalues
      obtain ⟨next, hnext, hsettings⟩ := exists_addVariables hascending htable hlayer hvalues
      rw [withList_eq hascending htable hfacts] at hsettings
      exact ⟨next, Text.entries text, hnext, Text.splits_entries text, hsettings⟩
  · exact addVariables_of_error hascending htable hlayer (Variable.list_of_truth_or_number htaken)

def staged : List Call :=
  [.add (.document "inline" "[environment]\nprofiles = [\"dev\"]\nflags = [\"tokio\"]")]

def stagedVariables : NameMap String :=
  .ofList [("WRAPP_PROFILES", "test, local")]

theorem staged_list_set :
    ∃ next, (initial.run staged).addVariables stagedVariables = .ok next
      ∧ next.settings.environment.profiles = ["test", "local"]
      ∧ next.settings.environment.flags = ["tokio"] := by
  have hothers : ∀ name, name ≠ "WRAPP_PROFILES" → stagedVariables.get? name ≠ none →
      Variable.place? name = none := by
    intro name hname hfound
    simp [stagedVariables, NameMap.get?_ofList, Ne.symm hname] at hfound
  have hread : Variable.read "test, local" = .text "test, local" := by rfl
  have hplain : Variable.IsPlain "test, local" := by
    refine ⟨fun _ => hread, fun htruth => ?_, by decide +kernel⟩
    obtain ⟨flag, hflag⟩ := Variable.read_of_isTruth htruth
    cases hread.symm.trans hflag
  have htable : ∀ inner ∈ (initial.run staged).merged.at? ["environment"], inner.IsTable := by
    decide +kernel
  have hfacts : ∀ items,
      (initial.run staged).merged.at? ["environment"] ≠ some (.list items) := by
    intro items hitems
    obtain ⟨entries, hentries⟩ := htable _ hitems
    cases hentries
  obtain ⟨hset, -⟩ := list_set_by_variable staged .profiles stagedVariables "test, local"
    (by decide +kernel) hothers
  obtain ⟨next, values, hnext, hsplits, hsettings⟩ := (hset hfacts).mpr hplain
  have hvalues : values = ["test", "local"] :=
    (Text.entries_eq_iff.mpr hsplits).symm.trans (by decide +kernel)
  refine ⟨next, hnext, ?_, ?_⟩
  · rw [hsettings, hvalues]
    rfl
  · rw [hsettings]
    simp only [FactList.set]
    decide +kernel

/-- A digit is no list of one entry. -/
theorem digit_refused :
    ¬∃ next, initial.addVariables (.ofList [("WRAPP_PROFILES", "1")]) = .ok next
      ∧ next.settings.environment.profiles = Text.entries "1" := by
  rintro ⟨next, hnext, -⟩
  have hrefused : (initial.addVariables (.ofList [("WRAPP_PROFILES", "1")])).isOk = false := by
    decide +kernel
  rw [hnext] at hrefused
  cases hrefused

end Layers

end Assembly
