import Mathlib.Data.List.Nodup
import Assembly.Proofs.Settings.Table
import Assembly.Settings.Decode

/-!
# What written settings mean

A record is written as a table with a slot for each of its parts. The table has a meaning if each of its
entries fits its slot, and then each part is what the entry in its slot means, or the default. No entry
has to do with another one. So a table that is laid on another one has a meaning there exactly if it
has a meaning of its own.
-/

namespace Assembly

/-- A value is what the setting means, or the default if nothing is written. -/
def Means {α : Type} (decode : Setting → Except SettingFault α) (default value : α) :
    Option Setting → Prop
  | none => value = default
  | some setting => decode setting = .ok value

theorem Means.unique {α : Type} {decode : Setting → Except SettingFault α} {default first second : α}
    {written : Option Setting} (hfirst : Means decode default first written)
    (hsecond : Means decode default second written) : first = second := by
  cases written with
  | none => exact hfirst.trans hsecond.symm
  | some setting => exact Except.ok.inj (hfirst.symm.trans hsecond)

section Fold

variable {ρ : Type}

/-- Where it does not depend on the record whether an entry fits, a table fits if its entries do. -/
theorem exists_foldlM_iff {ι : Type} {step : ρ → ι → Except SettingFault ρ} {fits : ι → Prop}
    (hstep : ∀ record entry, (∃ next, step record entry = .ok next) ↔ fits entry) {list : List ι}
    (start : ρ) : (∃ result, list.foldlM step start = .ok result) ↔ ∀ entry ∈ list, fits entry := by
  induction list generalizing start with
  | nil => simp [pure, Except.pure]
  | cons first rest ih =>
      rw [List.foldlM_cons, List.forall_mem_cons, ← hstep start first]
      cases hfirst : step start first with
      | error fault => simp [bind, Except.bind]
      | ok next => simpa [bind, Except.bind] using ih next

/-- The first entry that does not fit decides how a table is refused. -/
theorem foldlM_eq_error {ι : Type} {step : ρ → ι → Except SettingFault ρ} {fits : ι → Prop}
    (hstep : ∀ record entry, (∃ next, step record entry = .ok next) ↔ fits entry) {front : List ι}
    (hfront : ∀ entry ∈ front, fits entry) {misfit : ι} {fault : SettingFault}
    (hmisfit : ∀ record, step record misfit = .error fault) (back : List ι) (start : ρ) :
    (front ++ misfit :: back).foldlM step start = .error fault := by
  obtain ⟨middle, hmiddle⟩ := (exists_foldlM_iff hstep start).mpr hfront
  rw [List.foldlM_append, hmiddle]
  change (misfit :: back).foldlM step middle = _
  rw [List.foldlM_cons, hmisfit]
  rfl

/-- A part of a record that only entries of one name can change is what the entry of that name
means. -/
theorem means_of_foldlM {α : Type} {step : ρ → String × Setting → Except SettingFault ρ}
    {name : String} {decode : Setting → Except SettingFault α} (part : ρ → α)
    (hstep : ∀ record entry next, step record entry = .ok next →
      (entry.1 = name → decode entry.2 = .ok (part next))
        ∧ (entry.1 ≠ name → part next = part record))
    {entries : List (String × Setting)} (hnames : entries.Pairwise (·.1 < ·.1)) {start result : ρ}
    (hresult : entries.foldlM step start = .ok result) :
    Means decode (part start) (part result) (entries.lookup name) := by
  induction entries generalizing start with
  | nil =>
      cases hresult
      rfl
  | cons first rest ih =>
      rw [List.foldlM_cons] at hresult
      cases hfirst : step start first with
      | error fault =>
          rw [hfirst] at hresult
          cases hresult
      | ok next =>
          rw [hfirst] at hresult
          have hrest := ih hnames.of_cons hresult
          obtain ⟨hsame, hother⟩ := hstep start first next hfirst
          rw [lookup_entries_cons]
          split
          -- Since the names are ascending, none of the later entries has the name again.
          · next heq =>
            rw [heq, lookup_rest_eq_none hnames] at hrest
            rw [Means, show part result = part next from hrest]
            exact hsame heq.symm
          · next hne => rwa [← hother (Ne.symm hne)]

end Fold

/-! ### Records -/

/-- A part of a record, and the name under which it is written. -/
structure Slot (ρ : Type) where
  name : String
  Part : Type
  decode : Setting → Except SettingFault Part
  get : ρ → Part
  set : Part → ρ → ρ

namespace Slot

variable {ρ : Type} (slot : Slot ρ)

def change (setting : Setting) (record : ρ) : Except SettingFault ρ := do
  return slot.set (← slot.decode setting) record

def field : Setting.Field ρ :=
  (slot.name, slot.change)

theorem change_eq_ok_iff {setting : Setting} {record next : ρ} :
    slot.change setting record = .ok next
      ↔ ∃ part, slot.decode setting = .ok part ∧ next = slot.set part record := by
  unfold change
  cases slot.decode setting with
  | error fault => simp [bind, Except.bind]
  | ok part => simp [bind, Except.bind, pure, Except.pure, eq_comm]

end Slot

/-- The slots of a record have names of their own and do not change each other's parts. -/
structure Slots (ρ : Type) where
  list : List (Slot ρ)
  names : (list.map Slot.name).Nodup
  get_set : ∀ slot ∈ list, ∀ part record, slot.get (slot.set part record) = part
  get_set_other : ∀ slot ∈ list, ∀ other ∈ list, other.name ≠ slot.name → ∀ part record,
    slot.get (other.set part record) = slot.get record

namespace Slots

variable {ρ : Type} (slots : Slots ρ) {entries others : List (String × Setting)} {description : String}
  {default : ρ}

/-- The entry has a slot and a meaning there. -/
def Fits (entry : String × Setting) : Prop :=
  ∃ slot ∈ slots.list, slot.name = entry.1 ∧ ∃ part, slot.decode entry.2 = .ok part

def decode (description : String) (default : ρ) : Setting → Except SettingFault ρ :=
  Setting.record (slots.list.map Slot.field) description default

variable {slots}

theorem lookup_field {list : List (Slot ρ)} (hnames : (list.map Slot.name).Nodup) {slot : Slot ρ}
    (hslot : slot ∈ list) : (list.map Slot.field).lookup slot.name = some slot.change := by
  induction list with
  | nil => cases hslot
  | cons first rest ih =>
      rw [List.map_cons] at hnames ⊢
      obtain ⟨hfresh, hrest⟩ := List.nodup_cons.mp hnames
      rw [lookup_entries_cons]
      rcases List.mem_cons.mp hslot with rfl | hslot
      · exact if_pos rfl
      · have hne : slot.name ≠ first.name := fun heq => hfresh (heq ▸ List.mem_map_of_mem hslot)
        exact (if_neg hne).trans (ih hrest hslot)

theorem setNamed_eq_ok_iff {record next : ρ} {entry : String × Setting} :
    Setting.setNamed (slots.list.map Slot.field) record entry = .ok next
      ↔ ∃ slot ∈ slots.list, slot.name = entry.1
        ∧ ∃ part, slot.decode entry.2 = .ok part ∧ next = slot.set part record := by
  have hwithin : ∀ outcome : Except SettingFault ρ,
      Setting.within entry.1 outcome = .ok next ↔ outcome = .ok next := by
    intro outcome
    cases outcome <;> simp [Setting.within, Except.mapError]
  unfold Setting.setNamed
  constructor
  · intro hnext
    cases hlookup : (slots.list.map Slot.field).lookup entry.1 with
    | none =>
        rw [hlookup] at hnext
        cases hnext
    | some change =>
        rw [hlookup] at hnext
        obtain ⟨slot, hslot, hfield⟩ := List.mem_map.mp (mem_of_lookup hlookup)
        cases (Prod.mk.inj hfield).2
        exact ⟨slot, hslot, (Prod.mk.inj hfield).1,
          slot.change_eq_ok_iff.mp ((hwithin _).mp hnext)⟩
  · rintro ⟨slot, hslot, hname, hpart⟩
    rw [← hname, lookup_field slots.names hslot, hname]
    exact (hwithin _).mpr (slot.change_eq_ok_iff.mpr hpart)

theorem exists_setNamed_iff (record : ρ) (entry : String × Setting) :
    (∃ next, Setting.setNamed (slots.list.map Slot.field) record entry = .ok next)
      ↔ slots.Fits entry := by
  simp only [setNamed_eq_ok_iff]
  constructor
  · rintro ⟨next, slot, hslot, hname, part, hpart, -⟩
    exact ⟨slot, hslot, hname, part, hpart⟩
  · rintro ⟨slot, hslot, hname, part, hpart⟩
    exact ⟨_, slot, hslot, hname, part, hpart, rfl⟩

theorem exists_decode_iff :
    (∃ record, slots.decode description default (.table entries) = .ok record)
      ↔ ∀ entry ∈ entries, slots.Fits entry :=
  exists_foldlM_iff exists_setNamed_iff _

/-- If only the entry of one name does not fit, it is the one that is refused. -/
theorem decode_eq_error {slot : Slot ρ} (hslot : slot ∈ slots.list)
    (hnames : entries.Pairwise (·.1 < ·.1)) {setting : Setting}
    (hsetting : entries.lookup slot.name = some setting) {fault : SettingFault}
    (hfault : slot.decode setting = .error fault)
    (hothers : ∀ entry ∈ entries, entry.1 ≠ slot.name → slots.Fits entry) :
    slots.decode description default (.table entries)
      = .error { fault with path := slot.name :: fault.path } := by
  obtain ⟨front, back, rfl⟩ := List.append_of_mem (mem_of_lookup hsetting)
  refine foldlM_eq_error exists_setNamed_iff (fun entry hentry => ?_)
    (fun record => ?_) back default
  · refine hothers entry (List.mem_append_left _ hentry) fun hsame => ?_
    have hbelow := (List.pairwise_append.mp hnames).2.2 entry hentry _ List.mem_cons_self
    exact String.lt_irrefl _ (hsame ▸ hbelow)
  · rw [Setting.setNamed, lookup_field slots.names hslot]
    simp [Slot.change, hfault, Setting.within, bind, Except.bind, Except.mapError]

/-- Each part of a record is what is written in its slot. -/
theorem means_of_decode {slot : Slot ρ} (hslot : slot ∈ slots.list)
    (hnames : entries.Pairwise (·.1 < ·.1)) {record : ρ}
    (hrecord : slots.decode description default (.table entries) = .ok record) :
    Means slot.decode (slot.get default) (slot.get record) (entries.lookup slot.name) := by
  refine means_of_foldlM slot.get (fun record entry next hnext => ?_) hnames hrecord
  obtain ⟨other, hother, hname, part, hpart, rfl⟩ := setNamed_eq_ok_iff.mp hnext
  constructor
  · intro heq
    cases List.inj_on_of_nodup_map slots.names hother hslot (hname.trans heq)
    rw [slots.get_set slot hslot]
    exact hpart
  · intro hne
    exact slots.get_set_other slot hslot other hother (hname ▸ hne) part record

end Slots

/-! ### Layers -/

/-- The entries of two tables fit together if those of the upper one fit and those of the lower one did,
as long as it does not matter for an upper entry whether it is laid on a lower one. -/
theorem forall_mergeEntries_iff {fits : String × Setting → Prop}
    {entries others : List (String × Setting)} (hentries : entries.Pairwise (·.1 < ·.1))
    (hothers : others.Pairwise (·.1 < ·.1)) (hfits : ∀ entry ∈ entries, fits entry)
    (hmerge : ∀ name below above, (name, below) ∈ entries → (name, above) ∈ others →
      (fits (name, below.merge above) ↔ fits (name, above))) :
    (∀ entry ∈ Setting.mergeEntries entries others, fits entry)
      ↔ ∀ entry ∈ others, fits entry := by
  have hmerged := Setting.pairwise_mergeEntries hentries others
  constructor
  · rintro hall ⟨name, above⟩ habove
    have hlookup := Setting.lookup_mergeEntries_of_some entries hothers
      ((lookup_eq_some_iff hothers).mpr habove)
    have hfitsMerged := hall _ (mem_of_lookup hlookup)
    cases hbelow : entries.lookup name with
    | none => rwa [hbelow] at hfitsMerged
    | some below =>
        rw [hbelow] at hfitsMerged
        exact (hmerge name below above (mem_of_lookup hbelow) habove).mp hfitsMerged
  · rintro hall ⟨name, merged⟩ hmem
    have hlookup := (lookup_eq_some_iff hmerged).mpr hmem
    cases habove : others.lookup name with
    | none =>
        rw [Setting.lookup_mergeEntries_of_none habove] at hlookup
        exact hfits _ (mem_of_lookup hlookup)
    | some above =>
        rw [Setting.lookup_mergeEntries_of_some _ hothers habove] at hlookup
        have hfitsAbove := hall _ (mem_of_lookup habove)
        cases hbelow : entries.lookup name with
        | none =>
            rw [hbelow] at hlookup
            cases hlookup
            exact hfitsAbove
        | some below =>
            rw [hbelow] at hlookup
            cases hlookup
            exact (hmerge name below above (mem_of_lookup hbelow) (mem_of_lookup habove)).mpr
              hfitsAbove

/-- A setting that no table can stand for takes the place of what is below it. -/
theorem exists_decode_merge_iff {α : Type} {decode : Setting → Except SettingFault α}
    (htable : ∀ entries value, decode (.table entries) ≠ .ok value) {below above : Setting} :
    (∃ value, decode (below.merge above) = .ok value) ↔ ∃ value, decode above = .ok value := by
  by_cases habove : above.IsTable
  · obtain ⟨entries, hmerged⟩ := Setting.isTable_merge below habove
    obtain ⟨others, rfl⟩ := habove
    simp [hmerged, htable]
  · rw [Setting.merge_of_not_isTable habove]

theorem Slots.exists_decode_merge_iff {ρ : Type} {slots : Slots ρ} {description : String} {default : ρ}
    {entries others : List (String × Setting)} (hentries : entries.Pairwise (·.1 < ·.1))
    (hothers : others.Pairwise (·.1 < ·.1))
    (hbelow : ∃ record, slots.decode description default (.table entries) = .ok record)
    (hslots : ∀ slot ∈ slots.list, ∀ below above, (slot.name, below) ∈ entries →
      (slot.name, above) ∈ others → (∃ part, slot.decode below = .ok part) →
        ((∃ part, slot.decode (below.merge above) = .ok part)
          ↔ ∃ part, slot.decode above = .ok part)) :
    (∃ record, slots.decode description default ((Setting.table entries).merge (.table others))
        = .ok record)
      ↔ ∃ record, slots.decode description default (.table others) = .ok record := by
  rw [Setting.merge_table_table, exists_decode_iff, exists_decode_iff]
  have hfits := exists_decode_iff.mp hbelow
  refine forall_mergeEntries_iff hentries hothers hfits fun name below above hmem habove => ?_
  obtain ⟨own, hown, hname, hpart⟩ := hfits _ hmem
  unfold Slots.Fits
  constructor
  · rintro ⟨slot, hslot, rfl, hmerged⟩
    cases List.inj_on_of_nodup_map slots.names hown hslot hname
    exact ⟨own, hown, rfl, (hslots own hown below above hmem habove hpart).mp hmerged⟩
  · rintro ⟨slot, hslot, rfl, habovePart⟩
    cases List.inj_on_of_nodup_map slots.names hown hslot hname
    exact ⟨own, hown, rfl, (hslots own hown below above hmem habove hpart).mpr habovePart⟩

/-! ### The settings of a run -/

def Options.slots : Slots Options where
  list :=
    [⟨"strict", Bool, Setting.switch, Options.strict, fun strict options =>
        { options with strict }⟩,
      ⟨"default_profiles", List String, Setting.textList, Options.defaultProfiles,
        fun defaultProfiles options => { options with defaultProfiles }⟩]
  names := by decide
  get_set := by simp
  get_set_other := by simp

def Facts.slots : Slots Facts where
  list :=
    [⟨"profiles", List String, Setting.textList, Facts.profiles, fun profiles facts =>
        { facts with profiles }⟩,
      ⟨"properties", NameMap String, Setting.propertyMap, Facts.properties, fun properties facts =>
        { facts with properties }⟩,
      ⟨"flags", List String, Setting.textList, Facts.flags, fun flags facts =>
        { facts with flags }⟩]
  names := by decide
  get_set := by simp
  get_set_other := by simp

def Settings.slots : Slots Settings where
  list :=
    [⟨"planner", Options, Options.ofSetting, Settings.planner, fun planner settings =>
        { settings with planner }⟩,
      ⟨"environment", Facts, Facts.ofSetting, Settings.environment, fun environment settings =>
        { settings with environment }⟩]
  names := by decide
  get_set := by simp
  get_set_other := by simp

theorem Options.ofSetting_eq : ofSetting = slots.decode "struct PlannerOptions" {} :=
  rfl

theorem Facts.ofSetting_eq : ofSetting = slots.decode "struct EnvironmentConfig" {} :=
  rfl

theorem Settings.ofSetting_eq : ofSetting = slots.decode "struct WiringConfig" {} :=
  rfl

/-- No table is a value of an option. -/
theorem Options.decode_table_ne {slot : Slot Options} (hslot : slot ∈ slots.list)
    (entries : List (String × Setting)) (value : slot.Part) :
    slot.decode (.table entries) ≠ .ok value := by
  simp only [slots, List.mem_cons, List.not_mem_nil, or_false] at hslot
  rcases hslot with rfl | rfl
  · exact nofun
  · exact nofun

/-- Properties are written as a table, the other facts are not. -/
theorem Facts.decode_table_ne {slot : Slot Facts} (hslot : slot ∈ slots.list)
    (hname : slot.name ≠ "properties") (entries : List (String × Setting)) (value : slot.Part) :
    slot.decode (.table entries) ≠ .ok value := by
  simp only [slots, List.mem_cons, List.not_mem_nil, or_false] at hslot
  rcases hslot with rfl | rfl | rfl
  · exact nofun
  · exact absurd rfl hname
  · exact nofun

section Properties

variable {entries others : List (String × Setting)}

/-- The value of a property, which has to be a text. -/
def Setting.propertyValue : Setting → Except SettingFault (Option String)
  | .text value => .ok (some value)
  | other => refuse (.invalidType other.description "a string")

theorem setProperty_eq_ok_iff {properties next : NameMap String} {entry : String × Setting} :
    Setting.setProperty properties entry = .ok next
      ↔ ∃ value, entry.2 = .text value ∧ next = properties.insert entry.1 value := by
  obtain ⟨name, setting⟩ := entry
  cases setting <;> simp [Setting.setProperty, eq_comm]

theorem exists_propertyMap_iff :
    (∃ map, (Setting.table entries).propertyMap = .ok map)
      ↔ ∀ entry ∈ entries, ∃ value, entry.2 = .text value := by
  refine exists_foldlM_iff (fun record entry => ?_) _
  simp only [setProperty_eq_ok_iff]
  constructor
  · rintro ⟨next, value, hvalue, -⟩
    exact ⟨value, hvalue⟩
  · rintro ⟨value, hvalue⟩
    exact ⟨_, value, hvalue, rfl⟩

theorem exists_propertyMap_merge_iff (hentries : entries.Pairwise (·.1 < ·.1))
    (hothers : others.Pairwise (·.1 < ·.1))
    (hbelow : ∃ map, (Setting.table entries).propertyMap = .ok map) :
    (∃ map, ((Setting.table entries).merge (.table others)).propertyMap = .ok map)
      ↔ ∃ map, (Setting.table others).propertyMap = .ok map := by
  rw [Setting.merge_table_table, exists_propertyMap_iff, exists_propertyMap_iff]
  refine forall_mergeEntries_iff hentries hothers (exists_propertyMap_iff.mp hbelow) ?_
  intro name below above _ _
  by_cases habove : above.IsTable
  · obtain ⟨merged, hmerged⟩ := Setting.isTable_merge below habove
    obtain ⟨entries, rfl⟩ := habove
    simp [hmerged]
  · rw [Setting.merge_of_not_isTable habove]

theorem means_of_propertyMap (hnames : entries.Pairwise (·.1 < ·.1)) {map : NameMap String}
    (hmap : (Setting.table entries).propertyMap = .ok map) (name : String) :
    Means Setting.propertyValue none (map.get? name) (entries.lookup name) := by
  refine means_of_foldlM (·.get? name) (fun record entry next hnext => ?_) hnames hmap
  obtain ⟨value, hvalue, rfl⟩ := setProperty_eq_ok_iff.mp hnext
  rw [hvalue, NameMap.get?_insert]
  constructor
  · intro heq
    rw [if_pos heq.symm]
    rfl
  · intro hne
    rw [if_neg (Ne.symm hne)]

end Properties

section Merge

variable {entries others : List (String × Setting)} (hentries : entries.Pairwise (·.1 < ·.1))
  (hothers : others.Pairwise (·.1 < ·.1))
include hentries hothers

theorem Options.exists_ofSetting_merge_iff
    (hbelow : ∃ options, ofSetting (.table entries) = .ok options) :
    (∃ options, ofSetting ((Setting.table entries).merge (.table others)) = .ok options)
      ↔ ∃ options, ofSetting (.table others) = .ok options := by
  rw [ofSetting_eq] at hbelow ⊢
  refine slots.exists_decode_merge_iff hentries hothers hbelow ?_
  intro slot hslot below above _ _ _
  exact exists_decode_merge_iff (decode_table_ne hslot)

theorem Facts.exists_ofSetting_merge_iff
    (hbelow : ∃ facts, ofSetting (.table entries) = .ok facts)
    (hproperties : ∀ below above, ("properties", below) ∈ entries → ("properties", above) ∈ others →
      (∃ map, below.propertyMap = .ok map) →
        ((∃ map, (below.merge above).propertyMap = .ok map) ↔ ∃ map, above.propertyMap = .ok map)) :
    (∃ facts, ofSetting ((Setting.table entries).merge (.table others)) = .ok facts)
      ↔ ∃ facts, ofSetting (.table others) = .ok facts := by
  rw [ofSetting_eq] at hbelow ⊢
  refine slots.exists_decode_merge_iff hentries hothers hbelow ?_
  intro slot hslot
  by_cases hname : slot.name = "properties"
  · cases List.inj_on_of_nodup_map slots.names hslot (List.mem_cons_of_mem _ List.mem_cons_self)
      hname
    exact hproperties
  · intro below above _ _ _
    exact exists_decode_merge_iff (decode_table_ne hslot hname)

end Merge

end Assembly
