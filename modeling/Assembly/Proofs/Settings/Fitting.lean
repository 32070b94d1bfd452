import Assembly.Proofs.Settings.Overlay
import Assembly.Proofs.Settings.Parts

/-!
# Layers that are added

A layer is added if all that its source sets may be written where it is. The layers that were added
before do not matter, as long as there are tables where settings have tables.
-/

namespace Assembly

/-- What may be written where. -/
inductive Proper : List String → Setting → Prop where
  | planner (entries : List (String × Setting)) : Proper ["planner"] (.table entries)
  | environment (entries : List (String × Setting)) : Proper ["environment"] (.table entries)
  | properties (entries : List (String × Setting)) :
      Proper ["environment", "properties"] (.table entries)
  | strict {written : Setting} {value : Bool} (hreads : IsSwitch written value) :
      Proper ["planner", "strict"] written
  | defaultProfiles {written : Setting} {values : List String} (hreads : IsList written values) :
      Proper ["planner", "default_profiles"] written
  | profiles {written : Setting} {values : List String} (hreads : IsList written values) :
      Proper ["environment", "profiles"] written
  | flags {written : Setting} {values : List String} (hreads : IsList written values) :
      Proper ["environment", "flags"] written
  | property (name value : String) : Proper ["environment", "properties", name] (.text value)

namespace Proper

variable {name : String} {written : Setting}

theorem top_iff :
    Proper [name] written ↔ name ∈ ["planner", "environment"] ∧ written.IsTable := by
  constructor
  · intro hproper
    generalize hpath : [name] = path at hproper
    cases hproper with
    | planner entries | environment entries =>
        obtain rfl := List.singleton_inj.mp hpath
        exact ⟨by simp, entries, rfl⟩
    | _ => simp at hpath
  · rintro ⟨hname, entries, rfl⟩
    simp only [List.mem_cons, List.not_mem_nil, or_false] at hname
    rcases hname with rfl | rfl
    · exact .planner entries
    · exact .environment entries

theorem planner_iff :
    Proper ["planner", name] written
      ↔ name = "strict" ∧ (∃ value, IsSwitch written value)
        ∨ name = "default_profiles" ∧ ∃ values, IsList written values := by
  constructor
  · intro hproper
    generalize hpath : ["planner", name] = path at hproper
    cases hproper with
    | strict hreads => exact .inl ⟨by simpa using hpath, _, hreads⟩
    | defaultProfiles hreads => exact .inr ⟨by simpa using hpath, _, hreads⟩
    | _ => simp at hpath
  · rintro (⟨rfl, value, hreads⟩ | ⟨rfl, values, hreads⟩)
    · exact .strict hreads
    · exact .defaultProfiles hreads

theorem environment_iff :
    Proper ["environment", name] written
      ↔ name = "properties" ∧ written.IsTable
        ∨ name ∈ ["profiles", "flags"] ∧ ∃ values, IsList written values := by
  constructor
  · intro hproper
    generalize hpath : ["environment", name] = path at hproper
    cases hproper with
    | properties entries => exact .inl ⟨by simpa using hpath, entries, rfl⟩
    | profiles hreads | flags hreads =>
        have hname := (List.cons.inj (List.cons.inj hpath).2).1
        exact .inr ⟨by simp [hname], _, hreads⟩
    | _ => simp at hpath
  · rintro (⟨rfl, entries, rfl⟩ | ⟨hname, values, hreads⟩)
    · exact .properties entries
    · simp only [List.mem_cons, List.not_mem_nil, or_false] at hname
      rcases hname with rfl | rfl
      · exact .profiles hreads
      · exact .flags hreads

theorem property_iff :
    Proper ["environment", "properties", name] written ↔ ∃ value, written = .text value := by
  constructor
  · intro hproper
    generalize hpath : ["environment", "properties", name] = path at hproper
    cases hproper with
    | property other value => exact ⟨value, rfl⟩
    | _ => simp at hpath
  · rintro ⟨value, rfl⟩
    exact .property name value

end Proper

/-- The source can be read, and all that it sets may be written where it is. -/
structure LayerSource.Fits (source : LayerSource) : Prop where
  readable : source.Readable
  proper : ∀ path ≠ [], ∀ written, source.Sets path written → Proper path written

namespace Setting

def AllProper (front : List String) (setting : Setting) : Prop :=
  ∀ path ≠ [], ∀ written, setting.at? path = some written → Proper (front ++ path) written

variable {front : List String} {entries : List (String × Setting)} {setting : Setting}

theorem allProper_of_not_isTable (hleaf : ¬setting.IsTable) : setting.AllProper front := by
  intro path hpath written hat
  cases path with
  | nil => exact absurd rfl hpath
  | cons name path => cases (at?_cons_of_not_isTable hleaf path).symm.trans hat

theorem allProper_table_iff (hnames : entries.Pairwise (·.1 < ·.1)) :
    (Setting.table entries).AllProper front
      ↔ ∀ entry ∈ entries, Proper (front ++ [entry.1]) entry.2
        ∧ entry.2.AllProper (front ++ [entry.1]) := by
  constructor
  · intro hall entry hentry
    have hlookup := (lookup_eq_some_iff hnames).mpr hentry
    refine ⟨hall [entry.1] (List.cons_ne_nil _ _) _ (at?_of_mem hnames hentry), ?_⟩
    intro path _ written hat
    rw [List.append_assoc]
    refine hall (entry.1 :: path) (List.cons_ne_nil _ _) written ?_
    rw [at?_cons_table, hlookup]
    exact hat
  · intro hall path hpath written hat
    cases path with
    | nil => exact absurd rfl hpath
    | cons name path =>
        obtain ⟨inner, hlookup, hat⟩ := Option.bind_eq_some_iff.mp hat
        obtain ⟨hproper, hbelow⟩ := hall _ (mem_of_lookup hlookup)
        cases path with
        | nil =>
            cases hat
            exact hproper
        | cons next path =>
            have hwhole := hbelow (next :: path) (List.cons_ne_nil _ _) written hat
            rwa [List.append_assoc] at hwhole

end Setting

theorem IsSwitch.not_isTable {written : Setting} {value : Bool} (hreads : IsSwitch written value) :
    ¬written.IsTable := by
  rintro ⟨entries, rfl⟩
  cases hreads

theorem IsList.not_isTable {written : Setting} {values : List String}
    (hreads : IsList written values) : ¬written.IsTable := by
  rintro ⟨entries, rfl⟩
  cases hreads

theorem Slots.fits_iff_of_mem {ρ : Type} (slots : Slots ρ) {slot : Slot ρ} (hslot : slot ∈ slots.list)
    {written : Setting} :
    slots.Fits (slot.name, written) ↔ ∃ part, slot.decode written = .ok part := by
  constructor
  · rintro ⟨other, hother, hname, hpart⟩
    cases List.inj_on_of_nodup_map slots.names hother hslot hname
    exact hpart
  · exact fun hpart => ⟨slot, hslot, rfl, hpart⟩

theorem Options.fits_iff {name : String} {written : Setting} :
    slots.Fits (name, written)
      ↔ Proper ["planner", name] written ∧ written.AllProper ["planner", name] := by
  constructor
  · rintro ⟨slot, hslot, rfl, part, hpart⟩
    refine ⟨?_, Setting.allProper_of_not_isTable fun ⟨entries, htable⟩ =>
      decode_table_ne hslot entries part (htable ▸ hpart)⟩
    simp only [slots, List.mem_cons, List.not_mem_nil, or_false] at hslot
    rcases hslot with rfl | rfl
    · exact .strict (Setting.switch_eq_ok_iff.mp hpart)
    · exact .defaultProfiles (Setting.textList_eq_ok_iff.mp hpart)
  · rintro ⟨hproper, -⟩
    rcases Proper.planner_iff.mp hproper with ⟨rfl, value, hreads⟩ | ⟨rfl, values, hreads⟩
    · exact ⟨_, List.mem_cons_self, rfl, value, Setting.switch_eq_ok_iff.mpr hreads⟩
    · exact ⟨_, List.mem_cons_of_mem _ List.mem_cons_self, rfl, values,
        Setting.textList_eq_ok_iff.mpr hreads⟩

theorem exists_propertyMap_iff_proper {entries : List (String × Setting)}
    (hnames : entries.Pairwise (·.1 < ·.1)) :
    (∃ map, (Setting.table entries).propertyMap = .ok map)
      ↔ (Setting.table entries).AllProper ["environment", "properties"] := by
  rw [exists_propertyMap_iff, Setting.allProper_table_iff hnames]
  refine forall₂_congr fun entry _ => ?_
  constructor
  · rintro ⟨value, hvalue⟩
    have hleaf : ¬entry.2.IsTable := by
      rintro ⟨inner, htable⟩
      cases htable.symm.trans hvalue
    exact ⟨Proper.property_iff.mpr ⟨value, hvalue⟩, Setting.allProper_of_not_isTable hleaf⟩
  · rintro ⟨hproper, -⟩
    exact Proper.property_iff.mp hproper

theorem Facts.fits_iff {name : String} {written : Setting}
    (hproperties : name = "properties" →
      ∃ entries, written = .table entries ∧ entries.Pairwise (·.1 < ·.1)) :
    slots.Fits (name, written)
      ↔ Proper ["environment", name] written ∧ written.AllProper ["environment", name] := by
  by_cases hname : name = "properties"
  · obtain ⟨entries, rfl, hnames⟩ := hproperties hname
    subst hname
    rw [← exists_propertyMap_iff_proper hnames, and_iff_right (.properties entries)]
    exact slots.fits_iff_of_mem (List.mem_cons_of_mem _ List.mem_cons_self)
  · constructor
    · rintro ⟨slot, hslot, rfl, part, hpart⟩
      refine ⟨?_, Setting.allProper_of_not_isTable fun ⟨entries, htable⟩ =>
        decode_table_ne hslot hname entries part (htable ▸ hpart)⟩
      simp only [slots, List.mem_cons, List.not_mem_nil, or_false] at hslot
      rcases hslot with rfl | rfl | rfl
      · exact .profiles (Setting.textList_eq_ok_iff.mp hpart)
      · exact absurd rfl hname
      · exact .flags (Setting.textList_eq_ok_iff.mp hpart)
    · rintro ⟨hproper, -⟩
      obtain ⟨rfl, -⟩ | ⟨hlist, values, hreads⟩ := Proper.environment_iff.mp hproper
      · exact absurd rfl hname
      · simp only [List.mem_cons, List.not_mem_nil, or_false] at hlist
        rcases hlist with rfl | rfl
        · exact ⟨_, List.mem_cons_self, rfl, values, Setting.textList_eq_ok_iff.mpr hreads⟩
        · exact ⟨_, List.mem_cons_of_mem _ (List.mem_cons_of_mem _ List.mem_cons_self), rfl, values,
            Setting.textList_eq_ok_iff.mpr hreads⟩

theorem Options.exists_ofSetting_iff_proper {entries : List (String × Setting)}
    (hnames : entries.Pairwise (·.1 < ·.1)) :
    (∃ options, ofSetting (.table entries) = .ok options)
      ↔ (Setting.table entries).AllProper ["planner"] := by
  rw [ofSetting_eq, Slots.exists_decode_iff, Setting.allProper_table_iff hnames]
  exact forall₂_congr fun entry _ => fits_iff

theorem Facts.exists_ofSetting_iff_proper {entries : List (String × Setting)}
    (hnames : entries.Pairwise (·.1 < ·.1))
    (hproperties : ∀ properties, ("properties", properties) ∈ entries →
      ∃ inner, properties = .table inner ∧ inner.Pairwise (·.1 < ·.1)) :
    (∃ facts, ofSetting (.table entries) = .ok facts)
      ↔ (Setting.table entries).AllProper ["environment"] := by
  rw [ofSetting_eq, Slots.exists_decode_iff, Setting.allProper_table_iff hnames]
  refine forall₂_congr fun entry hentry => fits_iff fun hname => ?_
  exact hproperties entry.2 (hname ▸ hentry)

theorem Settings.fits_iff {entries : List (String × Setting)} {name : String} {inner : Setting}
    (hregular : (Setting.table entries).Regular) (hnames : entries.Pairwise (·.1 < ·.1))
    (hentry : (name, inner) ∈ entries) :
    slots.Fits (name, inner) ↔ Proper [name] inner ∧ inner.AllProper [name] := by
  have hat := Setting.at?_of_mem hnames hentry
  by_cases hname : name ∈ ["planner", "environment"]
  · have hpath : [name] ∈ Setting.tablePaths := by
      simp only [List.mem_cons, List.not_mem_nil, or_false] at hname
      rcases hname with rfl | rfl <;> decide
    obtain ⟨below, rfl, hbelow⟩ := hregular.exists_table [name] hat hpath
    rw [Proper.top_iff, and_iff_right ⟨hname, below, rfl⟩]
    simp only [List.mem_cons, List.not_mem_nil, or_false] at hname
    rcases hname with rfl | rfl
    · rw [← Options.exists_ofSetting_iff_proper hbelow]
      exact slots.fits_iff_of_mem List.mem_cons_self
    · rw [← Facts.exists_ofSetting_iff_proper hbelow ?_]
      · exact slots.fits_iff_of_mem (List.mem_cons_of_mem _ List.mem_cons_self)
      · intro properties hproperties
        refine hregular.exists_table ["environment", "properties"] ?_ (by decide)
        rw [Setting.at?_cons_table, (lookup_eq_some_iff hnames).mpr hentry]
        exact Setting.at?_of_mem hbelow hproperties
  · constructor
    · rintro ⟨slot, hslot, rfl, -⟩
      simp only [slots, List.mem_cons, List.not_mem_nil, or_false] at hslot
      rcases hslot with rfl | rfl <;> simp at hname
    · exact fun hproper => absurd (Proper.top_iff.mp hproper.1).1 hname

/-- Settings have a meaning exactly if everything in them is proper. -/
theorem exists_ofSetting_iff_proper {layer : Setting} (hregular : layer.Regular) :
    (∃ settings, Settings.ofSetting layer = .ok settings) ↔ layer.AllProper [] := by
  obtain ⟨entries, rfl, hnames⟩ := hregular.exists_table [] rfl (by decide)
  rw [Settings.ofSetting_eq, Slots.exists_decode_iff, Setting.allProper_table_iff hnames]
  exact forall₂_congr fun entry hentry => Settings.fits_iff hregular hnames hentry

/-! ### Sources -/

/-- No table may be written where the setting of a variable belongs. -/
theorem Proper.not_isTable_of_mem_places {path : List String} {written : Setting}
    (hproper : Proper path written) (hpath : path ∈ Variable.places.map (·.2)) :
    ¬written.IsTable := by
  simp only [Variable.places, List.map_cons, List.map_nil, List.mem_cons, List.not_mem_nil,
    or_false] at hpath
  rcases hpath with rfl | rfl | rfl
  · obtain ⟨hname, -⟩ | ⟨-, values, hreads⟩ := environment_iff.mp hproper
    · exact absurd hname (by decide)
    · exact hreads.not_isTable
  · obtain ⟨hname, -⟩ | ⟨-, values, hreads⟩ := environment_iff.mp hproper
    · exact absurd hname (by decide)
    · exact hreads.not_isTable
  · obtain ⟨-, value, hreads⟩ | ⟨hname, -⟩ := planner_iff.mp hproper
    · exact hreads.not_isTable
    · exact absurd hname (by decide)

theorem Variable.allProper_layer_iff (vars : NameMap String) :
    (layer vars).AllProper []
      ↔ ∀ path ≠ [], ∀ written, (LayerSource.process vars).Sets path written → Proper path written := by
  simp only [LayerSource.sets_process_iff]
  have hplaces : ∀ {path written}, LastGives (Sets · path) vars.entries written →
      path ∈ places.map (·.2) := by
    intro path written hlast
    obtain ⟨entry, -, hentry⟩ := hlast.exists_item
    exact hentry.mem_places
  constructor
  · intro hall path hpath written hlast
    obtain ⟨outer, name, rfl, -⟩ := exists_pair_of_mem_places (hplaces hlast)
    refine hall _ hpath written (((overlaid_layer vars outer name).gives_iff ?_).mp hlast)
    intro given found _ hfound htables
    exact (hall _ hpath found hfound).not_isTable_of_mem_places (hplaces hlast) htables.2
  · intro hsets path hpath written hat
    match path with
    | [] => exact absurd rfl hpath
    | [outer] =>
        obtain ⟨htable, houter⟩ := isTable_of_at?_layer vars hat
        exact Proper.top_iff.mpr ⟨houter, htable⟩
    | outer :: name :: path =>
        rw [show outer :: name :: path = [outer, name] ++ path from rfl, Setting.at?_append] at hat
        obtain ⟨inner, hinner, hat⟩ := Option.bind_eq_some_iff.mp hat
        have hproper : ∀ {given}, LastGives (Sets · [outer, name]) vars.entries given →
            Proper [outer, name] given := fun hlast => hsets _ (List.cons_ne_nil _ _) _ hlast
        have hlast := ((overlaid_layer vars outer name).gives_iff fun given found hlast _ htables =>
          (hproper hlast).not_isTable_of_mem_places (hplaces hlast) htables.1).mpr hinner
        cases path with
        | nil =>
            cases hat
            exact hproper hlast
        | cons first path =>
            have hleaf := (hproper hlast).not_isTable_of_mem_places (hplaces hlast)
            cases (Setting.at?_cons_of_not_isTable hleaf path).symm.trans hat

namespace LayerSource

variable {source : LayerSource} {layer : Setting}

theorem exists_ofSetting_iff (hlayer : source.layer = .ok layer) (hregular : layer.Regular) :
    (∃ settings, Settings.ofSetting layer = .ok settings)
      ↔ ∀ path ≠ [], ∀ written, source.Sets path written → Proper path written := by
  rw [exists_ofSetting_iff_proper hregular]
  rcases sets_cases hlayer with hsets | ⟨vars, rfl, rfl⟩
  · exact forall₃_congr fun path hpath written => by rw [hsets path hpath]; rfl
  · exact Variable.allProper_layer_iff vars

/-- A source fits if its layer has a meaning of its own. -/
theorem fits_iff (hregular : ∀ layer, source.layer = .ok layer → layer.Regular) :
    source.Fits
      ↔ ∃ layer settings, source.layer = .ok layer ∧ Settings.ofSetting layer = .ok settings := by
  constructor
  · rintro ⟨hreadable, hproper⟩
    obtain ⟨layer, hlayer⟩ := exists_layer_iff.mpr hreadable
    obtain ⟨settings, hsettings⟩ := (exists_ofSetting_iff hlayer (hregular layer hlayer)).mpr hproper
    exact ⟨layer, settings, hlayer, hsettings⟩
  · rintro ⟨layer, settings, hlayer, hsettings⟩
    exact ⟨exists_layer_iff.mp ⟨layer, hlayer⟩,
      (exists_ofSetting_iff hlayer (hregular layer hlayer)).mp ⟨settings, hsettings⟩⟩

end LayerSource

end Assembly
