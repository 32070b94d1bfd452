import Mathlib.Data.List.Infix
import Assembly.Proofs.Settings.Meaning
import Assembly.Proofs.Settings.Written

/-!
# Parts of the settings

As long as there are tables where settings have tables, each part of the settings is what is written at
its place, and whether settings have a meaning on top of others does not depend on those.
-/

namespace Assembly

namespace Setting

/-- Where settings have tables. -/
def tablePaths : List (List String) :=
  [[], ["planner"], ["environment"], ["environment", "properties"]]

structure Regular (setting : Setting) : Prop where
  ascending : setting.Ascending
  tables : ∀ path ∈ tablePaths, ∀ inner, setting.at? path = some inner → inner.IsTable

variable {below above : Setting}

theorem mem_tablePaths_of_front {path front : List String} (hpath : path ∈ tablePaths)
    (hfront : front <+: path) : front ∈ tablePaths := by
  have hclosed : ∀ path ∈ tablePaths, ∀ front ∈ path.inits, front ∈ tablePaths := by decide
  exact hclosed path hpath front ((List.mem_inits _ _).mpr hfront)

theorem Regular.exists_table (hregular : above.Regular) (path : List String) {inner : Setting}
    (hat : above.at? path = some inner) (hpath : path ∈ tablePaths) :
    ∃ entries, inner = .table entries ∧ entries.Pairwise (·.1 < ·.1) := by
  obtain ⟨entries, rfl⟩ := hregular.tables path hpath inner hat
  exact ⟨entries, rfl, hregular.ascending path entries hat⟩

/-- There are tables all the way to what lies directly in one. -/
theorem Regular.isTable_of_front (hregular : above.Regular) {path front back : List String}
    (hpath : path.dropLast ∈ tablePaths) (hsplit : path = front ++ back) (hback : back ≠ [])
    {inner : Setting} (hat : above.at? front = some inner) : inner.IsTable := by
  subst hsplit
  rw [List.dropLast_append_of_ne_nil hback] at hpath
  exact hregular.tables front (mem_tablePaths_of_front hpath (List.prefix_append _ _)) inner hat

theorem Regular.at?_merge (habove : above.Regular) {path : List String}
    (hpath : path.dropLast ∈ tablePaths) :
    (below.merge above).at? path
      = (above.at? path).elim (below.at? path)
        fun upper => some ((below.at? path).elim upper (·.merge upper)) :=
  Setting.at?_merge habove.ascending fun _ _ hsplit hback _ hat =>
    habove.isTable_of_front hpath hsplit hback hat

theorem Regular.merge (hbelow : below.Regular) (habove : above.Regular) :
    (below.merge above).Regular := by
  refine ⟨ascending_merge hbelow.ascending habove.ascending, fun path hpath inner hat => ?_⟩
  rw [habove.at?_merge (mem_tablePaths_of_front hpath path.dropLast_prefix)] at hat
  cases hupper : above.at? path with
  | none =>
      rw [hupper] at hat
      exact hbelow.tables path hpath inner hat
  | some upper =>
      have htable := habove.tables path hpath upper hupper
      rw [hupper] at hat
      cases hlower : below.at? path with
      | none =>
          rw [hlower] at hat
          cases hat
          exact htable
      | some lower =>
          rw [hlower] at hat
          cases hat
          exact isTable_merge _ htable

end Setting

/-! ### Parts of the settings -/

/-- A part of the settings is what is written at a path. -/
structure IsPart {α : Type} (path : List String) (decode : Setting → Except SettingFault α)
    (part : Settings → α) : Prop where
  tables : path.dropLast ∈ Setting.tablePaths
  leaf : ∀ entries value, decode (.table entries) ≠ .ok value
  means : ∀ setting settings, setting.Regular → Settings.ofSetting setting = .ok settings →
    Means decode (part {}) (part settings) (setting.at? path)

theorem Means.at? {σ α : Type} {outer : Setting → Except SettingFault σ} {default record : σ}
    {entries : List (String × Setting)} {name : String}
    (hrecord : Means outer default record (entries.lookup name)) {path : List String}
    {decode : Setting → Except SettingFault α} (part : σ → α)
    (hpart : ∀ inner, entries.lookup name = some inner → outer inner = .ok record →
      Means decode (part default) (part record) (inner.at? path)) :
    Means decode (part default) (part record) ((Setting.table entries).at? (name :: path)) := by
  rw [Setting.at?_cons_table]
  cases hlookup : entries.lookup name with
  | none =>
      rw [hlookup] at hrecord
      exact congrArg part hrecord
  | some inner =>
      rw [hlookup] at hrecord
      exact hpart inner hlookup hrecord

theorem Setting.at?_singleton {entries : List (String × Setting)} {name : String} :
    (Setting.table entries).at? [name] = entries.lookup name := by
  rw [at?_cons_table]
  cases entries.lookup name <;> rfl

theorem Setting.at?_of_mem {entries : List (String × Setting)} {name : String} {inner : Setting}
    (hnames : entries.Pairwise (·.1 < ·.1)) (hmem : (name, inner) ∈ entries) :
    (Setting.table entries).at? [name] = some inner :=
  at?_singleton.trans ((lookup_eq_some_iff hnames).mpr hmem)

section Parts

variable {entries : List (String × Setting)} {settings : Settings}
  (hnames : entries.Pairwise (·.1 < ·.1))
  (hsettings : Settings.ofSetting (.table entries) = .ok settings)
include hnames hsettings

theorem means_planner :
    Means Options.ofSetting {} settings.planner (entries.lookup "planner") := by
  rw [Settings.ofSetting_eq] at hsettings
  exact Settings.slots.means_of_decode List.mem_cons_self hnames hsettings

theorem means_environment :
    Means Facts.ofSetting {} settings.environment (entries.lookup "environment") := by
  rw [Settings.ofSetting_eq] at hsettings
  exact Settings.slots.means_of_decode (List.mem_cons_of_mem _ List.mem_cons_self) hnames hsettings

end Parts

theorem isPart_planner {slot : Slot Options} (hslot : slot ∈ Options.slots.list) :
    IsPart ["planner", slot.name] slot.decode (slot.get ·.planner) where
  tables := by simp [Setting.tablePaths]
  leaf := Options.decode_table_ne hslot
  means setting settings hregular hsettings := by
    obtain ⟨entries, rfl, hnames⟩ := hregular.exists_table [] rfl (by decide)
    refine (means_planner hnames hsettings).at? slot.get fun inner hinner hoptions => ?_
    obtain ⟨options, rfl, hoptionNames⟩ :=
      hregular.exists_table ["planner"] (Setting.at?_singleton.trans hinner) (by decide)
    rw [Options.ofSetting_eq] at hoptions
    rw [Setting.at?_singleton]
    exact Options.slots.means_of_decode hslot hoptionNames hoptions

theorem isPart_environment {slot : Slot Facts} (hslot : slot ∈ Facts.slots.list)
    (hname : slot.name ≠ "properties") :
    IsPart ["environment", slot.name] slot.decode (slot.get ·.environment) where
  tables := by simp [Setting.tablePaths]
  leaf := Facts.decode_table_ne hslot hname
  means setting settings hregular hsettings := by
    obtain ⟨entries, rfl, hnames⟩ := hregular.exists_table [] rfl (by decide)
    refine (means_environment hnames hsettings).at? slot.get fun inner hinner hfacts => ?_
    obtain ⟨facts, rfl, hfactNames⟩ :=
      hregular.exists_table ["environment"] (Setting.at?_singleton.trans hinner) (by decide)
    rw [Facts.ofSetting_eq] at hfacts
    rw [Setting.at?_singleton]
    exact Facts.slots.means_of_decode hslot hfactNames hfacts

theorem isPart_strict : IsPart ["planner", "strict"] Setting.switch (·.planner.strict) :=
  isPart_planner List.mem_cons_self

theorem isPart_defaultProfiles :
    IsPart ["planner", "default_profiles"] Setting.textList (·.planner.defaultProfiles) :=
  isPart_planner (List.mem_cons_of_mem _ List.mem_cons_self)

theorem isPart_profiles :
    IsPart ["environment", "profiles"] Setting.textList (·.environment.profiles) :=
  isPart_environment List.mem_cons_self (by decide)

theorem isPart_flags : IsPart ["environment", "flags"] Setting.textList (·.environment.flags) :=
  isPart_environment (List.mem_cons_of_mem _ (List.mem_cons_of_mem _ List.mem_cons_self))
    (by decide)

theorem isPart_property (name : String) :
    IsPart ["environment", "properties", name] Setting.propertyValue
      (·.environment.properties.get? name) where
  tables := by simp [Setting.tablePaths]
  leaf _ _ := nofun
  means setting settings hregular hsettings := by
    obtain ⟨entries, rfl, hnames⟩ := hregular.exists_table [] rfl (by decide)
    refine (means_environment hnames hsettings).at? (·.properties.get? name)
      fun inner hinner hfacts => ?_
    obtain ⟨facts, rfl, hfactNames⟩ :=
      hregular.exists_table ["environment"] (Setting.at?_singleton.trans hinner) (by decide)
    rw [Facts.ofSetting_eq] at hfacts
    have hproperties : Means Setting.propertyMap ∅ settings.environment.properties
        (facts.lookup "properties") :=
      Facts.slots.means_of_decode (List.mem_cons_of_mem _ List.mem_cons_self) hfactNames hfacts
    refine hproperties.at? (·.get? name) fun written hwritten hmap => ?_
    have hat : (Setting.table entries).at? ["environment", "properties"] = some written := by
      rw [Setting.at?_cons_table, hinner]
      exact Setting.at?_singleton.trans hwritten
    obtain ⟨map, rfl, hmapNames⟩ := hregular.exists_table _ hat (by decide)
    rw [Setting.at?_singleton]
    exact means_of_propertyMap hmapNames hmap name

/-! ### A layer on top of others -/

section Merge

variable {below above : Setting} (hbelow : below.Regular) (habove : above.Regular)
include hbelow habove

/-- On top of settings with a meaning a layer has a meaning exactly if it has one of its own. -/
theorem exists_ofSetting_merge_iff (hmeaning : ∃ settings, Settings.ofSetting below = .ok settings) :
    (∃ settings, Settings.ofSetting (below.merge above) = .ok settings)
      ↔ ∃ settings, Settings.ofSetting above = .ok settings := by
  obtain ⟨lower, rfl, hlower⟩ := hbelow.exists_table [] rfl (by decide)
  obtain ⟨upper, rfl, hupper⟩ := habove.exists_table [] rfl (by decide)
  have hatTwo : ∀ {entries facts : List (String × Setting)} {outer name : String}
      {inner : Setting}, entries.Pairwise (·.1 < ·.1) → (outer, .table facts) ∈ entries →
      facts.Pairwise (·.1 < ·.1) → (name, inner) ∈ facts →
      (Setting.table entries).at? [outer, name] = some inner := by
    intro entries facts outer name inner hnames houter hfacts hmem
    rw [Setting.at?_cons_table, (lookup_eq_some_iff hnames).mpr houter]
    exact Setting.at?_of_mem hfacts hmem
  refine Settings.slots.exists_decode_merge_iff hlower hupper hmeaning ?_
  intro slot hslot lowerInner upperInner hlowerMem hupperMem hmeaning
  simp only [Settings.slots, List.mem_cons, List.not_mem_nil, or_false] at hslot
  rcases hslot with rfl | rfl
  · obtain ⟨lowerOptions, rfl, hlowerNames⟩ :=
      hbelow.exists_table ["planner"] (Setting.at?_of_mem hlower hlowerMem) (by decide)
    obtain ⟨upperOptions, rfl, hupperNames⟩ :=
      habove.exists_table ["planner"] (Setting.at?_of_mem hupper hupperMem) (by decide)
    exact Options.exists_ofSetting_merge_iff hlowerNames hupperNames hmeaning
  · obtain ⟨lowerFacts, rfl, hlowerNames⟩ :=
      hbelow.exists_table ["environment"] (Setting.at?_of_mem hlower hlowerMem) (by decide)
    obtain ⟨upperFacts, rfl, hupperNames⟩ :=
      habove.exists_table ["environment"] (Setting.at?_of_mem hupper hupperMem) (by decide)
    refine Facts.exists_ofSetting_merge_iff hlowerNames hupperNames hmeaning ?_
    intro lowerMap upperMap hlowerMap hupperMap hmap
    obtain ⟨lowerProperties, rfl, hlowerProperties⟩ :=
      hbelow.exists_table ["environment", "properties"]
        (hatTwo hlower hlowerMem hlowerNames hlowerMap) (by decide)
    obtain ⟨upperProperties, rfl, hupperProperties⟩ :=
      habove.exists_table ["environment", "properties"]
        (hatTwo hupper hupperMem hupperNames hupperMap) (by decide)
    exact exists_propertyMap_merge_iff hlowerProperties hupperProperties hmap

end Merge

end Assembly
