import Assembly.Proofs.Settings.Calls
import Assembly.Proofs.Settings.Fitting

/-!
# Settings from sources

The settings are put together from sources part by part. Each switch, list and property is what the last
source that sets it gives for it.
-/

namespace Assembly

/-- What sources decide: the last one that sets something at the path, by what is written there, or
none of them. -/
inductive Decided {α : Type} (sources : List LayerSource) (path : List String)
    (reads : Setting → α → Prop) (default : α) : α → Prop where
  | unset (hnone : ∀ source ∈ sources, ∀ written, ¬source.Sets path written) :
      Decided sources path reads default default
  | last {written : Setting} {value : α} (hlast : LastGives (·.Sets path) sources written)
      (hreads : reads written value) : Decided sources path reads default value

structure Settings.Composed (settings : Settings) (sources : List LayerSource) : Prop where
  strict : Decided sources ["planner", "strict"] IsSwitch false settings.planner.strict
  defaultProfiles :
    Decided sources ["planner", "default_profiles"] IsList [] settings.planner.defaultProfiles
  profiles : Decided sources ["environment", "profiles"] IsList [] settings.environment.profiles
  flags : Decided sources ["environment", "flags"] IsList [] settings.environment.flags
  property : ∀ name, Decided sources ["environment", "properties", name] IsProperty none
    (settings.environment.properties.get? name)

/-- What the layers of sources mean, each on top of the ones before it and the first on top of the
default settings. -/
def Settings.ofSources? (sources : List LayerSource) : Option Settings := do
  let layers ← sources.mapM (·.layer.toOption)
  (Settings.ofSetting (layers.foldl Setting.merge Layers.defaults)).toOption

theorem Settings.ofSources?_eq_some_iff {sources : List LayerSource} {settings : Settings} :
    ofSources? sources = some settings
      ↔ ∃ layers, List.Forall₂ (fun source layer => source.layer = .ok layer) sources layers
        ∧ Settings.ofSetting (layers.foldl Setting.merge Layers.defaults) = .ok settings := by
  have hok : ∀ {ε α : Type} {outcome : Except ε α} {value : α},
      outcome.toOption = some value ↔ outcome = .ok value := by
    intro ε α outcome value
    cases outcome <;> simp [Except.toOption]
  simp only [ofSources?, Option.bind_eq_bind, Option.bind_eq_some_iff, mapM_eq_some_iff, hok]

/-! ### One composition -/

theorem Decided.unique {α : Type} {sources : List LayerSource} {path : List String}
    {reads : Setting → α → Prop} {default value other : α} (hreads : Relator.RightUnique reads)
    (hvalue : Decided sources path reads default value)
    (hother : Decided sources path reads default other) : value = other := by
  cases hvalue with
  | unset hnone =>
      cases hother with
      | unset => rfl
      | last hlast => exact absurd hlast (forall_not_lastGives_iff.mpr hnone _)
  | last hlast hread =>
      cases hother with
      | unset hnone => exact absurd hlast (forall_not_lastGives_iff.mpr hnone _)
      | last hlastOther hreadOther =>
          cases hlast.unique (LayerSource.rightUnique_sets path) hlastOther
          exact hreads hread hreadOther

theorem rightUnique_of_eq_ok_iff {ε α : Type} {decode : Setting → Except ε α}
    {reads : Setting → α → Prop}
    (hreads : ∀ {written value}, decode written = .ok value ↔ reads written value) :
    Relator.RightUnique reads :=
  fun _ _ _ hvalue hother => Except.ok.inj ((hreads.mpr hvalue).symm.trans (hreads.mpr hother))

theorem NameMap.eq_of_get? {α : Type} {first second : NameMap α}
    (hget : ∀ name, first.get? name = second.get? name) : first = second := by
  obtain ⟨entries, hentries⟩ := first
  obtain ⟨others, hothers⟩ := second
  have hne : ∀ {entry other : String × α}, entry.1 < other.1 → entry ≠ other :=
    fun hlt heq => String.lt_irrefl _ (heq ▸ hlt)
  have hmem : ∀ entry, entry ∈ entries ↔ entry ∈ others := by
    intro entry
    rw [← lookup_eq_some_iff hentries, ← lookup_eq_some_iff hothers]
    exact iff_of_eq (congrArg (· = some entry.2) (hget entry.1))
  have hperm : entries.Perm others :=
    (List.perm_ext_iff_of_nodup (hentries.imp hne) (hothers.imp hne)).mpr hmem
  have hsame : entries = others := hperm.eq_of_pairwise
    (fun entry other _ _ hlt hgt => absurd (String.lt_trans hlt hgt) (String.lt_irrefl _))
    hentries hothers
  subst hsame
  rfl

theorem Settings.Composed.unique {settings others : Settings} {sources : List LayerSource}
    (hsettings : settings.Composed sources) (hothers : others.Composed sources) :
    settings = others := by
  obtain ⟨⟨strict, defaultProfiles⟩, profiles, properties, flags⟩ := settings
  obtain ⟨⟨strict', defaultProfiles'⟩, profiles', properties', flags'⟩ := others
  have hlists : Relator.RightUnique IsList := rightUnique_of_eq_ok_iff Setting.textList_eq_ok_iff
  have hstrict : strict = strict' :=
    hsettings.strict.unique (rightUnique_of_eq_ok_iff Setting.switch_eq_ok_iff) hothers.strict
  have hdefaults : defaultProfiles = defaultProfiles' :=
    hsettings.defaultProfiles.unique hlists hothers.defaultProfiles
  have hprofiles : profiles = profiles' := hsettings.profiles.unique hlists hothers.profiles
  have hflags : flags = flags' := hsettings.flags.unique hlists hothers.flags
  have hproperties : properties = properties' := NameMap.eq_of_get? fun name =>
    (hsettings.property name).unique (rightUnique_of_eq_ok_iff Setting.propertyValue_eq_ok_iff)
      (hothers.property name)
  subst hstrict hdefaults hprofiles hflags hproperties
  rfl

/-! ### Sources with tables -/

/-- Where the layer sets the planner, the environment or its properties, it has tables. -/
def LayerSource.Tabular (source : LayerSource) : Prop :=
  ∀ layer ∈ source.layer.toOption,
    ∀ path ∈ [["planner"], ["environment"], ["environment", "properties"]],
      ∀ inner ∈ layer.at? path, inner.IsTable

instance (setting : Setting) : Decidable setting.IsTable :=
  match setting with
  | .table entries => isTrue ⟨entries, rfl⟩
  | .text _ | .letter _ | .flag _ | .integer _ | .real _ | .list _ => isFalse nofun

instance (source : LayerSource) : Decidable source.Tabular :=
  inferInstanceAs (Decidable (∀ layer ∈ source.layer.toOption,
    ∀ path ∈ [["planner"], ["environment"], ["environment", "properties"]],
      ∀ inner ∈ layer.at? path, inner.IsTable))

def Layers.Call.Tabular : Call → Prop
  | .add source => source.Tabular
  | .extract => True

instance (call : Layers.Call) : Decidable call.Tabular :=
  match call with
  | .add source => inferInstanceAs (Decidable source.Tabular)
  | .extract => isTrue trivial

theorem LayerSource.Tabular.regular {source : LayerSource} (htabular : source.Tabular)
    {layer : Setting} (hlayer : source.layer = .ok layer) : layer.Regular := by
  obtain ⟨hascending, htable⟩ := ascending_layer hlayer
  have hfound : layer ∈ source.layer.toOption := by
    rw [hlayer]
    rfl
  refine ⟨hascending, List.forall_mem_cons.mpr ⟨fun inner hat => ?_, htabular layer hfound⟩⟩
  cases hat
  exact htable

section Sources

variable {sources : List LayerSource} {layers : List Setting}
  (hlayers : List.Forall₂ (fun source layer => source.layer = .ok layer) sources layers)
include hlayers

theorem LayerSource.exists_of_mem_layers {layer : Setting} (hlayer : layer ∈ layers) :
    ∃ source ∈ sources, source.layer = .ok layer := by
  induction hlayers with
  | nil => cases hlayer
  | cons hfirst hrest ih =>
      rcases List.mem_cons.mp hlayer with rfl | hlater
      · exact ⟨_, List.mem_cons_self, hfirst⟩
      · obtain ⟨source, hsource, hlayer⟩ := ih hlater
        exact ⟨source, List.mem_cons_of_mem _ hsource, hlayer⟩

theorem LayerSource.regular_of_mem_layers (htabular : ∀ source ∈ sources, source.Tabular) :
    ∀ layer ∈ layers, layer.Regular := by
  intro layer hmem
  obtain ⟨source, hsource, hlayer⟩ := exists_of_mem_layers hlayers hmem
  exact (htabular source hsource).regular hlayer

end Sources

namespace Layers

theorem mem_of_mem_exchange {layers : Layers} {calls : List Call} {entry : Call × Reply}
    (hentry : entry ∈ layers.exchange calls) : entry.1 ∈ calls := by
  induction calls generalizing layers with
  | nil => cases hentry
  | cons call rest ih =>
      rcases List.mem_cons.mp hentry with rfl | hrest
      · exact List.mem_cons_self
      · exact List.mem_cons_of_mem _ (ih hrest)

theorem regular_foldl {below : Setting} {added : List Setting} (hbelow : below.Regular)
    (hadded : ∀ layer ∈ added, layer.Regular) : (added.foldl Setting.merge below).Regular := by
  induction added generalizing below with
  | nil => exact hbelow
  | cons first rest ih =>
      obtain ⟨hfirst, hrest⟩ := List.forall_mem_cons.mp hadded
      exact ih (hbelow.merge hfirst) hrest

theorem regular_initial : initial.merged.Regular := by
  have hleaf : ∀ values, (Setting.texts values).Ascending := fun values =>
    Setting.ascending_of_not_isTable nofun
  have hflag : (Setting.flag false).Ascending := Setting.ascending_of_not_isTable nofun
  constructor
  · refine Setting.ascending_table_iff.mpr ⟨by decide, List.forall_mem_cons.mpr ⟨?_, ?_⟩⟩
    · refine Setting.ascending_table_iff.mpr ⟨by decide, ?_⟩
      simp only [List.forall_mem_cons, hleaf, true_and]
      exact ⟨Setting.ascending_table_iff.mpr ⟨.nil, nofun⟩, nofun⟩
    · refine List.forall_mem_singleton.mpr (Setting.ascending_table_iff.mpr ⟨by decide, ?_⟩)
      simp only [List.forall_mem_cons, hleaf, hflag, true_and]
      exact nofun
  · change ∀ path ∈ Setting.tablePaths, ∀ inner, defaults.at? path = some inner → inner.IsTable
    simp [defaults, Setting.tablePaths, Setting.at?, lookup_entries_cons, Setting.IsTable]

theorem mem_of_mem_addedSources {layers : Layers} {calls : List Call} {source : LayerSource}
    (hsource : source ∈ layers.addedSources calls) : .add source ∈ calls := by
  obtain ⟨⟨call, reply⟩, hentry, hadded⟩ := List.mem_filterMap.mp hsource
  unfold addedSource? at hadded
  split at hadded
  · next added heq =>
    cases heq
    cases hadded
    exact mem_of_mem_exchange hentry
  · cases hadded

theorem tabular_of_mem_addedSources (layers : Layers) {calls : List Call}
    (htabular : ∀ call ∈ calls, call.Tabular) : ∀ source ∈ layers.addedSources calls, source.Tabular :=
  fun _ hsource => htabular _ (mem_of_mem_addedSources hsource)

theorem regular_run {calls : List Call} (htabular : ∀ call ∈ calls, call.Tabular) :
    (initial.run calls).merged.Regular := by
  rw [merged_run]
  exact regular_foldl regular_initial
    (LayerSource.regular_of_mem_layers (forall₂_added initial calls)
      (tabular_of_mem_addedSources initial htabular))

/-- What was kept is what the sources that were added mean. -/
theorem ofSources?_addedSources (calls : List Call) :
    Settings.ofSources? (initial.addedSources calls) = some (initial.run calls).settings := by
  have hmeaning := (initial.run calls).meaning
  rw [merged_run] at hmeaning
  exact Settings.ofSources?_eq_some_iff.mpr ⟨_, forall₂_added initial calls, hmeaning⟩

section Composed

variable {sources : List LayerSource} {settings : Settings}
  (htabular : ∀ source ∈ sources, source.Tabular)
  (hmeaning : Settings.ofSources? sources = some settings)
include htabular hmeaning

/-- A part of the settings is what the last source that sets it gives, as what is written for a part is
no table and covers what is below it. -/
theorem decided_of_isPart {α : Type} {path : List String} {decode : Setting → Except SettingFault α}
    {part : Settings → α} {reads : Setting → α → Prop} (hpart : IsPart path decode part)
    (hreads : ∀ {written value}, decode written = .ok value ↔ reads written value)
    (hsets : ∀ {source : LayerSource} {layer : Setting}, source.layer = .ok layer →
      Overlaid (source.Sets path) none (layer.at? path)) :
    Decided sources path reads (part {}) (part settings) := by
  obtain ⟨layers, hlayers, hmeaning⟩ := Settings.ofSources?_eq_some_iff.mp hmeaning
  have hsteps : List.Forall₂ (fun source layer => ∀ below : Setting,
      Overlaid (source.Sets path) (below.at? path) ((below.merge layer).at? path)) sources layers := by
    refine ((List.forall₂_and_left sources layers).mpr ⟨htabular, hlayers⟩).imp ?_
    rintro source layer ⟨hsource, hlayer⟩
    have hregular := hsource.regular hlayer
    exact Overlaid.merge hregular.ascending
      (fun _ _ hsplit hback _ hat => hregular.isTable_of_front hpart.tables hsplit hback hat)
      (hsets hlayer)
  have hoverlaid := Overlaid.foldl hsteps defaults
  have hregular := LayerSource.regular_of_mem_layers hlayers htabular
  have hmeans := hpart.means _ _ (regular_foldl regular_initial hregular) hmeaning
  have hdefault := hpart.means _ _ regular_initial initial.meaning
  change Means decode (part {}) (part {}) (defaults.at? path) at hdefault
  change Means decode (part {}) (part settings) ((layers.foldl Setting.merge defaults).at? path) at hmeans
  generalize (layers.foldl Setting.merge defaults).at? path = found at hoverlaid hmeans
  cases hoverlaid with
  | kept hnone =>
      rw [hmeans.unique hdefault]
      exact .unset (forall_not_lastGives_iff.mp hnone)
  | @covered written found hgives hcovers =>
      have hleaf : ¬written.IsTable := by
        intro htable
        obtain ⟨entries, rfl⟩ := hcovers.table htable
        exact hpart.leaf entries _ hmeans
      rw [hcovers.leaf hleaf] at hmeans
      exact .last ((hgives written).mpr rfl) (hreads.mp hmeans)

theorem composed_of_ofSources? : settings.Composed sources where
  strict := decided_of_isPart htabular hmeaning isPart_strict Setting.switch_eq_ok_iff
    fun hlayer => LayerSource.overlaid_pair hlayer _ _
  defaultProfiles := decided_of_isPart htabular hmeaning isPart_defaultProfiles
    Setting.textList_eq_ok_iff fun hlayer => LayerSource.overlaid_pair hlayer _ _
  profiles := decided_of_isPart htabular hmeaning isPart_profiles Setting.textList_eq_ok_iff
    fun hlayer => LayerSource.overlaid_pair hlayer _ _
  flags := decided_of_isPart htabular hmeaning isPart_flags Setting.textList_eq_ok_iff
    fun hlayer => LayerSource.overlaid_pair hlayer _ _
  property name := decided_of_isPart htabular hmeaning (isPart_property name)
    Setting.propertyValue_eq_ok_iff fun hlayer => LayerSource.overlaid_property hlayer name

end Composed

theorem added_iff_fits {layers : Layers} {source : LayerSource} (hregular : layers.merged.Regular)
    (hlayer : ∀ layer, source.layer = .ok layer → layer.Regular) :
    (layers.call (.add source)).2 = .added ↔ source.Fits := by
  rw [call_add_eq_added_iff, exists_addSource_iff, LayerSource.fits_iff hlayer]
  refine exists_congr fun layer => ?_
  simp only [exists_and_left]
  refine and_congr_right fun hsource => ?_
  exact exists_ofSetting_merge_iff hregular (hlayer layer hsource) ⟨_, layers.meaning⟩

/-- Layers that have tables where they should are added or refused each for itself. Of those that were
added, the last one that sets a switch, a list or a property decides it. -/
theorem composed_field_by_field (calls : List Call) (htabular : ∀ call ∈ calls, call.Tabular) :
    (∀ before source after, calls = before ++ .add source :: after →
      (((initial.run before).call (.add source)).2 = .added ↔ source.Fits))
      ∧ ∀ settings, ((initial.run calls).call .extract).2 = .meaning settings
        ↔ settings.Composed (initial.addedSources calls) := by
  constructor
  · rintro before source after rfl
    refine added_iff_fits
      (regular_run fun call hcall => htabular call (List.mem_append_left _ hcall)) ?_
    have hsource : source.Tabular := htabular (.add source) (by simp)
    exact fun layer hlayer => hsource.regular hlayer
  · intro settings
    have hcomposed : (initial.run calls).settings.Composed (initial.addedSources calls) :=
      composed_of_ofSources? (tabular_of_mem_addedSources initial htabular)
        (ofSources?_addedSources calls)
    rw [call_extract, Reply.meaning.injEq]
    constructor
    · rintro rfl
      exact hcomposed
    · exact fun hsettings => hcomposed.unique hsettings

def common : LayerSource :=
  .document "common"
    ("planner.strict = \"no\"\nplanner.default_profiles = \"dev, live\"\n"
      ++ "[environment]\nflags = [\"tokio\"]\nproperties.at = \"a\"\nproperties.db = \"a\"")

def unfit : LayerSource :=
  .document "unfit" "planner.strict = 2"

def own : LayerSource :=
  .file "own.toml"
    (.file ("planner.default_profiles = [\"local\"]\n[environment]\nprofiles = [\"dev\"]\n"
      ++ "properties.at = \"b\""))

def shell : LayerSource :=
  .process
    (.ofList [("WRAPP_FLAGS", "metrics trace"), ("WRAPP_PROFILES", "ci, live"), ("WRAPP_STRICT", "on")])

/-- Sources that set the same things in different ways, and one that does not fit. -/
def overlay : List Call :=
  [.add common, .add unfit, .add own, .add shell]

def overlaySettings : Settings where
  planner := { strict := true, defaultProfiles := ["local"] }
  environment :=
    { profiles := ["ci", "live"]
      properties := .ofList [("at", "b"), ("db", "a")]
      flags := ["metrics", "trace"] }

theorem overlay_composed :
    (∀ call ∈ overlay, call.Tabular)
      ∧ common.Fits ∧ ¬unfit.Fits ∧ own.Fits ∧ shell.Fits
      ∧ overlaySettings.planner.strict = true
      ∧ ∀ settings, settings.Composed [common, own, shell] ↔ settings = overlaySettings := by
  -- One evaluation for all of them, so that each text is read once.
  obtain ⟨htabular, hcommon, hunfit, hown, hshell, hadded, hextracted⟩ :
      (∀ call ∈ overlay, call.Tabular)
        ∧ (initial.call (.add common)).2 = .added
        ∧ ((initial.run [.add common]).call (.add unfit)).2 ≠ .added
        ∧ ((initial.run [.add common, .add unfit]).call (.add own)).2 = .added
        ∧ ((initial.run [.add common, .add unfit, .add own]).call (.add shell)).2 = .added
        ∧ initial.addedSources overlay = [common, own, shell]
        ∧ ((initial.run overlay).call .extract).2 = .meaning overlaySettings := by
    decide +kernel
  obtain ⟨hfits, hcomposed⟩ := composed_field_by_field overlay htabular
  refine ⟨htabular, (hfits [] common _ rfl).mp hcommon,
    mt (hfits [.add common] unfit _ rfl).mpr hunfit,
    (hfits [.add common, .add unfit] own _ rfl).mp hown,
    (hfits [.add common, .add unfit, .add own] shell _ rfl).mp hshell, rfl, fun settings => ?_⟩
  rw [← hadded, ← hcomposed, hextracted, Reply.meaning.injEq, eq_comm]

end Layers

end Assembly
