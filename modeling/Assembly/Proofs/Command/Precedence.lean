import Assembly.Command.Run
import Assembly.Proofs.Command.Spelling
import Assembly.Proofs.Settings.Composition

/-!
# What goes before what

A plan is made for what the layers of settings say together, unless options of the command line say
something else: profiles replace profiles, properties are set one after the other, flags are added, and
strictness is not taken back.
-/

namespace Assembly

open Given (Spelled Single)

/-- What a plan is made for if there are these settings and these options. -/
structure Settings.Overridden (settings : Settings) (given : List Given) (options : Options)
    (environment : Environment) : Prop where
  strict : options.strict = true ↔ settings.planner.strict = true ∨ .strict ∈ given
  defaultProfiles : options.defaultProfiles = settings.planner.defaultProfiles
  profiles : (∃ name, .profile name ∈ given) →
    ∀ name, name ∈ environment.profiles ↔ .profile name ∈ given
  keptProfiles : (∀ name, .profile name ∉ given) →
    ∀ name, name ∈ environment.profiles ↔ name ∈ settings.environment.profiles
  property : ∀ before name value after, given = before ++ .property name value :: after →
    (∀ later, .property name later ∉ after) → environment.properties.get? name = some value
  keptProperty : ∀ name, (∀ value, .property name value ∉ given) →
    environment.properties.get? name = settings.environment.properties.get? name
  flags : ∀ name, name ∈ environment.flags ↔ name ∈ settings.environment.flags ∨ .flag name ∈ given

/-! ### Options among others -/

namespace Given

variable {first : Given}

theorem catalog?_eq_some_iff {path : String} : first.catalog? = some path ↔ first = .catalog path := by
  cases first <;> simp [catalog?]

theorem config?_eq_some_iff {path : String} : first.config? = some path ↔ first = .config path := by
  cases first <;> simp [config?]

theorem profile?_eq_some_iff {name : String} : first.profile? = some name ↔ first = .profile name := by
  cases first <;> simp [profile?]

theorem property?_eq_some_iff {entry : String × String} :
    first.property? = some entry ↔ first = .property entry.1 entry.2 := by
  cases first <;> simp [property?, Prod.ext_iff]

theorem flag?_eq_some_iff {name : String} : first.flag? = some name ↔ first = .flag name := by
  cases first <;> simp [flag?]

theorem format?_eq_some_iff {chosen : Format} :
    first.format? = some chosen ↔ first = .format chosen := by
  cases first <;> simp [format?]

end Given

section Options

variable {given : List Given} {arguments : Arguments} {α : Type} {pick : Given → Option α}
  {make : α → Given}

theorem mem_filterMap_pick (hpick : ∀ {first item}, pick first = some item ↔ first = make item)
    {item : α} : item ∈ given.filterMap pick ↔ make item ∈ given := by
  simp [List.mem_filterMap, hpick]

/-- What is given at most once is the first that is found. -/
theorem findSome?_pick (hpick : ∀ {first item}, pick first = some item ↔ first = make item)
    (hrepeats : ∀ item {earlier : Given}, (pick earlier).isSome = true → (make item).Repeats earlier)
    (hsingle : Single given) {item : α} : given.findSome? pick = some item ↔ make item ∈ given := by
  induction given with
  | nil => simp
  | cons first given ih =>
      obtain ⟨hfirst, hsingle⟩ := List.pairwise_cons.mp hsingle
      rw [List.findSome?_cons, List.mem_cons]
      cases hfound : pick first with
      | none =>
          have hne : make item ≠ first := by
            rintro rfl
            rw [hpick.mpr rfl] at hfound
            cases hfound
          simpa [hne] using ih hsingle
      | some found =>
          have hlater : make item ∉ given :=
            fun hmem => hfirst _ hmem (hrepeats item (hfound ▸ rfl))
          have hmake : make item = first ↔ found = item := by
            rw [eq_comm, ← hpick, hfound, Option.some.injEq]
          simp [hlater, hmake]

theorem find?_property_eq_none {name : String} (hnone : ∀ value, .property name value ∉ given) :
    (given.filterMap Given.property?).reverse.find? (·.1 = name) = none := by
  rw [List.find?_eq_none]
  intro entry hentry heq
  rw [List.mem_reverse, mem_filterMap_pick Given.property?_eq_some_iff] at hentry
  rw [decide_eq_true_eq] at heq
  exact hnone entry.2 (heq ▸ hentry)

/-- Of several properties of a name the last one counts. -/
theorem find?_last_property {name value : String} {before after : List Given}
    (hlast : ∀ later, .property name later ∉ after) :
    ((before ++ .property name value :: after).filterMap Given.property?).reverse.find? (·.1 = name)
      = some (name, value) := by
  have hsplit : (before ++ .property name value :: after).filterMap Given.property?
      = before.filterMap Given.property? ++ (name, value) :: after.filterMap Given.property? := by
    rw [List.filterMap_append]
    rfl
  rw [hsplit, List.reverse_append, List.reverse_cons, List.append_assoc, List.find?_append,
    find?_property_eq_none hlast]
  simp

theorem overridden_override (harguments : Arguments.ofGiven? given = some arguments)
    (settings : Settings) :
    settings.Overridden given (settings.override arguments).planner
      (.ofFacts (settings.override arguments).environment) := by
  obtain ⟨catalog, hcatalog, rfl⟩ := Option.map_eq_some_iff.mp harguments
  have hprofile : ∀ {name}, name ∈ given.filterMap Given.profile? ↔ .profile name ∈ given :=
    mem_filterMap_pick Given.profile?_eq_some_iff
  refine ⟨?_, rfl, ?_, ?_, ?_, ?_, ?_⟩
  · simp [Settings.override]
  · rintro ⟨name, hname⟩ other
    have hsome : (given.filterMap Given.profile?).isEmpty = false :=
      List.isEmpty_eq_false_iff.mpr (List.ne_nil_of_mem (hprofile.mpr hname))
    rw [← hprofile]
    simp only [Settings.override, Environment.ofFacts, NameSet.mem_ofList, hsome]
    rfl
  · intro hnone other
    have hempty : given.filterMap Given.profile? = [] :=
      List.eq_nil_iff_forall_not_mem.mpr fun name hname => hnone name (hprofile.mp hname)
    simp only [Settings.override, Environment.ofFacts, NameSet.mem_ofList, hempty]
    rfl
  · rintro before name value after rfl hlast
    simp only [Settings.override, Environment.ofFacts, NameMap.get?_insertAll,
      find?_last_property hlast]
    rfl
  · intro name hnone
    simp only [Settings.override, Environment.ofFacts, NameMap.get?_insertAll,
      find?_property_eq_none hnone]
    rfl
  · intro name
    simp only [Settings.override, Environment.ofFacts, NameSet.mem_ofList, List.mem_append,
      mem_filterMap_pick Given.flag?_eq_some_iff]

end Options

/-! ### Runs -/

namespace Command

variable {files : String → Found} {vars : NameMap String}

/-- Where the settings come from: the file that is named, if there is one, and then the variables. -/
def sources (files : String → Found) (vars : NameMap String) (config : Option String) :
    List LayerSource :=
  (config.map fun path => .file path (files path)).toList ++ [.process vars]

/-- The layers of the sources can be added one after the other. -/
def Loads (sources : List LayerSource) : Prop :=
  ∀ entry ∈ Layers.initial.exchange (sources.map .add), entry.2.isError = false

instance (sources : List LayerSource) : Decidable (Loads sources) :=
  inferInstanceAs
    (Decidable (∀ entry ∈ Layers.initial.exchange (sources.map .add), entry.2.isError = false))

/-- What is overridden is what the sources mean. -/
theorem exists_settings {arguments : Arguments}
    (hloads : Loads (sources files vars arguments.config)) :
    ∃ configured, Settings.ofSources? (sources files vars arguments.config) = some configured
      ∧ settings files vars arguments = .ok (configured.override arguments) := by
  refine ⟨(Layers.initial.run ((sources files vars arguments.config).map .add)).settings, ?_, ?_⟩
  · rw [← Layers.ofSources?_addedSources, Layers.addedSources_map_add hloads]
  · unfold settings Loads sources at *
    cases hnamed : arguments.config with
    | none =>
        rw [hnamed] at hloads
        have hvars : Layers.initial.addVariables vars = _ :=
          Layers.addSource_of_not_isError (hloads _ List.mem_cons_self)
        dsimp only [bind, Except.bind]
        rw [hvars]
        rfl
    | some path =>
        rw [hnamed] at hloads
        obtain ⟨hfile, hlater⟩ := List.forall_mem_cons.mp hloads
        have hfound : Layers.initial.addFound path (files path) = _ :=
          Layers.addSource_of_not_isError hfile
        have hvars : (Layers.call _ _).1.addVariables vars = _ :=
          Layers.addSource_of_not_isError (hlater _ List.mem_cons_self)
        dsimp only [bind, Except.bind]
        rw [hfound]
        dsimp only
        rw [hvars]
        rfl

theorem print_of_single {given : List Given} (hsingle : Single given) (plan : Plan) :
    print ((given.findSome? Given.format?).getD .json) plan
      = if .format .drawing ∈ given then plan.drawing else plan.jsonText ++ "\n" := by
  have hformat : ∀ {format}, given.findSome? Given.format? = some format ↔ .format format ∈ given :=
    findSome?_pick Given.format?_eq_some_iff (fun _ _ hearlier => hearlier) hsingle
  by_cases hdrawing : .format .drawing ∈ given
  · rw [if_pos hdrawing, hformat.mpr hdrawing]
    rfl
  · rw [if_neg hdrawing]
    cases hfound : given.findSome? Given.format? with
    | none => rfl
    | some format =>
        cases format with
        | json => rfl
        | drawing => exact absurd (hformat.mp hfound) hdrawing

/-- A command line that is accepted can be read in one way. If the settings and the catalog can be loaded,
the plan is made for what the sources mean with what the command line overrides, and it is all that is
printed. Without a plan nothing is printed. -/
theorem plan_by_precedence (files : String → Found) (vars : NameMap String) (words : List String)
    (arguments : Arguments) (catalog : Catalog)
    (hread : Arguments.read words = some (.plan arguments))
    (hloads : Loads (sources files vars arguments.config))
    (hcatalog : Catalog.ofFound arguments.catalog (files arguments.catalog) = .ok catalog) :
    ∃ rest given configured options environment,
      words = "plan" :: rest ∧ (∀ other, Spelled other rest ↔ other = given)
        ∧ .catalog arguments.catalog ∈ given
        ∧ (∀ path, arguments.config = some path ↔ .config path ∈ given)
        ∧ Settings.ofSources? (sources files vars arguments.config) = some configured
        ∧ ((∀ source ∈ sources files vars arguments.config, source.Tabular) →
          configured.Composed (sources files vars arguments.config))
        ∧ configured.Overridden given options environment
        ∧ (∀ plan, catalog.plan options environment = .ok plan →
          (run files vars words).code = 0
            ∧ (run files vars words).output
              = if .format .drawing ∈ given then plan.drawing else plan.jsonText ++ "\n")
        ∧ ∀ found, catalog.plan options environment = .error found →
          (run files vars words).code = 1 ∧ (run files vars words).output = "" := by
  obtain ⟨given, rest, rfl, hspelled, hsingle, harguments⟩ := Arguments.read_eq_plan_iff.mp hread
  obtain ⟨configured, hconfigured, hsettings⟩ := exists_settings hloads
  have hrun : run files vars ("plan" :: rest) = plan files vars arguments := by
    simp only [run, hread]
  unfold plan at hrun
  simp only [hsettings, hcatalog] at hrun
  have hcatalogGiven : .catalog arguments.catalog ∈ given := by
    obtain ⟨path, hpath, rfl⟩ := Option.map_eq_some_iff.mp harguments
    exact (findSome?_pick Given.catalog?_eq_some_iff (fun _ _ hearlier => hearlier) hsingle).mp hpath
  have hconfigGiven : ∀ path, arguments.config = some path ↔ .config path ∈ given := by
    obtain ⟨_, -, rfl⟩ := Option.map_eq_some_iff.mp harguments
    intro path
    exact findSome?_pick Given.config?_eq_some_iff (fun _ _ hearlier => hearlier) hsingle
  have hformat : arguments.format = (given.findSome? Given.format?).getD .json := by
    obtain ⟨_, -, rfl⟩ := Option.map_eq_some_iff.mp harguments
    rfl
  refine ⟨rest, given, configured, _, _, rfl,
    fun other => ⟨fun hother => Arguments.spelled_unique hother hspelled, fun heq => heq ▸ hspelled⟩,
    hcatalogGiven, hconfigGiven, hconfigured,
    fun htabular => Layers.composed_of_ofSources? htabular hconfigured,
    overridden_override harguments configured, ?_, ?_⟩
  · intro plan hplan
    rw [hplan] at hrun
    rw [hrun, ← print_of_single hsingle, ← hformat]
    exact ⟨rfl, rfl⟩
  · intro found hplan
    rw [hplan] at hrun
    rw [hrun]
    exact ⟨rfl, rfl⟩

/-- A file with settings and one with a catalog. -/
def shop : String → Found
  | "shop.toml" =>
    .file
      ("planner.default_profiles = [\"local\"]\n[environment]\nflags = [\"tokio\"]\n"
        ++ "profiles = \"dev\"\nproperties.at = \"dock\"\nproperties.region = \"eu\"")
  | "shop.json" =>
    .file
      ("\x7b\"components\": [\x7b\"qualified_name\": \"Till\", "
        ++ "\"display_name\": \"till\"\x7d]\x7d")
  | _ => .missing

def shopVariables : NameMap String :=
  .ofList [("WRAPP_FLAGS", "metrics"), ("WRAPP_STRICT", "yes")]

def shopWords : List String :=
  ["plan", "--catalog=shop.json", "--config", "shop.toml", "--profile", "ci", "--property= at =a=b",
    "--property", "at=c=d", "--flag", "trace"]

def shopArguments : Arguments where
  catalog := "shop.json"
  config := some "shop.toml"
  profiles := ["ci"]
  properties := [("at", "a=b"), ("at", "c=d")]
  flags := ["trace"]

def shopSettings : Settings where
  planner := { strict := true, defaultProfiles := ["local"] }
  environment :=
    { profiles := ["dev"]
      properties := .ofList [("at", "dock"), ("region", "eu")]
      flags := ["metrics"] }

def shopCatalog : Catalog :=
  .ofList [{ qualifiedName := "Till", displayName := "till", declarationIndex := 0 }]

theorem ofFound_shop : Catalog.ofFound "shop.json" (shop "shop.json") = .ok shopCatalog := by
  have hfound : (Catalog.ofFound "shop.json" (shop "shop.json")).toOption = some shopCatalog := by
    decide +kernel
  cases hload : Catalog.ofFound "shop.json" (shop "shop.json") with
  | error fault =>
      rw [hload] at hfound
      cases hfound
  | ok found =>
      rw [hload] at hfound
      exact congrArg Except.ok (Option.some.inj hfound)

theorem spelled_shop :
    Spelled
      [.catalog "shop.json", .config "shop.toml", .profile "ci", .property "at" "a=b",
        .property "at" "c=d", .flag "trace"] shopWords.tail :=
  .next (.joined (.catalog (by decide))) <|
    .next (.apart (.config (by decide)) (by decide +kernel)) <|
    .next (.apart .profile (by decide +kernel)) <|
    .next (.joined (@Given.Written.property " at " "a=b" (by decide) (by decide))) <|
    .next (.apart (@Given.Written.property "at" "c=d" (by decide) (by decide)) (by decide +kernel)) <|
    .next (.apart .flag (by decide +kernel)) .none

/-- The plan is made for the strictness and a flag of the variables, for the default profiles and a
property of the file, and for what the command line overrides. The last property of a name counts, and
its value is all that stands behind the first equals sign. -/
theorem shop_precedence :
    Arguments.read shopWords = some (.plan shopArguments)
      ∧ Loads (sources shop shopVariables shopArguments.config)
      ∧ Catalog.ofFound shopArguments.catalog (shop shopArguments.catalog) = .ok shopCatalog
      ∧ shopSettings.Composed (sources shop shopVariables shopArguments.config)
      ∧ ∃ options environment plan, options.strict = true ∧ options.defaultProfiles = ["local"]
        ∧ (∀ name, name ∈ environment.profiles ↔ name = "ci")
        ∧ environment.properties.get? "at" = some "c=d"
        ∧ environment.properties.get? "region" = some "eu"
        ∧ (∀ name, name ∈ environment.flags ↔ name ∈ ["metrics", "trace"])
        ∧ shopCatalog.plan options environment = .ok plan
        ∧ (run shop shopVariables shopWords).output = plan.jsonText ++ "\n" := by
  have hread : Arguments.read shopWords = some (.plan shopArguments) := by decide +kernel
  obtain ⟨hloads, htabular, hsettings, hcode⟩ :
      Loads (sources shop shopVariables shopArguments.config)
        ∧ (∀ source ∈ sources shop shopVariables shopArguments.config, source.Tabular)
        ∧ Settings.ofSources? (sources shop shopVariables shopArguments.config) = some shopSettings
        ∧ (run shop shopVariables shopWords).code = 0 := by
    decide +kernel
  obtain ⟨rest, given, configured, options, environment, hwords, hgiven, -, -, hconfigured, hcomposed,
      hoverridden, hprinted, hrefused⟩ :=
    plan_by_precedence shop shopVariables shopWords shopArguments shopCatalog hread hloads ofFound_shop
  cases hwords
  cases (hgiven _).mp spelled_shop
  cases hconfigured.symm.trans hsettings
  have hat : environment.properties.get? "at" = some "c=d" :=
    hoverridden.property
      [.catalog "shop.json", .config "shop.toml", .profile "ci", .property "at" "a=b"] "at" "c=d"
      [.flag "trace"] rfl (by simp)
  have hregion : environment.properties.get? "region" = some "eu" :=
    (hoverridden.keptProperty "region" (by simp)).trans (by decide +kernel)
  have hprofiles : ∀ name, name ∈ environment.profiles ↔ name = "ci" := fun name => by
    simp [hoverridden.profiles ⟨"ci", by decide⟩]
  have hflags : ∀ name, name ∈ environment.flags ↔ name ∈ ["metrics", "trace"] := fun name => by
    simp [hoverridden.flags, shopSettings]
  cases hplan : shopCatalog.plan options environment with
  | error found => exact absurd (hcode.symm.trans (hrefused found hplan).1) (by decide)
  | ok plan =>
      exact ⟨hread, hloads, ofFound_shop, hcomposed htabular, options, environment, plan,
        hoverridden.strict.mpr (.inl rfl), hoverridden.defaultProfiles, hprofiles, hat, hregion, hflags,
        hplan, (hprinted plan hplan).2⟩

end Command

end Assembly
