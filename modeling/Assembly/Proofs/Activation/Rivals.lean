import Mathlib.Data.List.FinRange
import Assembly.Proofs.Activation.Declared

/-!
# Components that yield to each other

Two components that suit the environment and of which each is missing beside the other one leave a
decision open, and all such pairs are reported. A decision that is made leaves no component beside
one that it yields to, and it leaves out no two components on account of each other.
-/

namespace Assembly

/-- Both components suit the environment, and each of them yields to the other one. -/
structure Environment.Undecided (environment : Environment) (first second : Component) : Prop where
  first_suits : first.Suits environment
  second_suits : second.Suits environment
  rivals : first.Rivals second

theorem Environment.Undecided.symm {environment : Environment} {first second : Component}
    (hundecided : environment.Undecided first second) : environment.Undecided second first where
  first_suits := hundecided.second_suits
  second_suits := hundecided.first_suits
  rivals := hundecided.rivals.symm

/-- A component of the name is reported as present although it has to be missing. -/
def Exclusion.Blames (exclusion : Exclusion) (name : String) : Prop :=
  ∃ target, .targetPresent target name ∈ exclusion.reasons

/-! ### Pairs of a list -/

section Pairs

variable {α : Type}

/-- The related pairs of a list, in each of which the earlier member comes first. -/
def pairsAmong (related : α → α → Bool) : List α → List (α × α)
  | [] => []
  | first :: rest => (rest.filter (related first)).map (first, ·) ++ pairsAmong related rest

theorem mem_of_mem_pairsAmong {related : α → α → Bool} {list : List α} {pair : α × α}
    (hpair : pair ∈ pairsAmong related list) : pair.1 ∈ list ∧ pair.2 ∈ list := by
  induction list with
  | nil => cases hpair
  | cons first rest ih =>
      rcases List.mem_append.mp hpair with hfirst | hrest
      · obtain ⟨second, hsecond, rfl⟩ := List.mem_map.mp hfirst
        exact ⟨List.mem_cons_self, List.mem_cons_of_mem _ (List.mem_of_mem_filter hsecond)⟩
      · obtain ⟨hleft, hright⟩ := ih hrest
        exact ⟨List.mem_cons_of_mem _ hleft, List.mem_cons_of_mem _ hright⟩

variable [LinearOrder α] {related : α → α → Bool} {list : List α}
  (hascending : list.Pairwise (· < ·))
include hascending

theorem mem_pairsAmong_iff {first second : α} :
    (first, second) ∈ pairsAmong related list
      ↔ first ∈ list ∧ second ∈ list ∧ first < second ∧ related first second = true := by
  induction list with
  | nil => simp [pairsAmong]
  | cons head rest ih =>
      obtain ⟨hhead, hrest⟩ := List.pairwise_cons.mp hascending
      simp only [pairsAmong, List.mem_append, List.mem_map, List.mem_filter, Prod.mk.injEq,
        List.mem_cons, ih hrest]
      constructor
      · rintro (⟨other, ⟨hother, hrelated⟩, rfl, rfl⟩ | ⟨hfirst, hsecond, hlt, hrelated⟩)
        · exact ⟨.inl rfl, .inr hother, hhead other hother, hrelated⟩
        · exact ⟨.inr hfirst, .inr hsecond, hlt, hrelated⟩
      · rintro ⟨hfirst, hsecond, hlt, hrelated⟩
        -- The head is the least member, so it is never the second of a pair.
        have hsecondRest : second ∈ rest := by
          rcases hsecond with rfl | hsecond
          · rcases hfirst with rfl | hfirst
            · exact absurd hlt (lt_irrefl _)
            · exact absurd hlt (lt_asymm (hhead first hfirst))
          · exact hsecond
        rcases hfirst with rfl | hfirst
        · exact .inl ⟨second, ⟨hsecondRest, hrelated⟩, rfl, rfl⟩
        · exact .inr ⟨hfirst, hsecondRest, hlt, hrelated⟩

/-- The pairs of an ascending list ascend as well. -/
theorem pairwise_pairsAmong :
    (pairsAmong related list).Pairwise (Prod.Lex (· < ·) (· < ·)) := by
  induction list with
  | nil => exact .nil
  | cons head rest ih =>
      obtain ⟨hhead, hrest⟩ := List.pairwise_cons.mp hascending
      refine List.pairwise_append.mpr ⟨?_, ih hrest, ?_⟩
      · rw [List.pairwise_map]
        exact (hrest.filter _).imp fun hlt => .right _ hlt
      · intro left hleft right hright
        obtain ⟨second, -, rfl⟩ := List.mem_map.mp hleft
        exact .left _ _ (hhead right.1 (mem_of_mem_pairsAmong hright).1)

end Pairs

theorem mutualAbsences_map {α : Type} {component : α → Component} {list : List α} :
    mutualAbsences (list.map component)
      = (pairsAmong (fun first second => (component first).yieldsTo (component second)
          && (component second).yieldsTo (component first)) list).map
        fun pair =>
          .mutualAbsence (component pair.1).displayName (component pair.2).displayName := by
  induction list with
  | nil => rfl
  | cons head rest ih =>
      rw [List.map_cons, mutualAbsences, ih, pairsAmong, List.map_append, List.filter_map,
        List.map_map, List.map_map]
      rfl

/-! ### Reasons that name a component -/

theorem not_targetPresent_of_objection? {environment : Environment} {condition : Condition}
    {target name : String} :
    environment.objection? condition ≠ some (.targetPresent target name) := by
  intro hobjection
  cases failsIn_of_objection? hobjection

/-- A component is only blamed by one that suits the environment and yields to it. -/
theorem yieldsTo_of_targetPresent {environment : Environment} {tentative : List Component}
    {component : Component} {target name : String}
    (hreason : .targetPresent target name ∈ Activation.reasons environment tentative component) :
    component.Suits environment ∧ ∃ provider ∈ tentative, provider.displayName = name
      ∧ provider.displayName ≠ component.displayName ∧ component.YieldsTo provider := by
  unfold Activation.reasons at hreason
  split at hreason
  · next hnone =>
    refine ⟨suits_iff.mpr (objections_eq_nil_iff.mp hnone), ?_⟩
    obtain ⟨condition, hcondition, hclash⟩ := List.mem_flatMap.mp hreason
    cases condition with
    | missing types names =>
        obtain ⟨wanted, hwanted, hmeeting⟩ := List.mem_filterMap.mp hclash
        obtain ⟨provider, hprovider, hreason⟩ := Option.map_eq_some_iff.mp hmeeting
        cases hreason
        have hmem := List.mem_of_find?_eq_some hprovider
        have hfound := List.find?_some hprovider
        rw [Bool.and_eq_true, decide_eq_true_eq] at hfound
        have hmet : (Target.all types names).any (·.isMetBy provider) = true :=
          List.any_eq_true.mpr ⟨wanted, hwanted, hfound.2⟩
        exact ⟨provider, hmem, rfl, hfound.1, types, names, hcondition,
          any_all_isMetBy_iff.mp hmet⟩
    | present types names =>
        obtain ⟨wanted, -, hreason⟩ := List.mem_map.mp hclash
        cases hreason
    | property name expected matchIfMissing => cases hclash
    | flags names => cases hclash
    | profile entries negated => cases hclash
  · obtain ⟨condition, -, hobjection⟩ := List.mem_filterMap.mp hreason
    exact absurd hobjection not_targetPresent_of_objection?

namespace Catalog

variable {catalog : Catalog} {environment : Environment}

/-- What is reported are the undecided pairs, in the order of their places. -/
theorem exists_pairs_of_mutualAbsences :
    ∃ pairs : List (Fin catalog.components.length × Fin catalog.components.length),
      mutualAbsences (catalog.tentative environment)
          = pairs.map (fun pair => .mutualAbsence (catalog.components.get pair.1).displayName
            (catalog.components.get pair.2).displayName)
        ∧ pairs.Pairwise (Prod.Lex (· < ·) (· < ·))
        ∧ ∀ first second, (first, second) ∈ pairs ↔ first < second
          ∧ environment.Undecided (catalog.components.get first)
            (catalog.components.get second) := by
  classical
  let places := (List.finRange catalog.components.length).filter
    fun place => (catalog.components.get place).Suits environment
  have hplaces : catalog.tentative environment = places.map catalog.components.get := by
    rw [← filter_suits]
    conv_lhs => rw [← List.map_get_finRange catalog.components]
    exact List.filter_map
  have hascending : places.Pairwise (· < ·) := (List.pairwise_lt_finRange _).filter _
  refine ⟨_, by rw [hplaces, mutualAbsences_map], pairwise_pairsAmong hascending, ?_⟩
  intro first second
  rw [mem_pairsAmong_iff hascending]
  simp only [places, List.mem_filter, List.mem_finRange, true_and, decide_eq_true_eq,
    Bool.and_eq_true, yieldsTo_iff]
  constructor
  · rintro ⟨hfirst, hsecond, hlt, hrivals⟩
    exact ⟨hlt, hfirst, hsecond, hrivals⟩
  · rintro ⟨hlt, hfirst, hsecond, hrivals⟩
    exact ⟨hfirst, hsecond, hlt, hrivals⟩

theorem exists_component_of_excluded {activation : Activation} {exclusion : Exclusion}
    (hactivate : catalog.activate environment = .ok activation)
    (hexclusion : exclusion ∈ activation.excluded) :
    ∃ component ∈ catalog.components, exclusion.component = component.displayName
      ∧ exclusion.reasons
        = Activation.reasons environment (catalog.tentative environment) component := by
  rw [(activate_eq_ok_iff.mp hactivate).2] at hexclusion
  obtain ⟨component, hcomponent, hexclusion⟩ := List.mem_filterMap.mp hexclusion
  refine ⟨component, hcomponent, ?_⟩
  split at hexclusion
  · cases hexclusion
  · cases hexclusion
    exact ⟨rfl, rfl⟩

/-- A component that is enabled is met by no other one that it yields to. -/
theorem not_yieldsTo_of_enabled {first second : Component}
    (hfirst : first ∈ catalog.enabled environment)
    (hsecond : second ∈ catalog.enabled environment)
    (hname : second.displayName ≠ first.displayName) : ¬first.YieldsTo second := by
  rintro ⟨types, names, hcondition, hmet⟩
  have htentative : second ∈ catalog.tentative environment := List.mem_of_mem_filter hsecond
  obtain ⟨target, htarget, hmeets⟩ := List.any_eq_true.mp (any_all_isMetBy_iff.mpr hmet)
  have hholds := of_decide_eq_true (List.mem_filter.mp hfirst).2 _ hcondition
  exact hholds target htarget ⟨second, htentative, hname, hmeets⟩

section Distinct

variable (hnames : (catalog.components.map (·.displayName)).Nodup)
include hnames

theorem exists_activate_error_iff :
    (∃ faults, catalog.activate environment = .error faults)
      ↔ ∃ first ∈ catalog.components, ∃ second ∈ catalog.components,
        first ≠ second ∧ environment.Undecided first second := by
  obtain ⟨pairs, hpairs, -, hmem⟩ := @exists_pairs_of_mutualAbsences catalog environment
  constructor
  · rintro ⟨faults, hactivate⟩
    obtain ⟨rfl, hne⟩ := activate_eq_error_iff.mp hactivate
    rw [hpairs, Ne, List.map_eq_nil_iff] at hne
    obtain ⟨⟨first, second⟩, hpair⟩ := List.exists_mem_of_ne_nil pairs hne
    obtain ⟨hlt, hundecided⟩ := (hmem first second).mp hpair
    refine ⟨_, List.get_mem _ first, _, List.get_mem _ second, ?_, hundecided⟩
    intro heq
    have hplaces := (List.Nodup.get_inj_iff hnames.of_map).mp heq
    exact absurd hlt (hplaces ▸ lt_irrefl first)
  · rintro ⟨first, hfirst, second, hsecond, hne, hundecided⟩
    obtain ⟨place, rfl⟩ := List.mem_iff_get.mp hfirst
    obtain ⟨other, rfl⟩ := List.mem_iff_get.mp hsecond
    refine ⟨_, activate_eq_error_iff.mpr ⟨rfl, ?_⟩⟩
    rw [hpairs, Ne, List.map_eq_nil_iff]
    rcases lt_trichotomy place other with hlt | heq | hgt
    · exact List.ne_nil_of_mem ((hmem place other).mpr ⟨hlt, hundecided⟩)
    · exact absurd (congrArg catalog.components.get heq) hne
    · exact List.ne_nil_of_mem ((hmem other place).mpr ⟨hgt, hundecided.symm⟩)

/-- Two components that blame each other would have been undecided. -/
theorem not_blames_of_activate {activation : Activation} {first second : Exclusion}
    (hactivate : catalog.activate environment = .ok activation)
    (hfirst : first ∈ activation.excluded) (hsecond : second ∈ activation.excluded) :
    ¬(first.Blames second.component ∧ second.Blames first.component) := by
  rintro ⟨⟨target, hblames⟩, ⟨target', hblames'⟩⟩
  obtain ⟨component, hcomponent, hname, hreasons⟩ := exists_component_of_excluded hactivate hfirst
  obtain ⟨other, hother, hname', hreasons'⟩ := exists_component_of_excluded hactivate hsecond
  rw [hreasons, hname'] at hblames
  rw [hreasons', hname] at hblames'
  obtain ⟨hsuits, provider, hprovider, hprovides, hdiffers, hyields⟩ :=
    yieldsTo_of_targetPresent hblames
  obtain ⟨hsuits', provider', hprovider', hprovides', -, hyields'⟩ :=
    yieldsTo_of_targetPresent hblames'
  have hother' : provider = other :=
    List.inj_on_of_nodup_map hnames (tentative_sublist.subset hprovider) hother hprovides
  have hcomponent' : provider' = component :=
    List.inj_on_of_nodup_map hnames (tentative_sublist.subset hprovider') hcomponent hprovides'
  subst hother' hcomponent'
  have hne : provider' ≠ provider := fun heq => hdiffers (congrArg _ heq.symm)
  obtain ⟨faults, hfaults⟩ := (exists_activate_error_iff hnames).mpr
    ⟨provider', hcomponent, provider, hother, hne, hsuits, hsuits', hyields, hyields'⟩
  rw [hactivate] at hfaults
  cases hfaults

/-- Among components of different names there is no decision exactly if two of them are undecided,
and then each such pair is reported once, in the order of the places in the catalog. In a decision
no enabled component yields to another one, and no two excluded components blame each other. -/
theorem rivals_reported :
    ((∃ faults, catalog.activate environment = .error faults)
        ↔ ∃ first ∈ catalog.components, ∃ second ∈ catalog.components,
          first ≠ second ∧ environment.Undecided first second)
      ∧ (∀ faults, catalog.activate environment = .error faults →
        ∃ pairs : List (Fin catalog.components.length × Fin catalog.components.length),
          faults = pairs.map (fun pair =>
              .mutualAbsence (catalog.components.get pair.1).displayName
                (catalog.components.get pair.2).displayName)
            ∧ pairs.Pairwise (Prod.Lex (· < ·) (· < ·))
            ∧ ∀ first second, (first, second) ∈ pairs ↔ first < second
              ∧ environment.Undecided (catalog.components.get first)
                (catalog.components.get second))
      ∧ ∀ activation, catalog.activate environment = .ok activation →
        (∀ first ∈ activation.enabled, ∀ second ∈ activation.enabled,
            first ≠ second → ¬first.YieldsTo second)
          ∧ ∀ first ∈ activation.excluded, ∀ second ∈ activation.excluded,
            ¬(first.Blames second.component ∧ second.Blames first.component) := by
  refine ⟨exists_activate_error_iff hnames, ?_, ?_⟩
  · intro faults hactivate
    obtain ⟨rfl, -⟩ := activate_eq_error_iff.mp hactivate
    exact exists_pairs_of_mutualAbsences
  · intro activation hactivate
    constructor
    · rw [enabled_of_activate hactivate]
      intro first hfirst second hsecond hne
      refine not_yieldsTo_of_enabled hfirst hsecond fun hname => hne ?_
      exact (List.inj_on_of_nodup_map hnames (enabled_sublist.subset hsecond)
        (enabled_sublist.subset hfirst) hname).symm
    · intro first hfirst second hsecond
      exact not_blames_of_activate hnames hactivate hfirst hsecond

end Distinct

end Catalog

/-- Three caches, each of which stands in for the others. -/
def caches : Catalog where
  components :=
    [{ qualifiedName := "Heap", displayName := "heap", declarationIndex := 0
       interfaces := .ofList ["Cache"], conditions := [.missing ["Cache"] []] },
     { qualifiedName := "Disk", displayName := "disk", declarationIndex := 1
       interfaces := .ofList ["Cache"], conditions := [.missing [] ["heap", "remote"]] },
     { qualifiedName := "Remote", displayName := "remote", declarationIndex := 2
       interfaces := .ofList ["Cache"], conditions := [.missing ["Cache"] []] }]
  ascending := by decide

theorem caches_undecided :
    caches.activate {} = .error
        [.mutualAbsence "heap" "disk", .mutualAbsence "heap" "remote",
          .mutualAbsence "disk" "remote"]
      ∧ Environment.Undecided {} caches.components[0] caches.components[2]
      ∧ ∃ activation, gated.activate staging = .ok activation
        ∧ (∀ first ∈ activation.enabled, ∀ second ∈ activation.enabled,
          first ≠ second → ¬first.YieldsTo second)
        ∧ ∀ first ∈ activation.excluded, ∀ second ∈ activation.excluded,
          ¬(first.Blames second.component ∧ second.Blames first.component) := by
  have hactivate : caches.activate {} = .error
      [.mutualAbsence "heap" "disk", .mutualAbsence "heap" "remote",
        .mutualAbsence "disk" "remote"] := by decide +kernel
  refine ⟨hactivate, ?_, _, rfl, (@Catalog.rivals_reported gated staging (by decide)).2.2 _ rfl⟩
  obtain ⟨pairs, hpairs, -, hmem⟩ :=
    (@Catalog.rivals_reported caches {} (by decide)).2.1 _ hactivate
  have hfault : CatalogFault.mutualAbsence "heap" "remote" ∈ pairs.map fun pair =>
      CatalogFault.mutualAbsence (caches.components.get pair.1).displayName
        (caches.components.get pair.2).displayName := hpairs ▸ by decide
  obtain ⟨⟨first, second⟩, hpair, hnamed⟩ := List.mem_map.mp hfault
  have hplaces : ∀ first second : Fin 3,
      CatalogFault.mutualAbsence (caches.components.get first).displayName
          (caches.components.get second).displayName = .mutualAbsence "heap" "remote"
        → first = 0 ∧ second = 2 := by decide
  obtain ⟨rfl, rfl⟩ := hplaces first second hnamed
  exact ((hmem _ _).mp hpair).2

end Assembly
