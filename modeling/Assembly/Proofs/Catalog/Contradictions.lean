import Assembly.Proofs.Activation.Meaning
import Assembly.Proofs.Catalog.Duplicates

/-!
# Contradictory conditions

A component that requires a target to be missing and to be present never takes part, and its catalog
is refused for it. A target is a type or a name. The two are told apart where conditions are decided
but not where a catalog is checked, so a catalog is refused as well if the one target is a type and
the other one a name of the same text, although both requirements can be met.
-/

namespace Assembly

/-- A condition of the component requires the target to be missing. -/
def Component.Forbids (component : Component) (target : Target) : Prop :=
  ∃ types names, .missing types names ∈ component.conditions ∧ target ∈ Target.all types names

/-- A condition of the component requires the target to be present. -/
def Component.Requires (component : Component) (target : Target) : Prop :=
  ∃ types names, .present types names ∈ component.conditions ∧ target ∈ Target.all types names

def Component.Contradicts (component : Component) (target : Target) : Prop :=
  component.Forbids target ∧ component.Requires target

/-- A type and a name have the text, and the component requires one of them to be missing and the
other one to be present. -/
def Component.Mixes (component : Component) (text : String) : Prop :=
  component.Forbids (.type text) ∧ component.Requires (.name text)
    ∨ component.Forbids (.name text) ∧ component.Requires (.type text)

/-! ### What is reported of a component -/

section Targets

variable {component : Component} {text : String}

theorem mem_append_iff_all {types names : List String} :
    text ∈ types ++ names
      ↔ Target.type text ∈ Target.all types names ∨ Target.name text ∈ Target.all types names := by
  simp [Target.all]

/-- The texts of the targets of all conditions of one kind. -/
theorem mem_flatMap_iff_all {conditions : List Condition} {texts : Condition → List String}
    {kind : List String → List String → Condition}
    (hkind : ∀ types names, texts (kind types names) = types ++ names)
    (hothers : ∀ condition, (∃ types names, condition = kind types names) ∨ texts condition = []) :
    text ∈ conditions.flatMap texts
      ↔ (∃ types names, kind types names ∈ conditions
          ∧ Target.type text ∈ Target.all types names)
        ∨ ∃ types names, kind types names ∈ conditions
          ∧ Target.name text ∈ Target.all types names := by
  rw [List.mem_flatMap]
  constructor
  · rintro ⟨condition, hcondition, htext⟩
    rcases hothers condition with ⟨types, names, rfl⟩ | hnone
    · rw [hkind] at htext
      rcases mem_append_iff_all.mp htext with htype | hname
      · exact .inl ⟨types, names, hcondition, htype⟩
      · exact .inr ⟨types, names, hcondition, hname⟩
    · rw [hnone] at htext
      cases htext
  · rintro (⟨types, names, hcondition, htype⟩ | ⟨types, names, hcondition, hname⟩)
    · exact ⟨_, hcondition, hkind types names ▸ mem_append_iff_all.mpr (.inl htype)⟩
    · exact ⟨_, hcondition, hkind types names ▸ mem_append_iff_all.mpr (.inr hname)⟩

theorem mem_missingTargets_iff :
    text ∈ component.missingTargets
      ↔ component.Forbids (.type text) ∨ component.Forbids (.name text) := by
  refine mem_flatMap_iff_all (fun _ _ => rfl) fun condition => ?_
  cases condition with
  | missing types names => exact .inl ⟨types, names, rfl⟩
  | _ => exact .inr rfl

theorem mem_presentTargets_iff :
    text ∈ component.presentTargets
      ↔ component.Requires (.type text) ∨ component.Requires (.name text) := by
  refine mem_flatMap_iff_all (fun _ _ => rfl) fun condition => ?_
  cases condition with
  | present types names => exact .inl ⟨types, names, rfl⟩
  | _ => exact .inr rfl

/-- The texts for which a component is reported. -/
def Component.contradictoryTexts (component : Component) : List String :=
  (NameSet.ofList component.missingTargets).toList.filter (· ∈ component.presentTargets)

theorem contradictions_eq :
    component.contradictions
      = component.contradictoryTexts.map (.contradictoryPresence component.displayName) :=
  rfl

theorem pairwise_contradictoryTexts : component.contradictoryTexts.Pairwise (· < ·) :=
  (NameSet.ofList component.missingTargets).ascending.filter _

theorem mem_contradictoryTexts_iff :
    text ∈ component.contradictoryTexts
      ↔ (component.Contradicts (.type text) ∨ component.Contradicts (.name text))
        ∨ component.Mixes text := by
  have hmissing : text ∈ (NameSet.ofList component.missingTargets).toList
      ↔ text ∈ component.missingTargets := NameSet.mem_ofList
  rw [Component.contradictoryTexts, List.mem_filter, decide_eq_true_eq, hmissing,
    mem_missingTargets_iff, mem_presentTargets_iff]
  unfold Component.Contradicts Component.Mixes
  constructor
  · rintro ⟨htype | hname, htype' | hname'⟩
    · exact .inl (.inl ⟨htype, htype'⟩)
    · exact .inr (.inl ⟨htype, hname'⟩)
    · exact .inr (.inr ⟨hname, htype'⟩)
    · exact .inl (.inr ⟨hname, hname'⟩)
  · rintro ((⟨htype, htype'⟩ | ⟨hname, hname'⟩) | ⟨htype, hname'⟩ | ⟨hname, htype'⟩)
    · exact ⟨.inl htype, .inl htype'⟩
    · exact ⟨.inr hname, .inr hname'⟩
    · exact ⟨.inl htype, .inr hname'⟩
    · exact ⟨.inr hname, .inl htype'⟩

end Targets

theorem filter_isContradiction_faultsAfter (earlier : List Component) (component : Component) :
    (component.faultsAfter earlier).filter (·.isContradiction) = component.contradictions := by
  have hduplicates : (component.duplicatesAfter earlier).filter (·.isContradiction) = [] :=
    List.filter_eq_nil_iff.mpr fun fault hmem => by
      rw [not_isContradiction_of_mem_duplicatesAfter hmem]
      exact Bool.false_ne_true
  have hcontradictions : component.contradictions.filter (·.isContradiction)
      = component.contradictions :=
    List.filter_eq_self.mpr fun fault hmem => isContradiction_of_mem_contradictions hmem
  rw [Component.faultsAfter, List.filter_append, hduplicates, hcontradictions, List.nil_append]

theorem filter_isContradiction_faultsAmong (earlier components : List Component) :
    (faultsAmong earlier components).filter (·.isContradiction)
      = components.flatMap Component.contradictions := by
  induction components generalizing earlier with
  | nil => rfl
  | cons component rest ih =>
      rw [faultsAmong, List.filter_append, filter_isContradiction_faultsAfter, ih,
        List.flatMap_cons]

namespace Catalog

variable {catalog : Catalog}

theorem filter_isContradiction_faults :
    catalog.faults.filter (·.isContradiction)
      = catalog.components.flatMap Component.contradictions := by
  rw [faults_eq, filter_isContradiction_faultsAmong]

theorem contradictoryPresence_mem_faults_iff {name text : String} :
    .contradictoryPresence name text ∈ catalog.faults
      ↔ ∃ component ∈ catalog.components, component.displayName = name
        ∧ text ∈ component.contradictoryTexts := by
  have hfilter : CatalogFault.contradictoryPresence name text ∈ catalog.faults
      ↔ .contradictoryPresence name text ∈ catalog.faults.filter (·.isContradiction) := by
    rw [List.mem_filter]
    exact (and_iff_left rfl).symm
  rw [hfilter, filter_isContradiction_faults, List.mem_flatMap]
  refine exists_congr fun component => and_congr_right fun _ => ?_
  rw [contradictions_eq, List.mem_map]
  constructor
  · rintro ⟨other, hother, heq⟩
    cases heq
    exact ⟨rfl, hother⟩
  · rintro ⟨rfl, htext⟩
    exact ⟨text, htext, rfl⟩

/-- Where names are distinct, a component is reported for its own conditions. -/
theorem reported_iff (hnames : (catalog.components.map (·.displayName)).Nodup)
    {component : Component} (hcomponent : component ∈ catalog.components) {text : String} :
    .contradictoryPresence component.displayName text ∈ catalog.faults
      ↔ (component.Contradicts (.type text) ∨ component.Contradicts (.name text))
        ∨ component.Mixes text := by
  rw [contradictoryPresence_mem_faults_iff, ← mem_contradictoryTexts_iff]
  constructor
  · rintro ⟨other, hother, hname, htext⟩
    rwa [← List.inj_on_of_nodup_map hnames hother hcomponent hname]
  · intro htext
    exact ⟨component, hcomponent, rfl, htext⟩

/-- Whatever the environment, one of the two requirements is not met. -/
theorem not_mem_enabled_of_contradicts {component : Component} {target : Target}
    (hcontradicts : component.Contradicts target) (environment : Environment) :
    component ∉ catalog.enabled environment := by
  obtain ⟨⟨types, names, hmissing, htarget⟩, types', names', hpresent, htarget'⟩ := hcontradicts
  intro henabled
  have hholds := of_decide_eq_true (List.mem_filter.mp henabled).2
  exact hholds _ hmissing target htarget (hholds _ hpresent target htarget')

/-- The contradictions among the faults are those of each component in the order of the catalog, and
those of a component are in ascending order the texts of its contradictory targets and the texts that
it mixes. A component with a contradictory target never takes part. Among components of different
names a component is reported exactly for its contradictory targets if and only if each text that it
mixes is also that of one of these, and a component that is reported then never takes part. -/
theorem contradictions_reported (catalog : Catalog) :
    (∃ reported : Component → List String,
        catalog.faults.filter (·.isContradiction)
            = catalog.components.flatMap (fun component =>
              (reported component).map (.contradictoryPresence component.displayName))
          ∧ ∀ component, (reported component).Pairwise (· < ·)
            ∧ ∀ text, text ∈ reported component
              ↔ (component.Contradicts (.type text) ∨ component.Contradicts (.name text))
                ∨ component.Mixes text)
      ∧ (∀ component target, component.Contradicts target → ∀ environment activation,
        catalog.activate environment = .ok activation → component ∉ activation.enabled)
      ∧ ((catalog.components.map (·.displayName)).Nodup → ∀ component ∈ catalog.components,
        ((∀ text, .contradictoryPresence component.displayName text ∈ catalog.faults
              ↔ component.Contradicts (.type text) ∨ component.Contradicts (.name text))
            ↔ ∀ text, component.Mixes text →
              component.Contradicts (.type text) ∨ component.Contradicts (.name text))
          ∧ ((∀ text, component.Mixes text →
              component.Contradicts (.type text) ∨ component.Contradicts (.name text)) →
            ∀ text, .contradictoryPresence component.displayName text ∈ catalog.faults →
              ∀ environment activation, catalog.activate environment = .ok activation →
                component ∉ activation.enabled)) := by
  have hnever : ∀ component target, component.Contradicts target → ∀ environment activation,
      catalog.activate environment = .ok activation → component ∉ activation.enabled := by
    intro component target hcontradicts environment activation hactivate
    rw [enabled_of_activate hactivate]
    exact not_mem_enabled_of_contradicts hcontradicts environment
  refine ⟨⟨Component.contradictoryTexts, filter_isContradiction_faults, fun component =>
      ⟨pairwise_contradictoryTexts, fun text => mem_contradictoryTexts_iff⟩⟩, hnever, ?_⟩
  intro hnames component hcomponent
  constructor
  · refine forall_congr' fun text => ?_
    rw [reported_iff hnames hcomponent]
    exact or_iff_left_iff_imp
  · intro hmixes text hreported
    rcases (reported_iff hnames hcomponent).mp hreported with hcontradicts | hmixed
    · exact hcontradicts.elim (hnever component _) (hnever component _)
    · exact (hmixes text hmixed).elim (hnever component _) (hnever component _)

end Catalog

/-- A pump that must not have a valve beside it and has to have one. -/
def clogged : Catalog where
  components :=
    [{ qualifiedName := "Pump", displayName := "pump", declarationIndex := 0
       conditions := [.missing ["Valve"] ["drain"], .flags ["water"], .present ["Valve"] ["meter"]] },
     { qualifiedName := "Valve", displayName := "valve", declarationIndex := 1 }]
  ascending := by decide

theorem pump_never_enabled :
    (clogged.components.map (·.displayName)).Nodup
      ∧ .contradictoryPresence "pump" "Valve" ∈ clogged.faults
      ∧ ∀ environment activation, clogged.activate environment = .ok activation →
        clogged.components[0] ∉ activation.enabled := by
  have hnames : (clogged.components.map (·.displayName)).Nodup := by decide
  have hpump : clogged.components[0] ∈ clogged.components := by decide
  have hforbids : ∀ target, clogged.components[0].Forbids target
      ↔ .type "Valve" = target ∨ .name "drain" = target := by
    simp [Component.Forbids, clogged, Target.all]
  have hrequires : ∀ target, clogged.components[0].Requires target
      ↔ .type "Valve" = target ∨ .name "meter" = target := by
    simp [Component.Requires, clogged, Target.all]
  have hcontradicts : clogged.components[0].Contradicts (.type "Valve") :=
    ⟨(hforbids _).mpr (.inl rfl), (hrequires _).mpr (.inl rfl)⟩
  have hunmixed : ∀ text, ¬clogged.components[0].Mixes text := by
    rintro text (⟨hmissing, hpresent⟩ | ⟨hmissing, hpresent⟩)
    · rw [hforbids] at hmissing
      rw [hrequires] at hpresent
      grind
    · rw [hforbids] at hmissing
      rw [hrequires] at hpresent
      grind
  obtain ⟨hexact, hnever⟩ :=
    (Catalog.contradictions_reported clogged).2.2 hnames clogged.components[0] hpump
  have hmixes : ∀ text, clogged.components[0].Mixes text →
      clogged.components[0].Contradicts (.type text)
        ∨ clogged.components[0].Contradicts (.name text) :=
    fun text hmixed => absurd hmixed (hunmixed text)
  have hreported := (hexact.mpr hmixes "Valve").mpr (.inl hcontradicts)
  exact ⟨hnames, hreported, hnever hmixes "Valve" hreported⟩

/-- A watch that must not have a cache beside it, and a store whose name is that of the type. -/
def namesake : Catalog where
  components :=
    [{ qualifiedName := "Watch", displayName := "watch", declarationIndex := 0
       conditions := [.missing ["Cache"] [], .present [] ["Cache"]] },
     { qualifiedName := "Store", displayName := "Cache", declarationIndex := 1 }]
  ascending := by decide

/-- The watch is reported for a contradiction, has none, and takes part. -/
theorem watch_refused :
    (namesake.components.map (·.displayName)).Nodup
      ∧ namesake.faults = [.contradictoryPresence "watch" "Cache"]
      ∧ (∀ target, ¬namesake.components[0].Contradicts target)
      ∧ ∃ activation, namesake.activate {} = .ok activation
        ∧ namesake.components[0] ∈ activation.enabled := by
  have hforbids : ∀ target, namesake.components[0].Forbids target ↔ .type "Cache" = target := by
    simp [Component.Forbids, namesake, Target.all]
  have hrequires : ∀ target, namesake.components[0].Requires target ↔ .name "Cache" = target := by
    simp [Component.Requires, namesake, Target.all]
  refine ⟨by decide, by decide +kernel, ?_, _, rfl, by decide +kernel⟩
  rintro target ⟨hmissing, hpresent⟩
  rw [hforbids] at hmissing
  rw [hrequires, ← hmissing] at hpresent
  cases hpresent

end Assembly
