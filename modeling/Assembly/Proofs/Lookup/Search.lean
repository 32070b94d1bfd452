import Assembly.Lookup
import Assembly.Proofs.Catalog.Distinct
import Assembly.Proofs.Catalog.Sorting

/-!
# Looking up is searching the list

A lookup answers as a plain search of the components that it was made from. Of several components
with one type or one name the last one is found. Among components without duplicates, in the order
of their indices, the provider of a request is the one that a reader of the catalog would name.
-/

namespace Assembly

namespace Lookup

theorem listed_foldl_interfaces (implementations : NameMap (List Component))
    {interfaces : List String} (hnodup : interfaces.Nodup) (other : String)
    (component : Component) :
    (interfaces.foldl
        (fun implementations interface => implementations.push interface component)
        implementations).listed other
      = implementations.listed other ++ if other ∈ interfaces then [component] else [] := by
  induction interfaces generalizing implementations with
  | nil => simp
  | cons interface rest ih =>
      obtain ⟨hfresh, hrest⟩ := List.nodup_cons.mp hnodup
      rw [List.foldl_cons, ih _ hrest, NameMap.listed_push]
      by_cases heq : other = interface
      · simp [heq, hfresh]
      · simp [heq]

theorem listed_add (lookup : Lookup) (component : Component) (interface : String) :
    (lookup.add component).byInterface.listed interface
      = lookup.byInterface.listed interface
        ++ if interface ∈ component.interfaces then [component] else [] :=
  listed_foldl_interfaces lookup.byInterface
    (component.interfaces.ascending.imp fun hlt => String.ne_of_lt hlt) interface component

theorem listed_foldl_add (lookup : Lookup) (components : List Component) (interface : String) :
    (components.foldl add lookup).byInterface.listed interface
      = lookup.byInterface.listed interface
        ++ components.filter (interface ∈ ·.interfaces) := by
  induction components generalizing lookup with
  | nil => simp
  | cons component rest ih =>
      rw [List.foldl_cons, ih, listed_add, List.filter_cons]
      by_cases hmem : interface ∈ component.interfaces
      · simp [hmem]
      · simp [hmem]

theorem byName_foldl_add (lookup : Lookup) (components : List Component) :
    (components.foldl add lookup).byName
      = lookup.byName.insertAll
        (components.map fun component => (component.displayName, component)) := by
  induction components generalizing lookup with
  | nil => rfl
  | cons component rest ih => exact ih (lookup.add component)

theorem byType_foldl_add (lookup : Lookup) (components : List Component) :
    (components.foldl add lookup).byType
      = lookup.byType.insertAll
        (components.map fun component => (component.qualifiedName, component)) := by
  induction components generalizing lookup with
  | nil => rfl
  | cons component rest ih => exact ih (lookup.add component)

theorem implementations_ofList (components : List Component) (interface : String) :
    (ofList components).implementations interface
      = byIndex (components.filter (interface ∈ ·.interfaces)) := by
  have hadded := listed_foldl_add {} components interface
  unfold implementations ofList
  unfold NameMap.listed at hadded ⊢
  rw [NameMap.get?_mapValues]
  cases hget : (components.foldl add {}).byInterface.get? interface with
  | none =>
      rw [hget] at hadded
      rw [show components.filter (interface ∈ ·.interfaces) = [] from hadded.symm]
      simp [byIndex]
  | some found =>
      rw [hget] at hadded
      exact congrArg byIndex hadded

/-- Of several components with one name the last one counts. -/
theorem byDisplayName?_ofList (components : List Component) (name : String) :
    (ofList components).byDisplayName? name
      = components.reverse.find? (·.displayName = name) := by
  change (components.foldl add {}).byName.get? name = _
  rw [byName_foldl_add, NameMap.get?_insertAll, ← List.map_reverse, List.find?_map, Option.map_map]
  exact (Option.or_none).trans Option.map_id'

theorem byType_ofList (components : List Component) (type : String) :
    (ofList components).byType.get? type = components.reverse.find? (·.qualifiedName = type) := by
  change (components.foldl add {}).byType.get? type = _
  rw [byType_foldl_add, NameMap.get?_insertAll, ← List.map_reverse, List.find?_map, Option.map_map]
  exact (Option.or_none).trans Option.map_id'

theorem find_qualified_ofList (components : List Component) (type name : String) :
    (ofList components).find type (some name)
      = (components.reverse.find? (·.displayName = name)).elim .notFound .found := by
  rw [← byDisplayName?_ofList, find, byDisplayName?]
  cases (ofList components).byName.get? name <;> rfl

theorem find_unqualified_ofList (components : List Component) (type : String) :
    (ofList components).find type none
      = (components.reverse.find? (·.qualifiedName = type)).elim
        (.among (byIndex (components.filter (type ∈ ·.interfaces)))) .found := by
  rw [← byType_ofList, ← implementations_ofList, find]
  cases (ofList components).byType.get? type <;> rfl

end Lookup

/-- The implementation that counts: the only one, the only primary one, or else the one that is
declared last. -/
def preferred? (implementations : List Component) : Option Component :=
  match implementations with
  | [only] => some only
  | _ =>
    match implementations.filter (·.primary) with
    | [primary] => some primary
    | _ => implementations.maxOn? (·.declarationIndex)

/-- The provider of a request among components: the one with the name of the qualifier or, without a
qualifier, the one of the type itself or else the implementation that counts. -/
def Dependency.provider? (components : List Component) (dependency : Dependency) :
    Option Component :=
  match dependency.qualifier with
  | some name => components.find? (·.displayName = name)
  | none =>
    (components.find? (·.qualifiedName = dependency.requestedType)).or
      (preferred? (components.filter (dependency.requestedType ∈ ·.interfaces)))

/-- Some component has the name of the qualifier or, without one, provides the type. -/
def Dependency.HasProvider (components : List Component) (dependency : Dependency) : Prop :=
  match dependency.qualifier with
  | some name => ∃ provider ∈ components, provider.displayName = name
  | none => ∃ provider ∈ components, provider.provides dependency.requestedType = true

theorem mem_of_preferred? {implementations : List Component} {component : Component}
    (hpreferred : preferred? implementations = some component) : component ∈ implementations := by
  unfold preferred? at hpreferred
  split at hpreferred
  · cases hpreferred
    exact List.mem_singleton_self component
  · split at hpreferred
    · next primary hprimary =>
      cases hpreferred
      exact (List.mem_filter.mp (hprimary ▸ List.mem_singleton_self component)).1
    · exact List.maxOn?_mem hpreferred

theorem isSome_preferred?_iff {implementations : List Component} :
    (preferred? implementations).isSome ↔ implementations ≠ [] := by
  unfold preferred?
  split
  · simp
  · split
    · next primary hprimary =>
      have hmem := (List.mem_filter.mp (hprimary ▸ List.mem_singleton_self primary)).1
      exact iff_of_true rfl (List.ne_nil_of_mem hmem)
    · rw [List.isSome_maxOn?_iff]

theorem mem_of_provider? {components : List Component} {dependency : Dependency}
    {provider : Component} (hprovider : dependency.provider? components = some provider) :
    provider ∈ components := by
  unfold Dependency.provider? at hprovider
  split at hprovider
  · exact List.mem_of_find?_eq_some hprovider
  · rcases Option.or_eq_some_iff.mp hprovider with hown | ⟨-, hpreferred⟩
    · exact List.mem_of_find?_eq_some hown
    · exact (List.mem_filter.mp (mem_of_preferred? hpreferred)).1

/-- A request has a provider exactly if some component can be one. -/
theorem isSome_provider?_iff {components : List Component} {dependency : Dependency} :
    (dependency.provider? components).isSome ↔ dependency.HasProvider components := by
  unfold Dependency.provider? Dependency.HasProvider
  cases dependency.qualifier with
  | some name => simp
  | none =>
      simp only [Option.isSome_or, Bool.or_eq_true, isSome_preferred?_iff, List.find?_isSome, ne_eq,
        List.filter_eq_nil_iff, Component.provides, decide_eq_true_eq, not_forall, not_not]
      constructor
      · rintro (⟨own, hown, htype⟩ | ⟨implementation, hmem, htype⟩)
        · exact ⟨own, hown, .inl htype⟩
        · exact ⟨implementation, hmem, .inr htype⟩
      · rintro ⟨provider, hmem, htype | htype⟩
        · exact .inl ⟨provider, hmem, htype⟩
        · exact .inr ⟨provider, hmem, htype⟩

instance {components : List Component} {dependency : Dependency} :
    Decidable (dependency.HasProvider components) :=
  decidable_of_iff _ isSome_provider?_iff

section Distinct

variable {components : List Component} (hdistinct : Distinct components)

/-- Where one element at most is accepted, the order of a search does not matter. -/
theorem find?_eq_of_perm {others : List Component} (hperm : others.Perm components)
    {p : Component → Bool}
    (hunique : ∀ first ∈ components, ∀ second ∈ components, p first → p second → first = second) :
    others.find? p = components.find? p := by
  cases hfind : components.find? p with
  | none =>
      rw [List.find?_eq_none] at hfind ⊢
      exact fun other hother => hfind other (hperm.mem_iff.mp hother)
  | some found =>
      have hmem := List.mem_of_find?_eq_some hfind
      have hfound := List.find?_some hfind
      cases hother : others.find? p with
      | none =>
          have hno := List.find?_eq_none.mp hother found (hperm.mem_iff.mpr hmem)
          exact absurd hfound hno
      | some other =>
          have hmem' := hperm.mem_iff.mp (List.mem_of_find?_eq_some hother)
          rw [hunique other hmem' found hmem (List.find?_some hother) hfound]

include hdistinct

/-- A name is searched for by comparing names alone. -/
theorem find?_displayName_eq_some_iff {name : String} {provider : Component} :
    components.find? (·.displayName = name) = some provider
      ↔ provider ∈ components ∧ provider.displayName = name := by
  constructor
  · intro hfind
    exact ⟨List.mem_of_find?_eq_some hfind, by simpa using List.find?_some hfind⟩
  · rintro ⟨hprovider, rfl⟩
    cases hfind : components.find? (·.displayName = provider.displayName) with
    | none => simpa using List.find?_eq_none.mp hfind provider hprovider
    | some found =>
        have hname : found.displayName = provider.displayName := by
          simpa using List.find?_some hfind
        rw [hdistinct.eq_of_displayName (List.mem_of_find?_eq_some hfind) hprovider hname]

theorem find?_displayName_of_perm {others : List Component} (hperm : others.Perm components)
    (name : String) :
    others.find? (·.displayName = name) = components.find? (·.displayName = name) := by
  refine find?_eq_of_perm hperm ?_
  intro first hfirst second hsecond hnamed hnamed'
  simp only [decide_eq_true_eq] at hnamed hnamed'
  exact hdistinct.eq_of_displayName hfirst hsecond (hnamed.trans hnamed'.symm)

theorem find?_qualifiedName_of_perm {others : List Component} (hperm : others.Perm components)
    (type : String) :
    others.find? (·.qualifiedName = type) = components.find? (·.qualifiedName = type) := by
  refine find?_eq_of_perm hperm ?_
  intro first hfirst second hsecond htyped htyped'
  simp only [decide_eq_true_eq] at htyped htyped'
  exact hdistinct.eq_of_qualifiedName hfirst hsecond (htyped.trans htyped'.symm)

theorem byDisplayName?_of_distinct (name : String) :
    (Lookup.ofList components).byDisplayName? name = components.find? (·.displayName = name) :=
  (Lookup.byDisplayName?_ofList components name).trans
    (find?_displayName_of_perm hdistinct (List.reverse_perm components) name)

/-- What a lookup answers to a qualified request. -/
theorem find_qualified (type name : String) :
    (Lookup.ofList components).find type (some name)
      = (components.find? (·.displayName = name)).elim .notFound .found := by
  rw [Lookup.find_qualified_ofList,
    find?_displayName_of_perm hdistinct (List.reverse_perm components)]

variable (hsorted : components.Pairwise (·.declarationIndex ≤ ·.declarationIndex))
include hsorted

/-- What a lookup answers to a request without a qualifier, among components in the order of their
indices. -/
theorem find_unqualified (type : String) :
    (Lookup.ofList components).find type none
      = (components.find? (·.qualifiedName = type)).elim
        (.among (components.filter (type ∈ ·.interfaces))) .found := by
  rw [Lookup.find_unqualified_ofList, byIndex_of_pairwise (hsorted.sublist List.filter_sublist),
    find?_qualifiedName_of_perm hdistinct (List.reverse_perm components)]

theorem maxOn?_declarationIndex (hne : components ≠ []) :
    components.maxOn? (·.declarationIndex) = some (components.getLast hne) := by
  have hlast := List.getLast_mem hne
  obtain ⟨latest, hlatest⟩ := Option.isSome_iff_exists.mp
    ((List.isSome_maxOn?_iff (f := Component.declarationIndex)).mpr hne)
  have hmem := List.maxOn?_mem hlatest
  have hle : (components.getLast hne).declarationIndex ≤ latest.declarationIndex := by
    have hget := List.le_apply_get_maxOn?_of_mem (f := Component.declarationIndex) hlast
    simpa only [hlatest, Option.get_some] using hget
  have hge : latest.declarationIndex ≤ (components.getLast hne).declarationIndex := by
    rw [← List.dropLast_concat_getLast hne] at hsorted hmem
    rcases List.mem_append.mp hmem with hfront | hback
    · exact (List.pairwise_append.mp hsorted).2.2 latest hfront _ (by simp)
    · rw [List.mem_singleton.mp hback]
      exact UInt32.le_refl _
  rw [hlatest, hdistinct.eq_of_declarationIndex hmem hlast (UInt32.le_antisymm hge hle)]

theorem provider?_among :
    (Provision.among components).provider? = preferred? components := by
  rcases components with _ | ⟨first, _ | ⟨second, rest⟩⟩
  · rfl
  · rfl
  · have hlatest := maxOn?_declarationIndex hdistinct hsorted (List.cons_ne_nil first _)
    simp only [Provision.among, preferred?]
    generalize (first :: second :: rest).filter (·.primary) = primaries
    rcases primaries with _ | ⟨primary, _ | ⟨other, more⟩⟩
    · exact hlatest.symm
    · rfl
    · exact hlatest.symm

/-- Looking up finds the provider that a reader of the catalog would name. -/
theorem provider?_find (dependency : Dependency) :
    ((Lookup.ofList components).find dependency.requestedType dependency.qualifier).provider?
      = dependency.provider? components := by
  unfold Dependency.provider?
  cases dependency.qualifier with
  | some name =>
      rw [find_qualified hdistinct]
      dsimp only
      cases components.find? (·.displayName = name) <;> rfl
  | none =>
      rw [find_unqualified hdistinct hsorted]
      dsimp only
      cases components.find? (·.qualifiedName = dependency.requestedType) with
      | some own => rfl
      | none =>
          exact provider?_among (hdistinct.sublist List.filter_sublist)
            (hsorted.sublist List.filter_sublist)

end Distinct

end Assembly
