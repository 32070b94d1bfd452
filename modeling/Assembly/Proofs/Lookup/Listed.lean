import Assembly.Proofs.Lookup.Search

/-!
# Looking up in any list

A lookup may be made from any list, in any order and with components that share a name, a type or an
index. Of components that share what is looked for the last one counts, and the implementations of an
interface are sorted before one of them is chosen.
-/

namespace Assembly

/-- What an interface is resolved to among its implementations in the order of their declaration. -/
inductive Provision.Selects : List Component → Provision → Prop where
  | none : Selects [] .notFound
  | only (component : Component) : Selects [component] (.found component)
  | primary {candidates : List Component} {component : Component}
    (hprimary : candidates.filter (·.primary) = [component]) :
    Selects candidates (.found component)
  | last {candidates : List Component} {component : Component} (hmany : 2 ≤ candidates.length)
    (hprimary : (candidates.filter (·.primary)).length ≠ 1)
    (hlast : candidates.getLast? = some component) :
    Selects candidates (.ambiguous component candidates)

namespace Provision

variable {candidates : List Component} {provision : Provision}

theorem selects_among (candidates : List Component) : Selects candidates (among candidates) := by
  rcases candidates with _ | ⟨first, _ | ⟨second, rest⟩⟩
  · exact .none
  · exact .only first
  · unfold among
    dsimp only
    split
    · next component hprimary => exact .primary hprimary
    · next hprimary =>
      refine .last (by simp) (fun hlength => ?_) (List.getLast?_eq_some_getLast _)
      obtain ⟨component, honly⟩ := List.length_eq_one_iff.mp hlength
      exact hprimary component honly

/-- Nothing else is selected. -/
theorem Selects.eq_among (hselects : Selects candidates provision) :
    provision = among candidates := by
  cases hselects with
  | none => rfl
  | only component => rfl
  | primary hprimary =>
      rcases candidates with _ | ⟨first, _ | ⟨second, rest⟩⟩
      · cases hprimary
      · have hmem := (List.mem_filter.mp (hprimary ▸ List.mem_singleton_self _)).1
        rw [List.mem_singleton.mp hmem]
        rfl
      · simp only [among, hprimary]
  | last hmany hprimary hlast =>
      rcases candidates with _ | ⟨first, _ | ⟨second, rest⟩⟩
      · cases hmany
      · simp at hmany
      · rw [List.getLast?_eq_some_getLast (List.cons_ne_nil _ _), Option.some_inj] at hlast
        rw [← hlast]
        unfold among
        dsimp only
        split
        · next component honly => exact absurd (congrArg List.length honly) hprimary
        · rfl

theorem Selects.mem (hselects : Selects candidates provision) {provider : Component}
    (hprovider : provision.provider? = some provider) : provider ∈ candidates := by
  cases hselects with
  | none => cases hprovider
  | only component =>
      cases hprovider
      exact List.mem_singleton_self provider
  | primary hprimary =>
      cases hprovider
      exact (List.mem_filter.mp (hprimary ▸ List.mem_singleton_self provider)).1
  | last hmany hprimary hlast =>
      cases hprovider
      exact List.mem_of_getLast? hlast

theorem Selects.eq_notFound_iff (hselects : Selects candidates provision) :
    provision = .notFound ↔ candidates = [] := by
  cases hselects with
  | none => simp
  | only component => simp
  | primary hprimary =>
      refine iff_of_false Provision.noConfusion fun hnil => ?_
      rw [hnil] at hprimary
      cases hprimary
  | last hmany hprimary hlast =>
      refine iff_of_false Provision.noConfusion fun hnil => ?_
      rw [hnil] at hmany
      cases hmany

end Provision

namespace Lookup

variable {components : List Component} {type : String}

/-- An unqualified request is resolved to the last component of the type itself, or else to what the
sorted implementations select. -/
theorem find_unqualified_cases (components : List Component) (type : String) :
    (∃ own, (components.filter (·.qualifiedName = type)).getLast? = some own
        ∧ (ofList components).find type none = .found own)
      ∨ (∀ component ∈ components, component.qualifiedName ≠ type)
        ∧ Provision.Selects (byIndex (components.filter (type ∈ ·.interfaces)))
          ((ofList components).find type none) := by
  rw [find_unqualified_ofList, List.getLast?_filter]
  cases hown : components.reverse.find? (·.qualifiedName = type) with
  | some own => exact .inl ⟨own, rfl, rfl⟩
  | none =>
      refine .inr ⟨fun component hmem => ?_, Provision.selects_among _⟩
      have hother := List.find?_eq_none.mp hown component (List.mem_reverse.mpr hmem)
      exact fun heq => hother (decide_eq_true heq)

theorem mem_byIndex_filter {component : Component} :
    component ∈ byIndex (components.filter (type ∈ ·.interfaces))
      ↔ component ∈ components ∧ type ∈ component.interfaces := by
  rw [(stablySorted_byIndex _).perm.mem_iff, List.mem_filter, decide_eq_true_eq]

/-- Whatever an unqualified request yields is listed and provides the type. -/
theorem provides_of_find_unqualified {provider : Component}
    (hprovider : ((ofList components).find type none).provider? = some provider) :
    provider ∈ components ∧ provider.provides type = true := by
  rcases find_unqualified_cases components type with ⟨own, hown, hfind⟩ | ⟨-, hselects⟩
  · rw [hfind] at hprovider
    cases hprovider
    obtain ⟨hmem, htype⟩ := List.mem_filter.mp (List.mem_of_getLast? hown)
    exact ⟨hmem, Bool.or_eq_true_iff.mpr (.inl htype)⟩
  · obtain ⟨hmem, htype⟩ := mem_byIndex_filter.mp (hselects.mem hprovider)
    exact ⟨hmem, Bool.or_eq_true_iff.mpr (.inr (decide_eq_true htype))⟩

theorem find_unqualified_eq_notFound_iff :
    (ofList components).find type none = .notFound
      ↔ ∀ component ∈ components, component.provides type = false := by
  rcases find_unqualified_cases components type with ⟨own, hown, hfind⟩ | ⟨hother, hselects⟩
  · refine iff_of_false (by simp [hfind]) fun hnone => ?_
    have hprovider : ((ofList components).find type none).provider? = some own := by rw [hfind]; rfl
    obtain ⟨hmem, hprovides⟩ := provides_of_find_unqualified hprovider
    rw [hnone own hmem] at hprovides
    cases hprovides
  · rw [hselects.eq_notFound_iff, List.eq_nil_iff_forall_not_mem]
    simp only [mem_byIndex_filter, not_and]
    refine forall₂_congr fun component hmem => ?_
    simp [Component.provides, hother component hmem]

section Permuted

variable {others : List Component} (hdistinct : Distinct components)
  (hperm : others.Perm components)
include hdistinct hperm

theorem byIndex_eq_of_perm : byIndex others = byIndex components := by
  have hsorted := stablySorted_byIndex components
  have hsorted' := stablySorted_byIndex others
  have hboth : (byIndex others).Perm (byIndex components) :=
    (hsorted'.perm.trans hperm).trans hsorted.perm.symm
  refine List.Perm.eq_of_pairwise ?_ hsorted'.ascending hsorted.ascending hboth
  intro first second hfirst hsecond hle hge
  have hmem := hperm.mem_iff.mp (hsorted'.perm.mem_iff.mp hfirst)
  have hmem' := hsorted.perm.mem_iff.mp hsecond
  exact hdistinct.eq_of_declarationIndex hmem hmem' (UInt32.le_antisymm hle hge)

theorem find_eq_of_perm (type : String) (qualifier : Option String) :
    (ofList others).find type qualifier = (ofList components).find type qualifier := by
  have hreverse : others.reverse.Perm components := (List.reverse_perm others).trans hperm
  have hreverse' : components.reverse.Perm components := List.reverse_perm components
  cases qualifier with
  | some name =>
      calc (ofList others).find type (some name)
        _ = (others.reverse.find? (·.displayName = name)).elim .notFound .found :=
          find_qualified_ofList others type name
        _ = (components.find? (·.displayName = name)).elim .notFound .found := by
          rw [find?_displayName_of_perm hdistinct hreverse]
        _ = (ofList components).find type (some name) := (find_qualified hdistinct type name).symm
  | none =>
      have hcandidates : byIndex (others.filter (type ∈ ·.interfaces))
          = byIndex (components.filter (type ∈ ·.interfaces)) :=
        byIndex_eq_of_perm (hdistinct.sublist List.filter_sublist)
          (hperm.filter (type ∈ ·.interfaces))
      calc (ofList others).find type none
        _ = (others.reverse.find? (·.qualifiedName = type)).elim
            (.among (byIndex (others.filter (type ∈ ·.interfaces)))) .found :=
          find_unqualified_ofList others type
        _ = (components.reverse.find? (·.qualifiedName = type)).elim
            (.among (byIndex (components.filter (type ∈ ·.interfaces)))) .found := by
          rw [hcandidates, find?_qualifiedName_of_perm hdistinct hreverse,
            find?_qualifiedName_of_perm hdistinct hreverse']
        _ = (ofList components).find type none := (find_unqualified_ofList components type).symm

end Permuted

/-- A qualified request finds the last component of the name, whatever its type. One without a
qualifier finds the last component of the type, or else what is selected among the implementations in
the order of their indices, those of one index as they are listed. It fails exactly if no component
provides the type, and what it yields does provide it. Of distinct components it yields the same in
whatever order they are listed. -/
theorem finds_as_listed (components : List Component) :
    (∀ type name, (ofList components).find type (some name)
        = ((components.filter (·.displayName = name)).getLast?).elim .notFound .found)
      ∧ (∀ type own, (components.filter (·.qualifiedName = type)).getLast? = some own →
        (ofList components).find type none = .found own)
      ∧ (∀ type, (∀ component ∈ components, component.qualifiedName ≠ type) →
        ∃ candidates, StablySorted (components.filter (type ∈ ·.interfaces)) candidates
          ∧ Provision.Selects candidates ((ofList components).find type none))
      ∧ (∀ type, (ofList components).find type none = .notFound
        ↔ ∀ component ∈ components, component.provides type = false)
      ∧ (∀ type provider, ((ofList components).find type none).provider? = some provider →
        provider ∈ components ∧ provider.provides type = true)
      ∧ (Distinct components → ∀ others, others.Perm components → ∀ type qualifier,
        (ofList others).find type qualifier = (ofList components).find type qualifier) := by
  refine ⟨fun type name => ?_, fun type own hown => ?_, fun type hother => ?_,
    fun type => find_unqualified_eq_notFound_iff, fun type provider => provides_of_find_unqualified,
    fun hdistinct others hperm => find_eq_of_perm hdistinct hperm⟩
  · rw [find_qualified_ofList, List.getLast?_filter]
  · rw [List.getLast?_filter] at hown
    rw [find_unqualified_ofList, hown]
    rfl
  · rcases find_unqualified_cases components type with ⟨own, hown, -⟩ | ⟨-, hselects⟩
    · obtain ⟨hmem, htype⟩ := List.mem_filter.mp (List.mem_of_getLast? hown)
      exact absurd (of_decide_eq_true htype) (hother own hmem)
    · exact ⟨_, stablySorted_byIndex _, hselects⟩

end Lookup

def lantern : Component :=
  { qualifiedName := "Lantern", displayName := "lamp", interfaces := .ofList ["Light"]
    declarationIndex := 7 }

def candle : Component :=
  { qualifiedName := "Candle", displayName := "lamp", interfaces := .ofList ["Light"]
    declarationIndex := 4 }

def torch : Component :=
  { qualifiedName := "Torch", displayName := "torch", interfaces := .ofList ["Light"]
    declarationIndex := 4 }

theorem candidates_of_light :
    StablySorted ([lantern, candle, torch].filter ("Light" ∈ ·.interfaces))
      [candle, torch, lantern] := by
  decide +kernel

/-- Two lamps share a name, and the one that is listed first is declared last. -/
theorem lamps_found :
    (Lookup.ofList [lantern, candle, torch]).find "Light" (some "lamp") = .found candle
      ∧ (Lookup.ofList [lantern, candle, torch]).find "Torch" none = .found torch
      ∧ (Lookup.ofList [lantern, candle, torch]).find "Light" none
        = .ambiguous lantern [candle, torch, lantern]
      ∧ (Lookup.ofList [torch, lantern]).find "Light" none
        = (Lookup.ofList [lantern, torch]).find "Light" none := by
  obtain ⟨hqualified, hown, hinterface, -⟩ := Lookup.finds_as_listed [lantern, candle, torch]
  refine ⟨hqualified "Light" "lamp", hown "Torch" torch (by decide +kernel), ?_, ?_⟩
  · obtain ⟨candidates, hsorted, hselects⟩ := hinterface "Light" (by decide +kernel)
    rw [hsorted.unique candidates_of_light] at hselects
    generalize (Lookup.ofList [lantern, candle, torch]).find "Light" none = provision at hselects ⊢
    cases hselects with
    | primary hprimary => cases hprimary
    | last _ _ hlast =>
        cases hlast
        rfl
  · have hapart : lantern.Apart torch := ⟨by decide, by decide, by decide⟩
    exact (Lookup.finds_as_listed [lantern, torch]).2.2.2.2.2 (List.pairwise_pair.mpr hapart) _
      (.swap _ _ _) _ _

end Assembly
