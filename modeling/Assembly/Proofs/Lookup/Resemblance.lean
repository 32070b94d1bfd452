import Mathlib.Data.List.Forall2
import Assembly.Graph.Findings
import Assembly.Proofs.Lookup.Search

/-!
# Components that others cannot tell apart

Other components see what a component is called, what it provides and how long it lives, and nothing
of what it needs itself, of its conditions or of its index. Two lists whose components resemble each
other answer every request alike, as long as both are in the order of their own indices.
-/

namespace Assembly

/-- The components differ at most in their injection sites, their conditions and their index. -/
structure Component.Resembles (first second : Component) : Prop where
  qualifiedName : second.qualifiedName = first.qualifiedName
  displayName : second.displayName = first.displayName
  scope : second.scope = first.scope
  lazy : second.lazy = first.lazy
  primary : second.primary = first.primary
  interfaces : second.interfaces = first.interfaces
  hooks : second.hooks = first.hooks
  dependsOn : second.dependsOn = first.dependsOn

/-- The outcomes are of one kind, with components that resemble each other. -/
inductive Provision.Resembles : Provision → Provision → Prop where
  | found {provider other : Component} (hprovider : provider.Resembles other) :
    Resembles (.found provider) (.found other)
  | ambiguous {chosen other : Component} {candidates others : List Component}
    (hchosen : chosen.Resembles other)
    (hcandidates : List.Forall₂ Component.Resembles candidates others) :
    Resembles (.ambiguous chosen candidates) (.ambiguous other others)
  | notFound : Resembles .notFound .notFound

/-- The lookups answer every request alike. -/
def Lookup.Resembles (first second : Lookup) : Prop :=
  ∀ type qualifier, (first.find type qualifier).Resembles (second.find type qualifier)

theorem Component.resembles_of_rest (component : Component) (sites : List InjectionSite)
    (conditions : List Condition) (declarationIndex : UInt32) :
    component.Resembles { component with sites, conditions, declarationIndex } where
  qualifiedName := rfl
  displayName := rfl
  scope := rfl
  lazy := rfl
  primary := rfl
  interfaces := rfl
  hooks := rfl
  dependsOn := rfl

theorem Component.Resembles.provides_eq {first second : Component}
    (hresembles : first.Resembles second) (type : String) :
    second.provides type = first.provides type := by
  unfold provides
  rw [hresembles.qualifiedName, hresembles.interfaces]

theorem map_displayName_eq {first second : List Component}
    (hresemble : List.Forall₂ Component.Resembles first second) :
    second.map (·.displayName) = first.map (·.displayName) := by
  induction hresemble with
  | nil => rfl
  | cons hhead _ ih => exact congrArg₂ List.cons hhead.displayName ih

/-! ### Searching -/

section Searching

variable {α β : Type} {relation : α → β → Prop} {list : List α} {others : List β}

theorem rel_find? {p : α → Bool} {q : β → Bool}
    (hpq : ∀ member other, relation member other → q other = p member)
    (hrelated : List.Forall₂ relation list others) :
    Option.Rel relation (list.find? p) (others.find? q) := by
  induction hrelated with
  | nil => exact .none
  | @cons member other rest others hhead _ ih =>
      have hsame := hpq member other hhead
      cases hp : p member with
      | true =>
          rw [List.find?_cons_of_pos hp, List.find?_cons_of_pos (hsame.trans hp)]
          exact .some hhead
      | false =>
          rw [List.find?_cons_of_neg (Bool.eq_false_iff.mp hp),
            List.find?_cons_of_neg (Bool.eq_false_iff.mp (hsame.trans hp))]
          exact ih

theorem rel_getLast (hrelated : List.Forall₂ relation list others) (hlist : list ≠ [])
    (hothers : others ≠ []) : relation (list.getLast hlist) (others.getLast hothers) := by
  have hlength := hrelated.length_eq
  rw [List.getLast_eq_getElem, List.getLast_eq_getElem]
  simp only [← hlength]
  exact hrelated.get _ _

end Searching

theorem Provision.Resembles.among {first second : List Component}
    (hresemble : List.Forall₂ Component.Resembles first second) :
    (Provision.among first).Resembles (Provision.among second) := by
  have hprimaries : List.Forall₂ Component.Resembles (first.filter (·.primary))
      (second.filter (·.primary)) :=
    List.rel_filter (fun _ _ hmember => by simp only [hmember.primary]) hresemble
  rcases hresemble with _ | ⟨hhead, _ | ⟨hnext, hrest⟩⟩
  · exact .notFound
  · exact .found hhead
  · have hall := (hrest.cons hnext).cons hhead
    have hambiguous := Provision.Resembles.ambiguous
      (rel_getLast hall (List.cons_ne_nil _ _) (List.cons_ne_nil _ _)) hall
    unfold Provision.among
    dsimp only
    revert hprimaries
    generalize List.filter (fun component : Component => component.primary) _ = primaries
    generalize List.filter (fun component : Component => component.primary) _ = others
    rintro (_ | ⟨hprimary, _ | _⟩)
    · exact hambiguous
    · exact .found hprimary
    · exact hambiguous

section Lists

variable {first second : List Component} (hfirst : Distinct first) (hsecond : Distinct second)
  (hascending : first.Pairwise (·.declarationIndex ≤ ·.declarationIndex))
  (hascending' : second.Pairwise (·.declarationIndex ≤ ·.declarationIndex))
  (hresemble : List.Forall₂ Component.Resembles first second)
include hfirst hsecond hascending hascending' hresemble

/-- Components that resemble each other, each list in its own order, are found for the same
requests. -/
theorem lookup_resembles : (Lookup.ofList first).Resembles (Lookup.ofList second) := by
  have helim : ∀ {own own' : Option Component} {rest rest' : Provision},
      Option.Rel Component.Resembles own own' → rest.Resembles rest' →
        (own.elim rest .found).Resembles (own'.elim rest' .found) := by
    intro own own' rest rest' hown hrest
    cases hown with
    | none => exact hrest
    | some hown => exact .found hown
  intro type qualifier
  cases qualifier with
  | some name =>
      rw [find_qualified hfirst, find_qualified hsecond]
      refine helim (rel_find? ?_ hresemble) .notFound
      intro component other hcomponent
      rw [hcomponent.displayName]
  | none =>
      rw [find_unqualified hfirst hascending, find_unqualified hsecond hascending']
      refine helim (rel_find? ?_ hresemble) (.among (List.rel_filter ?_ hresemble))
      · intro component other hcomponent
        rw [hcomponent.qualifiedName]
      · intro component other hcomponent
        simp only [hcomponent.interfaces]

end Lists

/-! ### What depends on a lookup -/

theorem Provision.Resembles.name?_eq {first second : Provision}
    (hresembles : first.Resembles second) :
    second.provider?.map (·.displayName) = first.provider?.map (·.displayName) := by
  cases hresembles with
  | found hprovider => exact congrArg some hprovider.displayName
  | ambiguous hchosen _ => exact congrArg some hchosen.displayName
  | notFound => rfl

theorem nodeOf?_eq {n : Nat} {index : NameMap (Fin n)} {found : Option Component} :
    nodeOf? index found = (found.map (·.displayName)).bind index.get? := by
  cases found <;> rfl

namespace Lookup.Resembles

variable {lookup other : Lookup} (hresembles : lookup.Resembles other)
include hresembles

theorem bound_eq {n : Nat} (index : NameMap (Fin n)) (dependency : Dependency) :
    dependency.bound other index = dependency.bound lookup index := by
  unfold Dependency.bound
  rw [nodeOf?_eq, (hresembles dependency.requestedType dependency.qualifier).name?_eq, ← nodeOf?_eq]

theorem orderNode?_eq {n : Nat} (index : NameMap (Fin n)) (name : String) :
    orderNode? other index name = orderNode? lookup index name := by
  have hnamed : ∀ lookup : Lookup,
      lookup.byDisplayName? name = (lookup.find "" (some name)).provider? := by
    intro lookup
    unfold byDisplayName? find
    dsimp only
    cases lookup.byName.get? name <;> rfl
  unfold orderNode?
  rw [nodeOf?_eq, hnamed other, (hresembles "" (some name)).name?_eq, ← hnamed lookup, ← nodeOf?_eq]

theorem unbound?_eq (strict : Bool) (dependency : Dependency) :
    dependency.unbound? other strict = dependency.unbound? lookup strict := by
  have hfind := hresembles dependency.requestedType dependency.qualifier
  unfold Dependency.unbound?
  generalize lookup.find dependency.requestedType dependency.qualifier = provision at hfind
  generalize other.find dependency.requestedType dependency.qualifier = provision' at hfind
  cases hfind with
  | found _ => rfl
  | ambiguous _ hcandidates => simp only [map_displayName_eq hcandidates]
  | notFound => rfl

theorem doubt?_eq (strict : Bool) (position : Position) (dependency : Dependency) :
    dependency.doubt? other strict position = dependency.doubt? lookup strict position := by
  have hfind := hresembles dependency.requestedType dependency.qualifier
  unfold Dependency.doubt?
  generalize lookup.find dependency.requestedType dependency.qualifier = provision at hfind
  generalize other.find dependency.requestedType dependency.qualifier = provision' at hfind
  cases hfind with
  | found hprovider =>
      simp only [hprovider.provides_eq, typeMismatchMessage, hprovider.displayName]
  | ambiguous hchosen hcandidates =>
      simp only [ambiguityMessage, hchosen.displayName, map_displayName_eq hcandidates]
  | notFound => rfl

end Lookup.Resembles

end Assembly
