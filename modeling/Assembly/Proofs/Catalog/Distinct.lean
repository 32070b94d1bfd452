import Mathlib.Tactic.ByContra
import Assembly.Proofs.Catalog.Taken

/-!
# What a consistent catalog promises

In a catalog without faults no two components share a type, a name or an index. Everything that
finds a component by one of the three then finds the only one.
-/

namespace Assembly

structure Component.Apart (first second : Component) : Prop where
  qualifiedName : first.qualifiedName ≠ second.qualifiedName
  displayName : first.displayName ≠ second.displayName
  declarationIndex : first.declarationIndex ≠ second.declarationIndex

theorem Component.Apart.symm {first second : Component} (hapart : first.Apart second) :
    second.Apart first where
  qualifiedName := hapart.qualifiedName.symm
  displayName := hapart.displayName.symm
  declarationIndex := hapart.declarationIndex.symm

/-- No two of the components share a type, a name or an index. -/
def Distinct (components : List Component) : Prop :=
  components.Pairwise Component.Apart

/-- The component has no fault of its own. -/
structure Component.Consistent (component : Component) : Prop where
  constructorCount : component.constructorCount ≤ 1
  contradictions : component.contradictions = []

section

variable {earlier components : List Component} {component : Component}

theorem duplicatesAfter_eq_nil_iff :
    component.duplicatesAfter earlier = []
      ↔ (∀ first ∈ earlier, first.Apart component) ∧ component.constructorCount ≤ 1 := by
  simp only [Component.duplicatesAfter, List.append_eq_nil_iff, ite_eq_right_iff, List.cons_ne_nil,
    imp_false, Option.toList_eq_nil_iff, Option.map_eq_none_iff, List.find?_eq_none,
    List.any_eq_true, decide_eq_true_eq, not_exists, not_and, Nat.not_lt]
  refine and_congr_left' ⟨?_, fun hapart => ?_⟩
  · rintro ⟨⟨hqualified, hdisplay⟩, hindex⟩ first hfirst
    exact ⟨hqualified first hfirst, hdisplay first hfirst, hindex first hfirst⟩
  · exact ⟨⟨fun first hfirst => (hapart first hfirst).qualifiedName,
      fun first hfirst => (hapart first hfirst).displayName⟩,
      fun first hfirst => (hapart first hfirst).declarationIndex⟩

theorem faultsAfter_eq_nil_iff :
    component.faultsAfter earlier = []
      ↔ (∀ first ∈ earlier, first.Apart component) ∧ component.Consistent := by
  rw [Component.faultsAfter, List.append_eq_nil_iff, duplicatesAfter_eq_nil_iff, and_assoc]
  refine and_congr_right' ⟨?_, fun hconsistent => ?_⟩
  · rintro ⟨hcount, hcontradictions⟩
    exact { constructorCount := hcount, contradictions := hcontradictions }
  · exact ⟨hconsistent.constructorCount, hconsistent.contradictions⟩

theorem faultsAmong_eq_nil_iff :
    faultsAmong earlier components = []
      ↔ Distinct components ∧ (∀ first ∈ earlier, ∀ second ∈ components, first.Apart second)
        ∧ ∀ component ∈ components, component.Consistent := by
  induction components generalizing earlier with
  | nil => simp [faultsAmong, Distinct]
  | cons component rest ih =>
      rw [faultsAmong, List.append_eq_nil_iff, faultsAfter_eq_nil_iff, ih]
      simp only [Distinct, List.pairwise_cons, List.mem_append, List.mem_singleton,
        List.forall_mem_cons]
      constructor
      · rintro ⟨⟨hearlier, hcomponent⟩, hrest, hapart, hconsistent⟩
        exact ⟨⟨hapart component (.inr rfl), hrest⟩,
          fun first hfirst => ⟨hearlier first hfirst, hapart first (.inl hfirst)⟩,
          hcomponent, hconsistent⟩
      · rintro ⟨⟨hhead, hrest⟩, hapart, hcomponent, hconsistent⟩
        refine ⟨⟨fun first hfirst => (hapart first hfirst).1, hcomponent⟩, hrest, ?_, hconsistent⟩
        rintro first (hfirst | rfl)
        · exact (hapart first hfirst).2
        · exact hhead

end

theorem Catalog.faults_eq_nil_iff {catalog : Catalog} :
    catalog.faults = []
      ↔ Distinct catalog.components ∧ ∀ component ∈ catalog.components, component.Consistent := by
  simp [faults_eq, faultsAmong_eq_nil_iff]

theorem Catalog.distinct_of_faults_eq_nil {catalog : Catalog} (hfaults : catalog.faults = []) :
    Distinct catalog.components :=
  (faults_eq_nil_iff.mp hfaults).1

namespace Distinct

variable {components : List Component} (hdistinct : Distinct components) {first second : Component}
include hdistinct

theorem apart_of_ne (hfirst : first ∈ components) (hsecond : second ∈ components)
    (hne : first ≠ second) : first.Apart second := by
  induction components with
  | nil => cases hfirst
  | cons component rest ih =>
      obtain ⟨hhead, hrest⟩ := List.pairwise_cons.mp hdistinct
      rcases List.mem_cons.mp hfirst with heq | hfirst
      · rcases List.mem_cons.mp hsecond with heq' | hsecond
        · exact absurd (heq.trans heq'.symm) hne
        · exact heq ▸ hhead second hsecond
      · rcases List.mem_cons.mp hsecond with heq | hsecond
        · exact heq ▸ (hhead first hfirst).symm
        · exact ih hrest hfirst hsecond

theorem eq_of_displayName (hfirst : first ∈ components) (hsecond : second ∈ components)
    (heq : first.displayName = second.displayName) : first = second := by
  by_contra hne
  exact (hdistinct.apart_of_ne hfirst hsecond hne).displayName heq

theorem eq_of_qualifiedName (hfirst : first ∈ components) (hsecond : second ∈ components)
    (heq : first.qualifiedName = second.qualifiedName) : first = second := by
  by_contra hne
  exact (hdistinct.apart_of_ne hfirst hsecond hne).qualifiedName heq

theorem eq_of_declarationIndex (hfirst : first ∈ components) (hsecond : second ∈ components)
    (heq : first.declarationIndex = second.declarationIndex) : first = second := by
  by_contra hne
  exact (hdistinct.apart_of_ne hfirst hsecond hne).declarationIndex heq

theorem nodup_displayName : (components.map (·.displayName)).Nodup :=
  List.pairwise_map.mpr (hdistinct.imp Component.Apart.displayName)

theorem nodup : components.Nodup :=
  hdistinct.imp fun hapart heq => hapart.displayName (congrArg _ heq)

theorem sublist {fewer : List Component} (hsublist : fewer.Sublist components) : Distinct fewer :=
  List.Pairwise.sublist hsublist hdistinct

theorem perm {others : List Component} (hperm : components.Perm others) : Distinct others :=
  List.Perm.pairwise hperm hdistinct Component.Apart.symm

end Distinct

end Assembly
