import Assembly.Catalog.Basic

/-!
# Sorting without exchanging equals

A stable sort leaves elements that may stand in either order as it finds them. For components sorted
by their indices this settles the whole result.
-/

namespace Assembly

/-- Elements that may all stand in either order keep their order in a sort. -/
theorem filter_mergeSort {α : Type} {before : α → α → Bool}
    (htrans : ∀ a b c, before a b → before b c → before a c)
    (htotal : ∀ a b, before a b || before b a) {p : α → Bool}
    (hequal : ∀ a b, p a → p b → before a b) (list : List α) :
    (list.mergeSort before).filter p = list.filter p := by
  have hordered : (list.filter p).Pairwise fun a b => before a b = true := by
    refine List.pairwise_of_forall_mem_list fun a ha b hb => ?_
    exact hequal a b (List.mem_filter.mp ha).2 (List.mem_filter.mp hb).2
  have hsublist := (List.sublist_mergeSort htrans htotal hordered List.filter_sublist).filter p
  rw [List.filter_filter] at hsublist
  simp only [Bool.and_self] at hsublist
  have hlength := ((List.mergeSort_perm list before).filter p).length_eq
  exact (hsublist.eq_of_length hlength.symm).symm

/-- Of two elements that may stand in either order the one comes first that did so before. -/
theorem pair_sublist_of_mergeSort {α : Type} {before : α → α → Bool}
    (htrans : ∀ a b c, before a b → before b c → before a c)
    (htotal : ∀ a b, before a b || before b a) {list : List α} {first second : α}
    (hsublist : [first, second].Sublist (list.mergeSort before)) (hforth : before first second)
    (hback : before second first) : [first, second].Sublist list := by
  have htied : ∀ a b, (before a second && before second a) → (before b second && before second b) →
      before a b := by
    intro a b ha hb
    rw [Bool.and_eq_true] at ha hb
    exact htrans a second b ha.1 hb.2
  have hself : before second second := htrans second first second hback hforth
  have hpair := hsublist.filter fun other => before other second && before second other
  rw [filter_mergeSort htrans htotal htied, List.filter_cons_of_pos (by simp [hforth, hback]),
    List.filter_cons_of_pos (by simp [hself])] at hpair
  exact hpair.trans List.filter_sublist

/-- The sorted list has the listed components in the order of their indices, and those of each index
as they are listed. -/
structure StablySorted (listed sorted : List Component) : Prop where
  perm : sorted.Perm listed
  ascending : sorted.Pairwise (·.declarationIndex ≤ ·.declarationIndex)
  stable : ∀ index, sorted.filter (·.declarationIndex = index)
    = listed.filter (·.declarationIndex = index)

/-- Indices that no component has need not be looked at. -/
theorem stablySorted_iff {listed sorted : List Component} :
    StablySorted listed sorted
      ↔ sorted.Perm listed ∧ sorted.Pairwise (·.declarationIndex ≤ ·.declarationIndex)
        ∧ ∀ component ∈ listed,
          sorted.filter (·.declarationIndex = component.declarationIndex)
            = listed.filter (·.declarationIndex = component.declarationIndex) := by
  constructor
  · rintro ⟨hperm, hascending, hstable⟩
    exact ⟨hperm, hascending, fun component _ => hstable component.declarationIndex⟩
  · rintro ⟨hperm, hascending, hlisted⟩
    refine { perm := hperm, ascending := hascending, stable := fun index => ?_ }
    by_cases hindex : ∃ component ∈ listed, component.declarationIndex = index
    · obtain ⟨component, hmem, rfl⟩ := hindex
      exact hlisted component hmem
    · have hother : ∀ component ∈ listed, ¬(decide (component.declarationIndex = index) = true) :=
        fun component hmem heq => hindex ⟨component, hmem, of_decide_eq_true heq⟩
      rw [List.filter_eq_nil_iff.mpr hother, List.filter_eq_nil_iff]
      exact fun component hmem => hother component (hperm.mem_iff.mp hmem)

instance (listed sorted : List Component) : Decidable (StablySorted listed sorted) :=
  decidable_of_iff _ stablySorted_iff.symm

theorem stablySorted_byIndex (components : List Component) :
    StablySorted components (byIndex components) where
  perm := List.mergeSort_perm _ _
  ascending := pairwise_byIndex components
  stable index := by
    refine filter_mergeSort Component.declaredBefore_trans Component.declaredBefore_total ?_ _
    intro first second hfirst hsecond
    simp only [decide_eq_true_eq] at hfirst hsecond
    exact decide_eq_true (hfirst ▸ hsecond ▸ UInt32.le_refl _)

/-- Components in the order of their indices stay in it. -/
theorem byIndex_of_pairwise {components : List Component}
    (hsorted : components.Pairwise (·.declarationIndex ≤ ·.declarationIndex)) :
    byIndex components = components :=
  List.mergeSort_of_pairwise (hsorted.imp fun hle => decide_eq_true hle)

/-- The first component of an ascending list has the least index. -/
theorem declarationIndex_le_of_mem {first component : Component} {rest : List Component}
    (hsorted : (first :: rest).Pairwise (·.declarationIndex ≤ ·.declarationIndex))
    (hmem : component ∈ first :: rest) :
    first.declarationIndex ≤ component.declarationIndex := by
  rcases List.mem_cons.mp hmem with rfl | hrest
  · exact UInt32.le_refl _
  · exact List.rel_of_pairwise_cons hsorted hrest

theorem mem_iff_of_filter_eq {first second : List Component}
    (hfilter : ∀ index, first.filter (·.declarationIndex = index)
      = second.filter (·.declarationIndex = index)) (component : Component) :
    component ∈ first ↔ component ∈ second := by
  have hsame := congrArg (component ∈ ·) (hfilter component.declarationIndex)
  simpa using hsame

/-- Ascending lists are equal if they have the same components of each index in the same order. -/
theorem eq_of_ascending {first second : List Component}
    (hfirst : first.Pairwise (·.declarationIndex ≤ ·.declarationIndex))
    (hsecond : second.Pairwise (·.declarationIndex ≤ ·.declarationIndex))
    (hfilter : ∀ index, first.filter (·.declarationIndex = index)
      = second.filter (·.declarationIndex = index)) : first = second := by
  have hmem := mem_iff_of_filter_eq hfilter
  induction first generalizing second with
  | nil =>
      refine (List.eq_nil_iff_forall_not_mem.mpr fun component hcomponent => ?_).symm
      exact List.not_mem_nil ((hmem component).mpr hcomponent)
  | cons head rest ih =>
      cases second with
      | nil => exact absurd ((hmem head).mp List.mem_cons_self) List.not_mem_nil
      | cons other others =>
          have hle := declarationIndex_le_of_mem hfirst ((hmem other).mpr List.mem_cons_self)
          have hge := declarationIndex_le_of_mem hsecond ((hmem head).mp List.mem_cons_self)
          have hindex := UInt32.le_antisymm hge hle
          -- The heads are the first ones of their index in both lists.
          have hheads := hfilter head.declarationIndex
          rw [List.filter_cons_of_pos (by simp), List.filter_cons_of_pos (by simp [hindex])] at hheads
          obtain ⟨rfl, -⟩ := List.cons.inj hheads
          have hrest : ∀ index, rest.filter (·.declarationIndex = index)
              = others.filter (·.declarationIndex = index) := by
            intro index
            have hcons := hfilter index
            rw [List.filter_cons, List.filter_cons] at hcons
            split at hcons
            · exact (List.cons.inj hcons).2
            · exact hcons
          rw [ih hfirst.of_cons hsecond.of_cons hrest (mem_iff_of_filter_eq hrest)]

theorem StablySorted.unique {listed sorted other : List Component}
    (hsorted : StablySorted listed sorted) (hother : StablySorted listed other) :
    sorted = other :=
  eq_of_ascending hsorted.ascending hother.ascending fun index =>
    (hsorted.stable index).trans (hother.stable index).symm

end Assembly
