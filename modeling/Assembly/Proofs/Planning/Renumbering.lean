import Assembly.Proofs.Planning.Parallel

/-!
# Only the order of the indices counts

Declaration indices say which components come first and nothing else. A catalog does not depend on
the order in which its components are listed, nor on the numbers that their indices are, as long as
no two components share an index: whatever a run finds, it finds under any other numbering of the
same order.
-/

namespace Assembly

namespace Alike

variable {n : Nat} {first second : Fin n → Component} (halike : Alike first second)
  (hsites : ∀ node, (second node).sites = (first node).sites)
  (hconditions : ∀ node, (second node).conditions = (first node).conditions)
include halike hsites hconditions

/-- With the same injection sites and the same conditions everything else is the same. -/
theorem plan_eq (excluded : List Exclusion) (strict : Bool) :
    Activation.plan ⟨List.ofFn second, excluded⟩ strict
      = Activation.plan ⟨List.ofFn first, excluded⟩ strict := by
  have hhard := halike.hard_eq hsites
  have hfindings :
      (Graph.ofFn second).allFindings (Lookup.ofList (List.ofFn second)) strict excluded
        = (Graph.ofFn first).allFindings (Lookup.ofList (List.ofFn first)) strict excluded := by
    unfold Graph.allFindings
    rw [halike.findings_eq hsites, halike.cycle?_eq hhard, halike.fragilities_eq hhard hconditions]
  have hstep : ∀ warnings node,
      (Graph.ofFn second).step (Graph.ofFn second).levels warnings node
        = (Graph.ofFn first).step (Graph.ofFn first).levels warnings node := by
    intro warnings node
    have hinclusion : (second node).inclusion = (first node).inclusion := by
      unfold Component.inclusion Component.isConditional Component.conditionsText
      rw [hconditions]
    rw [halike.step_eq_of_sites hsites warnings warnings node, hinclusion]
    unfold Graph.step Graph.stepWith
    simp only [Graph.component_ofFn]
  have hplan : ∀ findings, (Graph.ofFn second).plan (Graph.ofFn second).sorted findings
      = (Graph.ofFn first).plan (Graph.ofFn first).sorted findings := by
    intro findings
    have hsteps : ((Graph.ofFn second).plan (Graph.ofFn second).sorted findings).steps
        = ((Graph.ofFn first).plan (Graph.ofFn first).sorted findings).steps := by
      rw [Graph.steps_plan (Graph.displayName_ofFn_injective halike.distinct_second),
        Graph.steps_plan (Graph.displayName_ofFn_injective halike.distinct),
        halike.sequence_eq hhard]
      exact List.map_congr_left fun node _ => hstep findings.warnings node
    exact congrArg₂ (Plan.mk · · findings) hsteps (halike.edges_eq hsites)
  rw [Activation.plan_ofFn, Activation.plan_ofFn, hfindings]
  simp only [hplan]

end Alike

/-- The component under another index. -/
def Component.renumbered (renumber : UInt32 → UInt32) (component : Component) : Component :=
  component.withIndex (renumber component.declarationIndex)

theorem Component.resembles_renumbered (renumber : UInt32 → UInt32) (component : Component) :
    component.Resembles (component.renumbered renumber) :=
  component.resembles_of_rest _ _ _

section Renumbering

variable {components : List Component} {renumber : UInt32 → UInt32}
  (hindices : (components.map (·.declarationIndex)).Nodup)
  (hrenumber : ∀ first ∈ components, ∀ second ∈ components,
    first.declarationIndex < second.declarationIndex →
      renumber first.declarationIndex < renumber second.declarationIndex)
include hrenumber

theorem declaredBefore_renumbered {first second : Component} (hfirst : first ∈ components)
    (hsecond : second ∈ components) :
    (first.renumbered renumber).declaredBefore (second.renumbered renumber)
      = first.declaredBefore second := by
  refine decide_eq_decide.mpr ⟨fun hle => ?_, fun hle => ?_⟩
  · by_contra hnot
    have hlt := hrenumber second hsecond first hfirst (UInt32.not_le.mp hnot)
    exact UInt32.not_le.mpr hlt hle
  · by_cases heq : first.declarationIndex = second.declarationIndex
    · exact UInt32.le_of_eq (congrArg renumber heq)
    · exact UInt32.le_of_lt (hrenumber first hfirst second hsecond (UInt32.lt_of_le_of_ne hle heq))

include hindices

/-- A list of other numbers, in any order, is sorted to the same components. -/
theorem byIndex_renumbered {others : List Component} (hothers : others.Perm components) :
    byIndex (others.map (Component.renumbered renumber))
      = (byIndex components).map (Component.renumbered renumber) := by
  have hsorted : (byIndex components).Perm components := List.mergeSort_perm _ _
  refine List.Perm.eq_of_pairwise ?_ (pairwise_byIndex _) ?_ ?_
  · intro first second hfirst hsecond hle hge
    obtain ⟨first, hmem, rfl⟩ := List.mem_map.mp ((List.mergeSort_perm _ _).mem_iff.mp hfirst)
    obtain ⟨second, hmem', rfl⟩ := List.mem_map.mp hsecond
    have hmem := hothers.mem_iff.mp hmem
    have hmem' := hsorted.mem_iff.mp hmem'
    have hindex := declarationIndex_eq_iff.mp (UInt32.le_antisymm hle hge)
    rw [declaredBefore_renumbered hrenumber hmem hmem',
      declaredBefore_renumbered hrenumber hmem' hmem, ← declarationIndex_eq_iff] at hindex
    rw [List.inj_on_of_nodup_map hindices hmem hmem' hindex]
  · rw [List.pairwise_map]
    refine (pairwise_byIndex components).imp_of_mem fun hfirst hsecond hle => ?_
    have hbefore := declaredBefore_renumbered hrenumber (hsorted.mem_iff.mp hfirst)
      (hsorted.mem_iff.mp hsecond)
    simpa [Component.declaredBefore, hle] using hbefore
  · exact (List.mergeSort_perm _ _).trans ((hothers.trans hsorted.symm).map _)

/-- A catalog whose indices are all different is planned alike when its components are listed in
another order and their indices are replaced by others of the same order. -/
theorem Catalog.plan_renumbered {others : List Component} (hothers : others.Perm components)
    (options : Options) (environment : Environment) :
    (ofList (others.map (Component.renumbered renumber))).plan options environment
      = (ofList components).plan options environment := by
  have hsorted : (byIndex components).Perm components := List.mergeSort_perm _ _
  have hdifferent := (hsorted.map (·.declarationIndex)).nodup_iff.mpr hindices
  have hparallel : Parallel (byIndex components) id (Component.renumbered renumber) :=
    { resembles := Component.resembles_renumbered renumber
      constructorCount := fun _ => rfl
      conditions := fun _ => rfl
      declaredBefore := fun item hitem other hother =>
        declaredBefore_renumbered hrenumber (hsorted.mem_iff.mp hitem) (hsorted.mem_iff.mp hother)
      sharedIndex := (List.pairwise_map.mp hdifferent).imp fun hne heq => absurd heq hne }
  have hcatalog : (ofList components).components = (byIndex components).map id :=
    (List.map_id _).symm
  have hother : (ofList (others.map (Component.renumbered renumber))).components
      = (byIndex components).map (Component.renumbered renumber) :=
    byIndex_renumbered hindices hrenumber hothers
  rcases hparallel.plan_cases hcatalog hother options environment with
    ⟨findings, hplan, hplan'⟩ | ⟨n, item, excluded, halike, -, -, -, hplan, hplan'⟩
  · exact hplan'.trans hplan.symm
  · rw [hplan, hplan']
    exact halike.plan_eq (fun _ => rfl) (fun _ => rfl) excluded options.strict

end Renumbering

/-- A shop takes a cart, the cart a price list and the price list the shop. -/
def circular : Catalog where
  components :=
    [{ qualifiedName := "Shop", displayName := "shop", declarationIndex := 2
       sites := [.constructor [.direct "Cart"]] },
     { qualifiedName := "Cart", displayName := "cart", declarationIndex := 5
       sites := [.field "prices" (.direct "Prices")] },
     { qualifiedName := "Prices", displayName := "prices", declarationIndex := 9
       dependsOn := ["shop"] }]
  ascending := by decide

/-- The circle is reported from the component on that is declared first, wherever it is listed. -/
theorem circular_shuffled :
    ∃ findings, (Catalog.ofList [circular.components[2].withIndex 70,
          circular.components[0].withIndex 0, circular.components[1].withIndex 40]).plan {} {}
        = .error findings
      ∧ findings.errors = [.cycle ⟨["shop", "cart", "prices"]⟩] := by
  have hsame := @Catalog.plan_renumbered circular.components
    (fun index => if index = 2 then 0 else if index = 5 then 40 else 70) (by decide) (by decide)
    [circular.components[2], circular.components[0], circular.components[1]] (by decide) {} {}
  have hplan : circular.plan {} {} = Activation.plan ⟨circular.components, []⟩ false :=
    Catalog.plan_of_decided (by decide +kernel) rfl
  rw [Activation.plan_eq, if_neg (by decide +kernel)] at hplan
  rw [Catalog.ofList_of_pairwise circular.ascending] at hsame
  exact ⟨_, hsame.trans hplan, by decide +kernel⟩

end Assembly
