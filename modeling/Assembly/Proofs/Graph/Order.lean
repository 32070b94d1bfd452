import Assembly.Proofs.Catalog.Sorting
import Assembly.Proofs.Graph.Levels

/-!
# The order of construction

Sorting by level looks at no edge, and yet it puts whatever a component has to be constructed after in
front of it, because levels fall along hard edges. Among components of one level and one index the
stable sort keeps the order of the list, also where a component is listed twice.
-/

namespace Assembly

namespace Graph

variable {graph : Graph}

/-- A node comes before another one by its level, then by its declaration index and then by its
number. -/
def Before (graph : Graph) (first second : Fin graph.size) : Prop :=
  graph.level first < graph.level second
    ∨ graph.level first = graph.level second
      ∧ ((graph.component first).declarationIndex < (graph.component second).declarationIndex
        ∨ (graph.component first).declarationIndex = (graph.component second).declarationIndex
          ∧ first < second)

instance : DecidableRel graph.Before :=
  fun _ _ => inferInstanceAs (Decidable (_ ∨ _ ∧ (_ ∨ _ ∧ _)))

theorem Before.asymm {first second : Fin graph.size} (hbefore : graph.Before first second) :
    ¬graph.Before second first := by
  rintro (hlevel | ⟨hlevel, hindex | ⟨hindex, hlt⟩⟩)
  · rcases hbefore with hlt | ⟨heq, -⟩
    · exact Nat.lt_asymm hlevel hlt
    · exact Nat.ne_of_gt hlevel heq
  · rcases hbefore with hlt | ⟨-, hlt | ⟨heq, -⟩⟩
    · exact Nat.ne_of_gt hlt hlevel
    · exact UInt32.lt_asymm hindex hlt
    · exact UInt32.ne_of_lt hindex heq.symm
  · rcases hbefore with hlt' | ⟨-, hlt' | ⟨-, hlt'⟩⟩
    · exact Nat.ne_of_gt hlt' hlevel
    · exact UInt32.ne_of_lt hlt' hindex.symm
    · exact Nat.lt_asymm hlt hlt'

theorem order_eq_error_iff {cycle : Cycle} :
    graph.order = .error cycle ↔ graph.cycle? = some cycle := by
  unfold order
  cases graph.cycle? with
  | none => simp
  | some found => simp

theorem order_eq_ok_iff {nodes : List (Fin graph.size)} :
    graph.order = .ok nodes ↔ graph.cycle? = none ∧ graph.sorted = nodes := by
  unfold order
  cases graph.cycle? with
  | none => simp [sorted]
  | some found => simp

theorem exists_order_eq_error_iff :
    (∃ cycle, graph.order = .error cycle)
      ↔ ∃ node, Relation.TransGen (Walk.Leads graph.hard) node node := by
  simp only [order_eq_error_iff]
  rw [← Option.ne_none_iff_exists', Ne, cycle?_eq_none_iff]
  push Not
  rfl

/-- Nodes of one level and one index are sorted by their numbers. -/
theorem lt_of_sublist_sorted {first second : Fin graph.size}
    (hsublist : [first, second].Sublist graph.sorted)
    (hlevel : graph.level first = graph.level second)
    (hindex : (graph.component first).declarationIndex
      = (graph.component second).declarationIndex) : first < second := by
  have hforth : graph.ordered graph.levels first second :=
    ordered_iff.mpr (.inr ⟨hlevel, UInt32.le_of_eq hindex⟩)
  have hback : graph.ordered graph.levels second first :=
    ordered_iff.mpr (.inr ⟨hlevel.symm, UInt32.le_of_eq hindex.symm⟩)
  have hlisted := pair_sublist_of_mergeSort ordered_trans ordered_total hsublist hforth hback
  exact List.pairwise_iff_forall_sublist.mp (List.pairwise_lt_finRange graph.size) hlisted

theorem pairwise_before : graph.sorted.Pairwise graph.Before := by
  refine List.pairwise_iff_forall_sublist.mpr fun {first second} hsublist => ?_
  have hordered := List.pairwise_iff_forall_sublist.mp pairwise_sorted hsublist
  rcases ordered_iff.mp hordered with hlt | ⟨hlevel, hle⟩
  · exact .inl hlt
  · rcases UInt32.lt_or_eq_of_le hle with hlt | hindex
    · exact .inr ⟨hlevel, .inl hlt⟩
    · exact .inr ⟨hlevel, .inr ⟨hindex, lt_of_sublist_sorted hsublist hlevel hindex⟩⟩

/-- No other list of the nodes is sorted. -/
theorem sorted_eq {nodes : List (Fin graph.size)} (hnodes : nodes.Perm graph.allNodes)
    (hbefore : nodes.Pairwise graph.Before) : graph.sorted = nodes := by
  refine List.Perm.eq_of_pairwise ?_ pairwise_before hbefore (sorted_perm.trans hnodes.symm)
  intro first second _ _ hfirst hsecond
  exact absurd hsecond hfirst.asymm

/-- Without a cycle, what a node has to be constructed after comes first. -/
theorem pair_sublist_sorted (hcycle : graph.cycle? = none) {consumer provider : Fin graph.size}
    (hprovider : provider ∈ graph.hard consumer) :
    [provider, consumer].Sublist graph.sorted := by
  have hlt : graph.level provider < graph.level consumer :=
    level_lt_of_transGen hcycle (.single hprovider)
  have hmem := fun node => sorted_perm.mem_iff.mpr (List.mem_finRange (n := graph.size) node)
  refine pair_sublist_of_pairwise pairwise_before (hmem provider) (hmem consumer) ?_ ?_
  · rintro rfl
    exact Nat.lt_irrefl _ hlt
  · rintro (hgt | ⟨heq, -⟩)
    · exact Nat.lt_asymm hlt hgt
    · exact Nat.ne_of_lt hlt heq.symm

end Graph

/-- There is no order exactly if there is a cycle, and the cycle that the search finds is given
instead. An order has every node of the list once and whatever a node has to be constructed after in
front of it. Every node has a level then, and the nodes stand by their levels, those of one level by
their declaration indices, and those of one index by their numbers. -/
theorem Graph.order_topological (components : List Component) (lookup : Lookup) :
    (∀ cycle, (ofList components lookup).order = .error cycle
        ↔ (ofList components lookup).cycle? = some cycle)
      ∧ ((∃ cycle, (ofList components lookup).order = .error cycle)
        ↔ ∃ node, Relation.TransGen (Walk.Leads (ofList components lookup).hard) node node)
      ∧ ∀ nodes, (ofList components lookup).order = .ok nodes →
        nodes.Perm (List.finRange components.length)
          ∧ (∀ consumer, ∀ provider ∈ (ofList components lookup).hard consumer,
            [provider, consumer].Sublist nodes)
          ∧ (∀ node, (ofList components lookup).levels.get node ≠ none)
          ∧ nodes.Pairwise (ofList components lookup).Before := by
  refine ⟨fun cycle => order_eq_error_iff, exists_order_eq_error_iff, fun nodes horder => ?_⟩
  obtain ⟨hcycle, rfl⟩ := order_eq_ok_iff.mp horder
  exact ⟨sorted_perm, fun consumer provider => pair_sublist_sorted hcycle,
    cycle?_eq_none_iff_levels.mp hcycle, pairwise_before⟩

/-- A meal needs a stove of its own index, and a guest is listed twice. -/
def kitchen : List Component :=
  [{ qualifiedName := "Meal", displayName := "meal", declarationIndex := 2
     sites := [.constructor [.direct "Stove"]] },
   { qualifiedName := "Stove", displayName := "stove", declarationIndex := 2 },
   { qualifiedName := "Guest", displayName := "guest", declarationIndex := 1 },
   { qualifiedName := "Guest", displayName := "guest", declarationIndex := 1 }]

def kitchenGraph : Graph :=
  Graph.ofList kitchen (Lookup.ofList kitchen)

instance : NeZero kitchenGraph.size :=
  ⟨Nat.succ_ne_zero 3⟩

theorem kitchen_order :
    kitchenGraph.order = .ok [2, 3, 1, 0]
      ∧ 1 ∈ kitchenGraph.hard 0
      ∧ [(1 : Fin kitchenGraph.size), 0].Sublist [2, 3, 1, 0]
      ∧ [2, 3, 1, 0].Pairwise kitchenGraph.Before := by
  have horder : kitchenGraph.order = .ok [2, 3, 1, 0] :=
    Graph.order_eq_ok_iff.mpr
      ⟨by decide +kernel, Graph.sorted_eq (by decide +kernel) (by decide +kernel)⟩
  have hneeds : 1 ∈ kitchenGraph.hard 0 := by decide +kernel
  obtain ⟨-, hfirst, -, hbefore⟩ :=
    (Graph.order_topological kitchen (Lookup.ofList kitchen)).2.2 _ horder
  exact ⟨horder, hneeds, hfirst _ _ hneeds, hbefore⟩

end Assembly
