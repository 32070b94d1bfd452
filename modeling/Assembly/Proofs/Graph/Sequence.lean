import Assembly.Graph.Order
import Assembly.Proofs.Graph.Wiring
import Assembly.Proofs.Walk.Search

/-!
# The sequence of construction

A plan lists the singletons by level and then the prototypes. What a node has to be constructed
after has a lower level. A singleton below a node therefore comes before it, also where the path
between them leads through prototypes, which the sequence moves to its end.
-/

namespace Assembly

/-- What decides where a component stands in a plan. -/
structure Rank where
  scope : Scope
  level : Nat
  index : UInt32

/-- Singletons come first and by level, components of one level by declaration, and prototypes come
by declaration alone. -/
def Rank.Precedes (first second : Rank) : Prop :=
  match first.scope, second.scope with
  | .singleton, .prototype => True
  | .prototype, .singleton => False
  | .prototype, .prototype => first.index < second.index
  | .singleton, .singleton =>
    first.level < second.level ∨ first.level = second.level ∧ first.index < second.index

theorem Rank.not_precedes {lower upper : Rank} (hscope : lower.scope = .singleton)
    (hlevel : lower.level < upper.level) : ¬upper.Precedes lower := by
  unfold Precedes
  rw [hscope]
  cases upper.scope with
  | singleton =>
      rintro (hlt | ⟨heq, -⟩)
      · exact Nat.lt_asymm hlevel hlt
      · exact Nat.ne_of_gt hlevel heq
  | prototype => exact id

/-- Of two elements of an ordered list the one that cannot come second comes first. -/
theorem pair_sublist_of_pairwise {α : Type} {r : α → α → Prop} {list : List α} {first second : α}
    (hordered : list.Pairwise r) (hfirst : first ∈ list) (hsecond : second ∈ list)
    (hne : first ≠ second) (hnot : ¬r second first) : [first, second].Sublist list := by
  induction list with
  | nil => cases hfirst
  | cons head rest ih =>
      obtain ⟨hhead, hrest⟩ := List.pairwise_cons.mp hordered
      rcases List.mem_cons.mp hfirst with rfl | hlater
      · have hbehind := List.mem_of_ne_of_mem hne.symm hsecond
        exact (List.singleton_sublist.mpr hbehind).cons_cons first
      · rcases List.mem_cons.mp hsecond with rfl | hbehind
        · exact absurd (hhead first hlater) hnot
        · exact (ih hrest hlater hbehind).cons head

namespace Graph

section

variable (graph : Graph)

/-- The nodes by level, and those of one level by declaration. -/
def sorted : List (Fin graph.size) :=
  graph.allNodes.mergeSort (graph.ordered graph.levels)

/-- The nodes in the order of the steps. -/
def sequence : List (Fin graph.size) :=
  (graph.sorted.filter fun node => (graph.component node).scope = .singleton)
    ++ graph.allNodes.filter fun node => (graph.component node).scope = .prototype

/-- A missing level counts as zero. -/
def level (node : Fin graph.size) : Nat :=
  (graph.levels.get node).getD 0

def rank (node : Fin graph.size) : Rank where
  scope := (graph.component node).scope
  level := graph.level node
  index := (graph.component node).declarationIndex

variable {graph}

theorem order_of_cycle?_eq_none (hcycle : graph.cycle? = none) :
    graph.order = .ok graph.sorted := by
  unfold order sorted
  rw [hcycle]

theorem cycle?_eq_none_iff :
    graph.cycle? = none ↔ ∀ node, ¬Relation.TransGen (Walk.Leads graph.hard) node node := by
  unfold cycle?
  rw [Option.map_eq_none_iff, Walk.cycle?_eq_none_iff]

/-- Without a cycle, whatever a node has to be constructed after has a lower level. -/
theorem level_lt_of_transGen (hcycle : graph.cycle? = none) {node below : Fin graph.size}
    (hpath : Relation.TransGen (Walk.Leads graph.hard) node below) :
    graph.level below < graph.level node := by
  obtain ⟨level, hlevel⟩ :=
    Walk.exists_level_of_cycle?_eq_none (Option.map_eq_none_iff.mp hcycle) node
  obtain ⟨lower, hlower, hlt⟩ := Walk.lt_of_transGen hlevel hpath
  unfold Graph.level levels
  rw [hlevel, hlower]
  exact hlt

theorem sorted_perm : graph.sorted.Perm graph.allNodes :=
  List.mergeSort_perm _ _

theorem sequence_perm : graph.sequence.Perm graph.allNodes := by
  have hscope : (fun node => decide ((graph.component node).scope = .prototype))
      = fun node => !decide ((graph.component node).scope = .singleton) := by
    funext node
    cases (graph.component node).scope <;> rfl
  have hsingletons := sorted_perm.filter fun node =>
    decide ((graph.component node).scope = .singleton)
  unfold sequence
  rw [hscope]
  exact (hsingletons.append_right _).trans (List.filter_append_perm _ _)

theorem ordered_iff {first second : Fin graph.size} :
    graph.ordered graph.levels first second = true
      ↔ graph.level first < graph.level second
        ∨ graph.level first = graph.level second
          ∧ (graph.component first).declarationIndex
            ≤ (graph.component second).declarationIndex := by
  simp [ordered, level, Component.declaredBefore]

theorem ordered_trans (first second third : Fin graph.size)
    (hfirst : graph.ordered graph.levels first second)
    (hsecond : graph.ordered graph.levels second third) :
    graph.ordered graph.levels first third := by
  rw [ordered_iff] at *
  rcases hfirst with hlt | ⟨heq, hle⟩
  · rcases hsecond with hlt' | ⟨heq', -⟩
    · exact .inl (Nat.lt_trans hlt hlt')
    · exact .inl (heq' ▸ hlt)
  · rcases hsecond with hlt' | ⟨heq', hle'⟩
    · exact .inl (heq ▸ hlt')
    · exact .inr ⟨heq.trans heq', UInt32.le_trans hle hle'⟩

theorem ordered_total (first second : Fin graph.size) :
    graph.ordered graph.levels first second || graph.ordered graph.levels second first := by
  rw [Bool.or_eq_true, ordered_iff, ordered_iff]
  rcases Nat.lt_trichotomy (graph.level first) (graph.level second) with hlt | heq | hgt
  · exact .inl (.inl hlt)
  · rcases UInt32.le_total (graph.component first).declarationIndex
      (graph.component second).declarationIndex with hle | hle
    · exact .inl (.inr ⟨heq, hle⟩)
    · exact .inr (.inr ⟨heq.symm, hle⟩)
  · exact .inr (.inl hgt)

theorem pairwise_sorted :
    graph.sorted.Pairwise fun first second => graph.ordered graph.levels first second = true :=
  List.pairwise_mergeSort ordered_trans ordered_total _

end

section Distinct

variable {components : List Component} (hdistinct : Distinct components)
  (hsorted : components.Pairwise (·.declarationIndex ≤ ·.declarationIndex))
include hdistinct

theorem index_lt_of_le {first second : Fin (ofComponents components).size} (hne : first ≠ second)
    (hle : ((ofComponents components).component first).declarationIndex
      ≤ ((ofComponents components).component second).declarationIndex) :
    ((ofComponents components).component first).declarationIndex
      < ((ofComponents components).component second).declarationIndex := by
  refine UInt32.lt_of_le_of_ne hle fun heq => hne ?_
  exact component_injective hdistinct (hdistinct.eq_of_declarationIndex
    ((mem_components_iff components).mpr ⟨first, rfl⟩)
    ((mem_components_iff components).mpr ⟨second, rfl⟩) heq)

include hsorted

/-- The components of a plan are in the order of their ranks. -/
theorem pairwise_sequence :
    (ofComponents components).sequence.Pairwise fun first second =>
      ((ofComponents components).rank first).Precedes ((ofComponents components).rank second) := by
  have hscope : ∀ {nodes : List (Fin (ofComponents components).size)} {node scope},
      node ∈ nodes.filter (fun node => ((ofComponents components).component node).scope = scope)
        → ((ofComponents components).component node).scope = scope :=
    fun hmem => of_decide_eq_true (List.mem_filter.mp hmem).2
  -- Among singletons the sort decides, among prototypes the list of the components.
  refine List.pairwise_append.mpr ⟨?_, ?_, ?_⟩
  · have hnodup : (ofComponents components).sorted.Nodup :=
      sorted_perm.nodup_iff.mpr (List.nodup_finRange _)
    refine List.Pairwise.imp_of_mem ?_ ((pairwise_sorted.and hnodup).filter _)
    rintro first second hfirst hsecond ⟨hordered, hne⟩
    unfold Rank.Precedes rank
    simp only [hscope hfirst, hscope hsecond]
    rcases ordered_iff.mp hordered with hlt | ⟨heq, hle⟩
    · exact .inl hlt
    · exact .inr ⟨heq, index_lt_of_le hdistinct hne hle⟩
  · refine List.Pairwise.imp_of_mem ?_ ((List.pairwise_lt_finRange _).filter _)
    intro first second hfirst hsecond hlt
    unfold Rank.Precedes rank
    simp only [hscope hfirst, hscope hsecond]
    refine index_lt_of_le hdistinct (Fin.ne_of_lt hlt) ?_
    rw [component_ofComponents components first, component_ofComponents components second]
    exact List.pairwise_iff_getElem.mp hsorted _ _ first.isLt second.isLt hlt
  · intro first hfirst second hsecond
    unfold Rank.Precedes rank
    simp only [hscope hfirst, hscope hsecond]

end Distinct

end Graph

end Assembly
