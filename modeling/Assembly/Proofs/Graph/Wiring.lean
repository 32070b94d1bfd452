import Mathlib.Data.List.FinRange
import Assembly.Graph.Basic
import Assembly.Proofs.Lookup.Search
import Assembly.Proofs.Walk.Outcome

/-!
# The graph of distinct components

Among distinct components the graph says nothing but what their declarations say: its nodes are the
components, a name leads to the one node that has it, a dependency is bound to its provider, and a
node has to be constructed after exactly those that its component needs.
-/

namespace Assembly

/-- The graph of components that are looked up among themselves. -/
def Graph.ofComponents (components : List Component) : Graph :=
  Graph.ofList components (Lookup.ofList components)

/-- The provider has to be constructed before the consumer. -/
def Needs (components : List Component) (consumer provider : Component) : Prop :=
  consumer ∈ components ∧ provider ∈ components
    ∧ ((∃ entry ∈ consumer.dependencies, entry.2.isHard = true
        ∧ entry.2.provider? components = some provider)
      ∨ provider.displayName ∈ consumer.dependsOn)

/-- What a component needs first: the providers of its hard dependencies, and then the components
that it is ordered after. -/
def Component.needed (components : List Component) (consumer : Component) : List Component :=
  (consumer.dependencies.filter (·.2.isHard)).filterMap (·.2.provider? components)
    ++ consumer.dependsOn.filterMap fun name => components.find? (·.displayName = name)

/-- A path between images comes from a path, if every step does. -/
theorem transGen_lift_back {α β : Type} {r : α → α → Prop} {s : β → β → Prop} {f : α → β}
    (hstep : ∀ first second, s (f first) second → ∃ next, f next = second ∧ r first next)
    {first : α} {last : β} (hpath : Relation.TransGen s (f first) last) :
    ∃ goal, f goal = last ∧ Relation.TransGen r first goal := by
  induction hpath with
  | single hlink =>
      obtain ⟨next, hnext, hr⟩ := hstep first _ hlink
      exact ⟨next, hnext, .single hr⟩
  | tail _ hlink ih =>
      obtain ⟨middle, rfl, hprefix⟩ := ih
      obtain ⟨next, hnext, hr⟩ := hstep middle _ hlink
      exact ⟨next, hnext, hprefix.tail hr⟩

/-- A map from pairs with different names holds exactly these pairs. -/
theorem NameMap.get?_ofList_eq_some_iff {α : Type} {pairs : List (String × α)}
    (hnodup : (pairs.map (·.1)).Nodup) {name : String} {value : α} :
    (NameMap.ofList pairs).get? name = some value ↔ (name, value) ∈ pairs := by
  rw [NameMap.get?_ofList]
  constructor
  · intro hfound
    obtain ⟨pair, hfind, rfl⟩ := Option.map_eq_some_iff.mp hfound
    have hname : pair.1 = name := by simpa using List.find?_some hfind
    subst hname
    exact List.mem_reverse.mp (List.mem_of_find?_eq_some hfind)
  · intro hmem
    cases hfind : pairs.reverse.find? (·.1 = name) with
    | none => simpa using List.find?_eq_none.mp hfind _ (List.mem_reverse.mpr hmem)
    | some pair =>
        have hname : pair.1 = name := by simpa using List.find?_some hfind
        have hpair := List.mem_reverse.mp (List.mem_of_find?_eq_some hfind)
        rw [List.inj_on_of_nodup_map hnodup hpair hmem hname]
        rfl

theorem Bound.provider?_eq_some_iff {n : Nat} {bound : Bound n} {node : Fin n} :
    bound.provider? = some node ↔ bound = .provider node := by
  cases bound <;> simp [Bound.provider?]

theorem Dependency.bound_eq_literal_iff {n : Nat} {lookup : Lookup} {index : NameMap (Fin n)}
    {dependency : Dependency} {token : String} :
    dependency.bound lookup index = .literal token ↔ dependency.literal = some token := by
  unfold bound
  cases dependency.literal with
  | some other => simp
  | none =>
      dsimp only
      split <;> simp

theorem Dependency.literal_of_isHard {dependency : Dependency} (hhard : dependency.isHard = true) :
    dependency.literal = none := by
  simp only [isHard, Bool.and_eq_true, Option.isNone_iff_eq_none] at hhard
  exact hhard.1.1

/-- Without a literal a dependency is as hard as the edge that it becomes. -/
theorem Dependency.isHard_iff {dependency : Dependency} (hliteral : dependency.literal = none) :
    dependency.isHard = true ↔ dependency.edgeKind.isHard = true := by
  unfold isHard edgeKind
  cases dependency.handover <;> cases dependency.allowMissing <;> simp [hliteral, EdgeKind.isHard]

/-- A soft dependency makes no hard link. -/
theorem Dependency.filter_link?_of_soft {n : Nat} {lookup : Lookup} {index : NameMap (Fin n)}
    {dependency : Dependency} (hsoft : dependency.isHard = false) :
    (dependency.link? lookup index).filter (·.kind.isHard) = none := by
  unfold link?
  rw [Option.filter_map]
  cases hliteral : dependency.literal with
  | some token =>
      rw [bound_eq_literal_iff.mpr hliteral]
      rfl
  | none =>
      have hkind : dependency.edgeKind.isHard = false := by
        rw [← Bool.not_eq_true, ← isHard_iff hliteral, hsoft]
        exact Bool.false_ne_true
      simp [Function.comp_def, hkind]

/-- The last element stays if it occurs nowhere before. -/
theorem eraseDups_concat {α : Type} [DecidableEq α] (elements : List α) (element : α) :
    (elements ++ [element]).eraseDups
      = if element ∈ elements then elements.eraseDups else elements.eraseDups ++ [element] := by
  by_cases hmem : element ∈ elements
  · simp [List.eraseDups_append, List.removeAll, hmem]
  · simp [List.eraseDups_append, List.eraseDups_cons, List.removeAll, hmem]

/-- Equal elements stay equal and different ones different, so the same of them come first. -/
theorem map_eraseDups_of_injective {α β : Type} [DecidableEq α] [DecidableEq β] {f : α → β}
    (hinjective : Function.Injective f) (elements : List α) :
    elements.eraseDups.map f = (elements.map f).eraseDups := by
  induction elements using List.reverseRecOn with
  | nil => rfl
  | append_singleton elements element ih =>
      rw [List.map_append, List.map_singleton, eraseDups_concat, eraseDups_concat]
      simp only [List.mem_map_of_injective hinjective]
      split
      · exact ih
      · rw [List.map_append, ih, List.map_singleton]

/-- The target of a hard link is added where it occurs first. -/
theorem addHard_eraseDups {n : Nat} (targets : List (Fin n)) (link : Link n) :
    addHard targets.eraseDups link
      = (targets ++ if link.kind.isHard then [link.target] else []).eraseDups := by
  unfold addHard
  cases link.kind.isHard with
  | false => simp
  | true =>
      rw [if_pos rfl, eraseDups_concat]
      by_cases hmem : link.target ∈ targets
      · simp [hmem]
      · simp [hmem]

theorem Node.hard_eq {n : Nat} (node : Node n) :
    node.hard = ((node.links.filter (·.kind.isHard)).map (·.target)).eraseDups := by
  unfold Node.hard
  induction node.links using List.reverseRecOn with
  | nil => rfl
  | append_singleton links link ih =>
      rw [List.foldl_append, List.foldl_cons, List.foldl_nil, ih, addHard_eraseDups,
        List.filter_append, List.map_append]
      cases hhard : link.kind.isHard with
      | false => simp [hhard]
      | true => simp [hhard]

namespace Graph

variable (components : List Component)

theorem component_ofComponents (node : Fin components.length) :
    (ofComponents components).component node = components.get node :=
  congrArg Node.component (Vector.getElem_ofFn node.isLt)

theorem components_ofComponents : (ofComponents components).components = components := by
  refine List.ext_getElem ?_ fun place hplace hplace' => ?_
  · exact (List.length_map _).trans (List.length_finRange)
  · have hnode : (ofComponents components).component ⟨place, hplace'⟩ = components[place] :=
      component_ofComponents components ⟨place, hplace'⟩
    simpa [Graph.components, allNodes] using hnode

theorem mem_components_iff {component : Component} :
    component ∈ components ↔ ∃ node, (ofComponents components).component node = component := by
  have hcomponents := components_ofComponents components
  constructor
  · intro hmem
    rw [← hcomponents] at hmem
    obtain ⟨node, -, hnode⟩ := List.mem_map.mp hmem
    exact ⟨node, hnode⟩
  · rintro ⟨node, rfl⟩
    have hmem : (ofComponents components).component node ∈ (ofComponents components).components :=
      List.mem_map_of_mem (List.mem_finRange node)
    rwa [hcomponents] at hmem

theorem nodes_ofComponents (node : Fin (ofComponents components).size) :
    (ofComponents components).nodes.get node
      = Node.ofComponent (Lookup.ofList components) (ofComponents components).index
        ((ofComponents components).component node) := by
  have hget : (ofComponents components).nodes.get node
      = Node.ofComponent (Lookup.ofList components) (ofComponents components).index
        components[(node : Nat)] := Vector.getElem_ofFn node.isLt
  rw [hget]
  exact congrArg _ (component_ofComponents components node).symm

theorem bindings_ofComponents (node : Fin (ofComponents components).size) :
    (ofComponents components).bindings node
      = ((ofComponents components).component node).dependencies.map fun entry =>
        entry.2.binding (Lookup.ofList components) (ofComponents components).index entry.1 :=
  congrArg Node.bindings (nodes_ofComponents components node)

/-- An edge says that its provider has to be constructed first exactly if the graph does. -/
theorem exists_hard_edge_iff (graph : Graph) (consumer provider : String) :
    (∃ edge ∈ graph.edges, edge.kind.isHard = true ∧ edge.consumer = consumer
        ∧ edge.provider = provider)
      ↔ ∃ node next, (graph.component node).displayName = consumer
        ∧ (graph.component next).displayName = provider ∧ next ∈ graph.hard node := by
  simp only [edges, edgesOf, allNodes, List.mem_flatMap, List.mem_map, hard,
    Node.hard_eq, List.mem_eraseDups, List.mem_filter]
  constructor
  · rintro ⟨_, ⟨node, -, link, hlink, rfl⟩, hhard, hconsumer, hprovider⟩
    exact ⟨node, link.target, hconsumer, hprovider, link, ⟨hlink, hhard⟩, rfl⟩
  · rintro ⟨node, _, hconsumer, hprovider, link, ⟨hlink, hhard⟩, rfl⟩
    exact ⟨_, ⟨node, List.mem_finRange node, link, hlink, rfl⟩, hhard, hconsumer, hprovider⟩

variable {components} (hdistinct : Distinct components)
include hdistinct

theorem component_injective :
    Function.Injective (ofComponents components).component := by
  intro first second heq
  rw [component_ofComponents components first, component_ofComponents components second] at heq
  exact Fin.ext ((List.Nodup.getElem_inj_iff hdistinct.nodup).mp heq)

theorem displayName_injective :
    Function.Injective fun node => ((ofComponents components).component node).displayName := by
  intro first second heq
  exact component_injective hdistinct (hdistinct.eq_of_displayName
    ((mem_components_iff components).mpr ⟨first, rfl⟩)
    ((mem_components_iff components).mpr ⟨second, rfl⟩) heq)

/-- A name leads to the node that has it. -/
theorem index_ofComponents {name : String} {node : Fin (ofComponents components).size} :
    (ofComponents components).index.get? name = some node
      ↔ ((ofComponents components).component node).displayName = name := by
  have hindex : (ofComponents components).index
      = NameMap.ofList (List.ofFn fun node : Fin (ofComponents components).size =>
        (((ofComponents components).component node).displayName, node)) := by
    refine congrArg NameMap.ofList (congrArg List.ofFn (funext fun place => ?_))
    rw [component_ofComponents]
    rfl
  have hnodup : ((List.ofFn fun node : Fin (ofComponents components).size =>
      (((ofComponents components).component node).displayName, node)).map (·.1)).Nodup := by
    rw [List.map_ofFn]
    exact List.nodup_ofFn.mpr (displayName_injective hdistinct)
  rw [hindex, NameMap.get?_ofList_eq_some_iff hnodup, List.mem_ofFn]
  constructor
  · rintro ⟨place, hplace⟩
    cases hplace
    rfl
  · rintro rfl
    exact ⟨node, rfl⟩

theorem nodeOf?_eq_some_iff {found : Option Component}
    (hfound : ∀ provider, found = some provider → provider ∈ components)
    {node : Fin (ofComponents components).size} :
    nodeOf? (ofComponents components).index found = some node
      ↔ found = some ((ofComponents components).component node) := by
  cases found with
  | none => simp [nodeOf?]
  | some provider =>
      have hprovider := hfound provider rfl
      have hnode := (mem_components_iff components).mpr ⟨node, rfl⟩
      rw [show nodeOf? (ofComponents components).index (some provider)
        = (ofComponents components).index.get? provider.displayName from rfl,
        index_ofComponents hdistinct, Option.some_inj]
      constructor
      · intro hname
        exact hdistinct.eq_of_displayName hprovider hnode hname.symm
      · rintro rfl
        rfl

theorem nodeOf?_eq_none_iff {found : Option Component}
    (hfound : ∀ provider, found = some provider → provider ∈ components) :
    nodeOf? (ofComponents components).index found = none ↔ found = none := by
  constructor
  · intro hnone
    cases found with
    | none => rfl
    | some provider =>
        obtain ⟨node, hnode⟩ := (mem_components_iff components).mp (hfound provider rfl)
        have hsome := (nodeOf?_eq_some_iff hdistinct hfound).mpr (congrArg some hnode.symm)
        rw [hnone] at hsome
        cases hsome
  · rintro rfl
    rfl

/-- A name that a component is ordered after leads to the node that has it. -/
theorem orderNode?_eq_some_iff {name : String} {node : Fin (ofComponents components).size} :
    orderNode? (Lookup.ofList components) (ofComponents components).index name = some node
      ↔ ((ofComponents components).component node).displayName = name := by
  unfold orderNode?
  rw [byDisplayName?_of_distinct hdistinct,
    nodeOf?_eq_some_iff hdistinct fun _ hfind => List.mem_of_find?_eq_some hfind,
    find?_displayName_eq_some_iff hdistinct]
  exact and_iff_right ((mem_components_iff components).mpr ⟨node, rfl⟩)

theorem orderNode?_isSome_iff {name : String} :
    (orderNode? (Lookup.ofList components) (ofComponents components).index name).isSome
      ↔ ∃ provider ∈ components, provider.displayName = name := by
  rw [Option.isSome_iff_exists]
  constructor
  · rintro ⟨node, hnode⟩
    exact ⟨_, (mem_components_iff components).mpr ⟨node, rfl⟩,
      (orderNode?_eq_some_iff hdistinct).mp hnode⟩
  · rintro ⟨provider, hmem, hname⟩
    obtain ⟨node, rfl⟩ := (mem_components_iff components).mp hmem
    exact ⟨node, (orderNode?_eq_some_iff hdistinct).mpr hname⟩

variable (hsorted : components.Pairwise (·.declarationIndex ≤ ·.declarationIndex))
include hsorted

theorem nodeOf?_find (dependency : Dependency) :
    nodeOf? (ofComponents components).index
        ((Lookup.ofList components).find dependency.requestedType dependency.qualifier).provider?
      = nodeOf? (ofComponents components).index (dependency.provider? components) :=
  congrArg _ (provider?_find hdistinct hsorted dependency)

/-- A dependency is bound to its provider unless it has a literal. -/
theorem bound_eq_provider_iff {dependency : Dependency}
    {node : Fin (ofComponents components).size} :
    dependency.bound (Lookup.ofList components) (ofComponents components).index = .provider node
      ↔ dependency.literal = none
        ∧ dependency.provider? components = some ((ofComponents components).component node) := by
  rw [← nodeOf?_eq_some_iff hdistinct fun _ hprovider => mem_of_provider? hprovider,
    ← nodeOf?_find hdistinct hsorted]
  unfold Dependency.bound
  cases dependency.literal with
  | some token => simp
  | none =>
      dsimp only
      split
      · next hfound => simp [hfound]
      · next hfound => simp [hfound]

theorem bound_eq_missing_iff {dependency : Dependency} :
    dependency.bound (Lookup.ofList components) (ofComponents components).index = .missing
      ↔ dependency.literal = none ∧ dependency.provider? components = none := by
  rw [← nodeOf?_eq_none_iff hdistinct fun _ hprovider => mem_of_provider? hprovider,
    ← nodeOf?_find hdistinct hsorted]
  unfold Dependency.bound
  cases dependency.literal with
  | some token => simp
  | none =>
      dsimp only
      split
      · next hfound => simp [hfound]
      · next hfound => simp [hfound]

theorem map_component_bound {dependency : Dependency} (hliteral : dependency.literal = none) :
    (dependency.bound (Lookup.ofList components) (ofComponents components).index).provider?.map
        (ofComponents components).component
      = dependency.provider? components := by
  refine Option.ext fun provider => ?_
  rw [Option.map_eq_some_iff]
  constructor
  · rintro ⟨node, hnode, rfl⟩
    exact ((bound_eq_provider_iff hdistinct hsorted).mp (Bound.provider?_eq_some_iff.mp hnode)).2
  · intro hprovider
    obtain ⟨node, rfl⟩ := (mem_components_iff components).mp (mem_of_provider? hprovider)
    have hbound := (bound_eq_provider_iff hdistinct hsorted).mpr ⟨hliteral, hprovider⟩
    exact ⟨node, Bound.provider?_eq_some_iff.mpr hbound, rfl⟩

theorem map_component_link? (dependency : Dependency) :
    ((dependency.link? (Lookup.ofList components) (ofComponents components).index).filter
        (·.kind.isHard)).map (fun link => (ofComponents components).component link.target)
      = if dependency.isHard then dependency.provider? components else none := by
  cases hhard : dependency.isHard with
  | false =>
      rw [Dependency.filter_link?_of_soft hhard]
      rfl
  | true =>
      have hliteral := Dependency.literal_of_isHard hhard
      have hkind := (Dependency.isHard_iff hliteral).mp hhard
      rw [if_pos rfl, ← map_component_bound hdistinct hsorted hliteral]
      unfold Dependency.link?
      cases (dependency.bound (Lookup.ofList components)
        (ofComponents components).index).provider? with
      | none => rfl
      | some node => simp [hkind]

omit hsorted in
theorem map_component_orderNode? (name : String) :
    (orderNode? (Lookup.ofList components) (ofComponents components).index name).map
        (ofComponents components).component
      = components.find? (·.displayName = name) := by
  refine Option.ext fun provider => ?_
  rw [Option.map_eq_some_iff, find?_displayName_eq_some_iff hdistinct]
  simp only [orderNode?_eq_some_iff hdistinct]
  constructor
  · rintro ⟨node, hname, rfl⟩
    exact ⟨(mem_components_iff components).mpr ⟨node, rfl⟩, hname⟩
  · rintro ⟨hprovider, hname⟩
    obtain ⟨node, rfl⟩ := (mem_components_iff components).mp hprovider
    exact ⟨node, hname, rfl⟩

/-- The nodes that have to be constructed first are those of what the component needs. -/
theorem map_component_hard (node : Fin (ofComponents components).size) :
    ((ofComponents components).hard node).map (ofComponents components).component
      = (((ofComponents components).component node).needed components).eraseDups := by
  unfold hard
  rw [Node.hard_eq, map_eraseDups_of_injective (component_injective hdistinct), nodes_ofComponents]
  simp only [Node.ofComponent, List.filter_append, List.map_append, List.filter_filterMap,
    List.map_filterMap, Option.map_map]
  unfold Component.needed
  rw [List.filterMap_filter]
  refine congrArg List.eraseDups (congrArg₂ (· ++ ·) ?_ ?_)
  · exact List.filterMap_congr fun entry _ => map_component_link? hdistinct hsorted entry.2
  · refine List.filterMap_congr fun name _ => ?_
    rw [← map_component_orderNode? hdistinct]
    cases orderNode? (Lookup.ofList components) (ofComponents components).index name <;> rfl

/-- A node has to be constructed after the nodes of what its component needs. -/
theorem mem_hard_iff {node next : Fin (ofComponents components).size} :
    next ∈ (ofComponents components).hard node
      ↔ Needs components ((ofComponents components).component node)
        ((ofComponents components).component next) := by
  have hnode := (mem_components_iff components).mpr ⟨node, rfl⟩
  have hnext := (mem_components_iff components).mpr ⟨next, rfl⟩
  rw [← List.mem_map_of_injective (component_injective hdistinct),
    map_component_hard hdistinct hsorted, List.mem_eraseDups]
  unfold Component.needed Needs
  simp only [List.mem_append, List.mem_filterMap, List.mem_filter, and_assoc,
    find?_displayName_eq_some_iff hdistinct, hnode, hnext, true_and, exists_eq_right']

end Graph

end Assembly
