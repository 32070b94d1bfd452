import Assembly.Proofs.Graph.Sequence

/-!
# Cycles among components

The search for a cycle answers for any list of components and any way to look them up, also where names
are shared or a component is listed twice: the nodes of the graph are what counts.
-/

namespace Assembly

namespace Walk

variable {n : Nat} {successors : Fin n → List (Fin n)}

/-- Without ways back between different nodes, a cycle is a node that leads to itself. -/
theorem IsCycle.eq_singleton {first : Fin n} {rest : List (Fin n)}
    (hcycle : IsCycle successors (first :: rest))
    (hloops : ∀ node other, Relation.TransGen (Leads successors) node other →
      Relation.TransGen (Leads successors) other node → node = other) : rest = [] := by
  obtain ⟨hnodup, hchain, head, last, hhead, hlast, hclosed⟩ := hcycle
  cases hhead
  cases rest with
  | nil => rfl
  | cons second others =>
      rw [List.isChain_cons_cons] at hchain
      rw [List.getLast?_cons_cons] at hlast
      have hback := reflTransGen_of_isChain hchain.2 hlast
      have heq := hloops first second (.single hchain.1) (.tail' hback hclosed)
      exact absurd (heq ▸ List.mem_cons_self) (List.nodup_cons.mp hnodup).1

end Walk

/-- There is a cycle to report exactly if the nodes have one. What is reported are the names of different
nodes each of which has to be constructed after the next one, and the last one after the first. A single
name is reported if nothing but single nodes stand in their own way. -/
theorem Graph.cycle_reported (components : List Component) (lookup : Lookup) :
    ((ofList components lookup).cycle? = none
      ↔ ∀ node, ¬Relation.TransGen (Walk.Leads (ofList components lookup).hard) node node)
      ∧ ∀ cycle, (ofList components lookup).cycle? = some cycle →
        ∃ first rest,
          cycle.path = (first :: rest).map
            (fun node => ((ofList components lookup).component node).displayName)
            ∧ (first :: rest).Nodup
            ∧ (first :: rest).IsChain (fun consumer provider =>
              provider ∈ (ofList components lookup).hard consumer)
            ∧ first ∈ (ofList components lookup).hard
              ((first :: rest).getLast (List.cons_ne_nil first rest))
            ∧ ((∀ node other, Relation.TransGen (Walk.Leads (ofList components lookup).hard) node other →
                Relation.TransGen (Walk.Leads (ofList components lookup).hard) other node →
                node = other) →
              rest = []) := by
  refine ⟨cycle?_eq_none_iff, fun cycle hcycle => ?_⟩
  obtain ⟨nodes, hsearch, rfl⟩ := Option.map_eq_some_iff.mp hcycle
  have hnodes := Walk.isCycle_of_cycle? hsearch
  obtain ⟨first, last, hfirst, hlast, hclosed⟩ := hnodes.closed
  obtain ⟨rest, rfl⟩ := List.head?_eq_some_iff.mp hfirst
  rw [List.getLast?_eq_some_getLast (List.cons_ne_nil first rest)] at hlast
  cases hlast
  exact ⟨first, rest, rfl, hnodes.nodup, hnodes.chain, hclosed, hnodes.eq_singleton⟩

/-- A visitor needs a hermit, who needs himself. -/
def hermitage : List Component :=
  [{ qualifiedName := "Visitor", displayName := "visitor"
     sites := [.constructor [.direct "Hermit"]] },
   { qualifiedName := "Hermit", displayName := "hermit", declarationIndex := 1
     sites := [.constructor [.direct "Hermit"]] }]

theorem hermit_reported :
    (Graph.ofList hermitage (Lookup.ofList hermitage)).cycle? = some ⟨["hermit"]⟩
      ∧ ∃ first rest,
        ["hermit"] = (first :: rest).map (fun node =>
          ((Graph.ofList hermitage (Lookup.ofList hermitage)).component node).displayName)
          ∧ first ∈ (Graph.ofList hermitage (Lookup.ofList hermitage)).hard
            ((first :: rest).getLast (List.cons_ne_nil first rest)) := by
  have hcycle : (Graph.ofList hermitage (Lookup.ofList hermitage)).cycle? = some ⟨["hermit"]⟩ := by
    decide +kernel
  obtain ⟨first, rest, hpath, -, -, hclosed, -⟩ :=
    (Graph.cycle_reported hermitage (Lookup.ofList hermitage)).2 _ hcycle
  exact ⟨hcycle, first, rest, hpath, hclosed⟩

end Assembly
