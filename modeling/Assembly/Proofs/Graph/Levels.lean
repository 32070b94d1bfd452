import Assembly.Proofs.Graph.Sequence
import Assembly.Proofs.Walk.Longest

/-!
# Levels of components

A level says how many constructions have to come one after the other before that of a component. It is
known for every component from which no cycle can be reached, whatever list the graph is made from
and however its dependencies are looked up.
-/

namespace Assembly

namespace Graph

variable {graph : Graph}

theorem get_levels_eq_levelOver (node : Fin graph.size) :
    graph.levels.get node = Walk.levelOver graph.levels.get (graph.hard node) :=
  Walk.get_levels_eq_levelOver node

theorem cycle?_eq_none_iff_levels :
    graph.cycle? = none ↔ ∀ node, graph.levels.get node ≠ none := by
  constructor
  · intro hcycle node
    obtain ⟨level, hlevel⟩ :=
      Walk.exists_level_of_cycle?_eq_none (Option.map_eq_none_iff.mp hcycle) node
    exact Option.ne_none_iff_exists'.mpr ⟨level, hlevel⟩
  · intro hlevels
    refine cycle?_eq_none_iff.mpr fun node hpath => ?_
    exact hlevels node (Walk.levels_eq_none_iff.mpr ⟨node, .refl, hpath⟩)

end Graph

/-- A component has no level exactly if it lies on a cycle or reaches one. Its level is the length of
the longest path from it, and just as well it is zero if nothing has to be constructed before it and
otherwise one more than the greatest level of what has to be. The search for a cycle finds none
exactly if there is a level everywhere. -/
theorem Graph.levels_longest (components : List Component) (lookup : Lookup) :
    (∀ node, (ofList components lookup).levels.get node = none
        ↔ Walk.ReachesCycle (ofList components lookup).hard node)
      ∧ (∀ node level, (ofList components lookup).levels.get node = some level
        ↔ IsGreatest (Walk.pathLengths (ofList components lookup).hard node) level)
      ∧ (∀ node level, (ofList components lookup).levels.get node = some level
        ↔ (∀ provider ∈ (ofList components lookup).hard node,
            (ofList components lookup).levels.get provider ≠ none)
          ∧ Walk.OneDeeper (ofList components lookup).levels.get
            ((ofList components lookup).hard node) level)
      ∧ ((ofList components lookup).cycle? = none
        ↔ ∀ node, (ofList components lookup).levels.get node ≠ none) := by
  refine ⟨fun node => Walk.levels_eq_none_iff, fun node level => Walk.levels_eq_some_iff,
    fun node level => ?_, cycle?_eq_none_iff_levels⟩
  rw [← Walk.levelOver_eq_some_iff, ← get_levels_eq_levelOver]

/-- A roof needs the ground and the walls, which need the ground as well. The tenant needs the roof
and a landlord, who needs the tenant. -/
def house : List Component :=
  [{ qualifiedName := "Roof", displayName := "roof"
     sites := [.constructor [.direct "Ground", .direct "Walls"]] },
   { qualifiedName := "Walls", displayName := "walls", dependsOn := ["ground"] },
   { qualifiedName := "Ground", displayName := "ground" },
   { qualifiedName := "Tenant", displayName := "tenant"
     sites := [.constructor [.direct "Roof", .direct "Landlord"]] },
   { qualifiedName := "Landlord", displayName := "landlord", dependsOn := ["tenant"] }]

theorem house_levels :
    (Graph.ofList house (Lookup.ofList house)).levels
        = ⟨#[some 2, some 1, some 0, none, none], rfl⟩
      ∧ IsGreatest (Walk.pathLengths (Graph.ofList house (Lookup.ofList house)).hard
          (0 : Fin 5)) 2
      ∧ Walk.ReachesCycle (Graph.ofList house (Lookup.ofList house)).hard (4 : Fin 5) := by
  have hlevels : (Graph.ofList house (Lookup.ofList house)).levels
      = ⟨#[some 2, some 1, some 0, none, none], rfl⟩ := by decide +kernel
  obtain ⟨hnone, hlongest, -, -⟩ := Graph.levels_longest house (Lookup.ofList house)
  refine ⟨hlevels, (hlongest (0 : Fin 5) 2).mp ?_, (hnone (4 : Fin 5)).mp ?_⟩
  · rw [hlevels]
    rfl
  · rw [hlevels]
    rfl

end Assembly
