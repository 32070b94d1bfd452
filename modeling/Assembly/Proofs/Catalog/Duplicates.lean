import Assembly.Proofs.Catalog.Distinct
import Assembly.Proofs.Catalog.Sorting

/-!
# Every duplicate once

Contradictory conditions apart, the faults of a catalog are what each component shares with the ones
before it and its surplus constructors. What was found at the components before makes no difference.
-/

namespace Assembly

/-- Whether the fault lies in conditions that contradict each other. -/
def CatalogFault.isContradiction : CatalogFault → Bool
  | .contradictoryPresence _ _ => true
  | _ => false

theorem isContradiction_of_mem_contradictions {component : Component} {fault : CatalogFault}
    (hmem : fault ∈ component.contradictions) : fault.isContradiction = true := by
  obtain ⟨target, -, rfl⟩ := List.mem_map.mp hmem
  rfl

theorem not_isContradiction_of_mem_duplicatesAfter {earlier : List Component}
    {component : Component} {fault : CatalogFault}
    (hmem : fault ∈ component.duplicatesAfter earlier) : fault.isContradiction = false := by
  simp only [Component.duplicatesAfter, List.mem_append, List.mem_ite_nil_right,
    List.mem_singleton, Option.mem_toList, Option.map_eq_some_iff] at hmem
  rcases hmem with ((⟨-, rfl⟩ | ⟨-, rfl⟩) | ⟨first, -, rfl⟩) | ⟨-, rfl⟩ <;> rfl

theorem filter_faultsAfter (earlier : List Component) (component : Component) :
    (component.faultsAfter earlier).filter (!·.isContradiction)
      = component.duplicatesAfter earlier := by
  have hduplicates : (component.duplicatesAfter earlier).filter (!·.isContradiction)
      = component.duplicatesAfter earlier :=
    List.filter_eq_self.mpr fun fault hmem => by
      rw [not_isContradiction_of_mem_duplicatesAfter hmem, Bool.not_false]
  have hcontradictions : component.contradictions.filter (!·.isContradiction) = [] :=
    List.filter_eq_nil_iff.mpr fun fault hmem => by
      rw [isContradiction_of_mem_contradictions hmem]
      exact Bool.false_ne_true
  rw [Component.faultsAfter, List.filter_append, hduplicates, hcontradictions, List.append_nil]

theorem filter_faultsAmong (earlier components : List Component) :
    (faultsAmong earlier components).filter (!·.isContradiction)
      = (components.mapIdx fun place component =>
        component.duplicatesAfter (earlier ++ components.take place)).flatten := by
  induction components generalizing earlier with
  | nil => rfl
  | cons component rest ih =>
      calc (faultsAmong earlier (component :: rest)).filter (!·.isContradiction)
        _ = component.duplicatesAfter earlier
            ++ (rest.mapIdx fun place next =>
              next.duplicatesAfter (earlier ++ [component] ++ rest.take place)).flatten := by
          rw [faultsAmong, List.filter_append, filter_faultsAfter, ih]
        _ = ((component :: rest).mapIdx fun place next =>
            next.duplicatesAfter (earlier ++ (component :: rest).take place)).flatten := by
          rw [List.mapIdx_cons, List.flatten_cons]
          simp

namespace Catalog

/-- The catalog has the declared components in the order of their indices, those of one index as
they are declared. In this order each one is found to have a type, a name or an index that a
component before it has, with the first one that has the index, and then more than one constructor.
If nothing is found then no two of the declared components share any of the three. -/
theorem duplicates_reported (declared : List Component) :
    StablySorted declared (ofList declared).components
      ∧ (ofList declared).faults.filter (!·.isContradiction)
        = ((ofList declared).components.mapIdx fun place component =>
          component.duplicatesAfter ((ofList declared).components.take place)).flatten
      ∧ ((ofList declared).faults = [] →
        Distinct declared ∧ ∀ component ∈ declared, component.constructorCount ≤ 1) := by
  have hsorted := stablySorted_byIndex declared
  refine ⟨hsorted, ?_, fun hfaults => ?_⟩
  · rw [faults_eq, filter_faultsAmong]
    rfl
  · obtain ⟨hdistinct, hconsistent⟩ := faults_eq_nil_iff.mp hfaults
    refine ⟨hdistinct.perm hsorted.perm, fun component hmem => ?_⟩
    exact (hconsistent component (hsorted.perm.mem_iff.mpr hmem)).constructorCount

end Catalog

def mug : Component :=
  { qualifiedName := "Cup", displayName := "cup", declarationIndex := 1
    conditions := [.missing ["Tray"] [], .present ["Tray"] []]
    sites := [.constructor [], .constructor []] }

def cup : Component :=
  { qualifiedName := "Cup", displayName := "cup", declarationIndex := 2 }

def jar : Component :=
  { qualifiedName := "Jar", displayName := "jar", declarationIndex := 2 }

/-- The mug is declared after the cup but has a lower index, and its conditions contradict each
other. -/
theorem cup_reported :
    (Catalog.ofList [cup, mug, jar]).faults.filter (!·.isContradiction)
        = [.multipleConstructors "cup" 2, .duplicateQualifiedName "Cup", .duplicateDisplayName "cup",
          .duplicateIndex 2 "cup" "jar"]
      ∧ (Catalog.ofList [jar, cup.withIndex 1]).faults = []
      ∧ Distinct [jar, cup.withIndex 1] := by
  have hmug : StablySorted [cup, mug, jar] [mug, cup, jar] := by decide +kernel
  have hcup : StablySorted [jar, cup.withIndex 1] [cup.withIndex 1, jar] := by decide +kernel
  obtain ⟨hsorted, hreported, -⟩ := Catalog.duplicates_reported [cup, mug, jar]
  obtain ⟨hsorted', -, hdistinct⟩ := Catalog.duplicates_reported [jar, cup.withIndex 1]
  have hfaults : (Catalog.ofList [jar, cup.withIndex 1]).faults = [] := by
    rw [Catalog.faults, hsorted'.unique hcup]
    decide +kernel
  refine ⟨?_, hfaults, (hdistinct hfaults).1⟩
  rw [hreported, hsorted.unique hmug]
  decide +kernel

end Assembly
