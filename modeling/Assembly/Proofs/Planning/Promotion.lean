import Mathlib.Data.List.Perm.Basic
import Assembly.Planning
import Assembly.Proofs.Graph.Wiring

/-!
# Turning warnings into faults

In strict mode every warning becomes a fault. An ambiguous provider becomes one where it is found,
and is bound all the same, so that what is found later does not depend on the mode. All other
warnings become faults at the end.
-/

namespace Assembly

/-- The fault of strict mode in the place of a warning. -/
inductive Becomes : Warning → PlanFault → Prop where
  | ambiguous {component : String} {request : Request} {position : Position} {chosen : Component}
    {candidates : List Component} :
    Becomes ⟨component, .ambiguity, ambiguityMessage position request chosen candidates⟩
      (.resolution
        ⟨component, request, position, .ambiguous (candidates.map (·.displayName))⟩)
  | strict {warning : Warning} (hkind : warning.kind ≠ .ambiguity) :
    Becomes warning (.strict warning)

/-- The faults of strict mode are the other faults and, one to one, what the warnings become. -/
def Promotes (errors : List PlanFault) (warnings : List Warning) (strictErrors : List PlanFault) :
    Prop :=
  ∃ promoted, List.Forall₂ Becomes warnings promoted ∧ strictErrors.Perm (errors ++ promoted)

theorem perm_append_right_comm {α : Type} (first second third : List α) :
    (first ++ second ++ third).Perm (first ++ third ++ second) := by
  rw [List.append_assoc, List.append_assoc]
  exact List.perm_append_comm.append_left first

namespace Promotes

variable {errors errors' strictErrors strictErrors' : List PlanFault}
  {warnings warnings' : List Warning}

theorem unchanged (errors : List PlanFault) : Promotes errors [] errors :=
  ⟨[], .nil, by rw [List.append_nil]⟩

theorem of_kind (hkind : ∀ warning ∈ warnings, warning.kind ≠ .ambiguity) :
    Promotes [] warnings (warnings.map .strict) := by
  refine ⟨warnings.map .strict, ?_, .refl _⟩
  rw [List.forall₂_map_right_iff, List.forall₂_same]
  intro warning hwarning
  exact .strict (hkind warning hwarning)

theorem perm (hpromotes : Promotes errors warnings strictErrors)
    (hperm : strictErrors'.Perm strictErrors) : Promotes errors warnings strictErrors' := by
  obtain ⟨promoted, hbecomes, hstrict⟩ := hpromotes
  exact ⟨promoted, hbecomes, hperm.trans hstrict⟩

theorem append (hpromotes : Promotes errors warnings strictErrors)
    (hpromotes' : Promotes errors' warnings' strictErrors') :
    Promotes (errors ++ errors') (warnings ++ warnings') (strictErrors ++ strictErrors') := by
  obtain ⟨promoted, hbecomes, hstrict⟩ := hpromotes
  obtain ⟨promoted', hbecomes', hstrict'⟩ := hpromotes'
  refine ⟨promoted ++ promoted', List.rel_append hbecomes hbecomes', ?_⟩
  refine (hstrict.append hstrict').trans ?_
  calc errors ++ promoted ++ (errors' ++ promoted')
      = errors ++ promoted ++ errors' ++ promoted' := (List.append_assoc _ _ _).symm
    List.Perm _ (errors ++ errors' ++ promoted ++ promoted') :=
        (perm_append_right_comm errors promoted errors').append_right promoted'
    _ = errors ++ errors' ++ (promoted ++ promoted') := List.append_assoc _ _ _

theorem flatMap {α : Type} {list : List α} {errors strictErrors : α → List PlanFault}
    {warnings : α → List Warning}
    (hpromotes : ∀ item ∈ list, Promotes (errors item) (warnings item) (strictErrors item)) :
    Promotes (list.flatMap errors) (list.flatMap warnings) (list.flatMap strictErrors) := by
  induction list with
  | nil => exact unchanged []
  | cons item rest ih =>
      have hrest := ih fun other hother => hpromotes other (List.mem_cons_of_mem item hother)
      exact (hpromotes item List.mem_cons_self).append hrest

theorem eq_nil_iff (hpromotes : Promotes errors warnings strictErrors) :
    strictErrors = [] ↔ errors = [] ∧ warnings = [] := by
  obtain ⟨promoted, hbecomes, hstrict⟩ := hpromotes
  have hlength := hbecomes.length_eq
  rw [← List.length_eq_zero_iff, hstrict.length_eq, List.length_append, ← hlength,
    Nat.add_eq_zero_iff, List.length_eq_zero_iff, List.length_eq_zero_iff]

end Promotes

/-! ### What is found about a dependency -/

section Dependency

variable (lookup : Lookup) (strict : Bool) (component : String) (entry : Position × Dependency)

def Dependency.faults : List PlanFault :=
  ((entry.2.unbound? lookup strict).map fun reason =>
    .resolution ⟨component, entry.2.request, entry.1, reason⟩).toList

def Dependency.warnings : List Warning :=
  ((entry.2.doubt? lookup strict entry.1).map fun doubt =>
    ⟨component, doubt.1, doubt.2⟩).toList

/-- An ambiguous provider is a fault in strict mode and a warning otherwise. Whatever else is found
is found in both modes. -/
theorem Dependency.promotes :
    Promotes (Dependency.faults lookup false component entry)
      (Dependency.warnings lookup false component entry)
      (Dependency.faults lookup true component entry
        ++ (Dependency.warnings lookup true component entry).map .strict) := by
  unfold Dependency.faults Dependency.warnings Dependency.unbound? Dependency.doubt?
  cases entry.2.literal with
  | some token => exact .unchanged []
  | none =>
      cases lookup.find entry.2.requestedType entry.2.qualifier with
      | found provider =>
          refine .of_kind fun warning hwarning => ?_
          obtain ⟨doubt, hdoubt, rfl⟩ := Option.map_eq_some_iff.mp (Option.mem_toList.mp hwarning)
          dsimp only at hdoubt
          split at hdoubt
          · cases hdoubt
            exact WarningKind.noConfusion
          · cases hdoubt
      -- The only case in which the modes differ: a warning in one, a fault in the other.
      | ambiguous chosen candidates => exact ⟨[_], .cons .ambiguous .nil, .refl _⟩
      | notFound => exact (Promotes.unchanged _).perm (List.Perm.of_eq (List.append_nil _))

/-- The warnings about a dependency say that its provider is ambiguous or not of the type. -/
theorem Dependency.kind_of_warnings {warning : Warning}
    (hwarning : warning ∈ Dependency.warnings lookup strict component entry) :
    warning.kind = .ambiguity ∨ warning.kind = .qualifierTypeMismatch := by
  obtain ⟨doubt, hdoubt, rfl⟩ := Option.map_eq_some_iff.mp (Option.mem_toList.mp hwarning)
  unfold Dependency.doubt? at hdoubt
  cases hliteral : entry.2.literal with
  | some token =>
      rw [hliteral] at hdoubt
      cases hdoubt
  | none =>
      rw [hliteral] at hdoubt
      cases hfind : lookup.find entry.2.requestedType entry.2.qualifier with
      | found provider =>
          simp only [hfind] at hdoubt
          split at hdoubt
          · cases hdoubt
            exact .inr rfl
          · cases hdoubt
      | ambiguous chosen candidates =>
          simp only [hfind] at hdoubt
          split at hdoubt
          · cases hdoubt
          · cases hdoubt
            exact .inl rfl
      | notFound =>
          simp only [hfind] at hdoubt
          cases hdoubt

end Dependency

namespace Graph

variable (graph : Graph) (lookup : Lookup)

/-- The names that a component is ordered after but that no component has. -/
def orderFaults (component : Component) : List PlanFault :=
  (component.dependsOn.filter fun name => (orderNode? lookup graph.index name).isNone).map
    fun name => .resolution
      ⟨component.displayName, { requestedType := name }, .dependsOn, .unknownName⟩

theorem faultsOf_eq (strict : Bool) (component : Component) :
    (graph.faultsOf lookup strict component).map PlanFault.resolution
      = component.dependencies.flatMap (Dependency.faults lookup strict component.displayName)
        ++ graph.orderFaults lookup component := by
  unfold faultsOf orderFaults
  rw [List.map_append, List.map_map, List.filterMap_eq_flatMap_toList, List.map_flatMap]
  refine congrArg (· ++ _) (List.flatMap_congr fun entry _ => ?_)
  rw [← Option.toList_map, Option.map_map]
  rfl

theorem warningsOf_eq (strict : Bool) (component : Component) :
    warningsOf lookup strict component
      = component.dependencies.flatMap
        (Dependency.warnings lookup strict component.displayName) := by
  unfold warningsOf
  rw [List.filterMap_eq_flatMap_toList]
  rfl

theorem promotes_of_component (component : Component) :
    Promotes ((graph.faultsOf lookup false component).map .resolution)
      (warningsOf lookup false component)
      ((graph.faultsOf lookup true component).map .resolution
        ++ (warningsOf lookup true component).map .strict) := by
  have hdependencies := @Promotes.flatMap _ component.dependencies _ _ _ fun entry _ =>
    Dependency.promotes lookup component.displayName entry
  have hall := hdependencies.append (.unchanged (graph.orderFaults lookup component))
  rw [List.append_nil, ← warningsOf_eq, ← faultsOf_eq] at hall
  refine hall.perm ?_
  rw [faultsOf_eq, warningsOf_eq, List.map_flatMap]
  exact (perm_append_right_comm _ _ _).trans ((List.flatMap_append_perm _ _ _).append_right _)

theorem promotes_of_bindings :
    Promotes (graph.findings lookup false).errors (graph.findings lookup false).warnings
      ((graph.findings lookup true).errors
        ++ (graph.findings lookup true).warnings.map .strict) := by
  have hcomponents := @Promotes.flatMap _ graph.components _ _ _ fun component _ =>
    graph.promotes_of_component lookup component
  unfold findings
  simp only [List.map_flatMap]
  exact hcomponents.perm (List.flatMap_append_perm _ _ _)

theorem kind_of_fragilities {warning : Warning} (hwarning : warning ∈ graph.fragilities) :
    warning.kind ≠ .ambiguity := by
  unfold fragilities Component.fragilities at hwarning
  obtain ⟨node, -, hwarning⟩ := List.mem_flatMap.mp hwarning
  obtain ⟨provider, -, hwarning⟩ := List.mem_flatMap.mp hwarning
  rcases List.mem_append.mp hwarning with hconditional | hlazy
  · split at hconditional
    · rw [List.mem_singleton.mp hconditional]
      exact WarningKind.noConfusion
    · cases hconditional
  · split at hlazy
    · rw [List.mem_singleton.mp hlazy]
      exact WarningKind.noConfusion
    · cases hlazy

/-- The findings of a run in strict mode are those of a run in the other mode, with every warning
turned into a fault. -/
theorem promotes_of_findings (excluded : List Exclusion) :
    Promotes (graph.allFindings lookup false excluded).errors
      (graph.allFindings lookup false excluded).warnings
      (graph.allFindings lookup true excluded).errors := by
  have hcycle := Promotes.unchanged (graph.cycle?.map PlanFault.cycle).toList
  have hfragile := Promotes.of_kind fun _ => graph.kind_of_fragilities
  have hall := ((graph.promotes_of_bindings lookup).append hcycle).append hfragile
  rw [List.append_nil, List.append_nil] at hall
  refine hall.perm ?_
  change ((graph.findings lookup true).errors ++ _
    ++ ((graph.findings lookup true).warnings ++ graph.fragilities).map PlanFault.strict).Perm _
  rw [List.map_append, ← List.append_assoc]
  exact (perm_append_right_comm _ _ _).append_right _

end Graph

end Assembly
