import Assembly.Plan.Record
import Assembly.Proofs.Finding.Record

/-!
# Plans as records

The text of a plan determines it: what code is made from is all that was planned.
-/

namespace Assembly

open Json

theorem Source.faithful : Faithful Source.toJson where
  whole source := by cases source <;> simp [toJson, faithful_orNull.whole]
  injective first second heq := by
    cases first <;> cases second <;> simp_all [toJson, faithful_orNull.eq_iff]

theorem Argument.faithful : Faithful Argument.toJson where
  whole argument := by simp [toJson, Position.faithful.whole, Source.faithful.whole]
  injective first second heq := by
    obtain ⟨position, source⟩ := first
    obtain ⟨position', source'⟩ := second
    simpa [toJson, Position.faithful.eq_iff, Source.faithful.eq_iff] using heq

theorem Hooks.faithful : Faithful Hooks.toJson where
  whole hooks := by simp [toJson, faithful_strings.whole]
  injective first second heq := by
    obtain ⟨init, destroy⟩ := first
    obtain ⟨init', destroy'⟩ := second
    simpa [toJson, faithful_strings.eq_iff] using heq

theorem Scope.name_injective : Function.Injective Scope.name := by
  intro first second heq
  cases first <;> cases second <;> simp_all [name]

theorem Step.faithful : Faithful Step.toJson where
  whole step := by
    simp [toJson, Argument.faithful.array.whole, faithful_strings.whole, Hooks.faithful.whole,
      Warning.faithful.array.whole]
  injective first second heq := by
    obtain ⟨component, qualifiedName, scope, lazy, primary, level, arguments, dependsOn, hooks,
      inclusion, warnings⟩ := first
    obtain ⟨component', qualifiedName', scope', lazy', primary', level', arguments', dependsOn',
      hooks', inclusion', warnings'⟩ := second
    simpa [toJson, Scope.name_injective.eq_iff, Argument.faithful.array.eq_iff,
      faithful_strings.eq_iff, Hooks.faithful.eq_iff, Warning.faithful.array.eq_iff] using heq

theorem EdgeKind.name_injective : Function.Injective EdgeKind.name := by
  intro first second heq
  cases first <;> cases second <;> simp_all [name]

theorem Edge.faithful : Faithful Edge.toJson where
  whole edge := by simp [toJson]
  injective first second heq := by
    obtain ⟨consumer, provider, kind⟩ := first
    obtain ⟨consumer', provider', kind'⟩ := second
    simpa [toJson, EdgeKind.name_injective.eq_iff] using heq

namespace Plan

theorem faithful : Faithful toJson where
  whole plan := by
    simp [toJson, Step.faithful.array.whole, Edge.faithful.array.whole, Findings.faithful.whole]
  injective first second heq := by
    obtain ⟨steps, edges, findings⟩ := first
    obtain ⟨steps', edges', findings'⟩ := second
    simpa [toJson, Step.faithful.array.eq_iff, Edge.faithful.array.eq_iff,
      Findings.faithful.eq_iff] using heq

/-- Plans of one text have the same steps, edges and findings. -/
theorem jsonText_eq_iff (first second : Plan) :
    first.jsonText = second.jsonText
      ↔ first.steps = second.steps ∧ first.edges = second.edges ∧ first.findings = second.findings := by
  have hsame : first.jsonText = second.jsonText ↔ first = second :=
    (faithful.write_injective blank_indented).eq_iff
  rw [hsame]
  cases first
  cases second
  simp only [Plan.mk.injEq]

end Plan

end Assembly
