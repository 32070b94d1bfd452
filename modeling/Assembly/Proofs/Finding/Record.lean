import Assembly.Finding.Record
import Assembly.Proofs.Json.Distinction

/-!
# Findings as records

Different findings are written differently, whatever their names and messages are.
-/

namespace Assembly

open Json

theorem Position.faithful : Faithful Position.toJson where
  whole position := by cases position <;> simp [toJson]
  injective first second heq := by cases first <;> cases second <;> simp_all [toJson]

theorem CatalogFault.faithful : Faithful CatalogFault.toJson where
  whole fault := by cases fault <;> simp [toJson]
  injective first second heq := by cases first <;> cases second <;> simp_all [toJson]

theorem Request.faithful : Faithful Request.toJson where
  whole request := by cases hqualifier : request.qualifier <;> simp [toJson, hqualifier]
  injective first second heq := by
    obtain ⟨requestedType, qualifier⟩ := first
    obtain ⟨requestedType', qualifier'⟩ := second
    -- A record without a qualifier is shorter.
    cases qualifier <;> cases qualifier' <;> simp_all [toJson]

theorem UnboundReason.faithful : Faithful UnboundReason.toJson where
  whole reason := by cases reason <;> simp [toJson, faithful_strings.whole]
  injective first second heq := by
    cases first <;> cases second <;> simp_all [toJson, faithful_strings.eq_iff]

theorem BindingFault.faithful : Faithful BindingFault.toJson where
  whole fault := by
    simp [toJson, Request.faithful.whole, Position.faithful.whole, UnboundReason.faithful.whole]
  injective first second heq := by
    obtain ⟨component, request, position, reason⟩ := first
    obtain ⟨component', request', position', reason'⟩ := second
    simpa [toJson, Request.faithful.eq_iff, Position.faithful.eq_iff, UnboundReason.faithful.eq_iff]
      using heq

theorem Cycle.faithful : Faithful Cycle.toJson where
  whole cycle := by simp [toJson, faithful_strings.whole]
  injective first second heq := by
    obtain ⟨path⟩ := first
    obtain ⟨path'⟩ := second
    simpa [toJson, faithful_strings.eq_iff] using heq

theorem WarningKind.name_injective : Function.Injective WarningKind.name := by
  intro first second heq
  cases first <;> cases second <;> simp_all [name]

theorem Warning.faithful : Faithful Warning.toJson where
  whole warning := by simp [toJson]
  injective first second heq := by
    obtain ⟨component, kind, message⟩ := first
    obtain ⟨component', kind', message'⟩ := second
    simpa [toJson, WarningKind.name_injective.eq_iff] using heq

theorem ExclusionReason.faithful : Faithful ExclusionReason.toJson where
  whole reason := by cases reason <;> simp [toJson, faithful_strings.whole]
  injective first second heq := by
    cases first <;> cases second <;> simp_all [toJson, faithful_strings.eq_iff]

theorem Exclusion.faithful : Faithful Exclusion.toJson where
  whole exclusion := by simp [toJson, ExclusionReason.faithful.array.whole]
  injective first second heq := by
    obtain ⟨component, reasons⟩ := first
    obtain ⟨component', reasons'⟩ := second
    simpa [toJson, ExclusionReason.faithful.array.eq_iff] using heq

theorem PlanFault.faithful : Faithful PlanFault.toJson where
  whole fault := by
    cases fault <;>
      simp [toJson, CatalogFault.faithful.whole, BindingFault.faithful.whole, Cycle.faithful.whole,
        Warning.faithful.whole]
  injective first second heq := by
    cases first <;> cases second <;>
      simp_all [toJson, CatalogFault.faithful.eq_iff, BindingFault.faithful.eq_iff,
        Cycle.faithful.eq_iff, Warning.faithful.eq_iff]

theorem Findings.faithful : Faithful Findings.toJson where
  whole findings := by
    simp [toJson, PlanFault.faithful.array.whole, Warning.faithful.array.whole,
      Exclusion.faithful.array.whole]
  injective first second heq := by
    obtain ⟨errors, warnings, excluded⟩ := first
    obtain ⟨errors', warnings', excluded'⟩ := second
    simpa [toJson, PlanFault.faithful.array.eq_iff, Warning.faithful.array.eq_iff,
      Exclusion.faithful.array.eq_iff] using heq

end Assembly
