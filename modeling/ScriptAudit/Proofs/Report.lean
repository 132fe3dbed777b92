import ScriptAudit.Report

/-!
# Outcomes

How a run ends is decided by single diagnostics: one about something unreadable makes it unreadable,
else one that counts as a failure makes it fail. So the exit code grows with what is reported, and
with the warnings that count.
-/

namespace ScriptAudit

/-- Whether a diagnostic makes a run fail when warnings count as failures or do not. -/
def Diagnostic.Fails (failOnWarnings : Bool) (x : Diagnostic) : Prop :=
  x.severity = .error ∨ failOnWarnings = true ∧ x.severity = .warning

instance (failOnWarnings : Bool) (x : Diagnostic) : Decidable (x.Fails failOnWarnings) :=
  inferInstanceAs (Decidable (x.severity = .error ∨ failOnWarnings = true ∧ x.severity = .warning))

namespace Report

variable {r s : Report} {failOnWarnings : Bool}

theorem outcome_eq : r.outcome failOnWarnings =
    if ∃ x ∈ r.diagnostics, x.kind = .ioError then .unreadable
    else if ∃ x ∈ r.diagnostics, x.Fails failOnWarnings then .failed
    else .passed := by
  have unreadable : 0 < r.summary.unreadable ↔ ∃ x ∈ r.diagnostics, x.kind = .ioError := by
    simp [summary, summarize, List.countP_pos_iff]
  have errors : 0 < r.summary.errors ↔ ∃ x ∈ r.diagnostics, x.severity = .error := by
    simp [summary, summarize, List.countP_pos_iff]
  have warnings : 0 < r.summary.warnings ↔ ∃ x ∈ r.diagnostics, x.severity = .warning := by
    simp [summary, summarize, List.countP_pos_iff]
  have fails : (0 < r.summary.errors || (failOnWarnings && 0 < r.summary.warnings)) = true ↔
      ∃ x ∈ r.diagnostics, x.Fails failOnWarnings := by
    rw [Bool.or_eq_true, Bool.and_eq_true, decide_eq_true_iff, decide_eq_true_iff, errors, warnings]
    constructor
    · rintro (⟨x, hx, error⟩ | ⟨counts, x, hx, warning⟩)
      · exact ⟨x, hx, Or.inl error⟩
      · exact ⟨x, hx, Or.inr ⟨counts, warning⟩⟩
    · rintro ⟨x, hx, error | ⟨counts, warning⟩⟩
      · exact Or.inl ⟨x, hx, error⟩
      · exact Or.inr ⟨counts, x, hx, warning⟩
  simp only [outcome, unreadable, fails]

theorem outcome_eq_unreadable_iff :
    r.outcome failOnWarnings = .unreadable ↔ ∃ x ∈ r.diagnostics, x.kind = .ioError := by
  rw [outcome_eq]
  split
  · rename_i some
    exact iff_of_true rfl some
  · rename_i none
    refine iff_of_false (fun h => ?_) none
    split at h <;> cases h

/-- More diagnostics, or warnings that count, never lower the exit code. -/
theorem exitCode_outcome_le {weak strong : Bool} (more : r.diagnostics ⊆ s.diagnostics)
    (stronger : weak = true → strong = true) :
    (r.outcome weak).exitCode ≤ (s.outcome strong).exitCode := by
  rw [outcome_eq, outcome_eq]
  split
  case isTrue unreadable =>
    obtain ⟨x, hx, kind⟩ := unreadable
    have unreadable' : ∃ x ∈ s.diagnostics, x.kind = .ioError := ⟨x, more hx, kind⟩
    exact Nat.le_of_eq (congrArg Outcome.exitCode (if_pos unreadable').symm)
  case isFalse =>
    split
    case isTrue failed =>
      obtain ⟨x, hx, fails⟩ := failed
      have failed' : ∃ x ∈ s.diagnostics, x.Fails strong :=
        ⟨x, more hx, fails.imp_right fun ⟨counts, warning⟩ => ⟨stronger counts, warning⟩⟩
      rw [if_pos failed']
      split <;> decide
    case isFalse => exact Nat.zero_le _

end Report

end ScriptAudit
