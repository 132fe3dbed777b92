import ScriptAudit.Proofs.Diagnostic
import ScriptAudit.Proofs.Report
import ScriptAudit.Proofs.Rule

/-!
# How a report is arranged

A report holds what it is made of, sorted, and in the order given where the order does not tell
two diagnostics apart. Grouping looks at neighbours only. In a sorted list this is enough: what is
of one file stands together, so each file has one group with all its diagnostics.
-/

namespace ScriptAudit

namespace Diagnostic

/-- The report order spelled out. -/
def Precedes (a b : Diagnostic) : Prop :=
  a.file < b.file ∨ a.file = b.file ∧
    (lineRank a.line < lineRank b.line ∨ a.line = b.line ∧
      (a.ruleId < b.ruleId ∨ a.ruleId = b.ruleId ∧ a.message ≤ b.message))

/-- Nothing in the order tells the two apart. -/
def Ties (a b : Diagnostic) : Prop :=
  a.file = b.file ∧ a.line = b.line ∧ a.ruleId = b.ruleId ∧ a.message = b.message

instance (a b : Diagnostic) : Decidable (Ties a b) :=
  inferInstanceAs (Decidable (a.file = b.file ∧ a.line = b.line ∧ a.ruleId = b.ruleId ∧
    a.message = b.message))

theorem compare_lt_iff {s t : String} : compare s t = .lt ↔ s < t :=
  compareOfLessAndEq_eq_lt

theorem compare_isLE_iff {s t : String} : (compare s t).isLE = true ↔ s ≤ t := by
  by_cases same : s = t
  · simp [same]
  · have apart : compare s t ≠ .eq := fun tied => same (Std.compare_eq_iff_eq.1 tied)
    have strict : (compare s t).isLE = true ↔ s < t := by
      rw [← compare_lt_iff]
      revert apart
      cases compare s t <;> simp
    rw [strict]
    constructor
    · intro lt
      by_cases le : s ≤ t
      · exact le
      · exact absurd (String.lt_trans lt (String.not_le.1 le)) (String.lt_irrefl s)
    · exact fun le => Std.lt_of_le_of_ne le same

theorem le_iff_precedes {a b : Diagnostic} : le a b = true ↔ Precedes a b := by
  have line : compare (lineRank a.line) (lineRank b.line) = .eq ↔ a.line = b.line := by
    constructor
    · exact fun tied => lineRank_inj (Std.compare_eq_iff_eq.1 tied)
    · exact fun same => Std.compare_eq_iff_eq.2 (congrArg lineRank same)
  simp only [le, order, compareLex, compareOn, Ordering.isLE_then_iff_or, compare_lt_iff,
    compare_isLE_iff, Std.compare_eq_iff_eq, Nat.compare_eq_lt, line, Precedes]

/-- What ties stays in the order given. -/
theorem filter_ties_sort (d : Diagnostic) (ds : List Diagnostic) :
    (sort ds).filter (Ties d ·) = ds.filter (Ties d ·) := by
  refine filter_sortBy (fun a b ha hb => ?_) ds
  obtain ⟨file, line, ruleId, message⟩ := of_decide_eq_true ha
  obtain ⟨file', line', ruleId', message'⟩ := of_decide_eq_true hb
  have tied : order a b = .eq := order_eq_iff.2 ⟨file.symm.trans file', line.symm.trans line',
    ruleId.symm.trans ruleId', message.symm.trans message'⟩
  rw [le, tied]
  rfl

theorem pairwise_file_sort (ds : List Diagnostic) : (sort ds).Pairwise (·.file ≤ ·.file) := by
  refine (pairwise_sort ds).imp fun {a b} before => ?_
  rcases le_iff_precedes.1 before with lt | ⟨same, _⟩
  · exact Std.le_of_lt lt
  · exact Std.le_of_eq same

end Diagnostic

namespace Report

/-! ## Groups of neighbours -/

/-- The first group is of the first diagnostic's file and begins with it. -/
theorem exists_groups_cons (d : Diagnostic) (rest : List Diagnostic) :
    ∃ own more, groups (d :: rest) = (d.file, d :: own) :: more := by
  rw [groups]
  cases groups rest with
  | nil => exact ⟨[], [], rfl⟩
  | cons g more =>
    by_cases same : g.1 = d.file
    · exact ⟨g.2, more, by simp [same]⟩
    · exact ⟨[], g :: more, by simp [same]⟩

theorem flatMap_groups (ds : List Diagnostic) : (groups ds).flatMap (·.2) = ds := by
  induction ds with
  | nil => rfl
  | cons d rest ih =>
    rw [groups]
    cases split : groups rest with
    | nil =>
      rw [split] at ih
      simp [← ih]
    | cons g more =>
      rw [split] at ih
      by_cases same : g.1 = d.file
      · simp [same, ← ih]
      · simp [same, ← ih]

/-- Every group is of one file and not empty. -/
theorem of_mem_groups {ds : List Diagnostic} {g : String × List Diagnostic}
    (hg : g ∈ groups ds) : g.2 ≠ [] ∧ ∀ x ∈ g.2, x.file = g.1 := by
  induction ds generalizing g with
  | nil => cases hg
  | cons d rest ih =>
    rw [groups] at hg
    cases split : groups rest with
    | nil =>
      rw [split] at hg
      obtain rfl := List.mem_singleton.1 hg
      simp
    | cons h more =>
      rw [split] at hg ih
      by_cases same : h.1 = d.file
      · simp only [same, if_true, List.mem_cons] at hg
        rcases hg with rfl | later
        · have own := (ih List.mem_cons_self).2
          rw [same] at own
          exact ⟨List.cons_ne_nil _ _, List.forall_mem_cons.2 ⟨rfl, own⟩⟩
        · exact ih (List.mem_cons_of_mem _ later)
      · simp only [same, if_false, List.mem_cons] at hg
        rcases hg with rfl | hg
        · simp
        · exact ih (List.mem_cons.2 hg)

/-- Where the files ascend, those of the groups do so strictly. -/
theorem pairwise_groups {ds : List Diagnostic} (ascending : ds.Pairwise (·.file ≤ ·.file)) :
    ((groups ds).map (·.1)).Pairwise (· < ·) := by
  induction ds with
  | nil => exact .nil
  | cons d rest ih =>
    obtain ⟨first, ascending⟩ := List.pairwise_cons.1 ascending
    have strict := ih ascending
    cases rest with
    | nil => simp [groups]
    | cons e rest =>
      obtain ⟨own, more, split⟩ := exists_groups_cons e rest
      rw [split, List.map_cons] at strict
      rw [groups, split]
      by_cases same : e.file = d.file
      · simpa [same] using strict
      · have below : d.file < e.file :=
          Std.lt_of_le_of_ne (first e List.mem_cons_self) (Ne.symm same)
        have above := (List.pairwise_cons.1 strict).1
        simp only [same, if_false, List.map_cons]
        refine List.pairwise_cons.2 ⟨fun file hfile => ?_, strict⟩
        rcases List.mem_cons.1 hfile with rfl | later
        · exact below
        · exact String.lt_trans below (above file later)

/-- With files of their own the groups hold all that is of their file. -/
theorem eq_filter_of_mem {gs : List (String × List Diagnostic)}
    (distinct : (gs.map (·.1)).Pairwise (· < ·)) (own : ∀ g ∈ gs, ∀ x ∈ g.2, x.file = g.1)
    {g : String × List Diagnostic} (hg : g ∈ gs) :
    g.2 = (gs.flatMap (·.2)).filter (·.file = g.1) := by
  induction gs with
  | nil => cases hg
  | cons h gs ih =>
    obtain ⟨below, distinct⟩ := List.pairwise_cons.1 distinct
    obtain ⟨first, further⟩ := List.forall_mem_cons.1 own
    have none {file : String} {part : List Diagnostic} (apart : ∀ x ∈ part, x.file ≠ file) :
        part.filter (·.file = file) = [] :=
      List.filter_eq_nil_iff.2 fun x hx same => apart x hx (of_decide_eq_true same)
    rw [List.flatMap_cons, List.filter_append]
    rcases List.mem_cons.1 hg with rfl | later
    · have all : g.2.filter (·.file = g.1) = g.2 :=
        List.filter_eq_self.2 fun x hx => decide_eq_true (first x hx)
      rw [all, none, List.append_nil]
      intro x hx same
      obtain ⟨k, hk, hx⟩ := List.mem_flatMap.1 hx
      have lt : g.1 < k.1 := below k.1 (List.mem_map_of_mem hk)
      rw [← further k hk x hx, same] at lt
      exact String.lt_irrefl _ lt
    · rw [none, List.nil_append]
      · exact ih distinct further later
      · intro x hx same
        have lt : h.1 < g.1 := below g.1 (List.mem_map_of_mem later)
        rw [← first x hx, same] at lt
        exact String.lt_irrefl _ lt

/-! ## The whole report -/

/-- The report holds the diagnostics of the list, in report order and where they tie in the order
given, and its groups are those of its files. -/
structure Arranges (r : Report) (ds : List Diagnostic) : Prop where
  perm : r.diagnostics.Perm ds
  ordered : r.diagnostics.Pairwise Diagnostic.Precedes
  stable : ∀ d, r.diagnostics.filter (Diagnostic.Ties d ·) = ds.filter (Diagnostic.Ties d ·)
  whole : r.byFile.flatMap (·.2) = r.diagnostics
  files : (r.byFile.map (·.1)).Pairwise (· < ·)
  groups : ∀ g ∈ r.byFile, g.2 ≠ [] ∧ g.2 = r.diagnostics.filter (·.file = g.1)
  counts : r.summary.errors + r.summary.warnings + r.summary.infos = ds.length

theorem length_eq_counts (ds : List Diagnostic) :
    (summarize ds).errors + (summarize ds).warnings + (summarize ds).infos = ds.length := by
  induction ds with
  | nil => rfl
  | cons d rest ih =>
    simp only [summarize, List.countP_cons, List.length_cons] at ih ⊢
    cases d.severity <;> simp <;> omega

theorem arranges_ofDiagnostics (ds : List Diagnostic) (documents features : Nat) :
    (ofDiagnostics ds documents features).Arranges ds where
  perm := Diagnostic.sort_perm ds
  ordered := (Diagnostic.pairwise_sort ds).imp Diagnostic.le_iff_precedes.1
  stable d := Diagnostic.filter_ties_sort d ds
  whole := flatMap_groups _
  files := pairwise_groups (Diagnostic.pairwise_file_sort ds)
  groups g hg := by
    have own : ∀ h ∈ Report.groups (Diagnostic.sort ds), ∀ x ∈ h.2, x.file = h.1 :=
      fun h hh => (of_mem_groups hh).2
    have all := eq_filter_of_mem (pairwise_groups (Diagnostic.pairwise_file_sort ds)) own hg
    rw [flatMap_groups] at all
    exact ⟨(of_mem_groups hg).1, all⟩
  counts := (length_eq_counts _).trans (Diagnostic.sort_perm ds).length_eq

/-- A report arranges whatever it is made of, its outcome is decided by single diagnostics, its exit
code grows with them, and what is found in one document is in report order already. -/
theorem ofDiagnostics_faithful (ds : List Diagnostic) (documents features : Nat)
    (failOnWarnings : Bool) :
    (ofDiagnostics ds documents features).Arranges ds ∧
      (ofDiagnostics ds documents features).outcome failOnWarnings =
        (if ∃ x ∈ ds, x.kind = .ioError then .unreadable
        else if ∃ x ∈ ds, x.Fails failOnWarnings then .failed
        else .passed) ∧
      (∀ more documents' features' strict, ds ⊆ more → (failOnWarnings = true → strict = true) →
        ((ofDiagnostics ds documents features).outcome failOnWarnings).exitCode ≤
          ((ofDiagnostics more documents' features').outcome strict).exitCode) ∧
      ∀ rs config d, RuleSet.evaluate rs config d = some ds →
        (ofDiagnostics ds documents features).diagnostics = ds := by
  have listed (xs : List Diagnostic) (x : Diagnostic) : x ∈ Diagnostic.sort xs ↔ x ∈ xs :=
    mem_sortBy
  refine ⟨arranges_ofDiagnostics ds documents features, ?_, ?_, ?_⟩
  · simp only [outcome_eq, ofDiagnostics, listed]
  · intro more documents' features' strict added stronger
    refine exitCode_outcome_le (fun x hx => ?_) stronger
    exact (listed more x).2 (added ((listed ds x).1 hx))
  · intro rs config d evaluated
    obtain ⟨_, rfl⟩ := RuleSet.evaluate_eq_some_iff.1 evaluated
    exact sortBy_of_pairwise (Diagnostic.pairwise_sort _)

end Report

end ScriptAudit
