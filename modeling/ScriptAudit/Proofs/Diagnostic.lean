import ScriptAudit.Diagnostic

/-!
# The report order

The order of diagnostics looks at four of their fields. Where these decide the other two, the order
of a report is determined by what is in it.
-/

namespace ScriptAudit.Diagnostic

theorem lineRank_inj {m n : Option Nat} (h : lineRank m = lineRank n) : m = n := by
  cases m with
  | none =>
    cases n with
    | none => rfl
    | some n => cases h
  | some m =>
    cases n with
    | none => cases h
    | some n => exact congrArg some (Nat.succ.inj h)

theorem order_eq_iff {a b : Diagnostic} :
    order a b = .eq ↔
      a.file = b.file ∧ a.line = b.line ∧ a.ruleId = b.ruleId ∧ a.message = b.message := by
  simp only [order, compareLex_eq_eq, compareOn, Std.compare_eq_iff_eq]
  constructor
  · rintro ⟨file, line, rest⟩
    exact ⟨file, lineRank_inj line, rest⟩
  · rintro ⟨file, line, rest⟩
    exact ⟨file, congrArg lineRank line, rest⟩

/-- What a later field says is looked at only where the earlier ones tie. -/
theorem order_congr {a b a' b' : Diagnostic} (file : compare a.file b.file = compare a'.file b'.file)
    (line : compare (lineRank a.line) (lineRank b.line) =
      compare (lineRank a'.line) (lineRank b'.line))
    (ruleId : compare a.ruleId b.ruleId = compare a'.ruleId b'.ruleId)
    (message : a.line = b.line → a.ruleId = b.ruleId →
      compare a.message b.message = compare a'.message b'.message) : order a b = order a' b' := by
  simp only [order, compareLex, compareOn, file, line, ruleId]
  cases lines : compare (lineRank a'.line) (lineRank b'.line) with
  | lt => rfl
  | gt => rfl
  | eq =>
    cases ids : compare a'.ruleId b'.ruleId with
    | lt => rfl
    | gt => rfl
    | eq =>
      rw [message (lineRank_inj (Std.compare_eq_iff_eq.1 (line.trans lines)))
        (Std.compare_eq_iff_eq.1 (ruleId.trans ids))]

/-- In one file the line decides first. -/
theorem le_of_lineRank_lt {a b : Diagnostic} (file : a.file = b.file)
    (lt : lineRank a.line < lineRank b.line) : le a b = true := by
  have same : compareOn Diagnostic.file a b = .eq := Std.compare_eq_iff_eq.2 file
  have below : compareOn (fun d => lineRank d.line) a b = .lt := Nat.compare_eq_lt.2 lt
  rw [le, order, compareLex, compareLex, same, below]
  rfl

theorem order_eq_of_le {a b : Diagnostic} (hab : le a b = true) (hba : le b a = true) :
    order a b = .eq := by
  have swapped : order b a = (order a b).swap := Std.OrientedCmp.eq_swap
  rw [le, swapped] at hba
  rw [le] at hab
  revert hab hba
  cases order a b <;> decide

/-- Diagnostics that are equal where they tie are sorted in one way only. -/
theorem sort_eq_of_perm {xs ys : List Diagnostic} (perm : xs.Perm ys)
    (decided : ∀ a ∈ xs, ∀ b ∈ xs, order a b = .eq → a = b) : sort xs = sort ys :=
  sortBy_eq_of_perm le_trans le_total perm fun a ha b hb hab hba =>
    decided a ha b hb (order_eq_of_le hab hba)

/-- Of a list under one id, another id finds nothing. -/
theorem filter_ruleId {xs : List Diagnostic} {own : String}
    (reported : ∀ x ∈ xs, x.ruleId = own) (id : String) :
    xs.filter (·.ruleId = id) = if own = id then xs else [] := by
  split
  · rename_i same
    exact List.filter_eq_self.2 fun x hx => decide_eq_true ((reported x hx).trans same)
  · rename_i other
    refine List.filter_eq_nil_iff.2 fun x hx found => other ?_
    rw [← reported x hx]
    exact of_decide_eq_true found

end ScriptAudit.Diagnostic
