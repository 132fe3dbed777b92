import ScriptAudit.Severity
import ScriptAudit.Sorting

/-!
# Diagnostics

One reported anomaly, and the order in which reports list them: file, then line with a missing
line first, then rule, then message. Texts are compared by code point. Severity and kind take no
part in the order.
-/

namespace ScriptAudit

/-- The stage that found an anomaly. -/
inductive Diagnostic.Kind where
  /-- The document is malformed. -/
  | parseError
  /-- A rule was broken. -/
  | schemaViolation
  /-- Documents of one feature, or its screenshots, disagree. -/
  | consistencyError
  /-- Something could not be read. -/
  | ioError
deriving DecidableEq, Repr, Inhabited

structure Diagnostic where
  file : String
  line : Option Nat
  ruleId : String
  severity : Severity
  message : String
  kind : Diagnostic.Kind
deriving DecidableEq, Repr, Inhabited

namespace Diagnostic

/-- A fault in the structure of a document is always an error. -/
def malformed (file : String) (line : Option Nat) (ruleId message : String) : Diagnostic :=
  { file, line, ruleId, severity := .error, message, kind := .parseError }

/-- A path that could not be read is always an error, and has no line. -/
def unreadable (file message : String) : Diagnostic :=
  { file, line := none, ruleId := "io-error", severity := .error, message, kind := .ioError }

/-- A missing line ranks before line 0. -/
def lineRank : Option Nat → Nat
  | none => 0
  | some n => n + 1

def order : Diagnostic → Diagnostic → Ordering :=
  compareLex (compareOn file) <| compareLex (compareOn fun d => lineRank d.line) <|
    compareLex (compareOn ruleId) (compareOn message)

def le (a b : Diagnostic) : Bool :=
  (order a b).isLE

instance : Std.TransCmp order := by
  unfold order
  infer_instance

/-- Sorted by `order`, equal keys in the order given. -/
def sort (ds : List Diagnostic) : List Diagnostic :=
  sortBy le ds

theorem le_trans (a b c : Diagnostic) (hab : le a b) (hbc : le b c) : le a c :=
  (inferInstance : Std.TransCmp order).isLE_trans hab hbc

theorem le_total (a b : Diagnostic) : (le a b || le b a) = true := by
  have swapped : order b a = (order a b).swap := Std.OrientedCmp.eq_swap
  simp only [le, swapped]
  cases order a b <;> rfl

theorem sort_perm (ds : List Diagnostic) : (sort ds).Perm ds :=
  sortBy_perm le ds

theorem sort_eq_nil_iff {ds : List Diagnostic} : sort ds = [] ↔ ds = [] := by
  constructor
  · intro h
    exact (h ▸ (sort_perm ds).symm).eq_nil
  · rintro rfl
    rfl

theorem pairwise_sort (ds : List Diagnostic) : (sort ds).Pairwise (le · ·) :=
  pairwise_sortBy le_trans le_total ds

end Diagnostic

end ScriptAudit
