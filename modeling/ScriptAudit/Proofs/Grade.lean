import ScriptAudit.Proofs.Check
import ScriptAudit.Proofs.Consistency
import ScriptAudit.Proofs.Diagnostic

/-!
# Grades

The rule id of a diagnostic decides its severity and its kind. The rules of the set that documents
are judged by have ids of their own, and everything else that is reported goes by an id that no rule
of the set has.
-/

namespace ScriptAudit

namespace Markup

/-- The ids that faults of structure are reported under. -/
def Fault.ruleIds : List String :=
  ["filename-mode", "missing-test-case", "multiple-test-cases", "content-before-heading",
    "stray-content", "section-order", "missing-section", "unclosed-fence", "placeholder-syntax",
    "starting-url", "step-syntax"]

theorem Fault.ruleId_mem (f : Fault) : f.ruleId ∈ ruleIds := by
  cases f <;> simp [ruleId, ruleIds]

end Markup

/-- The ids of what is reported about more than one document, or about no document. -/
def driverIds : List String :=
  ["io-error", "internal-error", "duplicate-id", "mode-placement", "screenshot-missing",
    "screenshot-orphan"]

/-- A rule set in which each id belongs to one rule and to nothing else. -/
structure RuleSet.Separate (rs : RuleSet) : Prop where
  distinct : rs.rules.Pairwise fun r q => r.id ≠ q.id
  foreign : ∀ r ∈ rs.rules, r.id ∉ Markup.Fault.ruleIds ++ driverIds

theorem RuleSet.separate_stock : stock.Separate where
  distinct := by decide
  foreign := by decide

/-- Configuring a rule set leaves the ids of its rules as they are. -/
theorem RuleSet.Separate.configure {rs rules : RuleSet} (h : rs.Separate) {c : RulesConfig}
    (configured : rs.configure c = .ok rules) : rules.Separate := by
  obtain ⟨_, rfl⟩ := RuleSet.configure_eq_ok_iff.1 configured
  constructor
  · exact List.pairwise_map.2 (h.distinct.filter _)
  · intro r hr
    obtain ⟨q, hq, rfl⟩ := List.mem_map.1 hr
    exact h.foreign q (List.mem_filter.1 hq).1

/-- The severity and the kind that go with a rule id. -/
def gradeOf (rules : RuleSet) (id : String) : Severity × Diagnostic.Kind :=
  match rules.get? id with
  | some r => (r.severity, .schemaViolation)
  | none =>
    if id = "io-error" || id = "internal-error" then (.error, .ioError)
    else if id = "duplicate-id" || id = "mode-placement" then (.error, .consistencyError)
    else if id = "screenshot-missing" then (.warning, .consistencyError)
    else if id = "screenshot-orphan" then (.info, .consistencyError)
    else (.error, .parseError)

namespace Diagnostic

def Graded (rules : RuleSet) (d : Diagnostic) : Prop :=
  (d.severity, d.kind) = gradeOf rules d.ruleId

theorem Graded.eq_of_order_eq {rules : RuleSet} {a b : Diagnostic} (ha : a.Graded rules)
    (hb : b.Graded rules) (tied : order a b = .eq) : a = b := by
  obtain ⟨file, line, ruleId, message⟩ := order_eq_iff.1 tied
  have grade : (a.severity, a.kind) = (b.severity, b.kind) := by
    rw [ha, hb, ruleId]
  obtain ⟨severity, kind⟩ := Prod.mk.inj grade
  cases a
  cases b
  simp_all

theorem Graded.eq_of_le {rules : RuleSet} {a b : Diagnostic} (ha : a.Graded rules)
    (hb : b.Graded rules) (hab : le a b = true) (hba : le b a = true) : a = b :=
  ha.eq_of_order_eq hb (order_eq_of_le hab hba)

end Diagnostic

/-! ## What is graded -/

section Graded

variable {rules : RuleSet} (separate : rules.Separate)
include separate

theorem RuleSet.Separate.get?_eq_none {id : String}
    (reserved : id ∈ Markup.Fault.ruleIds ++ driverIds) : rules.get? id = none := by
  refine List.find?_eq_none.2 fun r hr same => ?_
  have own := separate.foreign r hr
  rw [of_decide_eq_true same] at own
  exact own reserved

theorem RuleSet.Separate.get?_id {r : Rule} (hr : r ∈ rules.rules) :
    rules.get? r.id = some r := by
  obtain ⟨before, after, split⟩ := List.append_of_mem hr
  have apart := separate.distinct
  rw [split] at apart
  rw [get?, split, List.find?_append, List.find?_eq_none.2, Option.none_or]
  · simp
  · intro q hq same
    exact (List.pairwise_append.1 apart).2.2 q hq r List.mem_cons_self (of_decide_eq_true same)

namespace Diagnostic

theorem graded_unreadable (file message : String) : (unreadable file message).Graded rules := by
  have free : rules.get? "io-error" = none := separate.get?_eq_none (by decide)
  simp [Graded, gradeOf, unreadable, free]

theorem graded_fault (file : String) (line : Option Nat) (f : Markup.Fault) :
    (f.diagnostic file line).Graded rules := by
  have free := separate.get?_eq_none (List.mem_append_left driverIds f.ruleId_mem)
  have apart : ∀ id ∈ Markup.Fault.ruleIds, id ∉ driverIds := by decide
  have other := apart f.ruleId f.ruleId_mem
  simp only [driverIds, List.mem_cons, List.not_mem_nil, or_false, not_or] at other
  simp [Graded, gradeOf, Markup.Fault.diagnostic, malformed, free, other]

theorem graded_crashed (p : Path) {d : Diagnostic} (hd : d ∈ (Checked.crashed p).diagnostics) :
    d.Graded rules := by
  have free : rules.get? "internal-error" = none := separate.get?_eq_none (by decide)
  rw [Checked.crashed, List.mem_singleton] at hd
  subst hd
  simp [Graded, gradeOf, free]

/-- What rules report carries the severity that the set gives them. -/
theorem graded_of_mem_evaluate {config : Config} {d : Document} {ds : List Diagnostic}
    (found : rules.evaluate config d = some ds) {x : Diagnostic} (hx : x ∈ ds) :
    x.Graded rules := by
  obtain ⟨r, hr, fs, _, f, _, rfl⟩ := (RuleSet.mem_iff_of_evaluate found).1 hx
  simp [Graded, gradeOf, Rule.diagnostic, separate.get?_id hr]

theorem graded_of_mem_check {t : Tree} {config : Config} {p : Path} {d : Diagnostic}
    (hd : d ∈ (Run.check t config rules p).diagnostics) : d.Graded rules := by
  have outcome := Run.comesTo_check t config rules p
  generalize Run.check t config rules p = c at hd outcome
  cases outcome with
  | unreadable _ =>
    rw [List.mem_singleton.1 hd]
    exact graded_unreadable separate _ _
  | malformed _ refused =>
    obtain ⟨line, fault, rfl⟩ := (Document.read_eq_error refused).2 d hd
    exact graded_fault separate _ line fault
  | judged _ _ found => exact graded_of_mem_evaluate separate found hd
  | crashed _ _ _ => exact graded_crashed separate p hd

end Diagnostic

/-! ## Features -/

namespace Consistency

theorem graded_duplicateIds {documents : List Document} {d : Diagnostic}
    (hd : d ∈ duplicateIds documents) : d.Graded rules := by
  have free : rules.get? "duplicate-id" = none := separate.get?_eq_none (by decide)
  obtain ⟨_, _, _, rfl⟩ := exists_of_mem_duplicateIds hd
  simp [Diagnostic.Graded, gradeOf, diagnostic, free]

theorem graded_modeFaults {document : Document} {d : Diagnostic} (hd : d ∈ modeFaults document) :
    d.Graded rules := by
  have free : rules.get? "mode-placement" = none := separate.get?_eq_none (by decide)
  obtain ⟨_, _, rfl⟩ := exists_of_mem_modeFaults hd
  simp [Diagnostic.Graded, gradeOf, diagnostic, free]

theorem graded_missingScreenshots {f : Feature} {documents : List Document} {d : Diagnostic}
    (hd : d ∈ missingScreenshots f documents) : d.Graded rules := by
  have free : rules.get? "screenshot-missing" = none := separate.get?_eq_none (by decide)
  obtain ⟨_, _, _, _, _, _, _, rfl⟩ := mem_missingScreenshots_iff.1 hd
  simp [Diagnostic.Graded, gradeOf, missing, diagnostic, free]

theorem graded_orphanedScreenshots {f : Feature} {documents : List Document} {d : Diagnostic}
    (hd : d ∈ orphanedScreenshots f documents) : d.Graded rules := by
  have free : rules.get? "screenshot-orphan" = none := separate.get?_eq_none (by decide)
  obtain ⟨_, _, _, rfl⟩ := mem_orphanedScreenshots_iff.1 hd
  simp [Diagnostic.Graded, gradeOf, orphan, diagnostic, free]

end Consistency

theorem Diagnostic.graded_of_mem_featureCheck {f : Feature} {documents : List Document}
    {d : Diagnostic} (hd : d ∈ f.check documents) : d.Graded rules := by
  simp only [Feature.check] at hd
  rw [List.mem_append, List.mem_append, List.mem_append] at hd
  rcases hd with ((duplicate | mode) | missing) | orphaned
  · exact Consistency.graded_duplicateIds separate duplicate
  · obtain ⟨document, _, mode⟩ := List.mem_flatMap.1 mode
    exact Consistency.graded_modeFaults separate mode
  · exact Consistency.graded_missingScreenshots separate missing
  · split at orphaned
    · exact Consistency.graded_orphanedScreenshots separate orphaned
    · cases orphaned

end Graded

end ScriptAudit
