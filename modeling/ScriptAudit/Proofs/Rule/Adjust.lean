import Mathlib.Data.List.Perm.Basic
import ScriptAudit.Proofs.Diagnostic
import ScriptAudit.Proofs.Distinct
import ScriptAudit.Proofs.Rule
import ScriptAudit.Rule.Stock

/-!
# Rules do not affect each other

The report order does not look at severities, and what ties in it comes from one rule as long as the
rules of a set have ids of their own. So it is all the same whether the rules are configured or what
they find is: disabling a rule takes its findings out of the list, and a severity given for it
regrades them where they stand.
-/

namespace ScriptAudit

namespace RulesConfig

/-- A diagnostic with the severity that is given for its id, if one is. -/
def regrade (c : RulesConfig) (x : Diagnostic) : Diagnostic :=
  { x with severity := (c.severity.lookup x.ruleId).getD x.severity }

/-- Diagnostics without those of disabled rules, the others regraded, in the order given. -/
def adjust (c : RulesConfig) (ds : List Diagnostic) : List Diagnostic :=
  (ds.filter fun x => !c.disabled.contains x.ruleId).map c.regrade

variable {c : RulesConfig}

theorem adjust_append (xs ys : List Diagnostic) :
    c.adjust (xs ++ ys) = c.adjust xs ++ c.adjust ys := by
  rw [adjust, List.filter_append, List.map_append]
  rfl

theorem adjust_flatMap {α : Type} (xs : List α) (block : α → List Diagnostic) :
    c.adjust (xs.flatMap block) = xs.flatMap fun x => c.adjust (block x) := by
  induction xs with
  | nil => rfl
  | cons x xs ih => rw [List.flatMap_cons, adjust_append, ih, List.flatMap_cons]

/-- What is adjusted keeps its place. -/
theorem sort_adjust (ds : List Diagnostic) :
    Diagnostic.sort (c.adjust ds) = c.adjust (Diagnostic.sort ds) := by
  have same (a b : Diagnostic) : Diagnostic.le (c.regrade a) (c.regrade b) = Diagnostic.le a b := by
    rfl
  simp only [adjust, Diagnostic.sort]
  rw [sortBy_map fun a _ b _ => same a b, sortBy_filter Diagnostic.le_trans Diagnostic.le_total]

end RulesConfig

namespace Rule

variable {r : Rule} {config : Config} {d : Document}

theorem ruleId_of_mem_reports {x : Diagnostic} (hx : x ∈ r.reports config d) :
    x.ruleId = r.id := by
  obtain ⟨_, _, rfl⟩ := List.mem_map.1 hx
  rfl

/-- A rule that is disabled reports nothing, any other what it reports, regraded. -/
theorem adjust_reports (c : RulesConfig) :
    c.adjust (r.reports config d) =
      if c.disabled.contains r.id then [] else (r.regraded c).reports config d := by
  split
  · rename_i disabled
    have none : (r.reports config d).filter (fun x => !c.disabled.contains x.ruleId) = [] := by
      refine List.filter_eq_nil_iff.2 fun x hx kept => ?_
      rw [ruleId_of_mem_reports hx, disabled] at kept
      cases kept
    rw [RulesConfig.adjust, none, List.map_nil]
  · rename_i enabled
    have all : (r.reports config d).filter (fun x => !c.disabled.contains x.ruleId) =
        r.reports config d := by
      refine List.filter_eq_self.2 fun x hx => ?_
      rw [ruleId_of_mem_reports hx, Bool.not_eq_true', Bool.eq_false_iff]
      exact enabled
    rw [RulesConfig.adjust, all, reports, reports, List.map_map]
    rfl

end Rule

namespace RuleSet

variable {rs rules : RuleSet} {config : Config} {d : Document} {ds : List Diagnostic}

/-! ## Configured sets -/

section Configured

variable {c : RulesConfig} (configured : rs.configure c = .ok rules)
include configured

theorem pairwise_of_configure (distinct : rs.rules.Pairwise fun r q => r.id ≠ q.id) :
    rules.rules.Pairwise fun r q => r.id ≠ q.id := by
  obtain ⟨_, rfl⟩ := configure_eq_ok_iff.1 configured
  exact List.pairwise_map.2 (distinct.filter _)

theorem reports_of_configure : (rules.rules.flatMap fun r => r.reports config d) =
    c.adjust (rs.rules.flatMap fun r => r.reports config d) := by
  obtain ⟨_, rfl⟩ := configure_eq_ok_iff.1 configured
  rw [RulesConfig.adjust_flatMap, List.flatMap_map]
  induction rs.rules with
  | nil => rfl
  | cons r rest ih =>
    rw [List.filter_cons, List.flatMap_cons, ← ih, Rule.adjust_reports]
    cases c.disabled.contains r.id <;> rfl

theorem isSome_evaluate_of_configure_iff : (rules.evaluate config d).isSome = true ↔
    ∀ r ∈ rs.rules, r.id ∉ c.disabled → (r.check config d).isSome = true := by
  obtain ⟨_, rfl⟩ := configure_eq_ok_iff.1 configured
  rw [evaluate_isSome_iff]
  constructor
  · intro all r hr enabled
    refine all (r.regraded c) (List.mem_map_of_mem (List.mem_filter.2 ⟨hr, ?_⟩))
    simpa using enabled
  · intro all q hq
    obtain ⟨r, hr, rfl⟩ := List.mem_map.1 hq
    obtain ⟨hr, enabled⟩ := List.mem_filter.1 hr
    exact all r hr (by simpa using enabled)

theorem evaluate_of_configure (found : rs.evaluate config d = some ds) :
    rules.evaluate config d = some (c.adjust ds) := by
  obtain ⟨total, rfl⟩ := evaluate_eq_some_iff.1 found
  have result := (isSome_evaluate_of_configure_iff configured).2 fun r hr _ => total r hr
  rw [evaluate_eq_some_iff, ← evaluate_isSome_iff, reports_of_configure configured,
    RulesConfig.sort_adjust]
  exact ⟨result, rfl⟩

end Configured

/-! ## Sets of rules with ids of their own -/

section Distinct

variable (distinct : rs.rules.Pairwise fun r q => r.id ≠ q.id)
include distinct

/-- What ties in the report order comes from one rule, and is equal, be it found in one document or
in two. -/
theorem eq_of_order_eq_of_mem_reports {e : Document} {a b : Diagnostic}
    (ha : a ∈ rs.rules.flatMap fun r => r.reports config d)
    (hb : b ∈ rs.rules.flatMap fun r => r.reports config e)
    (tied : Diagnostic.order a b = .eq) : a = b := by
  obtain ⟨r, hr, ha⟩ := List.mem_flatMap.1 ha
  obtain ⟨q, hq, hb⟩ := List.mem_flatMap.1 hb
  obtain ⟨f, _, rfl⟩ := List.mem_map.1 ha
  obtain ⟨g, _, rfl⟩ := List.mem_map.1 hb
  obtain ⟨file, line, id, message⟩ := Diagnostic.order_eq_iff.1 tied
  obtain rfl : r = q := eq_of_pairwise distinct hr hq id
  simp only [Rule.diagnostic] at file line message ⊢
  rw [file, line, message]

theorem evaluate_eq_of_perm {other : RuleSet} (perm : other.rules.Perm rs.rules) :
    other.evaluate config d = rs.evaluate config d := by
  have total : (∀ r ∈ other.rules, (r.check config d).isSome = true) ↔
      ∀ r ∈ rs.rules, (r.check config d).isSome = true :=
    forall_congr' fun r => by rw [perm.mem_iff]
  have sorted : Diagnostic.sort (rs.rules.flatMap fun r => r.reports config d) =
      Diagnostic.sort (other.rules.flatMap fun r => r.reports config d) :=
    Diagnostic.sort_eq_of_perm (perm.symm.flatMap_right _) fun a ha b hb =>
      eq_of_order_eq_of_mem_reports distinct ha hb
  ext1 ds
  rw [evaluate_eq_some_iff, evaluate_eq_some_iff, total, sorted]

/-- Of what all rules report, that which goes by the id of a rule is what this rule reports. -/
theorem filter_reports {r : Rule} (hr : r ∈ rs.rules) :
    (rs.rules.flatMap fun q => q.reports config d).filter (·.ruleId = r.id) =
      r.reports config d := by
  have own (q : Rule) : (q.reports config d).filter (·.ruleId = r.id) =
      if q.id = r.id then q.reports config d else [] :=
    Diagnostic.filter_ruleId (fun _ hx => Rule.ruleId_of_mem_reports hx) r.id
  rw [List.filter_flatMap]
  simp only [own]
  exact flatMap_of_pairwise distinct hr _

theorem evaluate_alone {r : Rule} (hr : r ∈ rs.rules) (found : rs.evaluate config d = some ds) :
    RuleSet.evaluate ⟨[r]⟩ config d = some (ds.filter (·.ruleId = r.id)) := by
  obtain ⟨total, rfl⟩ := evaluate_eq_some_iff.1 found
  rw [evaluate_eq_some_iff, Diagnostic.sort, Diagnostic.sort,
    ← sortBy_filter Diagnostic.le_trans Diagnostic.le_total, filter_reports distinct hr,
    List.flatMap_singleton]
  exact ⟨List.forall_mem_singleton.2 (total r hr), rfl⟩

end Distinct

/-- What goes by the id of a stock rule is what this rule finds. -/
theorem mem_stock_iff {config : Config} {d : Document} {ds : List Diagnostic}
    (result : stock.evaluate config d = some ds) {r : Rule} (hr : r ∈ stock.rules)
    {found : List Finding} (checked : r.check config d = some found) {x : Diagnostic} :
    x ∈ ds ∧ x.ruleId = r.id ↔ ∃ f ∈ found, x = r.diagnostic d f := by
  have alone := evaluate_alone (by decide) hr result
  have own := mem_iff_of_evaluate alone (x := x)
  rw [List.mem_filter, decide_eq_true_iff] at own
  simp [own, checked]

/-- In a set in which each rule has an id of its own, configuring the rules comes to the same as
adjusting what they find, in the order in which it was, and a configured set is again such a set.
(Where only a disabled rule crashes, the configured set has a result and the whole set has none.)
The rules may stand in any order, and under its id each rule finds what it finds alone. -/
theorem evaluate_configured {rs : RuleSet} (distinct : rs.rules.Pairwise fun r q => r.id ≠ q.id)
    (config : Config) (d : Document) :
    (∀ c rules, rs.configure c = .ok rules →
      rules.rules.Pairwise (fun r q => r.id ≠ q.id) ∧
      (∀ ds, rs.evaluate config d = some ds → rules.evaluate config d = some (c.adjust ds)) ∧
      ((rules.evaluate config d).isSome = true ↔
        ∀ r ∈ rs.rules, r.id ∉ c.disabled → (r.check config d).isSome = true)) ∧
    (∀ other : RuleSet, other.rules.Perm rs.rules →
      other.evaluate config d = rs.evaluate config d) ∧
    ∀ r ∈ rs.rules, ∀ ds, rs.evaluate config d = some ds →
      RuleSet.evaluate ⟨[r]⟩ config d = some (ds.filter (·.ruleId = r.id)) := by
  refine ⟨fun c rules configured => ⟨?_, fun ds found => ?_, ?_⟩, fun other perm => ?_,
    fun r hr ds found => ?_⟩
  · exact pairwise_of_configure configured distinct
  · exact evaluate_of_configure configured found
  · exact isSome_evaluate_of_configure_iff configured
  · exact evaluate_eq_of_perm distinct perm
  · exact evaluate_alone distinct hr found

/-- A document of which the stock rules find four things. -/
def faultyCase : Document where
  path := ⟨"acl/card.mock.md"⟩
  feature := "acl"
  mode := .mock
  cases := [⟨"acl-1", "", 1, [⟨"Signed in", 3⟩], none, none, [⟨1, "Open", 5⟩],
    [⟨some .present, "Card", "Visible", 7⟩], ⟨"", 8⟩, []⟩]
  source := ""

def faultyFindings : List Diagnostic :=
  [⟨"acl/card.mock.md", some 1, "id-format", .error,
      "test case id 'acl-1' does not match UPPER-### (e.g. ACL-001)", .schemaViolation⟩,
    ⟨"acl/card.mock.md", some 1, "id-prefix-matches-feature", .error,
      "test case id prefix 'acl' does not match feature 'acl' (expected 'ACL')", .schemaViolation⟩,
    ⟨"acl/card.mock.md", some 1, "name-nonempty", .warning, "test case 'acl-1' has no name",
      .schemaViolation⟩,
    ⟨"acl/card.mock.md", some 8, "expected-result-nonempty", .warning, "Expected Result is empty",
      .schemaViolation⟩]

/-- The first of them is switched off, the third made an error. -/
theorem evaluate_configured_faultyCase :
    stock.rules.Pairwise (fun r q => r.id ≠ q.id) ∧
    stock.evaluate {} faultyCase = some faultyFindings ∧
    ∃ rules, stock.configure ⟨["id-format"], [("name-nonempty", .error)]⟩ = .ok rules ∧
      ∃ ds, rules.evaluate {} faultyCase = some ds ∧ ds.map (fun x => (x.ruleId, x.severity)) =
        [("id-prefix-matches-feature", .error), ("name-nonempty", .error),
          ("expected-result-nonempty", .warning)] := by
  have distinct : stock.rules.Pairwise fun r q => r.id ≠ q.id := by decide
  have found : stock.evaluate {} faultyCase = some faultyFindings := by decide +kernel
  have configured : ∃ rules,
      stock.configure ⟨["id-format"], [("name-nonempty", .error)]⟩ = .ok rules := ⟨_, rfl⟩
  obtain ⟨rules, configured⟩ := configured
  have adjusted := ((evaluate_configured distinct {} faultyCase).1 _ rules configured).2.1 _ found
  exact ⟨distinct, found, rules, configured, _, adjusted, by decide⟩

end RuleSet

end ScriptAudit
