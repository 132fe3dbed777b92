import ScriptAudit.Proofs.Handing
import ScriptAudit.Proofs.Report
import ScriptAudit.Proofs.Rule.Adjust

/-!
# Runs under other settings of the rules

The settings of the rules decide what is reported under the ids of the stock rules and nothing else:
which documents can be read, how they are structured and what the features come to are found out
without them. Every report is that under the stock settings, adjusted, and rules that are switched
off can only take weight from it.
-/

namespace ScriptAudit

/-! ## Stock rules -/

/-- No stock rule looks at the settings of the rules. -/
theorem Rule.check_stock {r : Rule} (hr : r ∈ RuleSet.stock.rules) (config : Config)
    (c : RulesConfig) (d : Document) : r.check { config with rules := c } d = r.check config d := by
  have all : ∀ r ∈ RuleSet.stock.rules, ∀ (config : Config) (c : RulesConfig) (d : Document),
      r.check { config with rules := c } d = r.check config d := by
    simp only [RuleSet.stock, List.forall_mem_cons, List.not_mem_nil, false_imp_iff, implies_true,
      and_true]
    exact ⟨fun _ _ _ => rfl, fun _ _ _ => rfl, fun _ _ _ => rfl, fun _ _ _ => rfl,
      fun _ _ _ => rfl, fun _ _ _ => rfl, fun _ _ _ => rfl, fun _ _ _ => rfl, fun _ _ _ => rfl,
      fun _ _ _ => rfl, fun _ _ _ => rfl, fun _ _ _ => rfl, fun _ _ _ => rfl, fun _ _ _ => rfl,
      fun _ _ _ => rfl⟩
  exact all r hr config c d

theorem RuleSet.evaluate_stock (config : Config) (c : RulesConfig) (d : Document) :
    stock.evaluate { config with rules := c } d = stock.evaluate config d := by
  have total : (∀ r ∈ stock.rules, (r.check { config with rules := c } d).isSome = true) ↔
      ∀ r ∈ stock.rules, (r.check config d).isSome = true :=
    forall₂_congr fun r hr => by rw [Rule.check_stock hr]
  have same : (stock.rules.flatMap fun r => r.reports { config with rules := c } d) =
      stock.rules.flatMap fun r => r.reports config d :=
    List.flatMap_congr fun r hr => by rw [Rule.reports, Rule.reports, Rule.check_stock hr]
  ext1 ds
  rw [evaluate_eq_some_iff, evaluate_eq_some_iff, total, same]

/-! ## What settings do not touch -/

/-- Whether a diagnostic goes by the id of a stock rule. -/
def Diagnostic.FromRule (x : Diagnostic) : Prop :=
  ∃ r ∈ RuleSet.stock.rules, r.id = x.ruleId

instance (x : Diagnostic) : Decidable x.FromRule :=
  inferInstanceAs (Decidable (∃ r ∈ RuleSet.stock.rules, r.id = x.ruleId))

/-- Only rules report violations of rules. -/
theorem Diagnostic.Graded.not_fromRule {x : Diagnostic} (graded : x.Graded .stock)
    (kind : x.kind ≠ .schemaViolation) : ¬x.FromRule := by
  rintro ⟨r, hr, id⟩
  rw [Graded, gradeOf, ← id, RuleSet.separate_stock.get?_id hr] at graded
  exact kind (congrArg Prod.snd graded)

namespace RulesConfig

variable {c : RulesConfig}

/-- Diagnostics are adjusted one by one, so picking some out may come first or last. -/
theorem filter_adjust {p : Diagnostic → Bool} (blind : ∀ x, p (c.regrade x) = p x)
    (ds : List Diagnostic) : (c.adjust ds).filter p = c.adjust (ds.filter p) := by
  have same : p ∘ c.regrade = p := funext blind
  rw [adjust, adjust, List.filter_map, same, List.filter_comm]

/-- Settings that disable more, and give the same severities, leave less. -/
theorem adjust_subset {more : RulesConfig} (disabled : c.disabled ⊆ more.disabled)
    (severity : more.severity = c.severity) (ds : List Diagnostic) :
    more.adjust ds ⊆ c.adjust ds := by
  intro x hx
  obtain ⟨y, hy, rfl⟩ := List.mem_map.1 hx
  obtain ⟨hy, kept⟩ := List.mem_filter.1 hy
  have same : more.regrade y = c.regrade y := by
    rw [regrade, regrade, severity]
  rw [same]
  refine List.mem_map_of_mem (List.mem_filter.2 ⟨hy, ?_⟩)
  simp only [Bool.not_eq_true', List.contains_eq_mem, decide_eq_false_iff_not] at kept ⊢
  exact fun off => kept (disabled off)

section Configured

variable {rules : RuleSet} (configured : RuleSet.stock.configure c = .ok rules)
include configured

/-- Settings that are accepted name stock rules only. -/
theorem not_named_of_not_fromRule {x : Diagnostic} (foreign : ¬x.FromRule) :
    x.ruleId ∉ c.disabled ∧ x.ruleId ∉ c.severity.map (·.1) := by
  rw [← not_or, ← RuleSet.mem_namedIds_iff]
  intro named
  obtain ⟨r, hr, id⟩ := (RuleSet.configure_eq_ok_iff.1 configured).1 _ named
  exact foreign ⟨r, hr, id⟩

theorem regrade_eq_self {x : Diagnostic} (foreign : ¬x.FromRule) : c.regrade x = x := by
  have free : c.severity.lookup x.ruleId = none := by
    refine List.lookup_eq_none_iff.2 fun entry hentry => ?_
    rw [bne_iff_ne]
    intro id
    exact (not_named_of_not_fromRule configured foreign).2 (id ▸ List.mem_map_of_mem hentry)
  rw [regrade, free]
  rfl

theorem adjust_eq_self {ds : List Diagnostic} (foreign : ∀ x ∈ ds, ¬x.FromRule) :
    c.adjust ds = ds := by
  have kept : ds.filter (fun x => !c.disabled.contains x.ruleId) = ds :=
    List.filter_eq_self.2 fun x hx => by
      simpa using (not_named_of_not_fromRule configured (foreign x hx)).1
  rw [adjust, kept]
  have same (x : Diagnostic) (hx : x ∈ ds) : c.regrade x = x :=
    regrade_eq_self configured (foreign x hx)
  exact (List.map_congr_left same).trans (List.map_id ds)

/-- What no rule reports is the same before and after. -/
theorem filter_adjust_foreign (ds : List Diagnostic) :
    (c.adjust ds).filter (fun x => ¬x.FromRule) = ds.filter fun x => ¬x.FromRule := by
  rw [filter_adjust fun _ => rfl]
  exact adjust_eq_self configured fun x hx => of_decide_eq_true (List.mem_filter.1 hx).2

end Configured

end RulesConfig

/-! ## Runs -/

/-- What checking a document came to, with what is reported of it adjusted. -/
def Checked.adjust (c : RulesConfig) (x : Checked) : Checked :=
  { x with diagnostics := c.adjust x.diagnostics }

def Report.adjust (c : RulesConfig) (r : Report) : Report where
  diagnostics := c.adjust r.diagnostics
  documents := r.documents
  features := r.features
  sorted := List.pairwise_map.2 (r.sorted.filter _)

namespace Run

section Configured

variable {t : Tree} {config : Config} {rules : RuleSet} {roots : List Path}
  (configured : RuleSet.stock.configure config.rules = .ok rules)
include configured

/-- Rules judge a document only after it has been read. -/
theorem check_configured (p : Path) : check t config rules p =
    (check t { config with rules := {} } .stock p).adjust config.rules := by
  simp only [check, checkDocument, Checked.adjust]
  cases t.readText p with
  | error e =>
    have foreign : ∀ x ∈ [Diagnostic.unreadable p.display ("cannot read document: " ++ e.message)],
        ¬x.FromRule := by
      rw [List.forall_mem_singleton]
      refine (Diagnostic.graded_unreadable RuleSet.separate_stock _ _).not_fromRule ?_
      simp [Diagnostic.unreadable]
    simp only [Option.getD_some]
    rw [RulesConfig.adjust_eq_self configured foreign]
  | ok source =>
    dsimp only
    cases read : Document.read p (t.featureOf p) config.markers source with
    | error ds =>
      have foreign : ∀ x ∈ ds, ¬x.FromRule := by
        intro x hx
        obtain ⟨line, fault, rfl⟩ := (Document.read_eq_error read).2 x hx
        refine (Diagnostic.graded_fault RuleSet.separate_stock _ _ _).not_fromRule ?_
        simp [Markup.Fault.diagnostic, Diagnostic.malformed]
      simp only [Option.getD_some]
      rw [RulesConfig.adjust_eq_self configured foreign]
    | ok d =>
      obtain ⟨ds, found, _⟩ := RuleSet.exists_evaluate_stock { config with rules := {} } d
      have adjusted : rules.evaluate config d = some (config.rules.adjust ds) := by
        refine RuleSet.evaluate_of_configure configured ?_
        rw [← found, RuleSet.evaluate_stock config {}]
      simp only [found, adjusted, Option.map_some, Option.getD_some]

theorem pushed_configured (finished : List Path) :
    pushed t config rules roots finished =
      config.rules.adjust (pushed t { config with rules := {} } .stock roots finished) := by
  have separate := RuleSet.separate_stock
  have problems : config.rules.adjust (gather t config.scan roots).problems =
      (gather t config.scan roots).problems := by
    refine RulesConfig.adjust_eq_self configured fun x hx => ?_
    obtain ⟨file, message, rfl⟩ := exists_of_mem_problems hx
    exact (Diagnostic.graded_unreadable separate _ _).not_fromRule (by simp [Diagnostic.unreadable])
  have read (f : Feature) : readDocuments t config rules f =
      readDocuments t { config with rules := {} } .stock f := by
    simp only [readDocuments, check_configured configured, Checked.adjust]
  have judged (f : Feature) (documents : List Document) :
      config.rules.adjust (f.check documents) = f.check documents := by
    refine RulesConfig.adjust_eq_self configured fun x hx => ?_
    refine (Diagnostic.graded_of_mem_featureCheck separate hx).not_fromRule ?_
    rw [Feature.kind_of_mem_check _ _ hx]
    decide
  simp only [pushed, RulesConfig.adjust_append, RulesConfig.adjust_flatMap, problems, read, judged,
    check_configured configured, Checked.adjust]

theorem queueReport_configured : queueReport t config rules roots =
    (queueReport t { config with rules := {} } .stock roots).adjust config.rules := by
  refine Report.eq_of ?_ rfl rfl
  simp only [queueReport, Report.ofDiagnostics, Report.adjust]
  rw [pushed_configured configured, RulesConfig.sort_adjust]

end Configured

/-- How a report compares with the one under other settings of the rules: it counts the same, what
no rule reports is the same, and with more rules disabled it is no worse. -/
structure Compares (c c' : RulesConfig) (r r' : Report) : Prop where
  documents : r'.documents = r.documents
  features : r'.features = r.features
  foreign : (r'.diagnostics.filter fun x => ¬x.FromRule) =
    r.diagnostics.filter fun x => ¬x.FromRule
  milder : c.disabled ⊆ c'.disabled → c'.severity = c.severity →
    ∀ failOnWarnings, (r'.outcome failOnWarnings).exitCode ≤ (r.outcome failOnWarnings).exitCode

/-- Two runs of the stock rules that differ only in the settings of the rules. Either comes to the
report under the settings that change nothing, adjusted. -/
theorem run_reconfigured {t : Tree} {config : Config} {c : RulesConfig} {rules rules' : RuleSet}
    {roots : List Path} (configured : RuleSet.stock.configure config.rules = .ok rules)
    (reconfigured : RuleSet.stock.configure c = .ok rules') :
    ∃ plain r r' : Report,
      Settles t { config with rules := {} } .stock roots plain ∧
      Settles t config rules roots r ∧
      Settles t { config with rules := c } rules' roots r' ∧
      r.diagnostics = config.rules.adjust plain.diagnostics ∧
      r'.diagnostics = c.adjust plain.diagnostics ∧
      Compares config.rules c r r' := by
  have first := @queueReport_configured t config rules roots configured
  have second := @queueReport_configured t { config with rules := c } rules' roots reconfigured
  refine ⟨_, _, _, settles_queueReport RuleSet.separate_stock,
    settles_queueReport (RuleSet.separate_stock.configure configured),
    settles_queueReport (RuleSet.separate_stock.configure reconfigured), ?_, ?_, ?_⟩
  · rw [first]
    rfl
  · rw [second]
    rfl
  · rw [first, second]
    constructor
    · rfl
    · rfl
    · simp only [Report.adjust]
      rw [RulesConfig.filter_adjust_foreign configured,
        RulesConfig.filter_adjust_foreign reconfigured]
    · intro disabled severity failOnWarnings
      exact Report.exitCode_outcome_le (RulesConfig.adjust_subset disabled severity _) id

/-- The rules that look at ids are switched off. -/
theorem run_reconfigured_linked :
    RuleSet.stock.configure {} = .ok .stock ∧
    ∃ rules, RuleSet.stock.configure ⟨["id-format", "id-prefix-matches-feature"], []⟩ = .ok rules ∧
    ∃ r r' : Report, linked.run {} .stock [⟨"a"⟩] = .ok r ∧
      linked.run { rules := ⟨["id-format", "id-prefix-matches-feature"], []⟩ } rules
        [⟨"a"⟩] = .ok r' ∧
      ∀ failOnWarnings, (r'.outcome failOnWarnings).exitCode ≤
        (r.outcome failOnWarnings).exitCode := by
  have configured : RuleSet.stock.configure {} = .ok .stock := rfl
  have reconfigured : ∃ rules, RuleSet.stock.configure
      ⟨["id-format", "id-prefix-matches-feature"], []⟩ = .ok rules := ⟨_, rfl⟩
  obtain ⟨rules, reconfigured⟩ := reconfigured
  obtain ⟨plain, r, r', _, first, second, _, _, compares⟩ :=
    @run_reconfigured linked {} _ _ _ [⟨"a"⟩] configured reconfigured
  exact ⟨configured, rules, reconfigured, r, r', first.run, second.run,
    compares.milder (List.nil_subset _) rfl⟩

end Run

end ScriptAudit
