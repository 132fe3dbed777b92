import ScriptAudit.Proofs.Markup.Step
import ScriptAudit.Proofs.Rule.Adjust
import ScriptAudit.Proofs.Rule.Conformance

/-!
# Step numbers as they are written

A step has the number that is written on its line as long as that is below the bound of step
numbers; a number beyond counts as 0. So the rules on step numbers follow what is written, but a
reference to step 0 is let pass where a number beyond the bound is written.
-/

namespace ScriptAudit

namespace Rule

variable {config : Config} {d : Document}

/-- What is found of a placeholder whose path names a step that does not exist. -/
def unknownStep (p : Placeholder) (s : Screenshot) : Finding :=
  .onLine p.line ("screenshot '" ++ p.path ++ "' refers to step " ++ toString s.step ++
    ", which does not exist")

theorem mem_screenshotStepExists_iff {f : Finding} : f ∈ screenshotStepExists config d ↔
    ∃ c ∈ d.cases, ∃ p ∈ c.screenshots, ∃ s, Screenshot.parse? p.path = some s ∧
      (∀ step ∈ c.steps, step.number ≠ s.step) ∧ f = unknownStep p s := by
  rw [screenshotStepExists, perPlaceholder, List.mem_flatMap]
  refine exists_congr fun c => and_congr_right fun _ => ?_
  rw [List.mem_filterMap]
  refine exists_congr fun p => and_congr_right fun _ => ?_
  rw [Option.bind_eq_some_iff]
  refine exists_congr fun s => and_congr_right fun _ => ?_
  rw [Option.ite_none_left_eq_some, unknownStep, Option.some.injEq, List.any_eq_true, eq_comm]
  simp only [decide_eq_true_eq, not_exists, not_and]

end Rule

theorem Rule.message_unknownStep (p : Placeholder) (s : Screenshot) :
    (unknownStep p s).message = "screenshot '" ++ p.path ++ "'" ++
      (" refers to step " ++ toString s.step ++ ", which does not exist") := by
  rw [unknownStep, Finding.onLine, show "' refers to step " = "'" ++ " refers to step " from rfl]
  simp only [String.append_assoc]

/-- The path that a message quotes is between its first two quotes. -/
theorem Rule.path_eq_of_message_eq {p q : Placeholder} {s t : Screenshot}
    (own : Screenshot.parse? p.path = some s) (other : Screenshot.parse? q.path = some t)
    {rest : String} (same : (unknownStep q t).message = "screenshot '" ++ p.path ++ "'" ++ rest) :
    q.path = p.path := by
  obtain ⟨_, written⟩ := Screenshot.parse?_eq_some_iff.1 own
  obtain ⟨_, written'⟩ := Screenshot.parse?_eq_some_iff.1 other
  have quoted (path rest : String) : ("screenshot '" ++ path ++ "'" ++ rest).toList =
      "screenshot '".toList ++ (path.toList ++ '\'' :: rest.toList) := by simp
  rw [message_unknownStep] at same
  have texts := congrArg String.toList same
  rw [quoted, quoted] at texts
  have paths := congrArg (List.takeWhile (· != '\'')) (List.append_cancel_left texts)
  rw [Text.takeWhile_bne_append written'.quote_free,
    Text.takeWhile_bne_append written.quote_free] at paths
  exact String.toList_inj.1 paths

namespace Document

/-- The rule on step references reports the placeholder at its line, by its path. -/
def MissesStep (ds : List Diagnostic) (p : Placeholder) : Prop :=
  ∃ x ∈ ds, x.ruleId = "screenshot-step-exists" ∧ x.line = some p.line ∧
    ∃ rest, x.message = "screenshot '" ++ p.path ++ "'" ++ rest

theorem missesStep_iff {config : Config} {d : Document} {ds : List Diagnostic}
    (result : RuleSet.stock.evaluate config d = some ds) {c : TestCase} (only : d.cases = [c])
    {p : Placeholder} (hp : p ∈ c.screenshots) {s : Screenshot}
    (parsed : Screenshot.parse? p.path = some s) :
    MissesStep ds p ↔ ∀ step ∈ c.steps, step.number ≠ s.step := by
  have stocked : RuleSet.stock.rules.find? (·.id = "screenshot-step-exists") = some
      (Rule.total "screenshot-step-exists" .warning
        "placeholder step number refers to an existing step" Rule.screenshotStepExists) := rfl
  have hr := List.mem_of_find?_eq_some stocked
  have own {x : Diagnostic} := RuleSet.mem_stock_iff result hr rfl (x := x)
  constructor
  · rintro ⟨x, hx, id, _, rest, message⟩
    obtain ⟨f, hf, rfl⟩ := own.1 ⟨hx, id⟩
    obtain ⟨e, he, q, _, t, named, missing, rfl⟩ := Rule.mem_screenshotStepExists_iff.1 hf
    rw [Rule.path_eq_of_message_eq parsed named message, parsed] at named
    cases named
    rw [only, List.mem_singleton] at he
    exact he ▸ missing
  · intro missing
    have hf : Rule.unknownStep p s ∈ Rule.screenshotStepExists config d :=
      Rule.mem_screenshotStepExists_iff.2
        ⟨c, only ▸ List.mem_singleton_self c, p, hp, s, parsed, missing, rfl⟩
    obtain ⟨hx, id⟩ := own.2 ⟨_, hf, rfl⟩
    exact ⟨_, hx, id, rfl, _, Rule.message_unknownStep p s⟩

end Document

/-! ## Numbers and their bound -/

namespace Markup

/-- The number that a written one is kept as. -/
def kept (v : Nat) : Nat :=
  if v < stepBound then v else 0

theorem stepNumber_eq_kept {line digits text : List Char} (begins : BeginsStep line digits text) :
    stepNumber digits = kept (Text.decimalValue digits) := by
  obtain ⟨_, _, _, some, numeric, _⟩ := begins
  rw [stepNumber, kept]
  split
  · rename_i below
    rw [Text.decimalBelow?_eq_some_iff.2 ⟨some, numeric, rfl, below⟩, Option.getD_some]
  · rename_i above
    have none : Text.decimalBelow? stepBound digits = none := by
      rw [Option.eq_none_iff_forall_ne_some]
      intro n found
      obtain ⟨_, _, rfl, below⟩ := Text.decimalBelow?_eq_some_iff.1 found
      exact above below
    rw [none, Option.getD_none]

theorem kept_eq_iff {v n : Nat} (below : n < stepBound) :
    kept v = n ↔ v = n ∨ n = 0 ∧ stepBound ≤ v := by
  rw [kept]
  split <;> omega

/-- Numbers are kept as 1, 2 and so on only if they are written so. -/
theorem map_kept_eq_range'_iff {values : List Nat} :
    values.map kept = List.range' 1 values.length ↔
      values = List.range' 1 values.length ∧ values.length < stepBound := by
  constructor
  · intro same
    have each (i : Nat) (hi : i < values.length) : values[i] = 1 + i ∧ 1 + i < stepBound := by
      have value := List.getElem_of_eq same (i := i) (by simpa)
      simp only [List.getElem_map, List.getElem_range'] at value
      rw [kept] at value
      split at value <;> omega
    refine ⟨List.ext_getElem (by simp) fun i hi _ => ?_, ?_⟩
    · rw [(each i hi).1]
      simp
    · rcases Nat.eq_zero_or_pos values.length with none | some
      · rw [none]
        decide
      · have last := (each (values.length - 1) (by omega)).2
        omega
  · rintro ⟨numbered, below⟩
    have all : ∀ v ∈ values, kept v = v := fun v hv => by
      rw [numbered, List.mem_range'_1] at hv
      exact if_pos (by omega)
    rw [List.map_congr_left all, List.map_id', ← numbered]

/-- The line begins a step of this number, as it is written. -/
def WritesNumber (line : List Char) (v : Nat) : Prop :=
  ∃ digits text, BeginsStep line digits text ∧ Text.decimalValue digits = v

/-- Steps have the numbers of their lines, as these are kept. -/
theorem exists_values {heads : List (Nat × List Char)} {steps : List Step}
    {further : Nat × List Char → List (Nat × List Char)}
    (reads : List.Forall₂ (fun head s => ReadsStep (further head) head s) heads steps) :
    ∃ values, List.Forall₂ (fun head v => WritesNumber head.2 v) heads values ∧
      steps.map (·.number) = values.map kept := by
  induction reads with
  | nil => exact ⟨[], .nil, rfl⟩
  | cons own _ ih =>
    obtain ⟨digits, text, _, begins, number, _⟩ := own.text
    obtain ⟨values, written, same⟩ := ih
    refine ⟨Text.decimalValue digits :: values, .cons ⟨digits, text, begins, rfl⟩ written, ?_⟩
    rw [List.map_cons, List.map_cons, same, number, stepNumber_eq_kept begins]

end Markup

open Markup

/-- The rules on step numbers follow the numbers as they are written, but for one beyond the bound:
it counts as 0, so it is never the number of its place, and it lets a reference to step 0 pass. -/
theorem Document.step_numbers_of_read {path : Path} {feature : String} {markers : Markers}
    {source : String} {d : Document} (result : read path feature markers source = .ok d)
    (config : Config) :
    ∃ c values ds, d.cases = [c] ∧ RuleSet.stock.evaluate config d = some ds ∧
      List.Forall₂ (fun head v => WritesNumber head.2 v)
        (stepLines (writtenLines (bodyLines source) .testSteps)) values ∧
      c.steps.map (·.number) = values.map kept ∧
      ((∀ x ∈ ds, x.ruleId ≠ "step-numbering") ↔
        values = List.range' 1 values.length ∧ values.length < stepBound) ∧
      ∀ p ∈ c.screenshots, ∀ s, Screenshot.parse? p.path = some s →
        (¬MissesStep ds p ↔ s.step ∈ values ∨ s.step = 0 ∧ ∃ v ∈ values, stepBound ≤ v) := by
  obtain ⟨c, lines, only, rfl, reads, _⟩ := exists_steps_of_read result
  obtain ⟨values, written, numbers⟩ := exists_values reads
  obtain ⟨ds, evaluated, _⟩ := RuleSet.exists_evaluate_stock config d
  refine ⟨c, values, ds, only, evaluated, written, numbers, ?_, fun p hp s parsed => ?_⟩
  · have silent : (∀ x ∈ ds, x.ruleId ≠ "step-numbering") ↔ Rule.stepNumbering config d = [] := by
      refine (RuleSet.silent_iff_of_evaluate evaluated (Q := fun r => r.id = "step-numbering")
        fun _ _ => Iff.rfl).trans ?_
      simp [RuleSet.stock, Rule.total]
    have size : c.steps.length = values.length := by
      simpa using congrArg List.length numbers
    rw [silent, Rule.stepNumbering_eq_nil_iff, only, List.forall_mem_singleton, numbers, size,
      map_kept_eq_range'_iff]
  · obtain ⟨digits, shaped⟩ := Screenshot.parse?_eq_some_iff.1 parsed
    have below := (Text.decimalBelow?_eq_some_iff.1 shaped.step).2.2.2
    have taken : (∃ step ∈ c.steps, step.number = s.step) ↔ ∃ v ∈ values, kept v = s.step := by
      rw [← List.mem_map, numbers, List.mem_map]
    rw [missesStep_iff evaluated only hp parsed]
    simp only [ne_eq, not_forall, not_not, exists_prop]
    rw [taken]
    simp only [kept_eq_iff below]
    constructor
    · rintro ⟨v, hv, rfl | beyond⟩
      · exact .inl hv
      · exact .inr ⟨beyond.1, v, hv, beyond.2⟩
    · rintro (hv | ⟨zero, v, hv, beyond⟩)
      · exact ⟨_, hv, .inl rfl⟩
      · exact ⟨v, hv, .inr ⟨zero, beyond⟩⟩

/-- A document with one step, of a number beyond the bound, and a screenshot of step 0. -/
def Document.beyondBound : String :=
  "# Test Case: A\n# Prerequisites\n# Test Steps\n4294967296. B\n# Expected UI State\n" ++
    "<screenshot:qa/a/screenshots/A-001_00-b.png|c>\n# Expected Result"

/-- The screenshot in it. -/
def Document.stepZero : Placeholder :=
  ⟨"qa/a/screenshots/A-001_00-b.png", "c", 6⟩

theorem Document.parse?_stepZero :
    Screenshot.parse? stepZero.path = some ⟨"a", "A-001", 0, "b"⟩ := by
  decide +kernel

theorem Document.exists_read_beyondBound :
    ∃ d c, read ⟨"a.mock.md"⟩ "a" {} beyondBound = .ok d ∧ d.cases = [c] ∧
      c.steps.map (·.number) = [0] ∧ stepZero ∈ c.screenshots := by
  have held : (read ⟨"a.mock.md"⟩ "a" {} beyondBound).map (fun d =>
      d.cases.map fun c => (c.steps.map (·.number), c.screenshots)) = .ok [([0], [stepZero])] := by
    decide +kernel
  cases result : read ⟨"a.mock.md"⟩ "a" {} beyondBound with
  | error ds =>
    rw [result] at held
    cases held
  | ok d =>
    rw [result] at held
    obtain ⟨c, _, only, own, none⟩ := List.map_eq_cons_iff.1 (Except.ok.inj held)
    rw [List.map_eq_nil_iff.1 none] at only
    rw [Prod.mk.injEq] at own
    refine ⟨d, c, rfl, only, own.1, ?_⟩
    rw [own.2]
    exact List.mem_singleton_self _

theorem Document.step_numbers_of_read_beyondBound :
    ∃ d, read ⟨"a.mock.md"⟩ "a" {} beyondBound = .ok d ∧
      ∃ c ds, d.cases = [c] ∧ RuleSet.stock.evaluate {} d = some ds ∧ stepZero ∈ c.screenshots ∧
        Screenshot.parse? stepZero.path = some ⟨"a", "A-001", 0, "b"⟩ ∧
        (∃ x ∈ ds, x.ruleId = "step-numbering") ∧ ¬MissesStep ds stepZero := by
  obtain ⟨d, e, result, single, zero, hp⟩ := exists_read_beyondBound
  obtain ⟨c, values, ds, only, evaluated, _, numbers, numbered, referred⟩ :=
    step_numbers_of_read result {}
  obtain rfl : e = c := by simpa [single] using only
  obtain ⟨v, _, rfl, kept, none⟩ := List.map_eq_cons_iff.1 (numbers.symm.trans zero)
  rw [List.map_eq_nil_iff.1 none] at numbered
  have value := (kept_eq_iff (by decide)).1 kept
  refine ⟨d, result, e, ds, only, evaluated, hp, parse?_stepZero, ?_, ?_⟩
  · by_contra none
    have silent : ∀ x ∈ ds, x.ruleId ≠ "step-numbering" := by simpa using none
    obtain rfl : v = 1 := by simpa using (numbered.1 silent).1
    exact absurd value (by decide)
  · refine (referred stepZero hp _ parse?_stepZero).2 ?_
    rcases value with rfl | ⟨_, beyond⟩
    · exact .inl List.mem_cons_self
    · exact .inr ⟨rfl, v, List.mem_cons_self, beyond⟩

/-- The step in it is not numbered as it is written, and the reference to a step that is not written
goes unmentioned. -/
theorem Document.step_unmissed :
    ∃ d c ds, read ⟨"a.mock.md"⟩ "a" {} beyondBound = .ok d ∧ d.cases = [c] ∧
      RuleSet.stock.evaluate {} d = some ds ∧
      stepLines (writtenLines (bodyLines beyondBound) .testSteps) = [(4, "4294967296. B".toList)] ∧
      WritesNumber "4294967296. B".toList 4294967296 ∧ c.steps.map (·.number) = [0] ∧
      stepZero ∈ c.screenshots ∧
      Screenshot.parse? stepZero.path = some ⟨"a", "A-001", 0, "b"⟩ ∧ ¬MissesStep ds stepZero := by
  obtain ⟨d, c, result, only, numbered, hp⟩ := exists_read_beyondBound
  obtain ⟨ds, evaluated, _⟩ := RuleSet.exists_evaluate_stock {} d
  refine ⟨d, c, ds, result, only, evaluated, by decide +kernel, ?_, numbered, hp,
    parse?_stepZero, ?_⟩
  · exact ⟨"4294967296".toList, "B".toList, stepHead?_eq_some_iff.1 (by decide +kernel),
      by decide +kernel⟩
  · obtain ⟨step, hstep, zero⟩ :=
      List.mem_map.1 (numbered ▸ List.mem_singleton_self 0 : 0 ∈ c.steps.map (·.number))
    rw [missesStep_iff evaluated only hp parse?_stepZero]
    exact fun missing => missing step hstep zero

end ScriptAudit
