import ScriptAudit.Rule

/-!
# What a rule set finds

Evaluation has a result exactly when no check crashes, and then it holds what every rule of the set
finds and nothing else. Configuring a set succeeds exactly when every id named is in it, and then it
keeps the rules that are not disabled, with the severities given.
-/

namespace ScriptAudit

/-- What a rule reports of a document; nothing when its check crashes. -/
def Rule.reports (r : Rule) (config : Config) (d : Document) : List Diagnostic :=
  ((r.check config d).getD []).map (r.diagnostic d)

theorem Rule.mem_reports_iff {r : Rule} {config : Config} {d : Document} {x : Diagnostic} :
    x ∈ r.reports config d ↔
      ∃ fs, r.check config d = some fs ∧ ∃ f ∈ fs, x = r.diagnostic d f := by
  rw [reports, List.mem_map]
  cases r.check config d with
  | none => simp
  | some fs => simp [eq_comm]

namespace RuleSet

/-! ## Evaluating -/

theorem mapM_eq_some_iff {α β : Type _} {f : α → Option β} {xs : List α} {ys : List β} :
    xs.mapM f = some ys ↔ xs.map f = ys.map some := by
  induction xs generalizing ys with
  | nil => cases ys <;> simp
  | cons x xs ih =>
    rw [List.mapM_cons, List.map_cons]
    cases hx : f x with
    | none => cases ys <;> simp
    | some y =>
      cases ys with
      | nil => cases hr : xs.mapM f <;> simp
      | cons z zs =>
        rw [List.map_cons, List.cons.injEq, ← ih]
        cases hr : xs.mapM f <;> simp

variable {rs : RuleSet} {config : Config} {d : Document} {ds : List Diagnostic}

theorem judge_eq_some_iff {r : Rule} : r.judge config d = some ds ↔
    (r.check config d).isSome = true ∧ ds = r.reports config d := by
  rw [Rule.judge, Rule.reports]
  cases r.check config d with
  | none => simp
  | some fs => simp [eq_comm]

/-- Lists of what the rules report, taken together. -/
theorem map_judge_eq_iff {rules : List Rule} {found : List (List Diagnostic)} :
    rules.map (fun r => r.judge config d) = found.map some ↔
      (∀ r ∈ rules, (r.check config d).isSome = true) ∧
        found = rules.map fun r => r.reports config d := by
  induction rules generalizing found with
  | nil => cases found <;> simp
  | cons r rules ih =>
    cases found with
    | nil => simp
    | cons own found =>
      simp only [List.map_cons, List.cons.injEq, judge_eq_some_iff, ih, List.forall_mem_cons]
      exact ⟨fun ⟨⟨a, b⟩, c, e⟩ => ⟨⟨a, c⟩, b, e⟩, fun ⟨⟨a, c⟩, b, e⟩ => ⟨⟨a, b⟩, c, e⟩⟩

/-- In one file the report order is the order of findings. -/
theorem le_eq_findingOrder {a b : Diagnostic} (file : a.file = b.file) :
    Diagnostic.le a b = (findingOrder a b).isLE := by
  have same : compareOn Diagnostic.file a b = .eq := Std.compare_eq_iff_eq.2 file
  simp only [Diagnostic.le, Diagnostic.order, findingOrder, compareLex, same, Ordering.then]

theorem file_of_mem_reports {rules : List Rule} {x : Diagnostic}
    (hx : x ∈ rules.flatMap fun r => r.reports config d) : x.file = d.file := by
  obtain ⟨r, _, hx⟩ := List.mem_flatMap.1 hx
  obtain ⟨_, _, _, _, rfl⟩ := Rule.mem_reports_iff.1 hx
  rfl

/-- What is found is of one file, so it is sorted as a report is. -/
theorem sortBy_findingOrder_reports (rules : List Rule) :
    sortBy (fun a b => (findingOrder a b).isLE) (rules.flatMap fun r => r.reports config d) =
      Diagnostic.sort (rules.flatMap fun r => r.reports config d) := by
  refine sortBy_congr fun a ha b hb => (le_eq_findingOrder ?_).symm
  exact (file_of_mem_reports ha).trans (file_of_mem_reports hb).symm

theorem evaluate_eq_some_iff :
    rs.evaluate config d = some ds ↔ (∀ r ∈ rs.rules, (r.check config d).isSome = true) ∧
      ds = Diagnostic.sort (rs.rules.flatMap fun r => r.reports config d) := by
  rw [evaluate, Option.map_eq_some_iff]
  simp only [mapM_eq_some_iff, map_judge_eq_iff]
  constructor
  · rintro ⟨found, ⟨total, rfl⟩, rfl⟩
    exact ⟨total, sortBy_findingOrder_reports rs.rules⟩
  · rintro ⟨total, rfl⟩
    exact ⟨_, ⟨total, rfl⟩, sortBy_findingOrder_reports rs.rules⟩

theorem evaluate_isSome_iff :
    (rs.evaluate config d).isSome = true ↔ ∀ r ∈ rs.rules, (r.check config d).isSome = true := by
  rw [Option.isSome_iff_exists]
  simp only [evaluate_eq_some_iff]
  exact ⟨fun ⟨_, total, _⟩ => total, fun total => ⟨_, total, rfl⟩⟩

theorem mem_iff_of_evaluate (h : rs.evaluate config d = some ds) {x : Diagnostic} :
    x ∈ ds ↔ ∃ r ∈ rs.rules, ∃ fs, r.check config d = some fs ∧ ∃ f ∈ fs, x = r.diagnostic d f := by
  obtain ⟨_, rfl⟩ := evaluate_eq_some_iff.1 h
  rw [Diagnostic.sort, mem_sortBy, List.mem_flatMap]
  simp only [Rule.mem_reports_iff]

theorem forall_iff_of_evaluate (h : rs.evaluate config d = some ds) {P : Diagnostic → Prop} :
    (∀ x ∈ ds, P x) ↔
      ∀ r ∈ rs.rules, ∀ fs, r.check config d = some fs → ∀ f ∈ fs, P (r.diagnostic d f) := by
  constructor
  · intro all r hr fs checked f hf
    exact all _ ((mem_iff_of_evaluate h).2 ⟨r, hr, fs, checked, f, hf, rfl⟩)
  · intro all x hx
    obtain ⟨r, hr, fs, checked, f, hf, rfl⟩ := (mem_iff_of_evaluate h).1 hx
    exact all r hr fs checked f hf

/-- Where what is found shares a property with its rule, nothing of that property is found exactly
when no rule of that property finds anything. -/
theorem silent_iff_of_evaluate (h : rs.evaluate config d = some ds) {P : Diagnostic → Prop}
    {Q : Rule → Prop} (shared : ∀ r f, P (Rule.diagnostic r d f) ↔ Q r) :
    (∀ x ∈ ds, ¬P x) ↔ ∀ r ∈ rs.rules, Q r → r.check config d = some [] := by
  rw [forall_iff_of_evaluate h]
  constructor
  · intro none r hr own
    obtain ⟨fs, checked⟩ := Option.isSome_iff_exists.1 ((evaluate_eq_some_iff.1 h).1 r hr)
    rw [checked, Option.some.injEq, List.eq_nil_iff_forall_not_mem]
    exact fun f hf => none r hr fs checked f hf ((shared r f).2 own)
  · intro silent r hr fs checked f hf own
    rw [silent r hr ((shared r f).1 own)] at checked
    cases checked
    cases hf

theorem eq_nil_iff_of_evaluate (h : rs.evaluate config d = some ds) :
    ds = [] ↔ ∀ r ∈ rs.rules, r.check config d = some [] := by
  have none := silent_iff_of_evaluate h (P := fun _ => True) (Q := fun _ => True)
    fun _ _ => Iff.rfl
  simpa [List.eq_nil_iff_forall_not_mem] using none

/-! ## Configuring -/

theorem mem_namedIds_iff {c : RulesConfig} {id : String} :
    id ∈ namedIds c ↔ id ∈ c.disabled ∨ id ∈ c.severity.map (·.1) := by
  rw [namedIds, List.mem_append, Text.mem_ascending]

theorem not_isNone_get?_iff {id : String} :
    ¬(rs.get? id).isNone = true ↔ ∃ r ∈ rs.rules, r.id = id := by
  rw [Option.isNone_iff_eq_none, ← ne_eq, ← Option.isSome_iff_ne_none, get?, List.find?_isSome]
  simp

end RuleSet

/-- A rule with the severity that is given for its id, if one is. -/
def Rule.regraded (c : RulesConfig) (r : Rule) : Rule :=
  { r with severity := (c.severity.lookup r.id).getD r.severity }

theorem RuleSet.configure_eq_ok_iff {rs rules : RuleSet} {c : RulesConfig} :
    rs.configure c = .ok rules ↔ (∀ id ∈ namedIds c, ∃ r ∈ rs.rules, r.id = id) ∧
      rules = ⟨(rs.rules.filter fun r => !c.disabled.contains r.id).map (·.regraded c)⟩ := by
  have known : (namedIds c).find? (fun id => (rs.get? id).isNone) = none ↔
      ∀ id ∈ namedIds c, ∃ r ∈ rs.rules, r.id = id := by
    simp only [List.find?_eq_none, not_isNone_get?_iff]
  simp only [configure]
  split
  · rename_i id unknown
    simp only [reduceCtorEq, false_iff]
    rintro ⟨all, _⟩
    rw [known.2 all] at unknown
    cases unknown
  · rename_i all
    rw [Except.ok.injEq, ← known, and_iff_right all]
    exact eq_comm

end ScriptAudit
