import Mathlib.Data.List.Perm.Subperm
import Mathlib.Data.List.TakeWhile
import ScriptAudit.Proofs.Rule.Stock
import ScriptAudit.Proofs.Screenshot
import ScriptAudit.Proofs.Text.Search

/-!
# What the stock rules accept

For each rule the condition under which it finds nothing, and from these the two conditions on a
whole document: the one under which no error is reported, and the one under which nothing is. The
rules on screenshots look at different parts of a path, and only together do they ask for the path
that belongs to the test case.
-/

namespace ScriptAudit

/-! ## Conditions -/

/-- No line of the text holds a word of the opposite mode, capitals aside. -/
def Document.KeepsMode (config : Config) (d : Document) : Prop :=
  ∀ l ∈ d.lines, ∀ w ∈ Rule.modeWords config d.mode.opposite,
    ¬Text.lower w.toList <:+: Text.lower l.2

namespace TestCase

/-- What a test case of a document has to be for no rule to report an error. -/
structure Valid (config : Config) (d : Document) (c : TestCase) : Prop where
  id_shaped : ∃ letters digits, TestIdParts c.id.toList letters digits
  id_headed : c.id.toList.takeWhile (· != '-') = (config.idHead d.feature).toList
  steps_some : c.steps ≠ []
  marked : ∀ e ∈ c.expectedUiState, ∃ m, e.marker = some m
  screenshots_own : ∀ p ∈ c.screenshots, ∃ s, Screenshot.parse? p.path = some s ∧
    s.feature = d.feature ∧ s.testId = c.id

/-- A word of the name, the prerequisites or the steps stands for the role. -/
def Mentions (config : Config) (c : TestCase) (role : String) : Prop :=
  ∃ text ∈ c.name :: c.prerequisites.map (·.text) ++ c.steps.map (·.text),
    ∃ word ∈ Text.runs (fun ch => !Text.isAlphanumeric ch) text.toList,
      Rule.role? (config.roles.keywords.map fun k => Text.lower k.toList) (Text.lower word) =
        some role.toList

/-- What a test case has to be, besides, for no rule to report anything. -/
structure Tidy (config : Config) (c : TestCase) : Prop where
  named : ∃ ch ∈ c.name.toList, Text.isBlank ch = false
  prerequisites_some : c.prerequisites ≠ []
  url_usable : ∀ url, c.startingUrl = some url → "http://".toList <+: url.text.toList ∨
    "https://".toList <+: url.text.toList ∨ "/".toList <+: url.text.toList
  numbered : c.steps.map (·.number) = List.range' 1 c.steps.length
  uiState_some : c.expectedUiState ≠ []
  result_some : Rule.normalize c.expectedResult.text.toList ≠ []
  result_new : ∀ s ∈ c.steps,
    Rule.normalize s.text.toList ≠ Rule.normalize c.expectedResult.text.toList
  result_no_summary :
    Rule.normalize (Rule.allSteps c.steps) ≠ Rule.normalize c.expectedResult.text.toList
  screenshots_stepped : ∀ p ∈ c.screenshots, ∀ s, Screenshot.parse? p.path = some s →
    ∃ step ∈ c.steps, step.number = s.step
  few_roles : ∀ roles : List String, roles.Nodup → (∀ role ∈ roles, c.Mentions config role) →
    roles.length < config.roles.threshold

end TestCase

namespace Rule

variable {config : Config} {d : Document}

/-! ## Rule by rule -/

theorem perCase_eq_nil_iff {judge : TestCase → Option Finding} :
    perCase judge d = [] ↔ ∀ c ∈ d.cases, judge c = none :=
  List.filterMap_eq_nil_iff

theorem perPlaceholder_eq_nil_iff {judge : TestCase → Placeholder → Option Finding} :
    perPlaceholder judge d = [] ↔ ∀ c ∈ d.cases, ∀ p ∈ c.screenshots, judge c p = none := by
  simp only [perPlaceholder, List.flatMap_eq_nil_iff, List.filterMap_eq_nil_iff]

/-- A finding is kept back when its condition holds. -/
theorem unless_eq_none_iff {P : Prop} [Decidable P] {f : Finding} :
    (if P then none else some f) = none ↔ P := by
  split <;> simp_all

theorem when_eq_none_iff {P : Prop} [Decidable P] {f : Finding} :
    (if P then some f else none) = none ↔ ¬P := by
  split <;> simp_all

theorem idFormat_eq_nil_iff : idFormat config d = [] ↔
    ∀ c ∈ d.cases, ∃ letters digits, TestIdParts c.id.toList letters digits := by
  simp only [idFormat, perCase_eq_nil_iff, unless_eq_none_iff, isTestId_iff]

theorem toList_idHead (id : String) : (idHead id).toList = id.toList.takeWhile (· != '-') := by
  simp only [idHead]
  split
  · rename_i head rest cut
    obtain ⟨whole, free⟩ := Text.cutAt?_beq_eq_some_iff.1 cut
    rw [whole, String.toList_ofList, Text.takeWhile_bne_append free]
  · rename_i uncut
    have free := Text.cutAt?_beq_eq_none_iff.1 uncut
    refine (List.takeWhile_eq_self_iff.2 fun c hc => bne_iff_ne.2 ?_).symm
    rintro rfl
    exact free hc

theorem idMatchesFeature_eq_nil_iff : idMatchesFeature config d = [] ↔
    ∀ c ∈ d.cases, c.id.toList.takeWhile (· != '-') = (config.idHead d.feature).toList := by
  simp only [idMatchesFeature, List.filterMap_eq_nil_iff, unless_eq_none_iff, ← toList_idHead,
    String.toList_inj]

theorem nameNonempty_eq_nil_iff : nameNonempty config d = [] ↔
    ∀ c ∈ d.cases, ∃ ch ∈ c.name.toList, Text.isBlank ch = false := by
  simp only [nameNonempty, perCase_eq_nil_iff, when_eq_none_iff, Text.allBlank, List.all_eq_true,
    not_forall, Bool.not_eq_true, exists_prop]

theorem prerequisitesNonempty_eq_nil_iff : prerequisitesNonempty config d = [] ↔
    ∀ c ∈ d.cases, c.prerequisites ≠ [] := by
  simp only [prerequisitesNonempty, perCase_eq_nil_iff, when_eq_none_iff, List.isEmpty_iff]

theorem isUsableUrl_iff {url : String} : isUsableUrl url = true ↔
    "http://".toList <+: url.toList ∨ "https://".toList <+: url.toList ∨
      "/".toList <+: url.toList := by
  simp only [isUsableUrl, List.any_cons, List.any_nil, Bool.or_false, Bool.or_eq_true,
    List.isPrefixOf_iff_prefix]

theorem startingUrlFormat_eq_nil_iff : startingUrlFormat config d = [] ↔
    ∀ c ∈ d.cases, ∀ url, c.startingUrl = some url → "http://".toList <+: url.text.toList ∨
      "https://".toList <+: url.text.toList ∨ "/".toList <+: url.text.toList := by
  simp only [startingUrlFormat, perCase_eq_nil_iff, Option.bind_eq_none_iff, unless_eq_none_iff,
    isUsableUrl_iff]

theorem stepsNonempty_eq_nil_iff : stepsNonempty config d = [] ↔ ∀ c ∈ d.cases, c.steps ≠ [] := by
  simp only [stepsNonempty, perCase_eq_nil_iff, when_eq_none_iff, List.isEmpty_iff]

theorem find?_misnumbered_eq_none_iff (steps : List Step) (first : Nat) :
    ((steps.zip (List.range' first steps.length)).find? fun (s, n) => s.number != n) = none ↔
      steps.map (·.number) = List.range' first steps.length := by
  induction steps generalizing first with
  | nil => simp
  | cons s rest ih =>
    rw [List.length_cons, List.range'_succ, List.zip_cons_cons, List.map_cons]
    by_cases same : s.number = first
    · rw [List.find?_cons_of_neg (by simp [same]), ih, List.cons.injEq]
      exact (and_iff_right same).symm
    · rw [List.find?_cons_of_pos (by simp [same]), List.cons.injEq]
      simp [same]

theorem stepNumbering_eq_nil_iff : stepNumbering config d = [] ↔
    ∀ c ∈ d.cases, c.steps.map (·.number) = List.range' 1 c.steps.length := by
  simp only [stepNumbering, perCase_eq_nil_iff, Option.map_eq_none_iff, misnumbered?,
    find?_misnumbered_eq_none_iff]

theorem uiStateMarker_eq_nil_iff : uiStateMarker config d = [] ↔
    ∀ c ∈ d.cases, ∀ e ∈ c.expectedUiState, ∃ m, e.marker = some m := by
  simp only [uiStateMarker, List.filterMap_eq_nil_iff, List.mem_flatMap, unless_eq_none_iff,
    Option.isSome_iff_exists]
  exact ⟨fun h c hc e he => h e ⟨c, hc, he⟩, fun h e ⟨c, hc, he⟩ => h c hc e he⟩

theorem uiStateNonempty_eq_nil_iff : uiStateNonempty config d = [] ↔
    ∀ c ∈ d.cases, c.expectedUiState ≠ [] := by
  simp only [uiStateNonempty, perCase_eq_nil_iff, when_eq_none_iff, List.isEmpty_iff]

theorem expectedResultNonempty_eq_nil_iff : expectedResultNonempty config d = [] ↔
    ∀ c ∈ d.cases, normalize c.expectedResult.text.toList ≠ [] ∧
      (∀ s ∈ c.steps, normalize s.text.toList ≠ normalize c.expectedResult.text.toList) ∧
      normalize (allSteps c.steps) ≠ normalize c.expectedResult.text.toList := by
  rw [expectedResultNonempty, perCase_eq_nil_iff]
  refine forall₂_congr fun c _ => ?_
  dsimp only
  split
  · rename_i empty
    simp [List.isEmpty_iff.1 empty]
  · rename_i some
    split
    · rename_i s repeated
      have same := List.find?_some repeated
      have hs := List.mem_of_find?_eq_some repeated
      simp only [reduceCtorEq, false_iff]
      exact fun h => h.2.1 s hs (by simpa using same)
    · rename_i new
      rw [List.find?_eq_none] at new
      rw [when_eq_none_iff]
      constructor
      · exact fun apart => ⟨by simpa using some, fun s hs same => new s hs (by simpa using same),
          fun same => apart same.symm⟩
      · exact fun h same => h.2.2 same.symm

theorem screenshotPathShape_eq_nil_iff : screenshotPathShape config d = [] ↔
    ∀ c ∈ d.cases, ∀ p ∈ c.screenshots, ∃ s, Screenshot.parse? p.path = some s ∧
      s.testId = c.id := by
  rw [screenshotPathShape, perPlaceholder_eq_nil_iff]
  refine forall₄_congr fun c _ p _ => ?_
  split
  · rename_i unread
    simp [unread]
  · rename_i s read
    rw [unless_eq_none_iff, read]
    simp

theorem screenshotFeatureMatch_eq_nil_iff : screenshotFeatureMatch config d = [] ↔
    ∀ c ∈ d.cases, ∀ p ∈ c.screenshots, ∀ feature,
      Screenshot.featureSegment? p.path = some feature → feature = d.feature := by
  rw [screenshotFeatureMatch, filterMap_placeholders, perPlaceholder_eq_nil_iff]
  simp only [Option.bind_eq_none_iff, unless_eq_none_iff]

/-- The segment that one rule compares is the feature of every path that the other lets pass. -/
theorem screenshotPath_eq_nil_iff :
    screenshotPathShape config d = [] ∧ screenshotFeatureMatch config d = [] ↔
      ∀ c ∈ d.cases, ∀ p ∈ c.screenshots, ∃ s, Screenshot.parse? p.path = some s ∧
        s.feature = d.feature ∧ s.testId = c.id := by
  rw [screenshotPathShape_eq_nil_iff, screenshotFeatureMatch_eq_nil_iff]
  constructor
  · rintro ⟨shaped, owned⟩ c hc p hp
    obtain ⟨s, read, same⟩ := shaped c hc p hp
    obtain ⟨digits, written⟩ := Screenshot.parse?_eq_some_iff.1 read
    exact ⟨s, read, owned c hc p hp _ written.featureSegment?_eq, same⟩
  · intro h
    constructor
    · intro c hc p hp
      obtain ⟨s, read, _, same⟩ := h c hc p hp
      exact ⟨s, read, same⟩
    · intro c hc p hp feature segment
      obtain ⟨s, read, owned, _⟩ := h c hc p hp
      obtain ⟨digits, written⟩ := Screenshot.parse?_eq_some_iff.1 read
      rw [written.featureSegment?_eq] at segment
      cases segment
      exact owned

theorem screenshotStepExists_eq_nil_iff : screenshotStepExists config d = [] ↔
    ∀ c ∈ d.cases, ∀ p ∈ c.screenshots, ∀ s, Screenshot.parse? p.path = some s →
      ∃ step ∈ c.steps, step.number = s.step := by
  simp only [screenshotStepExists, perPlaceholder_eq_nil_iff, Option.bind_eq_none_iff,
    unless_eq_none_iff, List.any_eq_true, decide_eq_true_eq]

theorem wordHits_eq_nil_iff {words : List (List Char)} {lines : List (Nat × List Char)} :
    wordHits words lines = [] ↔ ∀ l ∈ lines, ∀ w ∈ words, ¬w <:+: Text.lower l.2 := by
  simp only [wordHits, List.filterMap_eq_nil_iff, Option.map_eq_none_iff, List.find?_eq_none,
    Text.occursIn_iff]

theorem modeExclusivity_eq_nil_iff : modeExclusivity config d = [] ↔ d.KeepsMode config := by
  have silent : modeExclusivity config d = [] ↔
      wordHits ((modeWords config d.mode.opposite).map fun w => Text.lower w.toList) d.lines =
        [] := by
    simp only [modeExclusivity]
    split <;> simp_all
  simp only [silent, wordHits_eq_nil_iff, List.forall_mem_map, Document.KeepsMode]

theorem mem_rolesOf_iff {c : TestCase} {role : String} :
    role ∈ rolesOf (config.roles.keywords.map fun k => Text.lower k.toList) c ↔
      c.Mentions config role := by
  simp only [rolesOf, Text.mem_ascending, List.mem_filterMap, List.mem_flatMap,
    Option.map_eq_some_iff, TestCase.Mentions]
  constructor
  · rintro ⟨word, ⟨text, ht, hw⟩, name, found, rfl⟩
    exact ⟨text, ht, word, hw, by rw [found, String.toList_ofList]⟩
  · rintro ⟨text, ht, word, hw, found⟩
    exact ⟨word, ⟨text, ht, hw⟩, role.toList, found, String.ofList_toList⟩

theorem length_rolesOf_lt_iff {c : TestCase} {n : Nat} :
    (rolesOf (config.roles.keywords.map fun k => Text.lower k.toList) c).length < n ↔
      ∀ roles : List String, roles.Nodup → (∀ role ∈ roles, c.Mentions config role) →
        roles.length < n := by
  constructor
  · intro few roles distinct mentioned
    have among : roles ⊆ rolesOf (config.roles.keywords.map fun k => Text.lower k.toList) c :=
      fun role hrole => mem_rolesOf_iff.2 (mentioned role hrole)
    exact Nat.lt_of_le_of_lt (List.subperm_of_subset distinct among).length_le few
  · intro few
    exact few _ (Text.nodup_ascending _) fun role hrole => mem_rolesOf_iff.1 hrole

theorem singleScenario_eq_nil_iff : singleScenario config d = [] ↔
    ∀ c ∈ d.cases, ∀ roles : List String, roles.Nodup →
      (∀ role ∈ roles, c.Mentions config role) → roles.length < config.roles.threshold := by
  simp only [singleScenario, perCase_eq_nil_iff, when_eq_none_iff, Nat.not_le,
    length_rolesOf_lt_iff]

/-! ## The whole set -/

theorem stock_severity {r : Rule} (hr : r ∈ RuleSet.stock.rules) :
    r.severity = .error ∨ r.severity = .warning := by
  have all : ∀ r ∈ RuleSet.stock.rules, r.severity = .error ∨ r.severity = .warning := by
    simp [RuleSet.stock, total]
  exact all r hr

theorem stock_errors_silent_iff :
    (∀ r ∈ RuleSet.stock.rules, r.severity = .error → r.check config d = some []) ↔
      d.KeepsMode config ∧ ∀ c ∈ d.cases, c.Valid config d := by
  have listed : (∀ r ∈ RuleSet.stock.rules, r.severity = .error → r.check config d = some []) ↔
      idFormat config d = [] ∧ idMatchesFeature config d = [] ∧ stepsNonempty config d = [] ∧
        uiStateMarker config d = [] ∧
        (screenshotPathShape config d = [] ∧ screenshotFeatureMatch config d = []) ∧
        modeExclusivity config d = [] := by
    simp [RuleSet.stock, total, and_assoc]
  rw [listed, idFormat_eq_nil_iff, idMatchesFeature_eq_nil_iff, stepsNonempty_eq_nil_iff,
    uiStateMarker_eq_nil_iff, screenshotPath_eq_nil_iff, modeExclusivity_eq_nil_iff]
  constructor
  · rintro ⟨shaped, headed, steps, marked, own, mode⟩
    exact ⟨mode, fun c hc =>
      ⟨shaped c hc, headed c hc, steps c hc, marked c hc, own c hc⟩⟩
  · rintro ⟨mode, valid⟩
    exact ⟨fun c hc => (valid c hc).id_shaped, fun c hc => (valid c hc).id_headed,
      fun c hc => (valid c hc).steps_some, fun c hc => (valid c hc).marked,
      fun c hc => (valid c hc).screenshots_own, mode⟩

theorem stock_warnings_silent_iff :
    (∀ r ∈ RuleSet.stock.rules, r.severity = .warning → r.check config d = some []) ↔
      ∀ c ∈ d.cases, c.Tidy config := by
  have listed : (∀ r ∈ RuleSet.stock.rules, r.severity = .warning → r.check config d = some []) ↔
      nameNonempty config d = [] ∧ prerequisitesNonempty config d = [] ∧
        startingUrlFormat config d = [] ∧ stepNumbering config d = [] ∧
        uiStateNonempty config d = [] ∧ expectedResultNonempty config d = [] ∧
        screenshotStepExists config d = [] ∧ singleScenario config d = [] := by
    simp [RuleSet.stock, total]
  rw [listed, nameNonempty_eq_nil_iff, prerequisitesNonempty_eq_nil_iff,
    startingUrlFormat_eq_nil_iff, stepNumbering_eq_nil_iff, uiStateNonempty_eq_nil_iff,
    expectedResultNonempty_eq_nil_iff, screenshotStepExists_eq_nil_iff, singleScenario_eq_nil_iff]
  constructor
  · rintro ⟨named, prerequisites, url, numbered, uiState, result, stepped, roles⟩ c hc
    obtain ⟨some, new, no_summary⟩ := result c hc
    exact ⟨named c hc, prerequisites c hc, url c hc, numbered c hc, uiState c hc, some, new,
      no_summary, stepped c hc, roles c hc⟩
  · intro tidy
    exact ⟨fun c hc => (tidy c hc).named, fun c hc => (tidy c hc).prerequisites_some,
      fun c hc => (tidy c hc).url_usable, fun c hc => (tidy c hc).numbered,
      fun c hc => (tidy c hc).uiState_some,
      fun c hc => ⟨(tidy c hc).result_some, (tidy c hc).result_new, (tidy c hc).result_no_summary⟩,
      fun c hc => (tidy c hc).screenshots_stepped, fun c hc => (tidy c hc).few_roles⟩

end Rule

/-- The stock rules always have a result. No error is in it exactly when the text keeps to its mode
and every test case is valid; nothing is in it exactly when the test cases are tidy as well. -/
theorem RuleSet.evaluate_stock_verdict (config : Config) (d : Document) :
    ∃ ds, stock.evaluate config d = some ds ∧
      ((∀ x ∈ ds, x.severity ≠ .error) ↔
        d.KeepsMode config ∧ ∀ c ∈ d.cases, c.Valid config d) ∧
      (ds = [] ↔
        (d.KeepsMode config ∧ ∀ c ∈ d.cases, c.Valid config d) ∧ ∀ c ∈ d.cases, c.Tidy config) := by
  obtain ⟨ds, result, _⟩ := exists_evaluate_stock config d
  refine ⟨ds, result, ?_, ?_⟩
  · exact (silent_iff_of_evaluate result fun _ _ => Iff.rfl).trans Rule.stock_errors_silent_iff
  · rw [eq_nil_iff_of_evaluate result, ← Rule.stock_errors_silent_iff,
      ← Rule.stock_warnings_silent_iff]
    constructor
    · exact fun silent => ⟨fun r hr _ => silent r hr, fun r hr _ => silent r hr⟩
    · rintro ⟨errors, warnings⟩ r hr
      rcases Rule.stock_severity hr with graded | graded
      · exact errors r hr graded
      · exact warnings r hr graded

end ScriptAudit
