import ScriptAudit.Proofs.Rule.Adjust
import ScriptAudit.Proofs.Rule.Conformance
import ScriptAudit.Proofs.Screenshot.Coverage

/-!
# The grammar of screenshot paths

A screenshot path is spelled from a feature, a test id, the digits of a step number and an element.
The parts share letters, digits and hyphens, but no path can be spelled in two ways. The strict
reader accepts just what can be spelled, and the readers that look at one segment, and the rule on
test ids, agree with it.
-/

namespace ScriptAudit

namespace Screenshot

/-- A small letter or a digit. -/
def IsWordChar (c : Char) : Prop :=
  'a' ≤ c ∧ c ≤ 'z' ∨ '0' ≤ c ∧ c ≤ '9'

instance : DecidablePred IsWordChar := fun _ => inferInstanceAs (Decidable (_ ∨ _))

/-- The parts of a path, as they are written. -/
structure Spelling where
  feature : String
  testId : String
  digits : String
  element : String
deriving DecidableEq, Repr

namespace Spelling

/-- Each part is in its own alphabet, and the digits write a 32-bit number. -/
structure Grammatical (w : Spelling) : Prop where
  feature : ∃ first rest, w.feature.toList = first :: rest ∧ IsWordChar first ∧
    ∀ c ∈ rest, IsWordChar c ∨ c = '_' ∨ c = '-'
  testId : ∃ letters number, w.testId.toList = letters ++ '-' :: number ∧ letters ≠ [] ∧
    (∀ c ∈ letters, 'A' ≤ c ∧ c ≤ 'Z') ∧ 3 ≤ number.length ∧ ∀ c ∈ number, '0' ≤ c ∧ c ≤ '9'
  digits : 2 ≤ w.digits.toList.length ∧ ∀ c ∈ w.digits.toList, '0' ≤ c ∧ c ≤ '9'
  bounded : Text.decimalValue w.digits.toList < Nat.pow 2 32
  element : ∃ words, words ≠ [] ∧ w.element.toList = ['-'].intercalate words ∧
    ∀ word ∈ words, word ≠ [] ∧ ∀ c ∈ word, IsWordChar c

def fileName (w : Spelling) : String :=
  w.testId ++ "_" ++ w.digits ++ "-" ++ w.element ++ ".png"

def path (w : Spelling) : String :=
  "qa/" ++ w.feature ++ "/screenshots/" ++ w.fileName

/-- What the parts name. -/
def named (w : Spelling) : Screenshot where
  feature := w.feature
  testId := w.testId
  step := Text.decimalValue w.digits.toList
  element := w.element

end Spelling

/-! ## Alphabets -/

theorem isLowerAlphanumeric_iff {c : Char} : isLowerAlphanumeric c = true ↔ IsWordChar c := by
  rw [isLowerAlphanumeric, Text.isDigit]
  delta Char.isLower
  simp [IsWordChar, Char.le_def]

theorem isDigit_iff {c : Char} : Text.isDigit c = true ↔ '0' ≤ c ∧ c ≤ '9' := by
  simp [Text.isDigit]

theorem isUpper_iff {c : Char} : c.isUpper = true ↔ 'A' ≤ c ∧ c ≤ 'Z' := by
  delta Char.isUpper
  simp [Char.le_def]

theorem isFeatureName_iff {s : List Char} : isFeatureName s = true ↔
    ∃ first rest, s = first :: rest ∧ IsWordChar first ∧
      ∀ c ∈ rest, IsWordChar c ∨ c = '_' ∨ c = '-' := by
  cases s with
  | nil => simp [isFeatureName]
  | cons first rest => simp [isFeatureName, isLowerAlphanumeric_iff, or_assoc]

theorem isTestId_iff_letters {s : List Char} : isTestId s = true ↔
    ∃ letters number, s = letters ++ '-' :: number ∧ letters ≠ [] ∧
      (∀ c ∈ letters, 'A' ≤ c ∧ c ≤ 'Z') ∧ 3 ≤ number.length ∧ ∀ c ∈ number, '0' ≤ c ∧ c ≤ '9' := by
  simp only [← isUpper_iff, ← isDigit_iff]
  rw [isTestId_iff]
  constructor
  · rintro ⟨letters, digits, whole, some, capitals, enough, numeric⟩
    exact ⟨letters, digits, whole, some, capitals, enough, numeric⟩
  · rintro ⟨letters, digits, whole, some, capitals, enough, numeric⟩
    exact ⟨letters, digits, whole, some, capitals, enough, numeric⟩

theorem isElementName_iff {s : List Char} : isElementName s = true ↔
    ∃ words, words ≠ [] ∧ s = ['-'].intercalate words ∧
      ∀ word ∈ words, word ≠ [] ∧ ∀ c ∈ word, IsWordChar c := by
  have shaped (words : List (List Char)) :
      (words.all fun word => !word.isEmpty && word.all isLowerAlphanumeric) = true ↔
        ∀ word ∈ words, word ≠ [] ∧ ∀ c ∈ word, IsWordChar c := by
    simp [isLowerAlphanumeric_iff]
  rw [isElementName, shaped]
  constructor
  · intro own
    exact ⟨_, List.splitOn_ne_nil '-' s, (List.intercalate_splitOn '-').symm, own⟩
  · rintro ⟨words, some, rfl, own⟩
    have free : ∀ word ∈ words, '-' ∉ word := fun word hword hyphen =>
      absurd ((own word hword).2 '-' hyphen) (by decide)
    rwa [List.splitOn_intercalate '-' free some]

/-! ## Paths -/

namespace Spelling

variable {v w : Spelling}

theorem Grammatical.written (h : w.Grammatical) : w.named.Written w.digits.toList w.path where
  whole := by simp [path, fileName, fileText, named]
  feature := isFeatureName_iff.2 h.feature
  testId := isTestId_iff_letters.2 h.testId
  enough := h.digits.1
  step := by
    have some : w.digits.toList ≠ [] := by
      intro empty
      have enough := h.digits.1
      rw [empty] at enough
      exact absurd enough (by decide)
    exact Text.decimalBelow?_eq_some_iff.2
      ⟨some, fun c hc => isDigit_iff.2 (h.digits.2 c hc), rfl, h.bounded⟩
  element := isElementName_iff.2 h.element

theorem exists_of_written {s : Screenshot} {digits : List Char} {path : String}
    (written : s.Written digits path) :
    ∃ w : Spelling, w.Grammatical ∧ path = w.path ∧ s = w.named := by
  obtain ⟨whole, feature, testId, enough, step, element⟩ := written
  obtain ⟨_, numeric, value, below⟩ := Text.decimalBelow?_eq_some_iff.1 step
  refine ⟨⟨s.feature, s.testId, String.ofList digits, s.element⟩, ?_, ?_, ?_⟩
  · refine ⟨isFeatureName_iff.1 feature, isTestId_iff_letters.1 testId, ?_, ?_,
      isElementName_iff.1 element⟩
    · rw [String.toList_ofList]
      exact ⟨enough, fun c hc => isDigit_iff.1 (numeric c hc)⟩
    · rw [String.toList_ofList, value]
      exact below
  · refine String.toList_inj.1 (whole.trans ?_)
    simp [Spelling.path, fileName, fileText]
  · rw [named, String.toList_ofList, value]

/-- What is read settles all parts but the digits, and the path then settles these. -/
theorem Grammatical.eq_of_path_eq (hv : v.Grammatical) (hw : w.Grammatical)
    (same : v.path = w.path) : v = w := by
  have readV := parse?_eq_some_iff.2 ⟨_, hv.written⟩
  have readW := parse?_eq_some_iff.2 ⟨_, hw.written⟩
  rw [same, readW] at readV
  obtain ⟨feature, testId, _, element⟩ := Screenshot.mk.inj (Option.some.inj readV)
  have digits : v.digits = w.digits := by
    have texts := congrArg String.toList same
    simp only [path, fileName, feature, testId, element, String.toList_append,
      List.append_cancel_left_eq, List.append_cancel_right_eq] at texts
    exact String.toList_inj.1 texts
  cases v
  cases w
  simp_all

theorem Grammatical.slash_not_mem_fileName (h : w.Grammatical) : '/' ∉ w.fileName.toList := by
  have free := h.written.slash_free_fileText
  simpa [fileText, fileName, named] using free

theorem Grammatical.fileName?_eq (h : w.Grammatical) (feature : String) :
    fileName? w.path feature = if feature = w.feature then some w.fileName else none := by
  split
  · rename_i own
    rw [own]
    refine h.written.fileName?_eq.trans ?_
    simp [fileText, fileName, named, ← String.toList_inj]
  · rename_i other
    have apart : w.feature ≠ feature := fun same => other same.symm
    simp [fileName?, h.written.segments_eq, named, String.toList_inj, apart]

end Spelling

/-- What the readers of single segments and the rule on test ids make of a path that is spelled from
these parts. -/
structure ReadAs (path : String) (w : Spelling) : Prop where
  segment : featureSegment? path = some w.feature
  file : ∃ front name, path = front ++ "/" ++ name ∧ '/' ∉ name.toList ∧
    ∀ feature, fileName? path feature = if feature = w.feature then some name else none
  id_passes : ∀ config (d : Document), (∀ c ∈ d.cases, c.id = w.testId) →
    Rule.idFormat config d = []

theorem Spelling.Grammatical.readAs {w : Spelling} (h : w.Grammatical) : ReadAs w.path w where
  segment := h.written.featureSegment?_eq
  file := by
    refine ⟨"qa/" ++ w.feature ++ "/screenshots", w.fileName, ?_, h.slash_not_mem_fileName,
      h.fileName?_eq⟩
    simp [path, ← String.toList_inj]
  id_passes := by
    intro config d own
    refine Rule.idFormat_eq_nil_iff.2 fun c hc => isTestId_iff.1 ?_
    rw [own c hc]
    exact h.written.testId

end Screenshot

/-! ## Test cases -/

theorem Rule.exists_objects_of_testId_ne {config : Config} {d : Document} {c : TestCase}
    {p : Placeholder} (hc : c ∈ d.cases) (hp : p ∈ c.screenshots) {s : Screenshot}
    (parsed : Screenshot.parse? p.path = some s) (other : s.testId ≠ c.id) :
    ∃ f ∈ screenshotPathShape config d, Objects p f := by
  refine exists_mem_perPlaceholder hc hp ?_
  simp only [parsed, if_neg other]
  refine ⟨_, rfl, rfl, " names test '" ++ s.testId ++ "' but the test case id is '" ++ c.id ++ "'",
    ?_⟩
  rw [Finding.onLine, show "' names test '" = "'" ++ " names test '" from rfl]
  simp only [String.append_assoc]

namespace Document

variable {config : Config} {d : Document} {ds : List Diagnostic} {c : TestCase} {p : Placeholder}

/-- The rule on the shape of screenshot paths reports the placeholder at its line, by its path. -/
def MisshapesPath (ds : List Diagnostic) (p : Placeholder) : Prop :=
  ∃ x ∈ ds, x.ruleId = "screenshot-path-shape" ∧ x.line = some p.line ∧
    ∃ rest, x.message = "screenshot path '" ++ p.path ++ "'" ++ rest

/-- The rule on the format of ids reports the test case at its line, by its id. -/
def MisshapesId (ds : List Diagnostic) (c : TestCase) : Prop :=
  ∃ x ∈ ds, x.ruleId = "id-format" ∧ x.line = some c.line ∧
    x.message = "test case id '" ++ c.id ++ "' does not match UPPER-### (e.g. ACL-001)"

theorem exists_parse?_of_not_misshapesPath (result : RuleSet.stock.evaluate config d = some ds)
    (hc : c ∈ d.cases) (hp : p ∈ c.screenshots) (passed : ¬MisshapesPath ds p) :
    ∃ s, Screenshot.parse? p.path = some s ∧ s.testId = c.id := by
  have silent : ¬∃ f ∈ Rule.screenshotPathShape config d, Rule.Objects p f := by
    rintro ⟨f, hf, line, message⟩
    have stocked : RuleSet.stock.rules.find? (·.id = "screenshot-path-shape") = some
        (Rule.total "screenshot-path-shape" .error
          "placeholder path is qa/<feature>/screenshots/<id>_<step>-<element>.png"
          Rule.screenshotPathShape) := rfl
    obtain ⟨hx, id⟩ := (RuleSet.mem_stock_iff result (List.mem_of_find?_eq_some stocked) rfl).2
      ⟨f, hf, rfl⟩
    exact passed ⟨_, hx, id, line, message⟩
  cases parsed : Screenshot.parse? p.path with
  | none => exact absurd (Rule.exists_objects_of_parse?_eq_none hc hp parsed) silent
  | some s =>
    by_cases own : s.testId = c.id
    · exact ⟨s, rfl, own⟩
    · exact absurd (Rule.exists_objects_of_testId_ne hc hp parsed own) silent

theorem not_misshapesId_of_isTestId (result : RuleSet.stock.evaluate config d = some ds)
    (shaped : isTestId c.id.toList = true) : ¬MisshapesId ds c := by
  rintro ⟨x, hx, id, _, message⟩
  have stocked : RuleSet.stock.rules.find? (·.id = "id-format") = some
      (Rule.total "id-format" .error "test case id matches UPPER-###" Rule.idFormat) := rfl
  obtain ⟨f, hf, rfl⟩ := (RuleSet.mem_stock_iff result (List.mem_of_find?_eq_some stocked) rfl).1
    ⟨hx, id⟩
  obtain ⟨e, _, found⟩ := List.mem_filterMap.1 hf
  split at found
  · cases found
  · rename_i misshapen
    cases found
    have texts := congrArg String.toList message
    simp only [Rule.diagnostic, Finding.onLine, String.toList_append, List.append_cancel_right_eq,
      List.append_cancel_left_eq] at texts
    exact misshapen (texts ▸ shaped)

end Document

/-- A path is read strictly exactly when it is spelled from parts in their alphabets, as what these
parts name, and it is spelled so in one way only. The readers of single segments find the same
feature and, for that feature alone, what follows the last slash. The rule on ids accepts the test
id, and so every id whose case has a screenshot that the rule on paths lets pass. -/
theorem Screenshot.parse?_eq_some_iff_spelled (path : String) :
    (∀ s, parse? path = some s ↔ ∃ w : Spelling, w.Grammatical ∧ path = w.path ∧ s = w.named) ∧
    (∀ v w : Spelling, v.Grammatical → w.Grammatical → path = v.path → path = w.path → v = w) ∧
    (∀ w : Spelling, w.Grammatical → path = w.path → ReadAs path w) ∧
    ∀ (config : Config) (d : Document), ∃ ds, RuleSet.stock.evaluate config d = some ds ∧
      ∀ c ∈ d.cases, ∀ p ∈ c.screenshots, p.path = path →
        ¬Document.MisshapesPath ds p → ¬Document.MisshapesId ds c := by
  refine ⟨fun s => ?_, fun v w hv hw pathV pathW => ?_, fun w hw own => ?_, fun config d => ?_⟩
  · rw [parse?_eq_some_iff]
    constructor
    · rintro ⟨digits, written⟩
      exact Spelling.exists_of_written written
    · rintro ⟨w, hw, rfl, rfl⟩
      exact ⟨_, hw.written⟩
  · exact hv.eq_of_path_eq hw (pathV.symm.trans pathW)
  · rw [own]
    exact hw.readAs
  · obtain ⟨ds, result, _⟩ := RuleSet.exists_evaluate_stock config d
    refine ⟨ds, result, fun c hc p hp _ passed => ?_⟩
    obtain ⟨s, parsed, own⟩ := Document.exists_parse?_of_not_misshapesPath result hc hp passed
    obtain ⟨digits, written⟩ := parse?_eq_some_iff.1 parsed
    exact Document.not_misshapesId_of_isTestId result (own ▸ written.testId)

/-- The parts of a path in which every part has a character of another one's alphabet. -/
def Screenshot.Spelling.card : Spelling where
  feature := "2-fa_x"
  testId := "ACL-0013"
  digits := "007"
  element := "01-card-2"

theorem Screenshot.Spelling.grammatical_card : card.Grammatical where
  feature := isFeatureName_iff.1 (by decide +kernel)
  testId := isTestId_iff_letters.1 (by decide +kernel)
  digits := by
    have numeric : card.digits.toList.all Text.isDigit = true := by decide +kernel
    exact ⟨by decide, fun c hc => isDigit_iff.1 (List.all_eq_true.1 numeric c hc)⟩
  bounded := by decide +kernel
  element := isElementName_iff.1 (by decide +kernel)

theorem Screenshot.parse?_eq_some_iff_spelled_card :
    (Spelling.card.Grammatical ∧
      Spelling.card.path = "qa/2-fa_x/screenshots/ACL-0013_007-01-card-2.png" ∧
      parse? "qa/2-fa_x/screenshots/ACL-0013_007-01-card-2.png" =
        some ⟨"2-fa_x", "ACL-0013", 7, "01-card-2"⟩ ∧
      ReadAs "qa/2-fa_x/screenshots/ACL-0013_007-01-card-2.png" Spelling.card) ∧
    RuleSet.stock.evaluate {} Document.cardTest = some [] ∧
      ∃ c ∈ Document.cardTest.cases, ∃ p ∈ c.screenshots,
        ¬Document.MisshapesPath [] p ∧ ¬Document.MisshapesId [] c := by
  have own : Spelling.card.path = "qa/2-fa_x/screenshots/ACL-0013_007-01-card-2.png" := by
    decide +kernel
  obtain ⟨read, _, readAs, _⟩ :=
    parse?_eq_some_iff_spelled "qa/2-fa_x/screenshots/ACL-0013_007-01-card-2.png"
  refine ⟨⟨Spelling.grammatical_card, own, (read _).2 ⟨Spelling.card, Spelling.grammatical_card,
    own.symm, by decide +kernel⟩, readAs _ Spelling.grammatical_card own.symm⟩, ?_⟩
  obtain ⟨_, _, _, passes⟩ := parse?_eq_some_iff_spelled "qa/acl/screenshots/ACL-001_01-card.png"
  obtain ⟨ds, result, passes⟩ := passes {} Document.cardTest
  have none : RuleSet.stock.evaluate {} Document.cardTest = some [] := by decide +kernel
  rw [none] at result
  cases result
  have silent (p : Placeholder) : ¬Document.MisshapesPath [] p := by simp [Document.MisshapesPath]
  exact ⟨none, _, List.mem_singleton_self _, _, List.mem_singleton_self _, silent _,
    passes _ (List.mem_singleton_self _) _ (List.mem_singleton_self _) rfl (silent _)⟩

end ScriptAudit
