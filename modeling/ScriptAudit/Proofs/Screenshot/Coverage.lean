import ScriptAudit.Proofs.Consistency
import ScriptAudit.Proofs.Rule.Stock
import ScriptAudit.Proofs.Screenshot

/-!
# No placeholder goes unchecked

The rules read a placeholder strictly, the check of its feature reads it loosely. Whatever the rules
let pass names a file in the screenshot directory of the document's feature, and then the check of
that feature either finds the file or reports it missing.
-/

namespace ScriptAudit

namespace Rule

/-- The finding is at the line of the placeholder, and its message begins with the path. -/
def Objects (p : Placeholder) (f : Finding) : Prop :=
  f.line = some p.line ∧ ∃ rest, f.message = "screenshot path '" ++ p.path ++ "'" ++ rest

variable {config : Config} {d : Document} {c : TestCase} {p : Placeholder}

section Strict

variable (hc : c ∈ d.cases) (hp : p ∈ c.screenshots)
include hc hp

theorem exists_mem_perPlaceholder {judge : TestCase → Placeholder → Option Finding}
    {P : Finding → Prop} (h : ∃ f, judge c p = some f ∧ P f) :
    ∃ f ∈ perPlaceholder judge d, P f := by
  obtain ⟨f, found, hf⟩ := h
  exact ⟨f, List.mem_flatMap.2 ⟨c, hc, List.mem_filterMap.2 ⟨p, hp, found⟩⟩, hf⟩

theorem exists_objects_of_parse?_eq_none (h : Screenshot.parse? p.path = none) :
    ∃ f ∈ screenshotPathShape config d, Objects p f := by
  refine exists_mem_perPlaceholder hc hp ?_
  simp only [h]
  refine ⟨_, rfl, rfl, " does not match qa/<feature>/screenshots/<id>_<step>-<element>.png", ?_⟩
  rw [Finding.onLine, String.append_assoc, String.append_assoc, String.append_assoc]
  rfl

theorem exists_objects_of_feature_ne {feature : String}
    (h : Screenshot.featureSegment? p.path = some feature) (other : feature ≠ d.feature) :
    ∃ f ∈ screenshotFeatureMatch config d, Objects p f := by
  rw [screenshotFeatureMatch, filterMap_placeholders]
  refine exists_mem_perPlaceholder hc hp ?_
  simp only [h, Option.bind_some, if_neg other]
  refine ⟨_, rfl, rfl, " belongs to feature '" ++ feature ++ "' but the document is in feature '" ++
    d.feature ++ "' (" ++ feature ++ " != " ++ d.feature ++ ")", ?_⟩
  rw [Finding.onLine, show "' belongs to feature '" = "'" ++ " belongs to feature '" from rfl]
  simp only [String.append_assoc]

end Strict

end Rule

namespace Consistency

theorem path_eq_of_missing_eq {f : Feature} {d e : Document} {p q : Placeholder}
    (same : missing f d p = missing f e q) : p.path = q.path := by
  have message := congrArg (fun x : Diagnostic => x.message.toList) same
  simp only [missing, diagnostic, String.toList_append, List.append_cancel_right_eq,
    List.append_cancel_left_eq] at message
  exact String.toList_inj.1 message

theorem missing_mem_check_iff {f : Feature} {documents : List Document} {d : Document}
    (among : d ∈ documents) {p : Placeholder} (hp : p ∈ d.placeholders) :
    missing f d p ∈ f.check documents ↔
      ∃ name, f.reference? p = some name ∧ name ∉ f.screenshots := by
  have reported : missing f d p ∈ f.check documents ↔
      missing f d p ∈ missingScreenshots f documents := by
    rw [← Feature.filter_check_missing, List.mem_filter]
    simp [missing, diagnostic]
  rw [reported, mem_missingScreenshots_iff]
  constructor
  · rintro ⟨e, _, q, _, name, refers, absent, same⟩
    refine ⟨name, ?_, absent⟩
    rw [Feature.reference?, path_eq_of_missing_eq same]
    exact refers
  · rintro ⟨name, refers, absent⟩
    exact ⟨d, among, p, hp, name, refers, absent, rfl⟩

end Consistency

namespace Document

variable {config : Config} {d : Document} {p : Placeholder}

/-- A rule on screenshot paths reports the placeholder at its line, by its path. -/
def Reports (config : Config) (d : Document) (p : Placeholder) : Prop :=
  ∃ ds, RuleSet.stock.evaluate config d = some ds ∧ ∃ x ∈ ds,
    (x.ruleId = "screenshot-path-shape" ∨ x.ruleId = "screenshot-feature-match") ∧
      x.line = some p.line ∧ ∃ rest, x.message = "screenshot path '" ++ p.path ++ "'" ++ rest

/-- What a stock rule on screenshots finds is reported. -/
theorem reports_of_objects (id : String) {r : Rule} (stocked : RuleSet.stock.get? id = some r)
    (own : r.id = "screenshot-path-shape" ∨ r.id = "screenshot-feature-match")
    {found : List Finding} (checked : r.check config d = some found)
    (objected : ∃ f ∈ found, Rule.Objects p f) : Reports config d p := by
  obtain ⟨ds, result, _⟩ := RuleSet.exists_evaluate_stock config d
  obtain ⟨f, hf, line, rest, message⟩ := objected
  refine ⟨ds, result, r.diagnostic d f, ?_, own, line, rest, message⟩
  have hr : r ∈ RuleSet.stock.rules := List.mem_of_find?_eq_some stocked
  exact (RuleSet.mem_iff_of_evaluate result).2 ⟨r, hr, found, checked, f, hf, rfl⟩

/-- What the rules let pass names a file of the document's feature. -/
theorem exists_fileName?_of_not_reports (hp : p ∈ d.placeholders) (passed : ¬Reports config d p) :
    ∃ name, Screenshot.fileName? p.path d.feature = some name := by
  obtain ⟨c, hc, hp⟩ := List.mem_flatMap.1 hp
  have shape : ¬∃ f ∈ Rule.screenshotPathShape config d, Rule.Objects p f := fun objected =>
    passed (reports_of_objects "screenshot-path-shape" rfl (.inl rfl) rfl objected)
  have feature : ¬∃ f ∈ Rule.screenshotFeatureMatch config d, Rule.Objects p f := fun objected =>
    passed (reports_of_objects "screenshot-feature-match" rfl (.inr rfl) rfl objected)
  cases parsed : Screenshot.parse? p.path with
  | none => exact absurd (Rule.exists_objects_of_parse?_eq_none hc hp parsed) shape
  | some s =>
    obtain ⟨digits, written⟩ := Screenshot.parse?_eq_some_iff.1 parsed
    by_cases same : s.feature = d.feature
    · exact ⟨_, same ▸ written.fileName?_eq⟩
    · exact absurd (Rule.exists_objects_of_feature_ne hc hp written.featureSegment?_eq same) feature

/-- Every placeholder of a document, and so of every document that was read, is reported by a rule
on screenshot paths, or it names a file in the screenshot directory of the document's feature. In
the second case, whatever other documents the feature is checked with, either the feature has the
file or its check reports that this path of this document and line is missing, and not both. -/
theorem placeholder_checked (config : Config) {d : Document} {f : Feature}
    (owned : f.name = d.feature) {documents : List Document} (among : d ∈ documents)
    {p : Placeholder} (hp : p ∈ d.placeholders) :
    Reports config d p ∨ ∃ name, Screenshot.fileName? p.path d.feature = some name ∧
      (name ∈ f.screenshots ↔ Consistency.missing f d p ∉ f.check documents) := by
  by_cases passed : Reports config d p
  · exact Or.inl passed
  · obtain ⟨name, refers⟩ := exists_fileName?_of_not_reports hp passed
    have own : f.reference? p = some name := by rw [Feature.reference?, owned, refers]
    refine Or.inr ⟨name, refers, ?_⟩
    rw [Consistency.missing_mem_check_iff among hp, own]
    simp

/-- A document that the rules have nothing to say about, with one placeholder. -/
def cardTest : Document where
  path := ⟨"acl/a.mock.md"⟩
  feature := "acl"
  mode := .mock
  cases := [
    { id := "ACL-001", name := "Card", line := 1
      prerequisites := [⟨"Signed in", 3⟩], setupScript := none, startingUrl := none
      steps := [⟨1, "Open", 5⟩], expectedUiState := [⟨some .present, "Card", "", 7⟩]
      expectedResult := ⟨"Shown", 8⟩
      screenshots := [⟨"qa/acl/screenshots/ACL-001_01-card.png", "", 9⟩] }]
  source := ""

/-- The screenshot of the card is not there. -/
theorem placeholder_checked_cardTest :
    let f : Feature := ⟨⟨"acl"⟩, "acl", [⟨"acl/a.mock.md"⟩], ["ACL-001_02-card.png"]⟩
    let p : Placeholder := ⟨"qa/acl/screenshots/ACL-001_01-card.png", "", 9⟩
    f.name = cardTest.feature ∧ cardTest ∈ [cardTest] ∧ p ∈ cardTest.placeholders ∧
      Consistency.missing f cardTest p ∈ f.check [cardTest] := by
  intro f p
  have among : cardTest ∈ [cardTest] := List.mem_singleton_self _
  have hp : p ∈ cardTest.placeholders := List.mem_singleton_self _
  refine ⟨rfl, among, hp, ?_⟩
  rcases placeholder_checked {} (f := f) rfl among hp with ⟨ds, result, x, hx, _⟩ |
    ⟨name, refers, found⟩
  · have none : RuleSet.stock.evaluate {} cardTest = some [] := by decide +kernel
    rw [none] at result
    cases result
    cases hx
  · have named : Screenshot.fileName? p.path cardTest.feature = some "ACL-001_01-card.png" := by
      decide +kernel
    rw [named] at refers
    cases refers
    exact Decidable.of_not_not fun absent => absurd (found.2 absent) (by decide)

end Document

end ScriptAudit
