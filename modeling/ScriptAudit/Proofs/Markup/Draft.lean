import ScriptAudit.Proofs.Markup.Entry

/-!
# Drafts are read as they were written

A canonical draft is one whose texts cannot be taken for something else in the place that they are
written at. The text of such a draft is a document, and what it holds is the draft with its lines.
-/

namespace ScriptAudit

open Markup

instance (s : String) : Decidable (IsTrimmedLine s) :=
  decidable_of_iff ('\n' ∉ s.toList ∧ Text.trim s.toList = s.toList)
    ⟨fun h => ⟨h.1, h.2⟩, fun h => ⟨h.single, h.trimmed⟩⟩

namespace Draft

/-- The texts that stand outside of screenshot placeholders. -/
def texts (d : Draft) : List String :=
  d.id :: d.name :: d.prerequisites ++ d.startingUrl.toList ++ d.steps ++
    d.expectedUiState.flatMap (fun e => [e.element, e.description]) ++ [d.expectedResult]

theorem mem_texts_of_expectation {d : Draft} {e : Expectation} (he : e ∈ d.expectedUiState) :
    e.element ∈ d.texts ∧ e.description ∈ d.texts :=
  ⟨List.mem_append_left _ (List.mem_append_right _ (List.mem_flatMap.2 ⟨e, he, by simp⟩)),
    List.mem_append_left _ (List.mem_append_right _ (List.mem_flatMap.2 ⟨e, he, by simp⟩))⟩

/-- A draft whose texts cannot be taken for something else where they are written. -/
structure Canonical (d : Draft) : Prop where
  trimmed : ∀ s ∈ d.texts, IsTrimmedLine s
  unopened : ∀ s ∈ d.texts, ¬placeholderOpening <:+: s.toList
  id_ne : d.id ≠ ""
  id_word : ∀ c ∈ d.id.toList, Text.isBlank c = false
  id_end : d.id.toList.getLast? ≠ some ':'
  name_ne : d.name ≠ ""
  prerequisites_ne : ∀ p ∈ d.prerequisites, p ≠ ""
  url_ne : ∀ u ∈ d.startingUrl, u ≠ ""
  url_word : ∀ u ∈ d.startingUrl, ∀ c ∈ u.toList, Text.isBlank c = false
  url_ends : ∀ u ∈ d.startingUrl, ∀ c ∈ ['\x60', '<', '>'],
    u.toList.head? ≠ some c ∧ u.toList.getLast? ≠ some c
  steps_ne : ∀ s ∈ d.steps, s ≠ ""
  steps_lt : d.steps.length < stepBound
  element_ne : ∀ e ∈ d.expectedUiState, e.element ≠ ""
  element_star : ∀ e ∈ d.expectedUiState, '*' ∉ e.element.toList
  result_ne : d.expectedResult ≠ ""
  result_hash : ¬['#'] <+: d.expectedResult.toList
  result_fence : ¬"```".toList <+: d.expectedResult.toList
  path_trimmed : ∀ cs ∈ d.screenshots, ∀ c ∈ cs, IsTrimmedLine c.path
  path_ne : ∀ cs ∈ d.screenshots, ∀ c ∈ cs, c.path ≠ ""
  path_free : ∀ cs ∈ d.screenshots, ∀ c ∈ cs, ∀ m ∈ ['|', '<', '>'], m ∉ c.path.toList
  caption_trimmed : ∀ cs ∈ d.screenshots, ∀ c ∈ cs, IsTrimmedLine c.description
  caption_free : ∀ cs ∈ d.screenshots, ∀ c ∈ cs, ∀ m ∈ ['<', '>'], m ∉ c.description.toList

namespace Canonical

variable {d : Draft} (h : d.Canonical)
include h

/-- What is written under a section stays there, and only screenshots open placeholders. -/
theorem settled {s : Section} {content : List (List Char)}
    (found : d.layout.content? s = some content) :
    ∀ l ∈ content, PlainLine l ∧ (s ≠ .screenshots → placeholders l = []) := by
  intro l hl
  cases s with
  | prerequisites =>
    cases found
    obtain ⟨p, hp, rfl⟩ := List.mem_map.1 hl
    have mem : p ∈ d.texts := by simp [texts, hp]
    exact ⟨plainLine_prerequisite (h.trimmed p mem),
      fun _ => placeholders_bullet (h.unopened p mem)⟩
  | setupScripts => cases found
  | startingUrl =>
    obtain ⟨u, hu, rfl⟩ := Option.map_eq_some_iff.1 found
    have mem : u ∈ d.texts := by simp [texts, hu]
    rw [List.mem_singleton] at hl
    subst hl
    exact ⟨plainLine_word (h.trimmed u mem) (h.url_ne u hu) (h.url_word u hu)
        (h.url_ends u hu '\x60' (by decide)).1,
      fun _ => placeholders_eq_nil_iff.2 (h.unopened u mem)⟩
  | testSteps =>
    cases found
    obtain ⟨i, hi, rfl⟩ := List.mem_mapIdx.1 hl
    have mem : d.steps[i] ∈ d.texts := by simp [texts]
    exact ⟨plainLine_stepLine (h.trimmed _ mem) (i + 1),
      fun _ => placeholders_stepLine (h.unopened _ mem) (i + 1)⟩
  | expectedUiState =>
    cases found
    obtain ⟨e, he, rfl⟩ := List.mem_map.1 hl
    obtain ⟨element, description⟩ := mem_texts_of_expectation he
    exact ⟨plainLine_expectation (h.trimmed _ element) (h.trimmed _ description),
      fun _ => placeholders_expectation (h.unopened _ element) (h.unopened _ description)⟩
  | expectedResult =>
    cases found
    have mem : d.expectedResult ∈ d.texts := by simp [texts]
    rw [List.mem_singleton] at hl
    subst hl
    exact ⟨plainLine_result (h.trimmed _ mem) h.result_ne h.result_hash h.result_fence,
      fun _ => placeholders_eq_nil_iff.2 (h.unopened _ mem)⟩
  | screenshots =>
    obtain ⟨cs, hcs, rfl⟩ := Option.map_eq_some_iff.1 found
    obtain ⟨c, hc, rfl⟩ := List.mem_map.1 hl
    exact ⟨plainLine_capture (h.path_trimmed cs hcs c hc) (h.caption_trimmed cs hcs c hc),
      fun other => absurd rfl other⟩

theorem titled : Layout.IsTitleLine d.titleLine d.title :=
  isTitleLine_titleLine (h.trimmed _ (by simp [texts])) (h.trimmed _ (by simp [texts])) h.name_ne
    (h.unopened _ (by simp [texts])) (h.unopened _ (by simp [texts]))

theorem placeholders_of_mem {captures : List Capture} (found : d.screenshots = some captures)
    {c : Capture} (hc : c ∈ captures) :
    placeholders c.line = [.ok (c.path.toList, c.description.toList)] :=
  placeholders_captureLine (h.path_trimmed _ found c hc) (h.path_ne _ found c hc)
    (h.caption_trimmed _ found c hc) (h.path_free _ found c hc) (h.caption_free _ found c hc)

theorem readable : d.layout.Readable where
  plain s content found l hl := (h.settled found l hl).1
  placeholders s content found l hl := by
    by_cases other : s = .screenshots
    · subst other
      obtain ⟨captures, hcaptures, rfl⟩ := Option.map_eq_some_iff.1 found
      obtain ⟨c, hc, rfl⟩ := List.mem_map.1 hl
      rw [← placeholders_isOk_iff, h.placeholders_of_mem hcaptures hc]
      simp [Except.isOk, Except.toBool]
    · exact placeholdersWritten_of_eq_nil ((h.settled found l hl).2 other)
  required s required := by cases s <;> first | rfl | cases required
  url content found := by
    obtain ⟨u, _, rfl⟩ := Option.map_eq_some_iff.1 found
    exact Nat.le_refl 1
  steps content found l first := by
    cases found
    obtain ⟨i, hi, rfl⟩ := List.mem_mapIdx.1 (List.mem_of_head? first)
    have mem := List.getElem_mem hi
    rw [stepHead?_stepLine (h.trimmed _ (by simp [texts])) (h.steps_ne _ mem)]
    rfl

/-! ## What is read -/

theorem written {s : Section} {content : List (List Char)}
    (found : d.layout.content? s = some content) :
    (d.layout.outline d.title).written s =
      Text.numberedFrom (d.layout.start s + 1) content :=
  Layout.written_outline found fun l hl => (h.settled found l hl).1.written

theorem readPlaceholders_eq {captures : List Capture} (found : d.screenshots = some captures)
    {cs : List Capture} (within : ∀ c ∈ cs, c ∈ captures) (n : Nat) :
    readPlaceholders (Text.numberedFrom n (cs.map (·.line))) =
      cs.mapIdx fun i c => { path := c.path, description := c.description, line := n + i } := by
  induction cs generalizing n with
  | nil => rfl
  | cons c cs ih =>
    obtain ⟨first, rest⟩ := List.forall_mem_cons.1 within
    have place (i : Nat) : n + 1 + i = n + (i + 1) := by omega
    have below := ih rest (n + 1)
    simp only [place] at below
    have one : readPlaceholders [(n, c.line)] =
        [{ path := c.path, description := c.description, line := n }] := by
      simp [readPlaceholders, h.placeholders_of_mem found first]
    rw [List.map_cons, Text.numberedFrom_cons, List.mapIdx_cons, ← List.singleton_append,
      Layout.readPlaceholders_append, one, below]
    rfl

theorem prerequisites_eq :
    ((d.layout.outline d.title).written .prerequisites).map readPrerequisite =
      d.testCase.prerequisites := by
  have content : d.layout.content? .prerequisites =
    some (d.prerequisites.map fun p => bullet p.toList) := rfl
  have entries : ∀ p ∈ d.prerequisites, ∀ n,
      readPrerequisite (n, bullet p.toList) = { text := p, line := n } := fun p hp =>
    readPrerequisite_bullet (h.trimmed p (by simp [texts, hp])) (h.prerequisites_ne p hp)
  rw [h.written content]
  exact Text.map_numberedFrom entries _

theorem startingUrl_eq :
    ((d.layout.outline d.title).written .startingUrl).head?.map readUrl =
      d.testCase.startingUrl := by
  cases found : d.startingUrl with
  | none =>
    have absent : d.layout.content? .startingUrl = none := by simp [layout, found]
    rw [Layout.written_outline_of_none absent]
    simp [testCase, found]
  | some u =>
    have content : d.layout.content? .startingUrl = some [u.toList] := by simp [layout, found]
    have entry := readUrl_word (h.url_word u found) (h.url_ends u found) (d.lineOf .startingUrl 0)
    rw [h.written content]
    simp only [testCase, found]
    exact congrArg some entry

theorem steps_eq :
    (readSteps ((d.layout.outline d.title).written .testSteps)).2 = d.testCase.steps := by
  have content : d.layout.content? .testSteps =
    some (d.steps.mapIdx fun i s => stepLine (i + 1) s) := rfl
  have heads : ∀ s ∈ d.steps, ∀ i,
      stepHead? (Text.trim (stepLine i s)) = some ((toString i).toList, s.toList) := fun s hs =>
    stepHead?_stepLine (h.trimmed s (by simp [texts, hs])) (h.steps_ne s hs)
  have numbers : ∀ i, i ≤ 0 + d.steps.length → stepNumber (toString i).toList = i := by
    intro i hi
    rw [Nat.zero_add] at hi
    exact stepNumber_toString (Nat.lt_of_le_of_lt hi h.steps_lt)
  have read := readSteps_stepLines heads (d.layout.start .testSteps + 1) 0 numbers
  simp only [Nat.zero_add] at read
  rw [h.written content, read]
  rfl

theorem expectedUiState_eq :
    ((d.layout.outline d.title).written .expectedUiState).map (readUiEntry {}) =
      d.testCase.expectedUiState := by
  have content : d.layout.content? .expectedUiState = some (d.expectedUiState.map (·.line)) := rfl
  have entries : ∀ e ∈ d.expectedUiState, ∀ n, readUiEntry {} (n, e.line) =
      { marker := some e.marker, element := e.element, description := e.description
        line := n } := by
    intro e he n
    obtain ⟨element, description⟩ := mem_texts_of_expectation he
    exact readUiEntry_line (h.trimmed _ element) (h.element_ne e he) (h.element_star e he)
      (h.trimmed _ description) n
  rw [h.written content]
  exact Text.map_numberedFrom entries _

theorem expectedResult_eq :
    readResult (((d.layout.outline d.title).headingLine? .expectedResult).getD 1)
      ((d.layout.outline d.title).written .expectedResult) = d.testCase.expectedResult := by
  have content : d.layout.content? .expectedResult = some [d.expectedResult.toList] := rfl
  have trimmed := (h.trimmed d.expectedResult (by simp [texts])).trimmed
  rw [Layout.headingLine?_outline, h.written content, content]
  simp [readResult, Text.numberedFrom, trimmed, testCase]

theorem screenshots_eq :
    readPlaceholders (Text.numberedFrom 1 (d.titleLine :: d.layout.lines)) =
      d.testCase.screenshots := by
  rw [Layout.readPlaceholders_layout h.titled fun s other content found l hl =>
    (h.settled found l hl).2 other]
  cases found : d.screenshots with
  | none =>
    have absent : d.layout.content? .screenshots = none := by simp [layout, found]
    rw [absent]
    simp only [testCase, found]
    rfl
  | some captures =>
    have content : d.layout.content? .screenshots = some (captures.map (·.line)) := by
      simp [layout, found]
    rw [content, Option.getD_some, h.readPlaceholders_eq found fun c hc => hc]
    simp [testCase, found, lineOf]

theorem testCase_outline :
    (d.layout.outline d.title).testCase {}
      (readPlaceholders (Text.numberedFrom 1 (d.titleLine :: d.layout.lines))) = d.testCase := by
  have title := splitTitle_title h.id_word h.id_end h.id_ne
    (h.trimmed d.name (by simp [texts])) h.name_ne
  have script : (d.layout.outline d.title).headingLine? .setupScripts = none := by
    rw [Layout.headingLine?_outline]
    rfl
  rw [Outline.testCase, Layout.outline_title, Layout.outline_line, title]
  dsimp only
  rw [h.prerequisites_eq, h.startingUrl_eq, h.steps_eq, h.expectedUiState_eq, h.expectedResult_eq,
    h.screenshots_eq, script, String.ofList_toList, String.ofList_toList]
  rfl

end Canonical

end Draft

/-- A canonical draft comes back whole from the text that it is written as. -/
theorem Document.read_render {path : Path} {name : String} {mode : Mode}
    (named : path.fileName? = some name) (ending : mode.fileEnding.toList <:+ name.toList)
    (feature : String) {d : Draft} (canonical : d.Canonical) :
    Document.read path feature {} d.render =
      .ok { path, feature, mode, cases := [d.testCase], source := d.render } := by
  have declared : path.fileName?.bind Mode.ofFileName? = some mode := by
    rw [named, Option.bind_some, ofFileName?_eq_some_iff]
    exact ending
  have read := Document.read_layout canonical.readable canonical.titled declared feature {} rfl
  rw [canonical.testCase_outline] at read
  exact read

/-- A draft whose texts look like marks of the format. -/
def Draft.sample : Draft where
  id := "ACL-001"
  name := "- Open: the card"
  prerequisites := ["1. Signed in"]
  startingUrl := some "http://localhost:3000/#"
  steps := ["2) Click **it**"]
  expectedUiState := [⟨.absent, "Card: open", ""⟩]
  expectedResult := "- It opens"
  screenshots := some [⟨"a.png", "b|c"⟩]

theorem Draft.canonical_sample : Draft.sample.Canonical where
  trimmed := by decide +kernel
  unopened := by decide +kernel
  id_ne := by decide
  id_word := Text.not_blank_of_all (by decide +kernel)
  id_end := by decide +kernel
  name_ne := by decide
  prerequisites_ne := by decide +kernel
  url_ne := by decide +kernel
  url_word := by
    rintro u ⟨⟩
    exact Text.not_blank_of_all (by decide +kernel)
  url_ends := by
    rintro u ⟨⟩
    simp only [List.mem_cons, List.not_mem_nil, or_false, forall_eq_or_imp, forall_eq]
    decide +kernel
  steps_ne := by decide +kernel
  steps_lt := by decide +kernel
  element_ne := by decide +kernel
  element_star := by decide +kernel
  result_ne := by decide +kernel
  result_hash := by decide +kernel
  result_fence := by decide +kernel
  path_trimmed := by decide +kernel
  path_ne := by decide +kernel
  path_free := by
    simp only [List.mem_cons, List.not_mem_nil, or_false, forall_eq_or_imp, forall_eq]
    decide +kernel
  caption_trimmed := by decide +kernel
  caption_free := by
    simp only [List.mem_cons, List.not_mem_nil, or_false, forall_eq_or_imp, forall_eq]
    decide +kernel

theorem Document.read_render_sample :
    Document.read ⟨"qa/acl/card.mock.md"⟩ "acl" {} Draft.sample.render = .ok
      { path := ⟨"qa/acl/card.mock.md"⟩, feature := "acl", mode := .mock
        source := Draft.sample.render
        cases := [{
          id := "ACL-001", name := "- Open: the card", line := 1
          prerequisites := [⟨"1. Signed in", 3⟩]
          setupScript := none
          startingUrl := some ⟨"http://localhost:3000/#", 5⟩
          steps := [⟨1, "2) Click **it**", 7⟩]
          expectedUiState := [⟨some .absent, "Card: open", "", 9⟩]
          expectedResult := ⟨"- It opens", 10⟩
          screenshots := [⟨"a.png", "b|c", 13⟩] }] } := by
  have named : Path.fileName? ⟨"qa/acl/card.mock.md"⟩ = some "card.mock.md" := by decide +kernel
  have ending : Mode.mock.fileEnding.toList <:+ "card.mock.md".toList := by decide +kernel
  exact Document.read_render named ending "acl" Draft.canonical_sample

end ScriptAudit
