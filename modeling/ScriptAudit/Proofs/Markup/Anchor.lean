import Mathlib.Data.List.Flatten
import ScriptAudit.Proofs.Markup.Grammar
import ScriptAudit.Proofs.Rule.Stock

/-!
# Lines that a document refers to

Every part of a test case names the line of the source that it was read from. Sections stand in
canonical order and apart from each other, so these lines ascend with the parts; a byte order mark,
which reading drops and the source keeps, only makes the first line longer.
-/

namespace ScriptAudit

/-- The line of the source holds the text. -/
def Document.Shows (d : Document) (n : Nat) (text : String) : Prop :=
  ∃ line, (n, line) ∈ d.lines ∧ text.toList <:+: line

open Markup in
/-- The line of a step carries its number and, behind it, what the text of the step begins with. -/
def Document.ShowsStep (d : Document) (s : Step) : Prop :=
  ∃ line digits first further, (s.line, line) ∈ d.lines ∧
    stepHead? (Text.trim line) = some (digits, first) ∧ first <:+: line ∧
    s.number = stepNumber digits ∧ s.text = String.ofList (joinPieces (first :: further))

/-- The lines that a test case names are lines of the document, in the order of its parts, and
hold those parts. -/
structure TestCase.Anchored (d : Document) (c : TestCase) : Prop where
  positive : 1 ≤ c.line
  ascending : c.fieldLines.Pairwise (· < ·)
  result_le : c.expectedResult.line ≤ d.lines.length
  screenshots_ascending : (c.screenshots.map (·.line)).Pairwise (· ≤ ·)
  screenshots_between : ∀ s ∈ c.screenshots, c.line ≤ s.line ∧ s.line ≤ d.lines.length
  prerequisites : ∀ p ∈ c.prerequisites, d.Shows p.line p.text
  url : ∀ u, c.startingUrl = some u → d.Shows u.line u.text
  steps : ∀ s ∈ c.steps, d.ShowsStep s
  uiState : ∀ e ∈ c.expectedUiState, d.Shows e.line e.element ∧ d.Shows e.line e.description
  placeholders : ∀ s ∈ c.screenshots, d.Shows s.line s.path

theorem TestCase.bounds_of_mem_fieldLines {c : TestCase} (h : c.fieldLines.Pairwise (· < ·))
    {n : Nat} (hn : n ∈ c.fieldLines) : c.line ≤ n ∧ n ≤ c.expectedResult.line := by
  simp only [fieldLines] at h hn
  obtain ⟨above, ascending⟩ := List.pairwise_cons.1 h
  obtain ⟨_, _, below⟩ := List.pairwise_append.1 ascending
  have last := above c.expectedResult.line (by simp)
  rcases List.mem_cons.1 hn with rfl | hn
  · omega
  · rcases List.mem_append.1 hn with inner | outer
    · have := below n inner c.expectedResult.line (by simp)
      have := above n hn
      omega
    · rw [List.mem_singleton] at outer
      omega

theorem TestCase.Anchored.bounds {d : Document} {c : TestCase} (h : c.Anchored d) {n : Nat}
    (hn : n ∈ c.anchors) : 1 ≤ n ∧ n ≤ d.lines.length := by
  have positive := h.positive
  rcases List.mem_append.1 hn with field | shot
  · have := bounds_of_mem_fieldLines h.ascending field
    have := h.result_le
    omega
  · obtain ⟨s, hs, rfl⟩ := List.mem_map.1 shot
    have := h.screenshots_between s hs
    omega

namespace Markup

/-- The lines that are read are those of the source, but for a mark at the start. -/
theorem exists_source_line {source : String} {n : Nat} {text : List Char}
    (h : (n, text) ∈ Text.numbered (bodyLines source)) :
    ∃ line, (n, line) ∈ Text.numbered (Text.lines source.toList) ∧ text <:+: line ∧
      (1 < n → line = text) := by
  simp only [bodyLines] at h
  split at h
  · rename_i rest whole
    have some : Text.lines rest ≠ [] := by
      intro none
      rw [none] at h
      cases h
    obtain ⟨first, more, split⟩ := List.exists_cons_of_ne_nil some
    rw [whole, Text.lines_cons (by decide) (by decide) split]
    rw [split] at h
    obtain ⟨i, rfl, hi⟩ := Text.mem_numbered_iff.1 h
    cases i with
    | zero =>
      cases hi
      exact ⟨'\uFEFF' :: text, Text.mem_numbered_iff.2 ⟨0, rfl, rfl⟩,
        (List.suffix_cons _ text).isInfix, by omega⟩
    | succ i => exact ⟨text, Text.mem_numbered_iff.2 ⟨i + 1, rfl, hi⟩, List.infix_refl text,
        fun _ => rfl⟩
  · exact ⟨text, h, List.infix_refl text, fun _ => rfl⟩

/-! ## Steps and placeholders -/

theorem readSteps_lines_sublist (lines : List (Nat × List Char)) :
    ((readSteps lines).2.map (·.line)).Sublist (lines.map (·.1)) := by
  induction lines with
  | nil => exact .slnil
  | cons l rest ih =>
    cases head : stepHead? (Text.trim l.2) with
    | none =>
      rw [readSteps_cons_text head]
      exact ih.cons _
    | some parts =>
      rw [readSteps_cons_step head]
      exact ih.cons_cons _

theorem exists_of_mem_readSteps {lines : List (Nat × List Char)} {s : Step}
    (h : s ∈ (readSteps lines).2) :
    ∃ text digits first further, (s.line, text) ∈ lines ∧
      stepHead? (Text.trim text) = some (digits, first) ∧ s.number = stepNumber digits ∧
      s.text = String.ofList (joinPieces (first :: further)) := by
  induction lines with
  | nil => cases h
  | cons l rest ih =>
    cases head : stepHead? (Text.trim l.2) with
    | none =>
      rw [readSteps_cons_text head] at h
      obtain ⟨text, digits, first, further, hl, found⟩ := ih h
      exact ⟨text, digits, first, further, List.mem_cons_of_mem _ hl, found⟩
    | some parts =>
      rw [readSteps_cons_step head] at h
      rcases List.mem_cons.1 h with rfl | later
      · have own : (l.1, l.2) ∈ l :: rest := List.mem_cons_self
        exact ⟨l.2, parts.1, parts.2, _, own, head, rfl, rfl⟩
      · obtain ⟨text, digits, first, further, hl, found⟩ := ih later
        exact ⟨text, digits, first, further, List.mem_cons_of_mem _ hl, found⟩

theorem mem_readPlaceholders {lines : List (Nat × List Char)} {s : Placeholder}
    (h : s ∈ readPlaceholders lines) :
    ∃ text, (s.line, text) ∈ lines ∧ placeholders text ≠ [] ∧ s.path.toList <:+: text := by
  obtain ⟨l, hl, hs⟩ := List.mem_flatMap.1 h
  obtain ⟨r, hr, read⟩ := List.mem_filterMap.1 hs
  cases r with
  | error f => cases read
  | ok parts =>
    cases read
    refine ⟨l.2, hl, List.ne_nil_of_mem hr, ?_⟩
    rw [String.toList_ofList]
    exact (infix_of_mem_placeholders hr).1

theorem readPlaceholders_ascending {lines : List (Nat × List Char)}
    (ascending : lines.Pairwise (·.1 < ·.1)) :
    ((readPlaceholders lines).map (·.line)).Pairwise (· ≤ ·) := by
  have line {l : Nat × List Char} {s : Placeholder}
      (h : s ∈ readPlaceholders [l]) : s.line = l.1 := by
    obtain ⟨text, hl, _⟩ := mem_readPlaceholders h
    rw [List.mem_singleton] at hl
    rw [← hl]
  have split : readPlaceholders lines = lines.flatMap fun l => readPlaceholders [l] := by
    simp [readPlaceholders]
  rw [List.pairwise_map, split, List.pairwise_flatMap]
  constructor
  · intro l _
    apply List.pairwise_of_forall_mem_list
    intro a ha b hb
    rw [line ha, line hb]
  · refine ascending.imp fun lt a ha b hb => ?_
    rw [line ha, line hb]
    exact Nat.le_of_lt lt

/-! ## Order -/

namespace Outline

variable (o : Outline)

/-- The numbers of the lines of a section, its headings included. -/
def numbersOf (s : Section) : List Nat :=
  (o.blocksOf s).flatMap Block.numbers

theorem written_sublist (s : Section) : ((o.written s).map (·.1)).Sublist (o.numbersOf s) := by
  have plain : (o.content s).map (·.1) = (o.blocksOf s).flatMap fun b => b.content.map (·.1) :=
    List.map_flatMap
  have inner : ((o.content s).map (·.1)).Sublist (o.numbersOf s) := by
    rw [plain]
    exact List.Sublist.flatMap_right _ fun b _ => List.sublist_cons_self b.line _
  exact (List.filter_sublist.map _).trans inner

theorem headingLine_sublist (s : Section) : (o.headingLine? s).toList.Sublist (o.numbersOf s) := by
  simp only [headingLine?, numbersOf]
  cases o.blocksOf s with
  | nil => exact .slnil
  | cons b rest => simp [Block.numbers]

theorem fieldLines_sublist (markers : Markers) (shots : List Placeholder)
    (result : (o.headingLine? .expectedResult).isSome = true) :
    (o.testCase markers shots).fieldLines.Sublist
      (o.line :: Section.all.flatMap o.numbersOf) := by
  have sections : Section.all.flatMap o.numbersOf =
      o.numbersOf .prerequisites ++ o.numbersOf .setupScripts ++ o.numbersOf .startingUrl ++
        o.numbersOf .testSteps ++ o.numbersOf .expectedUiState ++ o.numbersOf .expectedResult ++
        o.numbersOf .screenshots := by
    simp [Section.all]
  have script : ((o.testCase markers shots).setupScript.map (·.line)).toList.Sublist
      (o.numbersOf .setupScripts) := by
    refine List.Sublist.trans ?_ (o.headingLine_sublist _)
    rw [testCase]
    cases o.headingLine? .setupScripts with
    | none => exact .slnil
    | some n =>
      rw [Option.bind_some, readScript?]
      dsimp only
      split <;> simp
  have url : ((o.testCase markers shots).startingUrl.map (·.line)).toList.Sublist
      (o.numbersOf .startingUrl) := by
    refine List.Sublist.trans ?_ (o.written_sublist _)
    rw [testCase]
    cases o.written .startingUrl with
    | nil => exact .slnil
    | cons l rest => simp [readUrl]
  have steps := (readSteps_lines_sublist (o.written .testSteps)).trans (o.written_sublist _)
  have last : [(o.testCase markers shots).expectedResult.line].Sublist
      (o.numbersOf .expectedResult) := by
    refine List.Sublist.trans ?_ (o.headingLine_sublist _)
    obtain ⟨n, heading⟩ := Option.isSome_iff_exists.1 result
    simp [testCase, readResult, heading]
  have prerequisites := o.written_sublist .prerequisites
  have uiState := o.written_sublist .expectedUiState
  rw [sections, TestCase.fieldLines]
  refine .cons_cons _ (.trans ?_ (List.sublist_append_left _ _))
  refine .append (.append (.append (.append (.append ?_ script) url) ?_) ?_) last
  · simpa [testCase, readPrerequisite, Function.comp_def] using prerequisites
  · exact steps
  · simpa [testCase, readUiEntry, Function.comp_def] using uiState

namespace Splits

variable {o : Outline} {ls : List (List Char)} {start : Line} {rest : List Line}
  (splits : o.Splits (marked ls) start rest)
include splits

theorem exists_of_mem_numbersOf {s : Section} {n : Nat} (h : n ∈ o.numbersOf s) :
    (∃ b ∈ o.blocks, b.ofSection = s ∧ n ∈ b.numbers) ∧ o.line < n ∧
      ∃ text, (n, text) ∈ Text.numbered ls := by
  obtain ⟨b, hb, hn⟩ := List.mem_flatMap.1 h
  obtain ⟨mem, ofSection⟩ := List.mem_filter.1 hb
  have within := (blocks_numbers_sublist rest).subset
    (List.mem_append_right _ (List.mem_flatMap.2 ⟨b, splits.blocks_eq ▸ mem, hn⟩))
  obtain ⟨l, hl, rfl⟩ := List.mem_map.1 within
  obtain ⟨marked, after⟩ := splits.mem_rest_iff.1 hl
  have entry : l.entry ∈ Text.numbered ls := map_entry_marked ls ▸ List.mem_map_of_mem marked
  exact ⟨⟨b, mem, of_decide_eq_true ofSection, hn⟩, splits.line_eq ▸ after, l.text, entry⟩

/-- With sections in canonical order, so are all their lines. -/
theorem pairwise_numbersOf
    (ascending : o.blocks.Pairwise fun b c => b.ofSection.rank < c.ofSection.rank) :
    (o.line :: Section.all.flatMap o.numbersOf).Pairwise (· < ·) := by
  have numbers := (List.pairwise_append.1 (pairwise_numbers splits.pairwise_rest)).2.1
  rw [← splits.blocks_eq] at numbers
  have ranks : Section.all.Pairwise fun s r => s.rank < r.rank := by decide
  refine List.pairwise_cons.2 ⟨fun n hn => ?_, List.pairwise_flatMap.2 ⟨fun s _ => ?_, ?_⟩⟩
  · obtain ⟨s, _, hn⟩ := List.mem_flatMap.1 hn
    exact (splits.exists_of_mem_numbersOf hn).2.1
  · exact numbers.sublist (List.filter_sublist.flatMap _)
  · have across := (pairwise_iff_of_key_lt ascending).1 (List.pairwise_flatMap.1 numbers).2
    apply ranks.imp
    intro s r lt n hn m hm
    obtain ⟨⟨b, hb, rfl, inner⟩, _⟩ := splits.exists_of_mem_numbersOf hn
    obtain ⟨⟨c, hc, rfl, outer⟩, _⟩ := splits.exists_of_mem_numbersOf hm
    exact across b hb c hc lt n inner m outer

theorem mem_numbered_of_written {s : Section} {e : Nat × List Char} (h : e ∈ o.written s) :
    e ∈ Text.numbered ls ∧ o.line < e.1 := by
  have number := (o.written_sublist s).subset (List.mem_map_of_mem h)
  refine ⟨?_, (splits.exists_of_mem_numbersOf number).2.1⟩
  obtain ⟨b, hb, he⟩ := List.mem_flatMap.1 (List.mem_filter.1 h).1
  have mem := splits.blocks_eq ▸ (List.mem_filter.1 hb).1
  obtain ⟨l, hl, _, rfl, _⟩ := (Markup.mem_content_iff splits.pairwise_rest).1 ⟨b, mem, rfl, he⟩
  rw [← map_entry_marked]
  exact List.mem_map_of_mem (splits.mem_rest_iff.1 hl).1

end Splits

end Outline

theorem shows_of_within {d : Document} {n : Nat} {line : List Char} {text : String}
    (hl : (n, line) ∈ Text.numbered (bodyLines d.source)) (h : text.toList <:+: line) :
    d.Shows n text := by
  obtain ⟨whole, mem, within, _⟩ := exists_source_line hl
  exact ⟨whole, mem, h.trans within⟩

theorem le_length_lines {d : Document} {n : Nat} {line : List Char}
    (hl : (n, line) ∈ Text.numbered (bodyLines d.source)) : n ≤ d.lines.length := by
  obtain ⟨whole, mem, _⟩ := exists_source_line hl
  rw [Document.lines, Text.length_numbered]
  exact (Text.bounds_of_mem_numbered mem).2

/-- Nothing in front of the test case is a placeholder. -/
theorem Outline.Splits.le_of_placeholders_ne_nil {o : Outline} {ls : List (List Char)}
    {start : Line} {rest : List Line} (splits : o.Splits (marked ls) start rest)
    (before : ∀ l ∈ o.before, l.isBlank = true) {e : Nat × List Char}
    (he : e ∈ Text.numbered ls) (some : placeholders e.2 ≠ []) : o.line ≤ e.1 := by
  rw [← map_entry_marked] at he
  obtain ⟨l, hl, rfl⟩ := List.mem_map.1 he
  by_cases after : start.number ≤ l.number
  · rw [splits.line_eq]
    exact after
  · have blank := splits.before_iff.1 before l hl (by omega)
    exact absurd (placeholders_of_allBlank blank) some

theorem Outline.Splits.anchored {o : Outline} {d : Document} {start : Line} {rest : List Line}
    (splits : o.Splits (marked (bodyLines d.source)) start rest)
    (sound : o.Sound (Text.numbered (bodyLines d.source))) (markers : Markers) :
    (o.testCase markers (readPlaceholders (Text.numbered (bodyLines d.source)))).Anchored d := by
  have opened := Outline.headingLine?_isSome_iff.2 (sound.required .expectedResult rfl)
  have heading : start.entry ∈ Text.numbered (bodyLines d.source) :=
    map_entry_marked _ ▸ List.mem_map_of_mem splits.start_mem
  have positive : 1 ≤ o.line := splits.line_eq ▸ (Text.bounds_of_mem_numbered heading).1
  refine ⟨positive, ?_, ?_, ?_, ?_, ?_, ?_, ?_, ?_, ?_⟩
  · exact (splits.pairwise_numbersOf sound.ascending).sublist (o.fieldLines_sublist _ _ opened)
  · obtain ⟨n, last⟩ := Option.isSome_iff_exists.1 opened
    have mem := (o.headingLine_sublist _).subset (Option.mem_toList.2 last)
    obtain ⟨_, _, text, hl⟩ := splits.exists_of_mem_numbersOf mem
    have line : (o.testCase markers (readPlaceholders
        (Text.numbered (bodyLines d.source)))).expectedResult.line = n := by
      simp [Outline.testCase, readResult, last]
    rw [line]
    exact le_length_lines hl
  · exact readPlaceholders_ascending (Text.pairwise_numbered _)
  · intro s hs
    obtain ⟨text, hl, some, _⟩ := mem_readPlaceholders hs
    exact ⟨splits.le_of_placeholders_ne_nil sound.before hl some, le_length_lines hl⟩
  · intro p hp
    obtain ⟨l, hl, rfl⟩ := List.mem_map.1 hp
    exact shows_of_within (splits.mem_numbered_of_written hl).1 (readPrerequisite_within l)
  · intro u hu
    obtain ⟨l, hl, rfl⟩ := Option.map_eq_some_iff.1 hu
    have mem := List.mem_of_head? hl
    exact shows_of_within (splits.mem_numbered_of_written mem).1 (readUrl_within l)
  · intro s hs
    obtain ⟨text, digits, first, further, hl, head, number, text_eq⟩ := exists_of_mem_readSteps hs
    obtain ⟨mem, after⟩ := splits.mem_numbered_of_written hl
    obtain ⟨whole, shown, _, same⟩ := exists_source_line mem
    -- a step comes after the heading, so its line is not the one with the mark
    rw [same (by dsimp only at after; omega)] at shown
    exact ⟨text, digits, first, further, shown, head, stepHead?_within head, number, text_eq⟩
  · intro e he
    obtain ⟨l, hl, rfl⟩ := List.mem_map.1 he
    obtain ⟨element, description⟩ := readUiEntry_within markers l
    have mem := (splits.mem_numbered_of_written hl).1
    exact ⟨shows_of_within mem element, shows_of_within mem description⟩
  · intro s hs
    obtain ⟨text, hl, _, path⟩ := mem_readPlaceholders hs
    exact shows_of_within hl path

end Markup

open Markup

/-- A document names lines of its own in the order of its parts, and so does everything that the
stock rules find in it. -/
theorem Document.exists_anchored_of_read {path : Path} {feature : String} {markers : Markers}
    {source : String} {d : Document} (h : Document.read path feature markers source = .ok d) :
    ∃ c, d.cases = [c] ∧ c.Anchored d ∧ ∀ config, ∃ ds,
      RuleSet.stock.evaluate config d = some ds ∧
        ∀ x ∈ ds, ∃ n, x.line = some n ∧ 1 ≤ n ∧ n ≤ d.lines.length := by
  obtain ⟨mode, o, _, found, sound, hd⟩ := Document.read_eq_ok_iff.1 h
  obtain rfl : d.source = source := by rw [hd]
  rw [textLines_eq] at found sound hd
  rw [Line.scan_numbered] at found
  obtain ⟨start, rest, splits⟩ := Outline.splits_of_ofLines? found
  have anchored := splits.anchored sound markers
  have cases_eq := congrArg Document.cases hd
  refine ⟨_, cases_eq, anchored, fun config => ?_⟩
  obtain ⟨ds, result, placed⟩ := RuleSet.exists_evaluate_stock config d
  refine ⟨ds, result, fun x hx => ?_⟩
  obtain ⟨n, line, ⟨c, hc, hn⟩ | ⟨text, hl⟩⟩ := placed x hx
  · rw [cases_eq, List.mem_singleton] at hc
    subst hc
    exact ⟨n, line, anchored.bounds hn⟩
  · have bounds := Text.bounds_of_mem_numbered hl
    rw [← Text.length_numbered] at bounds
    exact ⟨n, line, bounds⟩

/-- The same of a short text that starts with a byte order mark. -/
theorem Document.exists_anchored_of_marked :
    ∃ d, Document.read ⟨"a.mock.md"⟩ "a" {}
        ("\uFEFF# Test Case: A\n# Prerequisites\n- b\n# Test Steps\n1. c\n" ++
          "# Expected UI State\n# Expected Result") = .ok d ∧
      ∃ c, d.cases = [c] ∧ c.Anchored d ∧ ∀ config, ∃ ds,
        RuleSet.stock.evaluate config d = some ds ∧
          ∀ x ∈ ds, ∃ n, x.line = some n ∧ 1 ≤ n ∧ n ≤ d.lines.length := by
  have accepted {x : Except (List Diagnostic) Document} (h : x.isOk = true) :
      ∃ d, x = .ok d := by
    cases x with
    | error _ => cases h
    | ok d => exact ⟨d, rfl⟩
  refine (accepted ?_).imp fun d read => ⟨read, Document.exists_anchored_of_read read⟩
  decide +kernel

end ScriptAudit
