import Mathlib.Data.List.Infix
import Mathlib.Data.List.Forall2
import ScriptAudit.Proofs.Markup.OpenFence

/-!
# Segments of a line

A line is read in segments, each from the next opening of a placeholder to the next `>` or to the
end of the line, and each segment is either a placeholder or a fault. In a document every opening in
the text begins a segment of its own, so no placeholder is lost and none is read twice.
-/

namespace ScriptAudit

namespace Text

/-- The word next occurs between these two parts of the text. -/
structure NextAt (word s before after : List Char) : Prop where
  whole : s = before ++ word ++ after
  first : ∀ a b, s = a ++ word ++ b → before.length ≤ a.length

theorem cut?_eq_some_iff {word s a b : List Char} :
    cut? word s = some (a, b) ↔ NextAt word s a b := by
  constructor
  · exact fun found => ⟨eq_append_of_cut? found, fun _ _ => length_le_of_cut? found⟩
  · rintro ⟨whole, first⟩
    cases found : cut? word s with
    | none => exact absurd whole (cut?_eq_none_iff.1 found a b)
    | some parts =>
      obtain ⟨c, d⟩ := parts
      have split := eq_append_of_cut? found
      have same : c.length = a.length :=
        Nat.le_antisymm (length_le_of_cut? found whole) (first c d split)
      rw [whole, List.append_assoc, List.append_assoc] at split
      obtain ⟨rfl, behind⟩ := List.append_inj split same.symm
      rw [List.append_cancel_left behind]

theorem NextAt.infix {word s a b : List Char} (next : NextAt word s a b) : word <:+: s :=
  ⟨a, b, next.whole.symm⟩

theorem NextAt.unique {word s a b c d : List Char} (one : NextAt word s a b)
    (other : NextAt word s c d) : c = a ∧ d = b := by
  have same := (cut?_eq_some_iff.2 other).symm.trans (cut?_eq_some_iff.2 one)
  rw [Option.some.injEq, Prod.mk.injEq] at same
  exact same

/-- What stands behind each occurrence of the word, from left to right. -/
def behind (word s : List Char) : List (List Char) :=
  s.tails.filterMap (after? word)

theorem behind_cons (word : List Char) (c : Char) (s : List Char) :
    behind word (c :: s) = (after? word (c :: s)).toList ++ behind word s := by
  rw [behind, List.tails_cons, List.filterMap_cons]
  cases after? word (c :: s) <;> rfl

/-- A word does not begin where its first character does not stand. -/
theorem behind_append_of_not_mem {c : Char} {word gap : List Char} (free : c ∉ gap)
    (s : List Char) : behind (c :: word) (gap ++ s) = behind (c :: word) s := by
  induction gap with
  | nil => rfl
  | cons d gap ih =>
    obtain ⟨apart, free⟩ := not_or.1 (List.mem_cons.not.1 free)
    rw [List.cons_append, behind_cons, after?, if_neg apart, ih free]
    rfl

theorem behind_of_cut?_eq_none {c : Char} {word s : List Char}
    (absent : cut? (c :: word) s = none) : behind (c :: word) s = [] := by
  rw [cut?_eq_none_iff] at absent
  rw [behind, List.filterMap_eq_nil_iff]
  intro t ht
  obtain ⟨front, rfl⟩ := (List.mem_tails _ _).1 ht
  cases found : after? (c :: word) t with
  | none => rfl
  | some rest =>
    refine absurd ?_ (absent front rest)
    rw [eq_append_of_after? found, List.append_assoc]

theorem behind_of_cut? {c : Char} {word s a b : List Char}
    (found : cut? (c :: word) s = some (a, b)) :
    behind (c :: word) s = b :: behind (c :: word) (word ++ b) := by
  induction s generalizing a with
  | nil => cases found
  | cons d s ih =>
    rw [behind_cons]
    rw [cut?] at found
    cases front : after? (c :: word) (d :: s) with
    | some rest =>
      rw [front] at found
      cases found
      rw [(List.cons.inj (eq_append_of_after? front)).2]
      rfl
    | none =>
      rw [front] at found
      obtain ⟨⟨a', b'⟩, tail, same⟩ := Option.map_eq_some_iff.1 found
      cases same
      exact ih tail

end Text

namespace Markup

/-- A piece of a line that begins behind an opening of a placeholder. -/
inductive Segment where
  /-- What stands before the next `>`. -/
  | closed (inner : List Char)
  /-- All the rest of the line, in which there is no `>`. -/
  | unclosed (rest : List Char)
deriving DecidableEq, Repr

/-- The line is consumed in these segments. -/
inductive Segments : List Char → List Segment → Prop
  | done {line : List Char} : ¬placeholderOpening <:+: line → Segments line []
  | unclosed {line before rest : List Char} : Text.NextAt placeholderOpening line before rest →
      '>' ∉ rest → Segments line [.unclosed rest]
  | closed {line before inner rest : List Char} {more : List Segment} :
      Text.NextAt placeholderOpening line before (inner ++ '>' :: rest) → '>' ∉ inner →
      Segments rest more → Segments line (.closed inner :: more)

/-- What a segment comes to: the path and the description of a placeholder, or a fault. -/
inductive Segment.Yields : Segment → Except PlaceholderFault (List Char × List Char) → Prop
  | unclosed (rest : List Char) : Yields (.unclosed rest) (.error .unclosed)
  | nested {inner : List Char} : '<' ∈ inner → Yields (.closed inner) (.error .nested)
  | noSeparator {inner : List Char} : '<' ∉ inner → '|' ∉ inner →
      Yields (.closed inner) (.error (.noSeparator inner))
  | emptyPath {path description : List Char} : '<' ∉ path ++ '|' :: description → '|' ∉ path →
      Text.allBlank path = true → Yields (.closed (path ++ '|' :: description)) (.error .emptyPath)
  | placeholder {path description : List Char} : '<' ∉ path ++ '|' :: description → '|' ∉ path →
      Text.allBlank path = false →
      Yields (.closed (path ++ '|' :: description)) (.ok (Text.trim path, Text.trim description))

theorem Segment.yields_closed_iff {inner : List Char}
    {r : Except PlaceholderFault (List Char × List Char)} :
    Yields (.closed inner) r ↔ r = readPlaceholder inner := by
  constructor
  · intro yields
    cases yields with
    | nested inside => rw [readPlaceholder_of_nested inside]
    | noSeparator outside free => rw [readPlaceholder_of_no_bar outside free]
    | emptyPath outside free blank => rw [readPlaceholder_of_bar outside free, if_pos blank]
    | placeholder outside free written =>
      rw [readPlaceholder_of_bar outside free, if_neg (by simp [written])]
  · rintro rfl
    by_cases inside : '<' ∈ inner
    · rw [readPlaceholder_of_nested inside]
      exact .nested inside
    by_cases bar : '|' ∈ inner
    · obtain ⟨path, description, rfl, free⟩ := List.eq_append_cons_of_mem bar
      rw [readPlaceholder_of_bar inside free]
      cases blank : Text.allBlank path with
      | true => exact .emptyPath inside free blank
      | false => exact .placeholder inside free blank
    · rw [readPlaceholder_of_no_bar inside bar]
      exact .noSeparator inside bar

theorem Segment.yields_unclosed_iff {rest : List Char}
    {r : Except PlaceholderFault (List Char × List Char)} :
    Yields (.unclosed rest) r ↔ r = .error .unclosed := by
  constructor
  · rintro ⟨⟩
    rfl
  · rintro rfl
    exact .unclosed rest

/-- Every line falls into segments. -/
theorem exists_segments (line : List Char) : ∃ segments, Segments line segments := by
  fun_induction placeholders line with
  | case1 line absent =>
    refine ⟨[], .done ?_⟩
    rintro ⟨before, after, split⟩
    exact Text.cut?_eq_none_iff.1 absent before after split.symm
  | case2 line before inside found unclosed =>
    exact ⟨[.unclosed inside], .unclosed (Text.cut?_eq_some_iff.1 found)
      (Text.cutAt?_beq_eq_none_iff.1 unclosed)⟩
  | case3 line before inside found inner rest closed ih =>
    obtain ⟨more, further⟩ := ih
    obtain ⟨rfl, free⟩ := Text.cutAt?_beq_eq_some_iff.1 closed
    exact ⟨.closed inner :: more, .closed (Text.cut?_eq_some_iff.1 found) free further⟩

namespace Segments

variable {line : List Char} {segments : List Segment}

/-- A line falls into segments in one way only. -/
theorem unique {other : List Segment} (one : Segments line segments)
    (another : Segments line other) : other = segments := by
  induction one generalizing other with
  | done absent =>
    cases another with
    | done => rfl
    | unclosed next => exact absurd next.infix absent
    | closed next => exact absurd next.infix absent
  | unclosed next free =>
    cases another with
    | done absent => exact absurd next.infix absent
    | unclosed next' => rw [(next.unique next').2]
    | closed next' =>
      rw [← (next.unique next').2] at free
      simp at free
  | closed next free further ih =>
    cases another with
    | done absent => exact absurd next.infix absent
    | unclosed next' free' =>
      rw [(next.unique next').2] at free'
      simp at free'
    | closed next' free' further' =>
      have split := Text.cutAt?_beq_eq_some_iff.2 ⟨(next.unique next').2.symm, free'⟩
      cases (Text.cutAt?_beq_eq_some_iff.2 ⟨rfl, free⟩).symm.trans split
      rw [ih further']

/-- What is read of a line is what its segments come to, one thing of each. -/
theorem yields_iff (whole : Segments line segments)
    {outcomes : List (Except PlaceholderFault (List Char × List Char))} :
    List.Forall₂ Segment.Yields segments outcomes ↔ outcomes = placeholders line := by
  induction whole generalizing outcomes with
  | done absent => rw [placeholders_eq_nil_iff.2 absent, List.forall₂_nil_left_iff]
  | unclosed next free =>
    rw [placeholders_eq_unclosed (Text.cut?_eq_some_iff.2 next)
      (Text.cutAt?_beq_eq_none_iff.2 free), List.forall₂_cons_left_iff]
    simp only [Segment.yields_unclosed_iff, List.forall₂_nil_left_iff]
    simp
  | closed next free further ih =>
    rw [placeholders_of_cut (Text.cut?_eq_some_iff.2 next)
      (Text.cutAt?_beq_eq_some_iff.2 ⟨rfl, free⟩), List.forall₂_cons_left_iff]
    simp only [Segment.yields_closed_iff, ih]
    simp

end Segments

/-! ## Openings and what stands behind them -/

/-- Up to the next `>` stand a path and, behind the first `|`, a description, with blanks around
each. -/
def Describes (p : Placeholder) (rest : List Char) : Prop :=
  ∃ path description after, rest = (path ++ '|' :: description) ++ '>' :: after ∧
    '>' ∉ path ++ '|' :: description ∧ '|' ∉ path ∧
    p.path = String.ofList (Text.trim path) ∧ p.description = String.ofList (Text.trim description)

/-- What is collected of a segment in line `n`. -/
def collected? (n : Nat) : Except PlaceholderFault (List Char × List Char) → Option Placeholder
  | .ok (path, description) =>
    some { path := String.ofList path, description := String.ofList description, line := n }
  | .error _ => none

/-- What is reported of a segment in line `n`. -/
def reported? (path : Path) (n : Nat) :
    Except PlaceholderFault (List Char × List Char) → Option Diagnostic
  | .ok _ => none
  | .error f => some ((Fault.placeholder f).diagnostic path.display (some n))

theorem readPlaceholders_eq (lines : List (Nat × List Char)) :
    readPlaceholders lines =
      lines.flatMap fun l => (placeholders l.2).filterMap (collected? l.1) := by
  rfl

theorem report_placeholderFaults (path : Path) (lines : List (Nat × List Char)) :
    report path (placeholderFaults lines) =
      lines.flatMap fun l => (placeholders l.2).filterMap (reported? path l.1) := by
  rw [report, placeholderFaults, List.map_flatMap]
  refine List.flatMap_congr fun l _ => ?_
  rw [List.map_filterMap]
  refine List.filterMap_congr fun r _ => ?_
  cases r <;> rfl

/-- In a line without faults each opening begins a segment. -/
theorem collected_behind {line : List Char} (written : PlaceholdersWritten line) (n : Nat) :
    List.Forall₂ (fun rest p => Describes p rest ∧ p.line = n)
      (Text.behind placeholderOpening line) ((placeholders line).filterMap (collected? n)) := by
  rw [← placeholders_isOk_iff] at written
  obtain ⟨word, opening, free⟩ : ∃ word, placeholderOpening = '<' :: word ∧ '<' ∉ word :=
    ⟨_, rfl, by decide⟩
  fun_induction placeholders line with
  | case1 line absent =>
    rw [opening] at absent ⊢
    rw [Text.behind_of_cut?_eq_none absent]
    exact .nil
  | case2 line before inside found unclosed =>
    cases written _ List.mem_cons_self
  | case3 line before inside found inner rest closed ih =>
    obtain ⟨own, further⟩ := List.forall_mem_cons.1 written
    obtain ⟨rfl, shut⟩ := Text.cutAt?_beq_eq_some_iff.1 closed
    obtain ⟨unnested, path, description, rfl, bar, written'⟩ := readPlaceholder_isOk_iff.1 own
    have gap : '<' ∉ word ++ (path ++ '|' :: description) ++ ['>'] := by
      simpa [free] using unnested
    have next : Text.behind placeholderOpening line =
        ((path ++ '|' :: description) ++ '>' :: rest) :: Text.behind placeholderOpening rest := by
      rw [opening] at found ⊢
      rw [Text.behind_of_cut? found]
      simpa using Text.behind_append_of_not_mem gap rest
    have read : readPlaceholder (path ++ '|' :: description) =
        .ok (Text.trim path, Text.trim description) :=
      readPlaceholder_eq_ok_iff.2 ⟨unnested, path, description, rfl, bar, written', rfl, rfl⟩
    rw [next, read, List.filterMap_cons]
    exact .cons ⟨⟨path, description, rest, rfl, shut, bar, rfl, rfl⟩, rfl⟩ (ih further)

/-- The places where a placeholder is opened: the line and what stands behind, in order. -/
def openings (lines : List (Nat × List Char)) : List (Nat × List Char) :=
  lines.flatMap fun l => (Text.behind placeholderOpening l.2).map (l.1, ·)

theorem collected_openings {lines : List (Nat × List Char)}
    (written : ∀ l ∈ lines, PlaceholdersWritten l.2) :
    List.Forall₂ (fun e p => Describes p e.2 ∧ p.line = e.1) (openings lines)
      (readPlaceholders lines) := by
  induction lines with
  | nil => exact .nil
  | cons l lines ih =>
    obtain ⟨own, others⟩ := List.forall_mem_cons.1 written
    rw [readPlaceholders_eq, openings, List.flatMap_cons, List.flatMap_cons]
    refine List.rel_append ?_ (ih others)
    rw [List.forall₂_map_left_iff]
    exact collected_behind own l.1

/-- A byte order mark opens nothing. -/
theorem openings_numbered_lines {source : String} (some : bodyLines source ≠ []) :
    openings (Text.numbered (Text.lines source.toList)) =
      openings (Text.numbered (bodyLines source)) := by
  unfold bodyLines at some ⊢
  split
  · rename_i rest whole
    rw [whole] at some
    obtain ⟨first, more, split⟩ := List.exists_cons_of_ne_nil some
    have split : Text.lines rest = first :: more := split
    rw [whole, Text.lines_cons (by decide) (by decide) split, split]
    simp only [openings, Text.numbered_eq_numberedFrom, Text.numberedFrom_cons, List.flatMap_cons]
    have free : '<' ∉ ['\uFEFF'] := by decide
    have mark : Text.behind placeholderOpening ('\uFEFF' :: first) =
        Text.behind placeholderOpening first := Text.behind_append_of_not_mem free first
    rw [mark]
  · rfl

end Markup

open Markup

/-- A text with a test case is read segment by segment: what every segment comes to is collected or
reported at its line, once each time. In a document there is one placeholder for each opening in
the text, in order. -/
theorem Document.read_segments (path : Path) (feature : String) (markers : Markers)
    (source : String) :
    (∀ line, ∃ segments, (∀ other, Segments line other ↔ other = segments) ∧
      ∀ outcomes,
        List.Forall₂ Segment.Yields segments outcomes ↔ outcomes = Markup.placeholders line) ∧
    (HasTestCase (bodyLines source) →
      readPlaceholders (textLines source) =
        (Text.numbered (bodyLines source)).flatMap (fun l =>
          (Markup.placeholders l.2).filterMap (collected? l.1)) ∧
      reportedUnder "placeholder-syntax" (read path feature markers source) =
        Diagnostic.sort ((Text.numbered (bodyLines source)).flatMap fun l =>
          (Markup.placeholders l.2).filterMap (reported? path l.1))) ∧
    ∀ d, read path feature markers source = .ok d → ∃ c, d.cases = [c] ∧
      c.screenshots = readPlaceholders (textLines source) ∧
      List.Forall₂ (fun e p => Describes p e.2 ∧ p.line = e.1) (openings d.lines)
        c.screenshots := by
  refine ⟨fun line => ?_, fun headed => ⟨?_, ?_⟩, fun d result => ?_⟩
  · obtain ⟨segments, whole⟩ := exists_segments line
    refine ⟨segments, fun other => ⟨whole.unique, ?_⟩, fun outcomes => whole.yields_iff⟩
    rintro rfl
    exact whole
  · rw [textLines_eq, readPlaceholders_eq]
  · obtain ⟨o, outlined⟩ := Outline.exists_of_hasTestCase headed
    rw [← scan_textLines] at outlined
    rw [reportedUnder_read path feature markers outlined _ (by decide),
      filter_report_structureFaults, textLines_eq, ← report_placeholderFaults]
    simp
  · obtain ⟨mode, o, _, outlined, sound, rfl⟩ := read_eq_ok_iff.1 result
    refine ⟨_, rfl, rfl, ?_⟩
    have some : bodyLines source ≠ [] := by
      intro none
      rw [scan_textLines, none] at outlined
      cases outlined
    rw [Document.lines, openings_numbered_lines some, ← textLines_eq]
    exact collected_openings sound.placeholders

example : placeholders "<screenshot:> <screenshot:>".toList =
    [.error (.noSeparator []), .error (.noSeparator [])] := by
  decide +kernel

/-- A document with two placeholders in one line. -/
def Document.pictured : String :=
  "# Test Case: A\n# Prerequisites\n# Test Steps\n# Expected UI State\n" ++
    "<screenshot:a|b> <screenshot: a | c|d>\n# Expected Result"

theorem Document.read_segments_pictured :
    HasTestCase (bodyLines pictured) ∧
    reportedUnder "placeholder-syntax" (read ⟨"a.mock.md"⟩ "a" {} pictured) =
      Diagnostic.sort ((Text.numbered (bodyLines pictured)).flatMap fun l =>
        (Markup.placeholders l.2).filterMap (reported? ⟨"a.mock.md"⟩ l.1)) ∧
    ∃ d, read ⟨"a.mock.md"⟩ "a" {} pictured = .ok d ∧ ∃ c, d.cases = [c] ∧
      List.Forall₂ (fun e p => Describes p e.2 ∧ p.line = e.1) (openings d.lines)
        c.screenshots := by
  obtain ⟨_, segmented, document⟩ := read_segments ⟨"a.mock.md"⟩ "a" {} pictured
  have headed : HasTestCase (bodyLines pictured) := by decide +kernel
  obtain ⟨d, result⟩ := exists_of_isOk (r := read ⟨"a.mock.md"⟩ "a" {} pictured)
    (by decide +kernel)
  obtain ⟨c, only, _, described⟩ := document d result
  exact ⟨headed, (segmented headed).2, d, result, c, only, described⟩

end ScriptAudit
