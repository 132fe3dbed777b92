import ScriptAudit.Markup.Draft
import ScriptAudit.Proofs.Markup.Grammar
import ScriptAudit.Proofs.Text.Line

/-!
# Texts laid out in sections

Below a title, sections whose lines are neither fences nor headings are read as they were laid out:
each becomes one block that holds its lines with their numbers.
-/

namespace ScriptAudit

namespace Markup

/-! ## Lines outside of fences -/

/-- A line as it is read outside of fences. -/
def Line.unfenced (l : Nat × List Char) : Line :=
  { number := l.1, text := l.2, heading := Heading.ofLine? l.2 }

theorem Line.scan_eq_map_unfenced {ls : List (Nat × List Char)}
    (h : ∀ l ∈ ls, isFence l.2 = false) : scan false ls = ls.map unfenced := by
  induction ls with
  | nil => rfl
  | cons l ls ih =>
    obtain ⟨first, rest⟩ := List.forall_mem_cons.1 h
    rw [scan, if_neg (by simp [first]), ih rest]
    rfl

theorem blocks_unfenced_append {ls : List (Nat × List Char)}
    (plain : ∀ l ∈ ls, Heading.ofLine? l.2 = none) (rest : List Line) :
    blocks (ls.map Line.unfenced ++ rest) = (ls ++ (blocks rest).1, (blocks rest).2) := by
  induction ls with
  | nil => rfl
  | cons l ls ih =>
    obtain ⟨first, others⟩ := List.forall_mem_cons.1 plain
    have front : (Line.unfenced l).heading = none := first
    rw [List.map_cons, List.cons_append, blocks_cons_plain front, ih others]
    rfl

theorem Heading.ofLine?_headingLine (s : Section) :
    Heading.ofLine? (headingLine s) = some (.ofSection s) := by
  cases s <;> rfl

/-- A line that is read as it was written under a section. -/
structure PlainLine (line : List Char) : Prop where
  single : '\n' ∉ line
  ending : line.getLast? ≠ some '\r'
  fence : isFence line = false
  heading : Heading.ofLine? line = none
  written : Text.allBlank line = false

theorem PlainLine.of_start {c : Char} {s : List Char} (blank : Text.isBlank c = false)
    (hash : c ≠ '#') (fence : ¬"```".toList <+: c :: s) (single : '\n' ∉ c :: s)
    (ending : (c :: s).getLast? ≠ some '\r') : PlainLine (c :: s) where
  single := single
  ending := ending
  fence := isFence_cons blank fence
  heading := Heading.ofLine?_cons blank hash s
  written := by simp [Text.allBlank, blank]

/-! ## Sections -/

namespace Layout

variable {y : Layout}

theorem part_of_some {s : Section} {content : List (List Char)}
    (h : y.content? s = some content) : y.part s = headingLine s :: content := by
  rw [part, h]

theorem part_of_none {s : Section} (h : y.content? s = none) : y.part s = [] := by
  rw [part, h]

theorem mem_part_iff {s : Section} {line : List Char} :
    line ∈ y.part s ↔
      ∃ content, y.content? s = some content ∧ (line = headingLine s ∨ line ∈ content) := by
  cases found : y.content? s with
  | none => simp [part_of_none found]
  | some content => simp [part_of_some found]

/-- The lines are headings and what the layout lists below them. -/
theorem forall_mem_lines {P : List Char → Prop} (headings : ∀ s, P (headingLine s))
    (contents : ∀ s content, y.content? s = some content → ∀ l ∈ content, P l) :
    ∀ l ∈ y.lines, P l := by
  intro l hl
  obtain ⟨s, _, mem⟩ := List.mem_flatMap.1 hl
  obtain ⟨content, found, rfl | mem⟩ := mem_part_iff.1 mem
  · exact headings s
  · exact contents s content found l mem

/-- The section as a block. -/
def block? (y : Layout) (s : Section) : Option Block :=
  (y.content? s).map fun content => ⟨s, y.start s, Text.numberedFrom (y.start s + 1) content⟩

theorem block?_of_some {s : Section} {content : List (List Char)}
    (h : y.content? s = some content) :
    y.block? s = some ⟨s, y.start s, Text.numberedFrom (y.start s + 1) content⟩ := by
  rw [block?, h]
  rfl

theorem block?_of_none {s : Section} (h : y.content? s = none) : y.block? s = none := by
  rw [block?, h]
  rfl

theorem start_eq {before after : List Section} {s : Section}
    (split : Section.all = before ++ s :: after) :
    y.start s = 2 + (before.flatMap y.part).length := by
  have rank : s.rank = before.length := by
    have own : Section.all[before.length]? = some s := by simp [split]
    have inside : before.length < Section.all.length := by simp [split]
    have distinct : Section.all.Nodup := by decide
    exact ((List.getElem?_inj inside distinct).1 (own.trans s.all_getElem?_rank.symm)).symm
  rw [start, rank, split, List.take_left]

theorem blocks_parts (plain : ∀ s content, y.content? s = some content →
      ∀ l ∈ content, Heading.ofLine? l = none) {before after : List Section}
    (split : Section.all = before ++ after) :
    blocks ((Text.numberedFrom (2 + (before.flatMap y.part).length)
        (after.flatMap y.part)).map Line.unfenced) = ([], after.filterMap y.block?) := by
  induction after generalizing before with
  | nil => rfl
  | cons s after ih =>
    have further : Section.all = (before ++ [s]) ++ after := by simpa using split
    have below := ih further
    rw [List.flatMap_append, List.flatMap_singleton, List.length_append, ← Nat.add_assoc,
      ← start_eq split] at below
    rw [List.flatMap_cons, ← start_eq split]
    cases found : y.content? s with
    | none =>
      rw [part_of_none found] at below ⊢
      rw [List.filterMap_cons_none (block?_of_none found)]
      exact below
    | some content =>
      have heading : (Line.unfenced (y.start s, headingLine s)).section? = some s :=
        Line.section?_eq_some_iff.2 (Heading.ofLine?_headingLine s)
      have texts : ∀ l ∈ Text.numberedFrom (y.start s + 1) content,
          Heading.ofLine? l.2 = none :=
        fun l hl => plain s content found _ (Text.mem_of_mem_numberedFrom hl)
      have next : y.start s + (headingLine s :: content).length =
          y.start s + 1 + content.length := by
        simp only [List.length_cons]
        omega
      rw [part_of_some found] at below ⊢
      rw [next] at below
      rw [List.cons_append, Text.numberedFrom_cons, List.map_cons, blocks_cons_section heading,
        Text.numberedFrom_append, List.map_append, blocks_unfenced_append texts, below,
        List.filterMap_cons_some (block?_of_some found), List.append_nil]
      rfl

/-- The outline of a layout below a title in the first line. -/
def outline (y : Layout) (title : List Char) : Outline where
  before := []
  title := title
  line := 1
  repeated := []
  lead := []
  blocks := Section.all.filterMap y.block?

/-- A layout whose lines are read as they were laid out. -/
structure Readable (y : Layout) : Prop where
  plain : ∀ s content, y.content? s = some content → ∀ l ∈ content, PlainLine l
  placeholders : ∀ s content, y.content? s = some content →
    ∀ l ∈ content, PlaceholdersWritten l
  required : ∀ s : Section, s.isRequired = true → (y.content? s).isSome = true
  url : ∀ content, y.content? .startingUrl = some content → content.length ≤ 1
  steps : ∀ content, y.content? .testSteps = some content →
    ∀ l, content.head? = some l → (stepHead? (Text.trim l)).isSome = true

section Outline

variable {title : List Char}

theorem outline_title : (y.outline title).title = title :=
  rfl

theorem outline_line : (y.outline title).line = 1 :=
  rfl

theorem blocksOf_outline (s : Section) : (y.outline title).blocksOf s = (y.block? s).toList := by
  have own (r : Section) : (y.block? r).filter (fun b => decide (b.ofSection = s)) =
      if r = s then y.block? s else none := by
    by_cases same : r = s
    · subst same
      cases found : y.content? r <;> simp [block?, found]
    · cases found : y.content? r <;> simp [block?, found, same]
  rw [Outline.blocksOf, outline, List.filter_filterMap]
  simp only [own]
  cases s <;> cases y.block? _ <;> rfl

theorem headingLine?_outline (s : Section) :
    (y.outline title).headingLine? s = (y.content? s).map fun _ => y.start s := by
  rw [Outline.headingLine?, blocksOf_outline, block?]
  cases y.content? s <;> rfl

theorem written_outline {s : Section} {content : List (List Char)}
    (found : y.content? s = some content) (written : ∀ l ∈ content, Text.allBlank l = false) :
    (y.outline title).written s = Text.numberedFrom (y.start s + 1) content := by
  rw [Outline.written, Outline.content, blocksOf_outline, block?_of_some found,
    Option.toList_some, List.flatMap_singleton, List.filter_eq_self]
  intro l hl
  simp [written l.2 (Text.mem_of_mem_numberedFrom hl)]

theorem written_outline_of_none {s : Section} (absent : y.content? s = none) :
    (y.outline title).written s = [] := by
  rw [Outline.written, Outline.content, blocksOf_outline, block?_of_none absent]
  rfl

theorem ofLines?_layout (readable : y.Readable) {first : List Char}
    (heading : Heading.ofLine? first = some (.testCase title)) :
    Outline.ofLines? ((Text.numberedFrom 1 (first :: y.lines)).map Line.unfenced) =
      some (y.outline title) := by
  have below : blocks ((Text.numberedFrom 2 y.lines).map Line.unfenced) =
      ([], Section.all.filterMap y.block?) :=
    blocks_parts (fun s content found l hl => (readable.plain s content found l hl).heading)
      (List.nil_append _).symm
  have plain : ∀ l ∈ y.lines, ∀ t, Heading.ofLine? l ≠ some (.testCase t) := by
    refine forall_mem_lines (fun s t => ?_) fun s content found l hl t => ?_
    · rw [Heading.ofLine?_headingLine]
      simp
    · rw [(readable.plain s content found l hl).heading]
      simp
  have single : ((Text.numberedFrom 2 y.lines).map Line.unfenced).filter (·.isTestCase) = [] := by
    rw [List.filter_eq_nil_iff]
    intro l hl test
    obtain ⟨e, he, rfl⟩ := List.mem_map.1 hl
    obtain ⟨t, heading⟩ := Line.isTestCase_iff.1 test
    exact plain _ (Text.mem_of_mem_numberedFrom he) t heading
  have start : Line.unfenced (1, first) = ⟨1, first, some (.testCase title)⟩ := by
    rw [Line.unfenced, heading]
  have test : Line.isTestCase ⟨1, first, some (.testCase title)⟩ = true := rfl
  rw [Text.numberedFrom_cons, List.map_cons, start, Outline.ofLines?,
    List.dropWhile_cons_of_neg (by simp [test]), List.takeWhile_cons_of_neg (by simp [test])]
  dsimp only
  rw [single, below]
  rfl

theorem placeholders_headingLine (s : Section) : placeholders (headingLine s) = [] := by
  have absent : Text.occursIn placeholderOpening (headingLine s) = false := by cases s <;> rfl
  rw [placeholders_eq_nil_iff, ← Text.occursIn_iff, absent]
  exact Bool.false_ne_true

theorem isFence_headingLine (s : Section) : isFence (headingLine s) = false := by
  cases s <;> rfl

theorem isFence_of_mem_lines (readable : y.Readable) : ∀ l ∈ y.lines, isFence l = false :=
  forall_mem_lines isFence_headingLine fun s content found l hl =>
    (readable.plain s content found l hl).fence

theorem sound_outline (readable : y.Readable) {first : List Char}
    (fence : isFence first = false) (placeholders : PlaceholdersWritten first) :
    (y.outline title).Sound (Text.numberedFrom 1 (first :: y.lines)) where
  placeholders l hl := by
    have all := List.forall_mem_cons.2 ⟨placeholders,
      forall_mem_lines (fun s => placeholdersWritten_of_eq_nil (placeholders_headingLine s))
        readable.placeholders⟩
    exact all l.2 (Text.mem_of_mem_numberedFrom hl)
  fences := by
    have all : ∀ l ∈ first :: y.lines, isFence l = false :=
      List.forall_mem_cons.2 ⟨fence, isFence_of_mem_lines readable⟩
    rw [List.countP_eq_zero.2 fun l hl => by simp [all l.2 (Text.mem_of_mem_numberedFrom hl)]]
  before := by simp [outline]
  repeated := rfl
  lead := by simp [outline]
  ascending := by
    have ranks : Section.all.Pairwise fun s r => s.rank < r.rank := by decide
    refine List.pairwise_filterMap.2 (ranks.imp fun lt b hb c hc => ?_)
    obtain ⟨_, _, rfl⟩ := Option.map_eq_some_iff.1 hb
    obtain ⟨_, _, rfl⟩ := Option.map_eq_some_iff.1 hc
    exact lt
  required s required := by
    obtain ⟨content, found⟩ := Option.isSome_iff_exists.1 (readable.required s required)
    exact ⟨_, List.mem_filterMap.2 ⟨s, s.mem_all, block?_of_some found⟩, rfl⟩
  url := by
    cases found : y.content? .startingUrl with
    | none => simp [written_outline_of_none found]
    | some content =>
      rw [written_outline found fun l hl => (readable.plain _ _ found l hl).written]
      simpa [Text.numberedFrom] using readable.url content found
  steps := by
    obtain ⟨content, found⟩ := Option.isSome_iff_exists.1 (readable.required .testSteps rfl)
    rw [written_outline found fun l hl => (readable.plain _ _ found l hl).written]
    cases content with
    | nil => simp [Text.numberedFrom]
    | cons l content => simpa [Text.numberedFrom_cons] using readable.steps _ found l rfl

end Outline

/-! ## Reading -/

/-- The first line of a laid out text, which is read as a heading with the title given. -/
structure IsTitleLine (line title : List Char) : Prop where
  start : line.head? = some '#'
  single : '\n' ∉ line
  ending : line.getLast? ≠ some '\r'
  heading : Heading.ofLine? line = some (.testCase title)
  bare : placeholders line = []

theorem isFence_of_isTitleLine {line title : List Char} (titled : IsTitleLine line title) :
    isFence line = false := by
  obtain ⟨rest, rfl⟩ := List.head?_eq_some_iff.1 titled.start
  exact isFence_cons (by decide) (not_starts_fence (by decide) rest)

/-- The text is taken apart into the lines that it was put together from. -/
theorem textLines_layout (readable : y.Readable) {first title : List Char}
    (titled : IsTitleLine first title) :
    textLines (String.ofList (Text.unlines (first :: y.lines))) =
      Text.numberedFrom 1 (first :: y.lines) := by
  have plain := readable.plain
  have headings : ∀ s, '\n' ∉ headingLine s ∧ (headingLine s).getLast? ≠ some '\r' := by
    intro s
    cases s <;> decide
  have below : ∀ l ∈ y.lines, '\n' ∉ l ∧ l.getLast? ≠ some '\r' :=
    forall_mem_lines headings fun s content found l hl =>
      ⟨(plain s content found l hl).single, (plain s content found l hl).ending⟩
  have all : ∀ l ∈ first :: y.lines, '\n' ∉ l ∧ l.getLast? ≠ some '\r' :=
    List.forall_mem_cons.2 ⟨⟨titled.single, titled.ending⟩, below⟩
  have read := Text.lines_unlines (fun l hl => (all l hl).1) (fun l hl => (all l hl).2)
  obtain ⟨rest, rfl⟩ := List.head?_eq_some_iff.1 titled.start
  -- a text that starts with a hash starts with no byte order mark
  have unmarked : bodyLines (String.ofList (Text.unlines (('#' :: rest) :: y.lines))) =
      Text.lines (Text.unlines (('#' :: rest) :: y.lines)) := by
    rw [bodyLines, String.toList_ofList]
    rfl
  rw [textLines_eq, unmarked, read, Text.numbered_eq_numberedFrom]

theorem readPlaceholders_append (ls ks : List (Nat × List Char)) :
    readPlaceholders (ls ++ ks) = readPlaceholders ls ++ readPlaceholders ks :=
  List.flatMap_append

theorem readPlaceholders_of_bare {ls : List (Nat × List Char)}
    (bare : ∀ l ∈ ls, placeholders l.2 = []) : readPlaceholders ls = [] := by
  rw [readPlaceholders, List.flatMap_eq_nil_iff]
  intro l hl
  rw [bare l hl]
  rfl

/-- Placeholders come from the section for them when no other section opens one. -/
theorem readPlaceholders_layout {first title : List Char} (titled : IsTitleLine first title)
    (bare : ∀ s, s ≠ .screenshots → ∀ content, y.content? s = some content →
      ∀ l ∈ content, placeholders l = []) :
    readPlaceholders (Text.numberedFrom 1 (first :: y.lines)) =
      readPlaceholders (Text.numberedFrom (y.start .screenshots + 1)
        ((y.content? .screenshots).getD [])) := by
  have shape : first :: y.lines =
      first :: (Section.all.take 6).flatMap y.part ++ y.part .screenshots := by
    simp [lines, Section.all]
  have place : 1 + (first :: (Section.all.take 6).flatMap y.part).length =
      y.start .screenshots := by
    rw [start, List.length_cons]
    change _ = 2 + ((Section.all.take 6).flatMap y.part).length
    omega
  have front : ∀ l ∈ first :: (Section.all.take 6).flatMap y.part, placeholders l = [] := by
    refine List.forall_mem_cons.2 ⟨titled.bare, fun l hl => ?_⟩
    obtain ⟨s, hs, mem⟩ := List.mem_flatMap.1 hl
    have other : s ≠ .screenshots := by
      rintro rfl
      revert hs
      decide
    obtain ⟨content, found, rfl | mem⟩ := mem_part_iff.1 mem
    · exact placeholders_headingLine s
    · exact bare s other content found l mem
  rw [shape, Text.numberedFrom_append, readPlaceholders_append, place,
    readPlaceholders_of_bare fun l hl => front l.2 (Text.mem_of_mem_numberedFrom hl),
    List.nil_append]
  cases found : y.content? .screenshots with
  | none =>
    rw [part_of_none found]
    rfl
  | some content =>
    have heading := placeholders_headingLine .screenshots
    rw [part_of_some found, Text.numberedFrom_cons]
    simp [readPlaceholders, heading]

end Layout

end Markup

open Markup

/-- What is laid out below a title is read as the outline that the layout has. -/
theorem Document.read_layout {y : Layout} (readable : y.Readable) {first title : List Char}
    (titled : Layout.IsTitleLine first title) {path : Path} {mode : Mode}
    (declared : path.fileName?.bind Mode.ofFileName? = some mode) (feature : String)
    (markers : Markers) {source : String}
    (written : source = String.ofList (Text.unlines (first :: y.lines))) :
    Document.read path feature markers source = .ok
      { path, feature, mode, source
        cases := [(y.outline title).testCase markers
          (readPlaceholders (Text.numberedFrom 1 (first :: y.lines)))] } := by
  have lines := Layout.textLines_layout readable titled
  rw [← written] at lines
  have fence := Layout.isFence_of_isTitleLine titled
  have fenceless : ∀ l ∈ first :: y.lines, isFence l = false :=
    List.forall_mem_cons.2 ⟨fence, Layout.isFence_of_mem_lines readable⟩
  have found : Outline.ofLines? (Line.scan false (textLines source)) = some (y.outline title) := by
    rw [lines, Line.scan_eq_map_unfenced fun l hl => fenceless _ (Text.mem_of_mem_numberedFrom hl)]
    exact Layout.ofLines?_layout readable titled.heading
  have sound : (y.outline title).Sound (Text.numberedFrom 1 (first :: y.lines)) :=
    Layout.sound_outline readable fence (placeholdersWritten_of_eq_nil titled.bare)
  rw [← lines] at sound ⊢
  exact Document.read_eq_ok_iff.2 ⟨mode, _, declared, found, sound, rfl⟩

end ScriptAudit
