import ScriptAudit.Proofs.Markup.Fault
import ScriptAudit.Proofs.Markup.Field
import ScriptAudit.Proofs.Markup.Trim

/-!
# Condensed outlines

Blank lines taken out, the others trimmed and numbered anew: what is found in the condensed form of
an outline is what is found in the outline itself, under the new numbers. Only the text of a setup
script is more than its condensed form.
-/

namespace ScriptAudit

open Markup

/-! ## Numbers -/

def Passage.renumber (f : Nat → Nat) (p : Passage) : Passage :=
  { p with line := f p.line }

def Step.renumber (f : Nat → Nat) (s : Step) : Step :=
  { s with line := f s.line }

def UiEntry.renumber (f : Nat → Nat) (e : UiEntry) : UiEntry :=
  { e with line := f e.line }

def Placeholder.renumber (f : Nat → Nat) (p : Placeholder) : Placeholder :=
  { p with line := f p.line }

/-- The same test case with every line number passed through `f`. -/
def TestCase.renumber (f : Nat → Nat) (t : TestCase) : TestCase :=
  { t with
    line := f t.line
    prerequisites := t.prerequisites.map (·.renumber f)
    setupScript := t.setupScript.map (·.renumber f)
    startingUrl := t.startingUrl.map (·.renumber f)
    steps := t.steps.map (·.renumber f)
    expectedUiState := t.expectedUiState.map (·.renumber f)
    expectedResult := t.expectedResult.renumber f
    screenshots := t.screenshots.map (·.renumber f) }

def Document.renumber (f : Nat → Nat) (d : Document) : Document :=
  { d with cases := d.cases.map (·.renumber f) }

namespace Markup

/-- A missing section quotes the line after which it is expected; no other fault quotes a line. -/
def Fault.renumber (f : Nat → Nat) : Fault → Fault
  | missingSection s previous line => missingSection s previous (f line)
  | fault => fault

def Located.renumber (f : Nat → Nat) (l : Located) : Located :=
  (l.1.map f, l.2.renumber f)

/-! ## Condensing -/

variable (f : Nat → Nat)

def condenseEntry (l : Nat × List Char) : Nat × List Char :=
  (f l.1, Text.trim l.2)

/-- The lines that are not blank, trimmed and numbered anew. -/
def condense (ls : List (Nat × List Char)) : List (Nat × List Char) :=
  (ls.filter fun l => !Text.allBlank l.2).map (condenseEntry f)

def Line.condensed (l : Line) : Line :=
  { l with number := f l.number, text := Text.trim l.text }

def Line.condense (ls : List Line) : List Line :=
  (ls.filter (!·.isBlank)).map (Line.condensed f)

def Block.condense (b : Block) : Block :=
  { b with line := f b.line, content := Markup.condense f b.content }

def Outline.condense (o : Outline) : Outline where
  before := Line.condense f o.before
  title := o.title
  line := f o.line
  repeated := o.repeated.map f
  lead := Markup.condense f o.lead
  blocks := o.blocks.map (Block.condense f)

theorem condense_append (ls ks : List (Nat × List Char)) :
    condense f (ls ++ ks) = condense f ls ++ condense f ks := by
  simp [condense]

theorem condense_cons_of_blank {l : Nat × List Char} (blank : Text.allBlank l.2 = true)
    (ls : List (Nat × List Char)) : condense f (l :: ls) = condense f ls := by
  simp [condense, blank]

theorem condense_cons {l : Nat × List Char} (written : Text.allBlank l.2 = false)
    (ls : List (Nat × List Char)) :
    condense f (l :: ls) = condenseEntry f l :: condense f ls := by
  simp [condense, written]

theorem condense_flatMap {α : Type _} (g : α → List (Nat × List Char)) (xs : List α) :
    condense f (xs.flatMap g) = xs.flatMap fun x => condense f (g x) := by
  induction xs with
  | nil => rfl
  | cons x xs ih => rw [List.flatMap_cons, condense_append, ih, List.flatMap_cons]

/-- The first written line stays the first. -/
theorem find?_condense (ls : List (Nat × List Char)) :
    (condense f ls).find? (fun l => !Text.allBlank l.2) =
      (ls.find? fun l => !Text.allBlank l.2).map (condenseEntry f) := by
  rw [condense, List.find?_map, List.find?_filter]
  simp [condenseEntry, Text.allBlank_trim]

namespace Line

theorem condense_append (ls ks : List Line) :
    condense f (ls ++ ks) = condense f ls ++ condense f ks := by
  simp [condense]

theorem condense_cons_of_blank {l : Line} (blank : l.isBlank = true) (ls : List Line) :
    condense f (l :: ls) = condense f ls := by
  simp [condense, blank]

theorem condense_cons {l : Line} (written : l.isBlank = false) (ls : List Line) :
    condense f (l :: ls) = l.condensed f :: condense f ls := by
  simp [condense, written]

theorem find?_condense (ls : List Line) :
    (condense f ls).find? (!·.isBlank) = (ls.find? (!·.isBlank)).map (condensed f) := by
  rw [condense, List.find?_map, List.find?_filter]
  simp [condensed, isBlank, Text.allBlank_trim]

theorem isTestCase_condensed (l : Line) : (l.condensed f).isTestCase = l.isTestCase := rfl

theorem map_entry_condense (ls : List Line) :
    (condense f ls).map entry = Markup.condense f (ls.map entry) := by
  rw [condense, Markup.condense, List.filter_map, List.map_map, List.map_map]
  rfl

end Line

/-! ## Outlines -/

/-- Lines whose headings are not blank, as those of a text are. -/
def HeadingsWritten (ls : List Line) : Prop :=
  ∀ l ∈ ls, ∀ h, l.heading = some h → l.isBlank = false

theorem headingsWritten_marked (ls : List (List Char)) : HeadingsWritten (marked ls) :=
  fun _ hl _ heading => isBlank_eq_false_of_heading hl heading

theorem HeadingsWritten.tail {l : Line} {ls : List Line} (h : HeadingsWritten (l :: ls)) :
    HeadingsWritten ls :=
  fun k hk => h k (List.mem_cons_of_mem _ hk)

theorem blocks_condense {ls : List Line} (written : HeadingsWritten ls) :
    blocks (Line.condense f ls) =
      (condense f (blocks ls).1, (blocks ls).2.map (Block.condense f)) := by
  induction ls with
  | nil => rfl
  | cons l ls ih =>
    have below := ih written.tail
    rcases l.kinds with plain | test | ⟨s, section?⟩
    · rw [blocks_cons_plain plain]
      cases blank : l.isBlank with
      | true => rw [Line.condense_cons_of_blank f blank, below,
          condense_cons_of_blank f (l := l.entry) blank]
      | false =>
        rw [Line.condense_cons f blank, blocks_cons_plain (l := l.condensed f) plain, below,
          condense_cons f (l := l.entry) blank]
        rfl
    · obtain ⟨title, heading⟩ := Line.isTestCase_iff.1 test
      rw [Line.condense_cons f (written l List.mem_cons_self _ heading),
        blocks_cons_testCase (l := l.condensed f) test, below, blocks_cons_testCase test]
    · have heading := Line.section?_eq_some_iff.1 section?
      rw [Line.condense_cons f (written l List.mem_cons_self _ heading),
        blocks_cons_section (l := l.condensed f) section?, below, blocks_cons_section section?]
      rfl

namespace Outline

theorem ofLines?_cons_testCase {l : Line} {title : List Char}
    (heading : l.heading = some (.testCase title)) (rest : List Line) :
    ofLines? (l :: rest) = some
      { before := [], title, line := l.number
        repeated := (rest.filter (·.isTestCase)).map (·.number)
        lead := (Markup.blocks rest).1, blocks := (Markup.blocks rest).2 } := by
  obtain ⟨n, text, _⟩ := l
  cases heading
  rfl

theorem ofLines?_cons_other {l : Line} (other : l.isTestCase = false) (rest : List Line) :
    ofLines? (l :: rest) = (ofLines? rest).map fun o => { o with before := l :: o.before } := by
  rw [ofLines?, ofLines?, List.dropWhile_cons_of_pos (by simp [other]),
    List.takeWhile_cons_of_pos (by simp [other])]
  dsimp only
  split <;> rfl

theorem filter_isTestCase_condense {ls : List Line} (written : HeadingsWritten ls) :
    ((Line.condense f ls).filter (·.isTestCase)).map (·.number) =
      ((ls.filter (·.isTestCase)).map (·.number)).map f := by
  have kept : ∀ l ∈ ls, (!l.isBlank && l.isTestCase) = l.isTestCase := by
    intro l hl
    cases test : l.isTestCase with
    | false => simp
    | true =>
      obtain ⟨title, heading⟩ := Line.isTestCase_iff.1 test
      simp [written l hl _ heading]
  rw [Line.condense, List.filter_map, List.filter_filter, List.map_map, List.map_map]
  have same : (ls.filter fun l => ((·.isTestCase) ∘ Line.condensed f) l && !l.isBlank) =
      ls.filter (·.isTestCase) :=
    List.filter_congr fun l hl => by
      rw [Function.comp_apply, Line.isTestCase_condensed, Bool.and_comm]
      exact kept l hl
  rw [same]
  rfl

theorem ofLines?_condense {ls : List Line} (written : HeadingsWritten ls) :
    ofLines? (Line.condense f ls) = (ofLines? ls).map (Outline.condense f) := by
  induction ls with
  | nil => rfl
  | cons l ls ih =>
    have below := ih written.tail
    cases test : l.isTestCase with
    | true =>
      obtain ⟨title, heading⟩ := Line.isTestCase_iff.1 test
      rw [Line.condense_cons f (written l List.mem_cons_self _ heading),
        ofLines?_cons_testCase (l := l.condensed f) heading, ofLines?_cons_testCase heading,
        blocks_condense f written.tail, filter_isTestCase_condense f written.tail]
      rfl
    | false =>
      rw [ofLines?_cons_other test, Option.map_map]
      cases blank : l.isBlank with
      | true =>
        rw [Line.condense_cons_of_blank f blank, below]
        refine congrArg (Option.map · (ofLines? ls)) (funext fun o => ?_)
        simp only [Function.comp_apply, condense, Line.condense_cons_of_blank f blank]
      | false =>
        rw [Line.condense_cons f blank, ofLines?_cons_other (l := l.condensed f) test, below,
          Option.map_map]
        refine congrArg (Option.map · (ofLines? ls)) (funext fun o => ?_)
        simp only [Function.comp_apply, condense, Line.condense_cons f blank]

/-! ## Faults -/

variable (o : Outline)

theorem preambleFaults_condense :
    (o.condense f).preambleFaults = o.preambleFaults.map (Located.renumber f) := by
  rw [preambleFaults, condense, Line.find?_condense, preambleFaults]
  cases o.before.find? (!·.isBlank) <;> rfl

theorem repeatFaults_condense :
    (o.condense f).repeatFaults = o.repeatFaults.map (Located.renumber f) := by
  simp [repeatFaults, condense, Located.renumber, Fault.renumber]

theorem strayFaults_condense :
    (o.condense f).strayFaults = o.strayFaults.map (Located.renumber f) := by
  rw [strayFaults, condense, Markup.find?_condense, strayFaults]
  cases o.lead.find? fun l => !Text.allBlank l.2 <;> rfl

theorem orderFaultsAfter_condense (opened : List Section) (bs : List Block) :
    orderFaultsAfter opened (bs.map (Block.condense f)) =
      (orderFaultsAfter opened bs).map (Located.renumber f) := by
  induction bs generalizing opened with
  | nil => rfl
  | cons b bs ih =>
    rw [List.map_cons, orderFaultsAfter_cons, orderFaultsAfter_cons, List.map_append, ih,
      List.map_map]
    refine congrArg (· ++ _) (List.map_congr_left fun fault found => ?_)
    cases headingFault?_eq_some_iff.1 (Option.mem_toList.1 found) <;> rfl

theorem orderFaults_condense :
    (o.condense f).orderFaults = o.orderFaults.map (Located.renumber f) :=
  orderFaultsAfter_condense f [] o.blocks

theorem blocksOf_condense (s : Section) :
    (o.condense f).blocksOf s = (o.blocksOf s).map (Block.condense f) := by
  rw [blocksOf, condense, List.filter_map]
  rfl

theorem headingLine?_condense (s : Section) :
    (o.condense f).headingLine? s = (o.headingLine? s).map f := by
  rw [headingLine?, blocksOf_condense, List.head?_map, headingLine?, Option.map_map,
    Option.map_map]
  rfl

theorem content_condense (s : Section) :
    (o.condense f).content s = Markup.condense f (o.content s) := by
  rw [content, blocksOf_condense, List.flatMap_map, content, condense_flatMap]
  rfl

theorem written_condense (s : Section) :
    (o.condense f).written s = (o.written s).map (condenseEntry f) := by
  rw [written, content_condense, Markup.condense, List.filter_map, List.filter_filter, written]
  refine congrArg (List.map _) (List.filter_congr fun l _ => ?_)
  simp [condenseEntry, Text.allBlank_trim]

theorem endLine?_condense (s : Section) :
    (o.condense f).endLine? s = (o.endLine? s).map f := by
  rw [endLine?, headingLine?_condense, written_condense, List.getLast?_map, endLine?]
  cases o.headingLine? s <;> cases (o.written s).getLast? <;> rfl

theorem previous?_condense (s : Section) :
    (o.condense f).previous? s = (o.previous? s).map fun (p, n) => (p, f n) := by
  rw [previous?, previous?, List.map_findSome?]
  refine congrArg (List.findSome? · _) (funext fun p => ?_)
  rw [endLine?_condense, Function.comp_apply, Option.map_map, Option.map_map]
  rfl

theorem missingFault_condense (s : Section) :
    (o.condense f).missingFault s = (o.missingFault s).renumber f := by
  rw [missingFault, previous?_condense, missingFault]
  cases o.previous? s <;> rfl

theorem missingFaults_condense :
    (o.condense f).missingFaults = o.missingFaults.map (Located.renumber f) := by
  simp only [missingFaults, headingLine?_condense, Option.isNone_map, List.map_map]
  exact List.map_congr_left fun s _ => o.missingFault_condense f s

theorem urlFaults_condense :
    (o.condense f).urlFaults = o.urlFaults.map (Located.renumber f) := by
  rw [urlFaults, written_condense, urlFaults]
  cases o.written .startingUrl with
  | nil => rfl
  | cons _ rest => cases rest <;> rfl

theorem readSteps_condense (ls : List (Nat × List Char)) :
    readSteps (ls.map (condenseEntry f)) =
      ((readSteps ls).1.map (condenseEntry f), (readSteps ls).2.map (·.renumber f)) := by
  induction ls with
  | nil => rfl
  | cons l ls ih =>
    have same : Text.trim (condenseEntry f l).2 = Text.trim l.2 := Text.trim_trim l.2
    rw [List.map_cons]
    cases head : stepHead? (Text.trim l.2) with
    | none =>
      rw [readSteps_cons_text (same ▸ head), readSteps_cons_text head, ih]
      rfl
    | some step =>
      obtain ⟨digits, text⟩ := step
      rw [readSteps_cons_step (same ▸ head), readSteps_cons_step head, ih]
      simp only [List.map_map, Function.comp_def, condenseEntry, stripListMarker_trim,
        List.map_nil, List.map_cons, Step.renumber]

theorem stepFaults_condense :
    (o.condense f).stepFaults = o.stepFaults.map (Located.renumber f) := by
  rw [stepFaults, written_condense, readSteps_condense, List.head?_map, stepFaults]
  cases (readSteps (o.written .testSteps)).1.head? <;> rfl

end Outline

/-! ## Lines -/

/-- What is found in each line by itself, and in no blank one. -/
theorem flatMap_condense {α : Type _} {find : Nat × List Char → List α} {r : α → α}
    (blank : ∀ l, Text.allBlank l.2 = true → find l = [])
    (each : ∀ l, find (condenseEntry f l) = (find l).map r) (ls : List (Nat × List Char)) :
    (condense f ls).flatMap find = (ls.flatMap find).map r := by
  induction ls with
  | nil => rfl
  | cons l ls ih =>
    rw [List.flatMap_cons, List.map_append, ← ih]
    cases written : Text.allBlank l.2 with
    | true => rw [condense_cons_of_blank f written, blank l written, List.map_nil, List.nil_append]
    | false => rw [condense_cons f written, List.flatMap_cons, each]

theorem placeholderFaults_condense (ls : List (Nat × List Char)) :
    placeholderFaults (condense f ls) = (placeholderFaults ls).map (Located.renumber f) := by
  refine flatMap_condense f (fun l blank => by rw [placeholders_of_allBlank blank]; rfl)
    (fun l => ?_) ls
  rw [condenseEntry, placeholders_trim, List.map_filterMap]
  refine congrArg (List.filterMap · (placeholders l.2)) (funext fun r => ?_)
  cases r <;> rfl

theorem readPlaceholders_condense (ls : List (Nat × List Char)) :
    readPlaceholders (condense f ls) = (readPlaceholders ls).map (·.renumber f) := by
  refine flatMap_condense f (fun l blank => by rw [placeholders_of_allBlank blank]; rfl)
    (fun l => ?_) ls
  rw [condenseEntry, placeholders_trim, List.map_filterMap]
  refine congrArg (List.filterMap · (placeholders l.2)) (funext fun r => ?_)
  cases r <;> rfl

theorem openFence?_condense (ls : List (Nat × List Char)) :
    openFence? (condense f ls) = (openFence? ls).map f := by
  have fences : (condense f ls).filter (fun l => isFence l.2) =
      (ls.filter fun l => isFence l.2).map (condenseEntry f) := by
    rw [condense, List.filter_map, List.filter_filter]
    refine congrArg (List.map _) (List.filter_congr fun l _ => ?_)
    rw [Function.comp_apply, condenseEntry, isFence_trim]
    cases blank : Text.allBlank l.2 with
    | true => simp [isFence_of_allBlank blank]
    | false => simp
  rw [openFence?, fences, List.length_map, List.getLast?_map, openFence?]
  split
  · cases (ls.filter fun l => isFence l.2).getLast? <;> rfl
  · rfl

theorem fenceFaults_condense (ls : List (Nat × List Char)) :
    fenceFaults (condense f ls) = (fenceFaults ls).map (Located.renumber f) := by
  rw [fenceFaults, openFence?_condense, fenceFaults]
  cases openFence? ls <;> rfl

theorem structureFaults_condense (ls : List (Nat × List Char)) (o : Outline) :
    structureFaults (condense f ls) (o.condense f) =
      (structureFaults ls o).map (Located.renumber f) := by
  have missing : (if (openFence? (condense f ls)).isSome then []
        else (o.condense f).missingFaults) =
      (if (openFence? ls).isSome then [] else o.missingFaults).map (Located.renumber f) := by
    rw [openFence?_condense, Option.isSome_map, Outline.missingFaults_condense]
    split <;> rfl
  simp only [structureFaults, missing, List.map_append, placeholderFaults_condense,
    fenceFaults_condense, Outline.preambleFaults_condense, Outline.repeatFaults_condense,
    Outline.strayFaults_condense, Outline.orderFaults_condense, Outline.urlFaults_condense,
    Outline.stepFaults_condense]

/-! ## Test cases -/

variable (markers : Markers)

theorem readPrerequisite_condense (l : Nat × List Char) :
    readPrerequisite (condenseEntry f l) = (readPrerequisite l).renumber f := by
  simp only [readPrerequisite, condenseEntry, stripListMarker_trim, Passage.renumber]

theorem readUrl_condense (l : Nat × List Char) :
    readUrl (condenseEntry f l) = (readUrl l).renumber f := by
  simp only [readUrl, condenseEntry, stripListMarker_trim, Passage.renumber]

theorem readUiEntry_condense (l : Nat × List Char) :
    readUiEntry markers (condenseEntry f l) = (readUiEntry markers l).renumber f := by
  simp only [readUiEntry, condenseEntry, stripListMarker_trim, UiEntry.renumber]

theorem readResult_condense (n : Nat) (ls : List (Nat × List Char)) :
    readResult (f n) (ls.map (condenseEntry f)) = (readResult n ls).renumber f := by
  simp only [readResult, condenseEntry, List.map_map, Function.comp_def, Text.trim_trim,
    Passage.renumber]

/-- All but the script comes from the condensed form. -/
theorem testCase_condense (o : Outline) (screenshots : List Placeholder) :
    { (o.condense f).testCase markers (screenshots.map (·.renumber f)) with setupScript := none } =
      { (o.testCase markers screenshots).renumber f with setupScript := none } := by
  have result : readResult (((o.condense f).headingLine? .expectedResult).getD (f o.line))
        ((o.written .expectedResult).map (condenseEntry f)) =
      (readResult ((o.headingLine? .expectedResult).getD o.line)
        (o.written .expectedResult)).renumber f := by
    rw [o.headingLine?_condense, Option.getD_map, readResult_condense]
  have line : (o.condense f).line = f o.line := rfl
  have title : (o.condense f).title = o.title := rfl
  simp only [Outline.testCase, TestCase.renumber, line, title, result, Outline.written_condense,
    Outline.readSteps_condense, List.map_map, List.head?_map, Option.map_map, Function.comp_def,
    readPrerequisite_condense, readUrl_condense, readUiEntry_condense]

end Markup

end ScriptAudit
