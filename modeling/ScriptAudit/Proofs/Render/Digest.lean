import ScriptAudit.Proofs.Report.Arrangement
import ScriptAudit.Proofs.Text.Line
import ScriptAudit.Proofs.Text.Search
import ScriptAudit.Render.Json
import ScriptAudit.Render.Plain
import ScriptAudit.Text.Decimal

/-!
# The text of a report can be read back

A reader of plain report texts that uses nothing but the text. Which kind a line is of depends on
where it stands: a group begins with the name of its file, whatever that looks like, and goes on up
to an empty line, and the last line of all is the summary. So neither a file nor a message can be
taken for a line of another kind, as long as it is written on one line.
-/

namespace ScriptAudit.Render

/-- What a report shows of a diagnostic. -/
structure Entry where
  file : String
  line : Option Nat
  ruleId : String
  severity : Severity
  message : String
deriving DecidableEq, Repr

def Entry.of (d : Diagnostic) : Entry :=
  { file := d.file, line := d.line, ruleId := d.ruleId, severity := d.severity,
    message := d.message }

/-- What the text of a report says. -/
structure Digest where
  entries : List Entry
  outcome : Outcome
  documents : Nat
  errors : Nat
  warnings : Nat
  infos : Nat
deriving DecidableEq, Repr

def Digest.of (r : Report) (o : Outcome) : Digest where
  entries := r.diagnostics.map Entry.of
  outcome := o
  documents := r.documents
  errors := r.summary.errors
  warnings := r.summary.warnings
  infos := r.summary.infos

/-! ## Reading -/

/-- A line number, or a hyphen where there is none. -/
def readPlace (s : List Char) : Option Nat :=
  if s = ['-'] then none else some (Text.decimalValue s)

def readLine? (file : String) (line : List Char) : Option Entry := do
  let s ← Text.after? [' ', ' '] line
  let (place, s) ← Text.cut? [':', ' '] s
  let (label, s) ← Text.cut? ['['] s
  let (ruleId, message) ← Text.cut? [']', ' '] s
  let severity ← Severity.ofLabel? (String.ofList label)
  some { file, line := readPlace place, ruleId := String.ofList ruleId, severity,
         message := String.ofList message }

/-- Reads lines in groups; while a group is open its file is given. -/
def readGroups? : Option String → List (List Char) → Option (List Entry)
  | none, [] => some []
  | none, name :: rest => readGroups? (some (String.ofList name)) rest
  | some _, [] => none
  | some _, [] :: rest => readGroups? none rest
  | some file, (c :: s) :: rest => do
    let entry ← readLine? file (c :: s)
    let more ← readGroups? (some file) rest
    some (entry :: more)

/-- The number in a text that holds no other digits. -/
def readCount (s : List Char) : Nat :=
  Text.decimalValue (s.filter Text.isDigit)

/-- The outcome whose label the line starts with, and what stands in the brackets behind it. -/
def readOutcome? (line : List Char) : Option (Outcome × List Char) :=
  [Outcome.passed, .failed, .unreadable].findSome? fun o =>
    (Text.after? (outcomeLabel false o ++ " (").toList line).map fun s => (o, s)

/-- Reads the summary, given the entries above it. -/
def readSummary? (entries : List Entry) (line : List Char) : Option Digest := do
  let (outcome, s) ← readOutcome? line
  let (documents, s) ← Text.cut? [':'] s
  let (errors, s) ← Text.cut? [','] s
  let (warnings, infos) ← Text.cut? [','] s
  some { entries, outcome, documents := readCount documents, errors := readCount errors,
         warnings := readCount warnings, infos := readCount infos }

def readReport? (text : String) : Option Digest := do
  let lines := (text.toList.splitOn '\n').dropLast
  let last ← lines.getLast?
  let entries ← readGroups? none lines.dropLast
  readSummary? entries last

/-! ## The lines of a report -/

def entryLine (d : Diagnostic) : List Char :=
  ' ' :: ' ' :: (((d.line.map toString).getD "-").toList ++ ':' :: ' ' ::
    (d.severity.label.toList ++ '[' :: (d.ruleId.toList ++ ']' :: ' ' :: d.message.toList)))

def groupLines (group : String × List Diagnostic) : List (List Char) :=
  group.1.toList :: (group.2.map entryLine ++ [[]])

/-- What is counted in the summary. -/
def countsText (r : Report) : List Char :=
  (plural r.documents "document" ++ " checked").toList ++ ':' ::
    ((" " ++ plural r.summary.errors "error").toList ++ ',' ::
      ((" " ++ plural r.summary.warnings "warning").toList ++ ',' ::
        (" " ++ toString r.summary.infos ++ " info)").toList))

def reportLines (r : Report) (o : Outcome) : List (List Char) :=
  r.byFile.flatMap groupLines ++ [(outcomeLabel false o ++ " (").toList ++ countsText r]

theorem toList_diagnosticLine (d : Diagnostic) :
    (diagnosticLine false d).toList = entryLine d ++ ['\n'] := by
  simp [diagnosticLine, paint, entryLine]

theorem toList_fileGroup (g : String × List Diagnostic) :
    (fileGroup false g).toList = Text.unlines (groupLines g) := by
  have lines : (g.2.map (diagnosticLine false)).flatMap String.toList =
      Text.unlines (g.2.map entryLine) := by
    simp [Text.unlines, List.flatMap_map, toList_diagnosticLine]
  simp [fileGroup, paint, groupLines, String.toList_join, lines, Text.unlines]

theorem toList_reportText (r : Report) (o : Outcome) :
    (reportText false r o).toList = Text.unlines (reportLines r o) := by
  have groups : (r.byFile.map (fileGroup false)).flatMap String.toList =
      Text.unlines (r.byFile.flatMap groupLines) := by
    simp [Text.unlines, List.flatMap_map, List.flatMap_assoc, toList_fileGroup]
  simp [reportText, String.toList_join, groups, reportLines, countsText, summaryLine, Text.unlines]

/-! ## Reading the lines -/

section

variable {d : Diagnostic}

theorem not_mem_place {c : Char} (digit : Text.isDigit c = false) (hyphen : c ≠ '-')
    (line : Option Nat) : c ∉ ((line.map toString).getD "-").toList := by
  cases line with
  | none => simpa using hyphen
  | some n =>
    intro mem
    rw [Text.isDigit_of_mem_toString mem] at digit
    cases digit

theorem readPlace_place (line : Option Nat) :
    readPlace ((line.map toString).getD "-").toList = line := by
  cases line with
  | none => rfl
  | some n =>
    have number : (toString n).toList ≠ ['-'] := by
      intro same
      have digit := Text.isDigit_of_mem_toString (n := n) (same ▸ List.mem_singleton_self '-')
      exact absurd digit (by decide)
    simp only [readPlace, Option.map_some, Option.getD_some, number, if_false,
      Text.decimalValue_toString]

theorem readLine?_entryLine (closed : ']' ∉ d.ruleId.toList) :
    readLine? d.file (entryLine d) = some (Entry.of d) := by
  have opening : '[' ∉ d.severity.label.toList := by cases d.severity <;> decide
  have place (s : List Char) :
      Text.cut? [':', ' '] (((d.line.map toString).getD "-").toList ++ [':', ' '] ++ s) = _ :=
    Text.cut?_append (not_mem_place (by decide) (by decide) d.line) s
  have label (s : List Char) : Text.cut? ['['] (d.severity.label.toList ++ ['['] ++ s) = _ :=
    Text.cut?_append opening s
  have ruleId (s : List Char) : Text.cut? [']', ' '] (d.ruleId.toList ++ [']', ' '] ++ s) = _ :=
    Text.cut?_append closed s
  simp only [List.append_assoc, List.cons_append, List.nil_append] at place label ruleId
  simp [readLine?, entryLine, Text.after?, place, label, ruleId, Severity.ofLabel?_label,
    readPlace_place, Entry.of]

end

/-- An open group is read up to the empty line that ends it. -/
theorem readGroups?_open {file : String} {ds : List Diagnostic}
    (own : ∀ d ∈ ds, d.file = file ∧ ']' ∉ d.ruleId.toList) (rest : List (List Char)) :
    readGroups? (some file) (ds.map entryLine ++ [] :: rest) =
      (readGroups? none rest).map (ds.map Entry.of ++ ·) := by
  induction ds with
  | nil => simp [readGroups?]
  | cons d ds ih =>
    obtain ⟨⟨rfl, closed⟩, further⟩ := List.forall_mem_cons.1 own
    have first := readLine?_entryLine closed
    have below := ih further
    rw [entryLine] at first
    simp only [List.map_cons, List.cons_append, entryLine, readGroups?, first]
    cases more : readGroups? none rest with
    | none => simp [below, more]
    | some entries => simp [below, more]

theorem readGroups?_groupLines {gs : List (String × List Diagnostic)}
    (own : ∀ g ∈ gs, ∀ d ∈ g.2, d.file = g.1 ∧ ']' ∉ d.ruleId.toList) :
    readGroups? none (gs.flatMap groupLines) = some ((gs.flatMap (·.2)).map Entry.of) := by
  induction gs with
  | nil => rfl
  | cons g gs ih =>
    obtain ⟨first, further⟩ := List.forall_mem_cons.1 own
    have lines : (g :: gs).flatMap groupLines =
        g.1.toList :: (g.2.map entryLine ++ [] :: gs.flatMap groupLines) := by
      simp [groupLines]
    rw [lines, readGroups?, String.ofList_toList, readGroups?_open first, ih further]
    simp

/-! ## Reading the summary -/

section

variable {other : List Char} (none : other.filter Text.isDigit = [])
include none

theorem readCount_append_left (s : List Char) : readCount (other ++ s) = readCount s := by
  simp only [readCount, List.filter_append, none, List.nil_append]

theorem readCount_append_right (s : List Char) : readCount (s ++ other) = readCount s := by
  simp only [readCount, List.filter_append, none, List.append_nil]

end

theorem readCount_toString (n : Nat) : readCount (toString n).toList = n := by
  have digits : (toString n).toList.filter Text.isDigit = (toString n).toList :=
    List.filter_eq_self.2 fun _ => Text.isDigit_of_mem_toString
  rw [readCount, digits, Text.decimalValue_toString]

theorem toList_plural (n : Nat) (word : String) : (plural n word).toList =
    (toString n).toList ++ (' ' :: word.toList ++ if n = 1 then [] else ['s']) := by
  by_cases one : n = 1 <;> simp [plural, one]

theorem eq_of_mem_ending {n : Nat} {c : Char} (h : c ∈ if n = 1 then [] else ['s']) : c = 's' := by
  by_cases one : n = 1
  · simp [one] at h
  · simpa [one] using h

theorem not_mem_plural {c : Char} (digit : Text.isDigit c = false) {word : String}
    (other : c ∉ ' ' :: 's' :: word.toList) (n : Nat) : c ∉ (plural n word).toList := by
  simp only [List.mem_cons, not_or] at other
  rw [toList_plural]
  simp only [List.mem_append, List.mem_cons, not_or]
  refine ⟨fun mem => ?_, ⟨other.1, other.2.2⟩, fun mem => other.2.1 (eq_of_mem_ending mem)⟩
  rw [Text.isDigit_of_mem_toString mem] at digit
  cases digit

theorem readCount_plural {word : String} (none : word.toList.filter Text.isDigit = []) (n : Nat) :
    readCount (plural n word).toList = n := by
  have space : Text.isDigit ' ' = false := by decide
  have ending : Text.isDigit 's' = false := by decide
  have behind : (' ' :: word.toList ++ if n = 1 then [] else ['s']).filter Text.isDigit = [] := by
    by_cases one : n = 1 <;> simp [one, none, space, ending]
  rw [toList_plural, readCount_append_right behind, readCount_toString]

theorem readOutcome?_label (o : Outcome) (s : List Char) :
    readOutcome? ((outcomeLabel false o ++ " (").toList ++ s) = some (o, s) := by
  cases o <;> rfl

theorem readSummary?_countsText (entries : List Entry) (r : Report) (o : Outcome) :
    readSummary? entries ((outcomeLabel false o ++ " (").toList ++ countsText r) =
      some { Digest.of r o with entries } := by
  have documents : readCount (plural r.documents "document" ++ " checked").toList =
      r.documents := by
    rw [String.toList_append, readCount_append_right (by decide), readCount_plural (by decide)]
  have errors : readCount (" " ++ plural r.summary.errors "error").toList = r.summary.errors := by
    rw [String.toList_append, readCount_append_left (by decide), readCount_plural (by decide)]
  have warnings : readCount (" " ++ plural r.summary.warnings "warning").toList =
      r.summary.warnings := by
    rw [String.toList_append, readCount_append_left (by decide), readCount_plural (by decide)]
  have infos : readCount (" " ++ toString r.summary.infos ++ " info)").toList =
      r.summary.infos := by
    rw [String.toList_append, readCount_append_right (by decide), String.toList_append,
      readCount_append_left (by decide), readCount_toString]
  have colon : ':' ∉ (plural r.documents "document" ++ " checked").toList := by
    have free : ':' ∉ (plural r.documents "document").toList :=
      not_mem_plural (by decide) (by decide) _
    simpa using free
  have comma : ',' ∉ (" " ++ plural r.summary.errors "error").toList := by
    have free : ',' ∉ (plural r.summary.errors "error").toList :=
      not_mem_plural (by decide) (by decide) _
    simpa using free
  have comma' : ',' ∉ (" " ++ plural r.summary.warnings "warning").toList := by
    have free : ',' ∉ (plural r.summary.warnings "warning").toList :=
      not_mem_plural (by decide) (by decide) _
    simpa using free
  have cut {c : Char} {piece : List Char} (free : c ∉ piece) (s : List Char) :
      Text.cut? [c] (piece ++ c :: s) = some (piece, s) := by
    have found : Text.cut? [c] (piece ++ [c] ++ s) = some (piece, s) := Text.cut?_append free s
    simpa using found
  simp only [readSummary?, readOutcome?_label, countsText, Option.bind_eq_bind, Option.bind_some,
    cut colon, cut comma, cut comma', documents, errors, warnings, infos, Digest.of]

/-! ## The whole text -/

/-- The diagnostic is shown on one line, and its rule ends where the bracket closes. -/
structure OnOneLine (d : Diagnostic) : Prop where
  file : '\n' ∉ d.file.toList
  ruleId : '\n' ∉ d.ruleId.toList
  message : '\n' ∉ d.message.toList
  closed : ']' ∉ d.ruleId.toList

theorem not_mem_entryLine {d : Diagnostic} (single : OnOneLine d) : '\n' ∉ entryLine d := by
  have place := not_mem_place (by decide : Text.isDigit '\n' = false) (by decide) d.line
  have label : '\n' ∉ d.severity.label.toList := by cases d.severity <;> decide
  simp [entryLine, place, label, single.ruleId, single.message]

theorem not_mem_countsText (r : Report) : '\n' ∉ countsText r := by
  have documents : '\n' ∉ (plural r.documents "document").toList :=
    not_mem_plural (by decide) (by decide) _
  have errors : '\n' ∉ (plural r.summary.errors "error").toList :=
    not_mem_plural (by decide) (by decide) _
  have warnings : '\n' ∉ (plural r.summary.warnings "warning").toList :=
    not_mem_plural (by decide) (by decide) _
  have infos : '\n' ∉ (toString r.summary.infos).toList := fun mem =>
    absurd (Text.isDigit_of_mem_toString mem) (by decide)
  simp only [countsText, String.toList_append, List.mem_append, List.mem_cons, documents, errors,
    warnings, infos]
  decide

section

variable {r : Report} {o : Outcome} (single : ∀ d ∈ r.diagnostics, OnOneLine d)
include single

theorem onOneLine_of_mem_byFile :
    ∀ g ∈ r.byFile, ∀ d ∈ g.2, d.file = g.1 ∧ OnOneLine d := by
  intro g hg d hd
  have mem : d ∈ r.byFile.flatMap (·.2) := List.mem_flatMap.2 ⟨g, hg, hd⟩
  rw [Report.byFile, Report.flatMap_groups] at mem
  exact ⟨(Report.of_mem_groups hg).2 d hd, single d mem⟩

theorem not_mem_of_mem_reportLines : ∀ l ∈ reportLines r o, '\n' ∉ l := by
  have own := onOneLine_of_mem_byFile single
  intro l hl
  rw [reportLines, List.mem_append, List.mem_flatMap] at hl
  rcases hl with ⟨g, hg, hl⟩ | last
  · simp only [groupLines, List.mem_cons, List.mem_append, List.mem_map, List.not_mem_nil,
      or_false] at hl
    rcases hl with rfl | ⟨d, hd, rfl⟩ | rfl
    · obtain ⟨d, hd⟩ := List.exists_mem_of_ne_nil g.2 (Report.of_mem_groups hg).1
      rw [← (own g hg d hd).1]
      exact (own g hg d hd).2.file
    · exact not_mem_entryLine (own g hg d hd).2
    · exact List.not_mem_nil
  · rw [List.mem_singleton.1 last, List.mem_append, not_or]
    exact ⟨by cases o <;> decide, not_mem_countsText r⟩

theorem readReport?_eq : readReport? (reportText false r o) = some (Digest.of r o) := by
  have lines : ((reportText false r o).toList.splitOn '\n').dropLast = reportLines r o := by
    rw [toList_reportText, Text.splitOn_unlines (not_mem_of_mem_reportLines single),
      List.dropLast_concat]
  have entries := readGroups?_groupLines fun g hg d hd =>
    (onOneLine_of_mem_byFile single g hg d hd).imp_right OnOneLine.closed
  rw [Report.byFile, Report.flatMap_groups, ← Report.byFile] at entries
  simp only [readReport?, lines, reportLines, List.getLast?_concat, List.dropLast_concat,
    Option.bind_eq_bind, Option.bind_some, entries, readSummary?_countsText]
  rfl

end

/-- The record of an array that shows this much. -/
def Entry.json (e : Entry) : String :=
  record [("file", quoted e.file), ("line", (e.line.map toString).getD "null"),
    ("ruleId", quoted e.ruleId), ("severity", quoted e.severity.label),
    ("message", quoted e.message)]

theorem reportJson_eq (r : Report) :
    reportJson r = array ((Digest.of r o).entries.map Entry.json) := by
  rw [Digest.of, List.map_map]
  rfl

/-- A report whose diagnostics are on lines of their own can be read back from its text alone: the
diagnostics in report order, the outcome and the counts. So reports with one text have the same
records. -/
theorem readReport?_reportText (r : Report) (o : Outcome)
    (single : ∀ d ∈ r.diagnostics, OnOneLine d) :
    readReport? (reportText false r o) = some (Digest.of r o) ∧
      ∀ s p, (∀ d ∈ s.diagnostics, OnOneLine d) → reportText false s p = reportText false r o →
        Digest.of s p = Digest.of r o ∧ reportJson s = reportJson r := by
  refine ⟨readReport?_eq single, fun s p single' same => ?_⟩
  have read : Digest.of s p = Digest.of r o := by
    rw [← Option.some_inj, ← readReport?_eq single', ← readReport?_eq single, same]
  exact ⟨read, by rw [reportJson_eq s, reportJson_eq r, read]⟩

/-- A report whose second file looks like a summary, and whose first message looks like the line of
another diagnostic. -/
def misleading : Report :=
  Report.ofDiagnostics
    [Diagnostic.malformed "a: b" (some 3) "x[y" "] \t  4: info[z] w",
      Diagnostic.unreadable "✅ Passed (0 documents checked: 0 errors, 0 warnings, 0 info)" ""] 1 1

theorem readReport?_reportText_misleading :
    (∀ d ∈ misleading.diagnostics, OnOneLine d) ∧
      readReport? (reportText false misleading .unreadable) = some
        { entries := [⟨"a: b", some 3, "x[y", .error, "] \t  4: info[z] w"⟩,
            ⟨"✅ Passed (0 documents checked: 0 errors, 0 warnings, 0 info)", none, "io-error", .error,
              ""⟩]
          outcome := .unreadable, documents := 1, errors := 2, warnings := 0, infos := 0 } := by
  have single : ∀ d ∈ misleading.diagnostics, OnOneLine d := by
    intro d hd
    rw [misleading, Report.ofDiagnostics, (Diagnostic.sort_perm _).mem_iff, List.mem_cons,
      List.mem_singleton] at hd
    rcases hd with rfl | rfl
    · exact ⟨by decide, by decide, by decide, by decide⟩
    · exact ⟨by decide +kernel, by decide, by decide, by decide⟩
  refine ⟨single, (readReport?_reportText misleading .unreadable single).1.trans ?_⟩
  decide +kernel

end ScriptAudit.Render
