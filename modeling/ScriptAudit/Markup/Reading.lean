import ScriptAudit.Markup.Fault
import ScriptAudit.Markup.Field
import ScriptAudit.Markup.Outline

/-!
# Reading documents

`Document.read` turns a text into a document or into the list of everything that is wrong with its
structure. Nothing stops at the first fault: each kind of fault is found by a function of its own
over the outline, and a document results exactly when all of them find nothing.
-/

namespace ScriptAudit

namespace Markup

/-- A fault and its line, if it has one. -/
abbrev Located := Option Nat × Fault

/-- The numbered lines of a text; a byte order mark at the start does not count. -/
def textLines (source : String) : List (Nat × List Char) :=
  let text := source.toList
  Text.numbered (Text.lines ((Text.after? ['\uFEFF'] text).getD text))

def placeholderFaults (lines : List (Nat × List Char)) : List Located :=
  lines.flatMap fun l => (placeholders l.2).filterMap fun
    | .error f => some (some l.1, .placeholder f)
    | .ok _ => none

def readPlaceholders (lines : List (Nat × List Char)) : List Placeholder :=
  lines.flatMap fun l => (placeholders l.2).filterMap fun
    | .ok (path, description) =>
      some { path := String.ofList path, description := String.ofList description, line := l.1 }
    | .error _ => none

def fenceFaults (lines : List (Nat × List Char)) : List Located :=
  (openFence? lines).toList.map fun n => (some n, .openFence)

namespace Outline

variable (o : Outline)

/-- The first line before the test case that is not blank. -/
def preambleFaults : List Located :=
  (o.before.find? (!·.isBlank)).toList.map fun l => (some l.number, .contentBeforeTestCase)

def repeatFaults : List Located :=
  o.repeated.map fun n => (some n, .repeatedTestCase)

/-- The first plain line between the test case and its first section that is not blank. -/
def strayFaults : List Located :=
  (o.lead.find? fun l => !Text.allBlank l.2).toList.map fun l => (some l.1, .strayContent)

/-- Judges headings in order, given the sections opened before, in any order. -/
def orderFaultsAfter : List Section → List Block → List Located
  | _, [] => []
  | opened, b :: rest =>
    (if b.ofSection ∈ opened then [(some b.line, .repeatedSection b.ofSection)]
    else if opened.any fun s => b.ofSection.rank < s.rank then
      [(some b.line, .sectionOutOfOrder b.ofSection)]
    else []) ++ orderFaultsAfter (b.ofSection :: opened) rest

def orderFaults : List Located :=
  orderFaultsAfter [] o.blocks

/-- The nearest section before `s` that was opened, and where it ends. -/
def previous? (s : Section) : Option (Section × Nat) :=
  (Section.all.take s.rank).reverse.findSome? fun p => (o.endLine? p).map fun line => (p, line)

def missingFault (s : Section) : Located :=
  match o.previous? s with
  | some (p, line) => (some line, .missingSection s (some p) line)
  | none => (some o.line, .missingSection s none o.line)

def missingFaults : List Located :=
  (Section.all.filter fun s => s.isRequired && (o.headingLine? s).isNone).map o.missingFault

def urlFaults : List Located :=
  match o.written .startingUrl with
  | _ :: second :: _ => [(some second.1, .severalUrls)]
  | _ => []

def stepFaults : List Located :=
  ((readSteps (o.written .testSteps)).1.head?).toList.map fun l => (some l.1, .textBeforeSteps)

def testCase (markers : Markers) (screenshots : List Placeholder) : TestCase :=
  let (id, name) := splitTitle o.title
  { id := String.ofList id
    name := String.ofList name
    line := o.line
    prerequisites := (o.written .prerequisites).map readPrerequisite
    setupScript := (o.headingLine? .setupScripts).bind fun n =>
      readScript? n (o.content .setupScripts)
    startingUrl := (o.written .startingUrl).head?.map readUrl
    steps := (readSteps (o.written .testSteps)).2
    expectedUiState := (o.written .expectedUiState).map (readUiEntry markers)
    expectedResult :=
      readResult ((o.headingLine? .expectedResult).getD o.line) (o.written .expectedResult)
    screenshots }

end Outline

/-- Everything wrong with lines that hold a test case. An open fence may hide sections, so it keeps
missing ones from being reported. -/
def structureFaults (lines : List (Nat × List Char)) (o : Outline) : List Located :=
  placeholderFaults lines ++ fenceFaults lines ++ o.preambleFaults ++ o.repeatFaults ++
    o.strayFaults ++ o.orderFaults ++
    (if (openFence? lines).isSome then [] else o.missingFaults) ++ o.urlFaults ++ o.stepFaults

def modeFaults (path : Path) : List Located :=
  if (path.fileName?.bind Mode.ofFileName?).isNone then [(none, .noModeInFileName)] else []

/-- Everything wrong with a document; without a test case nothing else is worth saying than that
and what is wrong with the file name. -/
def faults (path : Path) (source : String) : List Located :=
  let lines := textLines source
  modeFaults path ++
    match Outline.ofLines? (Line.scan false lines) with
    | none => [(none, .noTestCase)]
    | some o => structureFaults lines o

end Markup

namespace Document

open Markup

/-- Reads a document of `feature`, or lists its faults in report order. -/
def read (path : Path) (feature : String) (markers : Markers) (source : String) :
    Except (List Diagnostic) Document :=
  let lines := textLines source
  match faults path source, path.fileName?.bind Mode.ofFileName?,
      Outline.ofLines? (Line.scan false lines) with
  | [], some mode, some o =>
    .ok { path, feature, mode, cases := [o.testCase markers (readPlaceholders lines)], source }
  | found, _, _ =>
    .error (Diagnostic.sort (found.map fun (line, f) => f.diagnostic path.display line))

end Document

end ScriptAudit
