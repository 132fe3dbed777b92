import ScriptAudit.Mode
import ScriptAudit.Path
import ScriptAudit.Text.Line

/-!
# Test-script documents

What reading a document yields. Lines count from 1 and refer to the text of the document, which is
kept as the source.
-/

namespace ScriptAudit

/-- A piece of text and the line where it starts. -/
structure Passage where
  text : String
  line : Nat
deriving DecidableEq, Repr, Inhabited

/-- A numbered test step; the number is the one written. -/
structure Step where
  number : Nat
  text : String
  line : Nat
deriving DecidableEq, Repr, Inhabited

/-- Whether an element of the page is expected to be there. -/
inductive Marker where
  | present
  | absent
deriving DecidableEq, Repr, Inhabited

def Marker.label : Marker → String
  | present => "present"
  | absent => "absent"

/-- One line of the expected UI state, without a marker when it starts with no marker glyph. -/
structure UiEntry where
  marker : Option Marker
  element : String
  description : String
  line : Nat
deriving DecidableEq, Repr, Inhabited

/-- A reference to a captured screenshot. -/
structure Placeholder where
  path : String
  description : String
  line : Nat
deriving DecidableEq, Repr, Inhabited

structure TestCase where
  id : String
  name : String
  line : Nat
  prerequisites : List Passage
  setupScript : Option Passage
  startingUrl : Option Passage
  steps : List Step
  expectedUiState : List UiEntry
  expectedResult : Passage
  screenshots : List Placeholder
deriving DecidableEq, Repr, Inhabited

structure Document where
  path : Path
  feature : String
  mode : Mode
  cases : List TestCase
  source : String
deriving DecidableEq, Repr, Inhabited

namespace Document

def file (d : Document) : String :=
  d.path.display

/-- The lines of the source with their numbers. -/
def lines (d : Document) : List (Nat × List Char) :=
  Text.numbered (Text.lines d.source.toList)

def placeholders (d : Document) : List Placeholder :=
  d.cases.flatMap (·.screenshots)

end Document

end ScriptAudit
