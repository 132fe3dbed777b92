import ScriptAudit.Document
import ScriptAudit.Markup.Heading
import ScriptAudit.Markup.Placeholder

/-!
# Drafts

A draft is what a test case says, without any line numbers. It is written in the plainest way: the
title in the first line, then the sections in canonical order, each with one line for an entry.
`Draft.testCase` is the test case that the text stands for.
-/

namespace ScriptAudit

namespace Markup

def bullet (text : List Char) : List Char :=
  '-' :: ' ' :: text

def stepLine (number : Nat) (text : String) : List Char :=
  (toString number).toList ++ '.' :: ' ' :: text.toList

def headingLine (s : Section) : List Char :=
  "## ".toList ++ s.label.toList

/-- The lines below the heading of each section; sections without such a list are left out. -/
structure Layout where
  content? : Section → Option (List (List Char))

namespace Layout

variable (y : Layout)

/-- A section as it is written, its heading first. -/
def part (s : Section) : List (List Char) :=
  match y.content? s with
  | some content => headingLine s :: content
  | none => []

def lines : List (List Char) :=
  Section.all.flatMap y.part

/-- The line at which a section starts when the first one starts at line 2. -/
def start (s : Section) : Nat :=
  2 + ((Section.all.take s.rank).flatMap y.part).length

end Layout

end Markup

open Markup

/-- The glyph of a marker when none are configured. -/
def Marker.glyph : Marker → Char
  | present => '✅'
  | absent => '❌'

/-- An element of the page and whether it is to be there. -/
structure Expectation where
  marker : Marker
  element : String
  description : String
deriving DecidableEq, Repr

/-- A captured screenshot. -/
structure Capture where
  path : String
  description : String
deriving DecidableEq, Repr

structure Draft where
  id : String
  name : String
  prerequisites : List String
  startingUrl : Option String
  steps : List String
  expectedUiState : List Expectation
  expectedResult : String
  screenshots : Option (List Capture)
deriving DecidableEq, Repr

def Expectation.text (e : Expectation) : List Char :=
  '*' :: '*' :: (e.element.toList ++ '*' :: '*' :: ':' :: ' ' :: e.description.toList)

def Expectation.line (e : Expectation) : List Char :=
  bullet (e.marker.glyph :: ' ' :: e.text)

def Capture.line (c : Capture) : List Char :=
  bullet (placeholderOpening ++ (c.path.toList ++ '|' :: c.description.toList ++ ['>']))

namespace Draft

variable (d : Draft)

/-- What follows the label in the title line. -/
def title : List Char :=
  ' ' :: (d.id.toList ++ ' ' :: '-' :: ' ' :: d.name.toList)

def titleLine : List Char :=
  '#' :: ' ' :: (testCaseLabel ++ d.title)

def layout : Layout where
  content?
    | .prerequisites => some (d.prerequisites.map fun p => bullet p.toList)
    | .setupScripts => none
    | .startingUrl => d.startingUrl.map fun u => [u.toList]
    | .testSteps => some (d.steps.mapIdx fun i s => stepLine (i + 1) s)
    | .expectedUiState => some (d.expectedUiState.map (·.line))
    | .expectedResult => some [d.expectedResult.toList]
    | .screenshots => d.screenshots.map fun captures => captures.map (·.line)

def lines : List (List Char) :=
  d.titleLine :: d.layout.lines

def render : String :=
  String.ofList (Text.unlines d.lines)

/-- The line of an entry of a section, counted from 0. -/
def lineOf (s : Section) (i : Nat) : Nat :=
  d.layout.start s + 1 + i

def testCase : TestCase where
  id := d.id
  name := d.name
  line := 1
  prerequisites := d.prerequisites.mapIdx fun i p =>
    { text := p, line := d.lineOf .prerequisites i }
  setupScript := none
  startingUrl := d.startingUrl.map fun u => { text := u, line := d.lineOf .startingUrl 0 }
  steps := d.steps.mapIdx fun i s =>
    { number := i + 1, text := s, line := d.lineOf .testSteps i }
  expectedUiState := d.expectedUiState.mapIdx fun i e =>
    { marker := some e.marker, element := e.element, description := e.description
      line := d.lineOf .expectedUiState i }
  expectedResult := { text := d.expectedResult, line := d.layout.start .expectedResult }
  screenshots := (d.screenshots.getD []).mapIdx fun i c =>
    { path := c.path, description := c.description, line := d.lineOf .screenshots i }

end Draft

end ScriptAudit
