import ScriptAudit.Markup.Heading

/-!
# Outlines

A document falls into what stands before the first test case heading, and behind it the lines up to
the first section heading and one block per section heading. Further test case headings are noted
and otherwise skipped.
-/

namespace ScriptAudit.Markup

/-- A section heading and the plain lines below it, up to the next section heading. -/
structure Block where
  ofSection : Section
  line : Nat
  content : List (Nat × List Char)
deriving DecidableEq, Repr

/-- Splits lines at section headings: the plain lines before the first one, then the blocks. -/
def blocks : List Line → List (Nat × List Char) × List Block
  | [] => ([], [])
  | l :: rest =>
    let (content, below) := blocks rest
    match l.heading with
    | none => ((l.number, l.text) :: content, below)
    | some (.testCase _) => (content, below)
    | some (.ofSection s) => ([], ⟨s, l.number, content⟩ :: below)

/-- A document that has a test case heading. -/
structure Outline where
  /-- The lines before the heading. -/
  before : List Line
  title : List Char
  line : Nat
  /-- The lines of later test case headings. -/
  repeated : List Nat
  /-- The plain lines between the heading and the first section. -/
  lead : List (Nat × List Char)
  blocks : List Block
deriving DecidableEq, Repr

namespace Outline

def ofLines? (lines : List Line) : Option Outline :=
  let after := lines.dropWhile (!·.isTestCase)
  match after with
  | ⟨n, _, some (.testCase title)⟩ :: rest =>
    let (lead, blocks) := Markup.blocks rest
    some { before := lines.takeWhile (!·.isTestCase), title, line := n,
           repeated := (rest.filter (·.isTestCase)).map (·.number), lead, blocks }
  | _ => none

variable (o : Outline)

def blocksOf (s : Section) : List Block :=
  o.blocks.filter (·.ofSection = s)

/-- The line of the first heading of a section. -/
def headingLine? (s : Section) : Option Nat :=
  (o.blocksOf s).head?.map (·.line)

/-- All plain lines of a section, over its headings. -/
def content (s : Section) : List (Nat × List Char) :=
  (o.blocksOf s).flatMap (·.content)

/-- The lines of a section that are not blank. -/
def written (s : Section) : List (Nat × List Char) :=
  (o.content s).filter fun l => !Text.allBlank l.2

/-- Where a section ends: its last written line, or its heading. -/
def endLine? (s : Section) : Option Nat :=
  (o.headingLine? s).map fun heading => ((o.written s).getLast?.map (·.1)).getD heading

end Outline

end ScriptAudit.Markup
