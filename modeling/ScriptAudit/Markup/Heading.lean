import ScriptAudit.Section
import ScriptAudit.Text.Blank
import ScriptAudit.Text.Cut

/-!
# Lines with their headings

Code fences hide headings: a line that starts with three backticks opens a fence or closes the open
one, and only lines outside a fence, fence lines excluded, can be headings. A heading is one of
this format's own, a test case or a section; any other `#` line is plain text.
-/

namespace ScriptAudit.Markup

/-- The headings that structure a document. -/
inductive Heading where
  /-- Starts the test case; holds what is written after the label. -/
  | testCase (title : List Char)
  | ofSection (s : Section)
deriving DecidableEq, Repr

def testCaseLabel : List Char := "Test Case:".toList

/-- A fence line opens or closes a block of code. -/
def isFence (line : List Char) : Bool :=
  (Text.after? "```".toList (Text.trimStart line)).isSome

/-- The text of a `#` line without its hashes, which a blank has to follow. -/
def hashText? (line : List Char) : Option (List Char) :=
  match Text.trimStart line with
  | '#' :: rest =>
    match rest.dropWhile (· == '#') with
    | c :: text => if Text.isBlank c then some (Text.trim text) else none
    | [] => none
  | _ => none

/-- Colons and blanks at the end of a section label do not count. -/
def sectionLabel (text : List Char) : String :=
  String.ofList (Text.trimEnd (Text.dropEndWhile (· == ':') text))

def Heading.ofText? (text : List Char) : Option Heading :=
  match Text.after? testCaseLabel text with
  | some title => some (.testCase title)
  | none => (Section.ofLabel? (sectionLabel text)).map .ofSection

/-- What a line would be outside a fence. -/
def Heading.ofLine? (line : List Char) : Option Heading :=
  (hashText? line).bind Heading.ofText?

/-- A line of a document with its number and the heading it is, if any. -/
structure Line where
  number : Nat
  text : List Char
  heading : Option Heading
deriving DecidableEq, Repr

namespace Line

/-- Reads headings off numbered lines; `fenced` says whether a fence is open before the first. -/
def scan : Bool → List (Nat × List Char) → List Line
  | _, [] => []
  | fenced, (n, s) :: rest =>
    if isFence s then ⟨n, s, none⟩ :: scan (!fenced) rest
    else ⟨n, s, if fenced then none else Heading.ofLine? s⟩ :: scan fenced rest

def isBlank (l : Line) : Bool :=
  Text.allBlank l.text

def isTestCase (l : Line) : Bool :=
  match l.heading with
  | some (.testCase _) => true
  | _ => false

end Line

/-- The line of the fence that is open at the end, if one is. -/
def openFence? (lines : List (Nat × List Char)) : Option Nat :=
  let fences := lines.filter fun l => isFence l.2
  if fences.length % 2 = 1 then fences.getLast?.map (·.1) else none

end ScriptAudit.Markup
