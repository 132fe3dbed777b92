import ScriptAudit.Config
import ScriptAudit.Document
import ScriptAudit.Screenshot

/-!
# Fields of a test case

How the lines under a section heading are read. The lines given here are not blank, except those
of a setup script.
-/

namespace ScriptAudit.Markup

/-- Digits with a dot or a closing parenthesis behind them: the digits and what follows. -/
def numberMark? (s : List Char) : Option (List Char × List Char) :=
  match s.dropWhile Text.isDigit with
  | c :: rest =>
    let digits := s.takeWhile Text.isDigit
    if !digits.isEmpty && (c == '.' || c == ')') then some (digits, rest) else none
  | [] => none

/-- What stands behind a bullet or number at the start. -/
def afterBullet? (s : List Char) : Option (List Char) :=
  match s with
  | '-' :: rest | '*' :: rest | '+' :: rest => some rest
  | _ => (numberMark? s).map (·.2)

/-- The trimmed line without one list marker, which a blank has to follow. -/
def stripListMarker (line : List Char) : List Char :=
  let s := Text.trim line
  match afterBullet? s with
  | some (c :: rest) => if Text.isBlank c then Text.trim rest else s
  | _ => s

/-! ## The heading -/

/-- Characters that may separate the id from the name. -/
def isNameDash (c : Char) : Bool :=
  c == '-' || c == '–' || c == '—' || c == ':'

/-- The id is the first word, without colons behind it; the name is the rest. -/
def splitTitle (title : List Char) : List Char × List Char :=
  let s := Text.trim title
  let (id, name) := (Text.cutAt? Text.isBlank s).getD (s, [])
  (Text.dropEndWhile (· == ':') id, Text.trim ((Text.trimStart name).dropWhile isNameDash))

/-! ## Steps -/

/-- A line that starts a step: the digits written and the text behind them. -/
def stepHead? (s : List Char) : Option (List Char × List Char) :=
  match numberMark? s with
  | some (digits, []) => some (digits, [])
  | some (digits, c :: rest) => if Text.isBlank c then some (digits, Text.trim rest) else none
  | none => none

/-- Step numbers that do not fit count as 0. -/
def stepNumber (digits : List Char) : Nat :=
  (Text.decimalBelow? stepBound digits).getD 0

/-- Pieces that are not empty, one space between them. -/
def joinPieces (pieces : List (List Char)) : List Char :=
  [' '].intercalate (pieces.filter (!·.isEmpty))

/-- The lines before the first step, and the steps; a line that starts no step continues the one
above it. -/
def readSteps : List (Nat × List Char) → List (Nat × List Char) × List Step
  | [] => ([], [])
  | l :: rest =>
    let (further, steps) := readSteps rest
    match stepHead? (Text.trim l.2) with
    | none => (l :: further, steps)
    | some (digits, text) =>
      let pieces := text :: further.map fun f => stripListMarker f.2
      ([], { number := stepNumber digits, text := String.ofList (joinPieces pieces),
             line := l.1 } :: steps)

/-! ## Expected UI state -/

/-- The rest of the line behind the first glyph of the list that it starts with. -/
def afterGlyph? (glyphs : List String) (s : List Char) : Option (List Char) :=
  glyphs.findSome? fun g => Text.after? g.toList s

/-- Present glyphs are tried before absent ones. -/
def readMarker (markers : Markers) (s : List Char) : Option Marker × List Char :=
  match afterGlyph? markers.present s with
  | some rest => (some .present, rest)
  | none =>
    match afterGlyph? markers.absent s with
    | some rest => (some .absent, rest)
    | none => (none, s)

/-- Text set in bold at the start, at least one character of it, and what follows. -/
def bold? (s : List Char) : Option (List Char × List Char) :=
  match Text.after? ['*', '*'] s with
  | some (c :: rest) => (Text.cut? ['*', '*'] rest).map fun (a, b) => (c :: a, b)
  | _ => none

/-- Blanks, at most one colon, blanks. -/
def skipColon (s : List Char) : List Char :=
  match Text.trimStart s with
  | ':' :: rest => Text.trimStart rest
  | rest => rest

/-- The element and its description: the bold text and what follows it, or else what stands before
and after the first colon, or else the whole. -/
def splitElement (s : List Char) : List Char × List Char :=
  match bold? s with
  | some (element, rest) => (Text.trim element, Text.trim (skipColon rest))
  | none =>
    match Text.cutAt? (· == ':') s with
    | some (element, description) => (Text.trim element, Text.trim description)
    | none => (s, [])

def readUiEntry (markers : Markers) (line : Nat × List Char) : UiEntry :=
  let (marker, rest) := readMarker markers (stripListMarker line.2)
  let (element, description) := splitElement (Text.trim rest)
  { marker, element := String.ofList element, description := String.ofList description,
    line := line.1 }

/-! ## Other sections -/

def readPrerequisite (line : Nat × List Char) : Passage :=
  { text := String.ofList (stripListMarker line.2), line := line.1 }

/-- A script is the whole content, trimmed at its ends only, and is placed at its heading. -/
def readScript? (headingLine : Nat) (content : List (Nat × List Char)) : Option Passage :=
  let text := Text.trim (['\n'].intercalate (content.map (·.2)))
  if text.isEmpty then none else some { text := String.ofList text, line := headingLine }

/-- Backquotes and angle brackets around a URL do not belong to it. -/
def isUrlQuote (c : Char) : Bool :=
  c == '\x60' || c == '<' || c == '>'

def readUrl (line : Nat × List Char) : Passage :=
  { text := String.ofList (Text.trim (Text.strip isUrlQuote (stripListMarker line.2))),
    line := line.1 }

def readResult (headingLine : Nat) (lines : List (Nat × List Char)) : Passage :=
  { text := String.ofList ([' '].intercalate (lines.map fun l => Text.trim l.2)),
    line := headingLine }

end ScriptAudit.Markup
