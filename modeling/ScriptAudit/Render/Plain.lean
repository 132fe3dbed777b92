import ScriptAudit.Report

/-!
# Text output

A report for readers: per file its name and one line for each diagnostic, then a line with the
outcome and the counts. Colours are optional and change nothing but the escape sequences around
the coloured words.
-/

namespace ScriptAudit.Render

inductive Style where
  | bold
  | dimmed
  | blue
  | redBold
  | yellowBold
  | greenBold
deriving DecidableEq, Repr

def Style.start : Style → String
  | bold => "\x1b[1m"
  | dimmed => "\x1b[2m"
  | blue => "\x1b[34m"
  | redBold => "\x1b[1;31m"
  | yellowBold => "\x1b[1;33m"
  | greenBold => "\x1b[1;32m"

/-- Ends every style. -/
def reset : String := "\x1b[0m"

/-- Starts the style again behind each reset that the text holds itself; `skip` characters of a
reset found are still to be copied. -/
def restyle (start : List Char) : Nat → List Char → List Char
  | _, [] => []
  | 0, c :: rest =>
    if reset.toList.isPrefixOf (c :: rest) then c :: restyle start (reset.length - 1) rest
    else c :: restyle start 0 rest
  | 1, c :: rest => c :: start ++ restyle start 0 rest
  | skip + 2, c :: rest => c :: restyle start (skip + 1) rest

def paint (colour : Bool) (style : Style) (s : String) : String :=
  if colour then
    style.start ++ String.ofList (restyle style.start.toList 0 s.toList) ++ reset
  else s

def severityStyle : Severity → Style
  | .error => .redBold
  | .warning => .yellowBold
  | .info => .blue

def diagnosticLine (colour : Bool) (d : Diagnostic) : String :=
  "  " ++ (d.line.map toString).getD "-" ++ ": " ++
    paint colour (severityStyle d.severity) d.severity.label ++ "[" ++
    paint colour .dimmed d.ruleId ++ "] " ++ d.message ++ "\n"

def plural (count : Nat) (word : String) : String :=
  toString count ++ " " ++ word ++ if count = 1 then "" else "s"

def fileGroup (colour : Bool) (group : String × List Diagnostic) : String :=
  paint colour .bold group.1 ++ "\n" ++ String.join (group.2.map (diagnosticLine colour)) ++ "\n"

def outcomeLabel (colour : Bool) : Outcome → String
  | .passed => "✅ " ++ paint colour .greenBold "Passed"
  | .failed => "❌ " ++ paint colour .redBold "Failed"
  | .unreadable => "❌ " ++ paint colour .redBold "Unreadable input"

def summaryLine (colour : Bool) (r : Report) (o : Outcome) : String :=
  let s := r.summary
  outcomeLabel colour o ++ " (" ++ plural r.documents "document" ++ " checked: " ++
    plural s.errors "error" ++ ", " ++ plural s.warnings "warning" ++ ", " ++ toString s.infos ++
    " info)\n"

def reportText (colour : Bool) (r : Report) (o : Outcome) : String :=
  String.join (r.byFile.map (fileGroup colour)) ++ summaryLine colour r o

end ScriptAudit.Render
