import ScriptAudit.Rule

/-!
# Rule tables

The rule set as a boxed table. Every column is as wide as its widest cell, with a blank on either
side; a double line stands below the header and a dashed one between rows.
-/

namespace ScriptAudit.Render

/-- The characters of a horizontal line: its left end, fill, crossing and right end. -/
structure Ruling where
  left : Char
  fill : Char
  crossing : Char
  right : Char

def topRuling : Ruling := ⟨'┌', '─', '┬', '┐'⟩
def headerRuling : Ruling := ⟨'╞', '═', '╪', '╡'⟩
def rowRuling : Ruling := ⟨'├', '╌', '┼', '┤'⟩
def bottomRuling : Ruling := ⟨'└', '─', '┴', '┘'⟩

def ruling (r : Ruling) (widths : List Nat) : String :=
  String.ofList (r.left ::
    [r.crossing].intercalate (widths.map fun w => List.replicate (w + 2) r.fill) ++ [r.right, '\n'])

def cell (width : Nat) (s : String) : List Char :=
  ' ' :: s.toList ++ List.replicate (width - s.length) ' ' ++ [' ']

def row (widths : List Nat) (cells : List String) : String :=
  String.ofList ('│' :: ['┆'].intercalate (List.zipWith cell widths cells) ++ ['│', '\n'])

/-- The widest cell of each column. -/
def columnWidths (header : List String) (rows : List (List String)) : List Nat :=
  rows.foldl (fun widths cells => List.zipWith (fun w s => max w s.length) widths cells)
    (header.map String.length)

def table (header : List String) (rows : List (List String)) : String :=
  let widths := columnWidths header rows
  ruling topRuling widths ++ row widths header ++ ruling headerRuling widths ++
    (ruling rowRuling widths).intercalate (rows.map (row widths)) ++ ruling bottomRuling widths

def rulesTable (rs : RuleSet) : String :=
  table ["Rule", "Severity", "Checks"]
    (rs.rules.map fun r => [r.id, r.severity.label, r.summary])

end ScriptAudit.Render
