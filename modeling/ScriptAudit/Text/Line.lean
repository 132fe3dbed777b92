/-!
# Lines

A line ends at a line feed, together with a carriage return right before it. A text that ends in a
line feed has no further empty line, and a carriage return at the very end of the text, with no
line feed after it, belongs to its line.
-/

namespace ScriptAudit.Text

/-- Drops the carriage return that belongs to the line's end. -/
def dropReturn (s : List Char) : List Char :=
  match s.getLast? with
  | some '\r' => s.dropLast
  | _ => s

def lines (s : List Char) : List (List Char) :=
  let pieces := s.splitOn '\n'
  pieces.dropLast.map dropReturn ++ (pieces.getLast?.filter (!·.isEmpty)).toList

/-- Ends every line with a line feed. -/
def unlines (ls : List (List Char)) : List Char :=
  ls.flatMap (· ++ ['\n'])

/-- A list with positions counted from 1. -/
def numbered {α : Type _} (xs : List α) : List (Nat × α) :=
  xs.mapIdx fun i x => (i + 1, x)

end ScriptAudit.Text
