import ScriptAudit.Text.Blank
import ScriptAudit.Text.Cut

/-!
# Screenshot placeholders

A placeholder is written `<screenshot:path|description>` and may stand anywhere in a line. A line
is read in segments: each begins at the next opening and ends at the next `>` or, if there is none,
at the end of the line.
-/

namespace ScriptAudit.Markup

/-- What is wrong with a placeholder. -/
inductive PlaceholderFault where
  | unclosed
  | nested
  | noSeparator (inner : List Char)
  | emptyPath
deriving DecidableEq, Repr

def placeholderOpening : List Char := "<screenshot:".toList

/-- Reads the text between the opening and `>`: the path, then the description. -/
def readPlaceholder (inner : List Char) : Except PlaceholderFault (List Char × List Char) :=
  if inner.contains '<' then .error .nested
  else
    match Text.cutAt? (· == '|') inner with
    | none => .error (.noSeparator inner)
    | some (path, description) =>
      if Text.allBlank path then .error .emptyPath
      else .ok (Text.trim path, Text.trim description)

/-- Every segment of a line, in order. -/
def placeholders (line : List Char) : List (Except PlaceholderFault (List Char × List Char)) :=
  match _found : Text.cut? placeholderOpening line with
  | none => []
  | some (_, inside) =>
    match _closed : Text.cutAt? (· == '>') inside with
    | none => [.error .unclosed]
    | some (inner, rest) => readPlaceholder inner :: placeholders rest
termination_by line.length
decreasing_by
  have outer := Text.eq_append_of_cut? _found
  obtain ⟨c, _, inner⟩ := Text.eq_append_of_cutAt? _closed
  subst outer inner
  simp
  omega

end ScriptAudit.Markup
