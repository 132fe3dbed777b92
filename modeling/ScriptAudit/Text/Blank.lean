/-!
# Blank characters and trimming

Blank means the Unicode property White_Space. Text is handled as a list of characters; trimming
removes a run from an end and never looks past the first character outside the class.
-/

namespace ScriptAudit.Text

/-- The characters with the property White_Space. -/
def isBlank (c : Char) : Bool :=
  let n := c.toNat
  (9 ≤ n && n ≤ 13) || n == 0x20 || n == 0x85 || n == 0xA0 || n == 0x1680 ||
    (0x2000 ≤ n && n ≤ 0x200A) || n == 0x2028 || n == 0x2029 || n == 0x202F || n == 0x205F ||
    n == 0x3000

def allBlank (s : List Char) : Bool :=
  s.all isBlank

def dropEndWhile {α : Type _} (p : α → Bool) (s : List α) : List α :=
  (s.reverse.dropWhile p).reverse

/-- Removes the characters of a class from both ends. -/
def strip (p : Char → Bool) (s : List Char) : List Char :=
  dropEndWhile p (s.dropWhile p)

def trimStart (s : List Char) : List Char :=
  s.dropWhile isBlank

def trimEnd (s : List Char) : List Char :=
  dropEndWhile isBlank s

def trim (s : List Char) : List Char :=
  strip isBlank s

/-- The maximal runs of characters outside the class, in order. -/
def runs (separator : Char → Bool) (s : List Char) : List (List Char) :=
  (s.splitOnP separator).filter (!·.isEmpty)

def words (s : List Char) : List (List Char) :=
  runs isBlank s

end ScriptAudit.Text
