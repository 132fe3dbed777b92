import ScriptAudit.Text.Cut

/-!
# Modes

A document runs either against simulated services or against the full system, and its file name
says which.
-/

namespace ScriptAudit

inductive Mode where
  | mock
  | full
deriving DecidableEq, Repr, Inhabited

namespace Mode

def label : Mode → String
  | mock => "mock"
  | full => "full"

def opposite : Mode → Mode
  | mock => full
  | full => mock

/-- The last part of a file name that declares the mode. -/
def fileEnding : Mode → String
  | mock => ".mock.md"
  | full => ".full.md"

def all : List Mode := [mock, full]

def ofFileName? (name : String) : Option Mode :=
  all.find? fun m => Text.endsWith m.fileEnding.toList name.toList

def ofLabel? (s : String) : Option Mode :=
  all.find? (·.label = s)

theorem eq_opposite_of_ne {m n : Mode} (h : m ≠ n) : m = n.opposite := by
  cases m <;> cases n <;> first | rfl | exact absurd rfl h

end Mode

end ScriptAudit
