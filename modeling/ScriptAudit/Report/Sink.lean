import ScriptAudit.Report

/-!
# Collecting diagnostics

A sink takes diagnostics in the order in which they arrive and gives them all up at once. Whoever
holds the sink sees the same contents.
-/

namespace ScriptAudit

structure Sink where
  collected : List Diagnostic := []
deriving Repr, Inhabited

namespace Sink

def size (s : Sink) : Nat :=
  s.collected.length

def isEmpty (s : Sink) : Bool :=
  s.collected.isEmpty

def extend (s : Sink) (ds : List Diagnostic) : Sink :=
  ⟨s.collected ++ ds⟩

def push (s : Sink) (d : Diagnostic) : Sink :=
  s.extend [d]

/-- Everything collected so far, and the sink without it. -/
def drain (s : Sink) : List Diagnostic × Sink :=
  (s.collected, ⟨[]⟩)

end Sink

end ScriptAudit
