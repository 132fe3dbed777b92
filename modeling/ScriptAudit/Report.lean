import ScriptAudit.Diagnostic

/-!
# Reports

The result of a run: its diagnostics in report order and the numbers of documents and features
seen. The diagnostics fall into one group per file, and together with the failure policy they
decide the outcome. Anything unreadable outweighs errors, and errors outweigh warnings.
-/

namespace ScriptAudit

/-- How often each severity occurs, and how many diagnostics are about something unreadable. -/
structure Summary where
  errors : Nat
  warnings : Nat
  infos : Nat
  unreadable : Nat
deriving DecidableEq, Repr

inductive Outcome where
  | passed
  | failed
  | unreadable
deriving DecidableEq, Repr

def Outcome.exitCode : Outcome → Nat
  | passed => 0
  | failed => 1
  | unreadable => 2

structure Report where
  diagnostics : List Diagnostic
  documents : Nat
  features : Nat
  sorted : diagnostics.Pairwise (Diagnostic.le · ·)

namespace Report

theorem eq_of {r s : Report} (diagnostics : r.diagnostics = s.diagnostics)
    (documents : r.documents = s.documents) (features : r.features = s.features) : r = s := by
  cases r
  cases s
  cases diagnostics
  cases documents
  cases features
  rfl

def ofDiagnostics (ds : List Diagnostic) (documents features : Nat) : Report where
  diagnostics := Diagnostic.sort ds
  documents
  features
  sorted := Diagnostic.pairwise_sort ds

def summarize (ds : List Diagnostic) : Summary where
  errors := ds.countP (·.severity = .error)
  warnings := ds.countP (·.severity = .warning)
  infos := ds.countP (·.severity = .info)
  unreadable := ds.countP (·.kind = .ioError)

def summary (r : Report) : Summary :=
  summarize r.diagnostics

/-- How a run ends when warnings count as failures or do not. -/
def outcome (r : Report) (failOnWarnings : Bool) : Outcome :=
  let s := r.summary
  if 0 < s.unreadable then .unreadable
  else if 0 < s.errors || (failOnWarnings && 0 < s.warnings) then .failed
  else .passed

/-- Runs of neighbours with one file. -/
def groups : List Diagnostic → List (String × List Diagnostic)
  | [] => []
  | d :: rest =>
    match groups rest with
    | [] => [(d.file, [d])]
    | (file, ds) :: more =>
      if file = d.file then (file, d :: ds) :: more else (d.file, [d]) :: (file, ds) :: more

def byFile (r : Report) : List (String × List Diagnostic) :=
  groups r.diagnostics

end Report

end ScriptAudit
