import ScriptAudit.Consistency
import ScriptAudit.Markup.Reading
import ScriptAudit.Report.Sink
import ScriptAudit.Rule
import ScriptAudit.Scan
import ScriptAudit.Schedule

/-!
# Runs

A run scans its roots, checks each document found once, then each feature, and reports everything.
Documents and features are told apart by the place that their path resolves to, so overlapping
roots and different spellings add nothing; the spelling seen first is the one reported.

Documents may be checked at the same time and finish in any order that a schedule allows, and they
are collected in any order once all have finished. Both orders are arguments of `report`; `Tree.run`
takes the order of the queue. A run has no report when more documents may be checked at once than
there can be permits, or when a document waits and no permit is ever given.
-/

namespace ScriptAudit

/-! ## Checking one document -/

/-- What checking a document came to. -/
structure Checked where
  path : Path
  /-- The document, when it could be read. -/
  document : Option Document
  diagnostics : List Diagnostic
deriving Repr, Inhabited

/-- Reads a document and evaluates the rules on it; `none` when a rule crashes. -/
def checkDocument (t : Tree) (config : Config) (rules : RuleSet) (p : Path) : Option Checked :=
  match t.readText p with
  | .error e =>
    some ⟨p, none, [.unreadable p.display ("cannot read document: " ++ e.message)]⟩
  | .ok source =>
    match Document.read p (t.featureOf p) config.markers source with
    | .error ds => some ⟨p, none, ds⟩
    | .ok d => (rules.evaluate config d).map fun ds => ⟨p, some d, ds⟩

/-- Stands for a document on which a rule crashed. -/
def Checked.crashed (p : Path) : Checked where
  path := p
  document := none
  diagnostics := [{ file := p.display, line := none, ruleId := "internal-error", severity := .error,
                    message := "internal error while checking document", kind := .ioError }]

namespace Run

def check (t : Tree) (config : Config) (rules : RuleSet) (p : Path) : Checked :=
  (checkDocument t config rules p).getD (.crashed p)

/-! ## Gathering the roots -/

/-- What has been found under the roots scanned so far. Keys are resolved paths. -/
structure Gathered where
  roots : List Path := []
  problems : List Diagnostic := []
  documents : List (Path × Path) := []
  features : List (Path × Feature) := []
deriving Repr, Inhabited

/-- Looks a key up by the parts of its path. -/
def lookup {α : Type} (key : Path) (entries : List (Path × α)) : Option α :=
  (entries.find? fun e => e.1.parts = key.parts).map (·.2)

namespace Gathered

/-- One problem is reported once, however many roots meet it. -/
def addProblem (g : Gathered) (d : Diagnostic) : Gathered :=
  if g.problems.any fun p => p.file = d.file && p.message = d.message then g
  else { g with problems := g.problems ++ [d] }

def addDocument (t : Tree) (g : Gathered) (d : Descriptor) : Gathered :=
  let key := t.resolved d.path
  match lookup key g.documents with
  | some _ => g
  | none => { g with documents := g.documents ++ [(key, d.path)] }

/-- A feature met again brings the documents and screenshots that are new. -/
def mergeFeature (old new : Feature) : Feature :=
  { old with
    documents := new.documents.foldl (fun ps p =>
      if ps.any (·.parts = p.parts) then ps else ps ++ [p]) old.documents
    screenshots := Text.ascending (old.screenshots ++ new.screenshots) }

def addFeature (t : Tree) (g : Gathered) (f : Feature) : Gathered :=
  let key := t.resolved f.directory
  let f := { f with documents := f.documents.filterMap fun p => lookup (t.resolved p) g.documents }
  match lookup key g.features with
  | none => { g with features := g.features ++ [(key, f)] }
  | some _ => { g with features := g.features.map fun (k, old) =>
      if k.parts = key.parts then (k, mergeFeature old f) else (k, old) }

def addScan (t : Tree) (g : Gathered) (s : Scan) : Gathered :=
  let g := s.problems.foldl addProblem g
  let g := s.documents.foldl (addDocument t) g
  s.features.foldl (addFeature t) g

/-- A root that resolves to one already scanned is skipped. -/
def addRoot (t : Tree) (config : ScanConfig) (g : Gathered) (root : Path) : Gathered :=
  let key := t.resolved root
  if g.roots.any (·.parts = key.parts) then g
  else addScan t { g with roots := g.roots ++ [key] } (t.scan config root)

end Gathered

def gather (t : Tree) (config : ScanConfig) (roots : List Path) : Gathered :=
  roots.foldl (Gathered.addRoot t config) {}

/-- The documents to check, in path order. -/
def queue (g : Gathered) : List Path :=
  sortBy Path.le (g.documents.map (·.2))

/-! ## The report -/

/-- The documents of a feature that could be read, out of those collected. -/
def readOf (joined : List Checked) (f : Feature) : List Document :=
  f.documents.filterMap fun p =>
    (joined.find? fun c => c.path.parts = p.parts).bind (·.document)

/-- The report when the documents finish, and are collected, in the orders given. -/
def report (g : Gathered) (finished joined : List Checked) : Report :=
  let features := sortBy (fun a b => Path.le a.1 b.1) g.features
  let sink := Sink.extend {} g.problems
  let sink := finished.foldl (fun s c => s.extend c.diagnostics) sink
  let sink := features.foldl (fun s f => s.extend (f.2.check (readOf joined f.2))) sink
  .ofDiagnostics sink.drain.1 g.documents.length g.features.length

/-- The run may end with this report: the documents finish in an order that the permits allow, and
are collected in any order. -/
def MayReport (t : Tree) (config : Config) (rules : RuleSet) (roots : List Path) (permits : Nat)
    (r : Report) : Prop :=
  ∃ finished joined : List Path,
    Schedule.Completes permits (queue (gather t config.scan roots)) finished ∧
    joined.Perm finished ∧
    r = report (gather t config.scan roots) (finished.map (check t config rules))
      (joined.map (check t config rules))

/-- There can be no more permits than this. -/
def permitLimit : Nat := Nat.pow 2 61 - 1

/-- Why a run has no report. -/
inductive Failure where
  /-- There cannot be the permits that are asked for, and the run breaks off. -/
  | tooManyPermits
  /-- There are no permits, and the first document waits for one without end. -/
  | starved
deriving DecidableEq, Repr

/-- What keeps this number of documents from being checked, this many at once. -/
def failure? (jobs documents : Nat) : Option Failure :=
  if permitLimit < jobs then some .tooManyPermits
  else if jobs = 0 ∧ 0 < documents then some .starved
  else none

end Run

/-- Checks everything under the roots with the given rules. -/
def Tree.run (t : Tree) (config : Config) (rules : RuleSet) (roots : List Path) :
    Except Run.Failure Report :=
  let g := Run.gather t config.scan roots
  match Run.failure? (config.jobs.getD 1) g.documents.length with
  | some f => .error f
  | none =>
    let checked := (Run.queue g).map (Run.check t config rules)
    .ok (Run.report g checked checked)

theorem Run.mayReport_of_run {t : Tree} {config : Config} {rules : RuleSet} {roots : List Path}
    {permits : Nat} {r : Report} (positive : 0 < permits)
    (ended : t.run config rules roots = .ok r) : MayReport t config rules roots permits r := by
  rw [Tree.run] at ended
  split at ended
  · cases ended
  · cases ended
    exact ⟨_, _, Schedule.completes_self positive _, .refl _, rfl⟩

end ScriptAudit
