import ScriptAudit.Config
import ScriptAudit.Diagnostic
import ScriptAudit.Document
import ScriptAudit.Text.Ascending

/-!
# Rules

A rule judges one document on its own. A rule set is a list of rules in evaluation order;
configuring it drops rules and changes severities, and evaluating it collects what all its rules
find, sorted. No rule can keep another from being evaluated, except that a check may crash, and
then the evaluation has no result.
-/

namespace ScriptAudit

/-- A violation found by a rule. -/
structure Finding where
  line : Option Nat
  message : String
deriving DecidableEq, Repr

def Finding.onLine (line : Nat) (message : String) : Finding :=
  { line := some line, message }

structure Rule where
  id : String
  severity : Severity
  summary : String
  /-- `none` when the check crashes. -/
  check : Config → Document → Option (List Finding)

namespace Rule

def diagnostic (r : Rule) (d : Document) (f : Finding) : Diagnostic :=
  { file := d.file, line := f.line, ruleId := r.id, severity := r.severity, message := f.message,
    kind := .schemaViolation }

/-- The diagnostics of one rule, in the order found. -/
def judge (r : Rule) (config : Config) (d : Document) : Option (List Diagnostic) :=
  (r.check config d).map (·.map (r.diagnostic d))

end Rule

structure RuleSet where
  rules : List Rule

namespace RuleSet

def get? (rs : RuleSet) (id : String) : Option Rule :=
  rs.rules.find? (·.id = id)

/-- The ids that a configuration names: those it disables, then in ascending order those that it
gives a severity. -/
def namedIds (c : RulesConfig) : List String :=
  c.disabled ++ Text.ascending (c.severity.map (·.1))

/-- Drops disabled rules and overrides severities; every id named has to be in the set. -/
def configure (rs : RuleSet) (c : RulesConfig) : Except ConfigFault RuleSet :=
  match (namedIds c).find? fun id => (rs.get? id).isNone with
  | some id => .error (.unknownRule id)
  | none =>
    .ok ⟨(rs.rules.filter fun r => !c.disabled.contains r.id).map fun r =>
      { r with severity := (c.severity.lookup r.id).getD r.severity }⟩

/-- How the findings in one document rank: line with a missing line first, then rule, then
message. -/
def findingOrder : Diagnostic → Diagnostic → Ordering :=
  compareLex (compareOn fun x => Diagnostic.lineRank x.line) <|
    compareLex (compareOn Diagnostic.ruleId) (compareOn Diagnostic.message)

/-- What all rules find in a document, sorted by `findingOrder`. -/
def evaluate (rs : RuleSet) (config : Config) (d : Document) : Option (List Diagnostic) :=
  (rs.rules.mapM fun (r : Rule) => r.judge config d).map fun found =>
    sortBy (fun a b => (findingOrder a b).isLE) found.flatten

end RuleSet

end ScriptAudit
