/-! # Severities -/

namespace ScriptAudit

/-- How much a diagnostic weighs. -/
inductive Severity where
  | error
  | warning
  | info
deriving DecidableEq, Repr, Inhabited

namespace Severity

def all : List Severity := [.error, .warning, .info]

def label : Severity → String
  | error => "error"
  | warning => "warning"
  | info => "info"

def ofLabel? (s : String) : Option Severity :=
  all.find? (·.label = s)

theorem ofLabel?_label (s : Severity) : ofLabel? s.label = some s := by
  cases s <;> rfl

end Severity

end ScriptAudit
