import ScriptAudit.Severity
import ScriptAudit.Text.Blank

/-!
# Configuration

Every setting has a default, so the empty configuration is the stock behaviour. `Config.check`
refuses the values with which no run can work.
-/

namespace ScriptAudit

/-- Which files count as documents. -/
structure ScanConfig where
  /-- Names of directories that are not entered. -/
  exclude : List String := ["node_modules", "target", "screenshots"]
  /-- Whether `.md` files without a mode in their name are reported instead of skipped. -/
  includeUnsuffixed : Bool := false
deriving DecidableEq, Repr, Inhabited

/-- Adjustments to the rule set: ids of rules to drop, and severities by id, of which the first that
is given for an id counts. -/
structure RulesConfig where
  disabled : List String := []
  severity : List (String × Severity) := []
deriving DecidableEq, Repr, Inhabited

/-- The glyphs that start a line of the expected UI state. -/
structure Markers where
  present : List String := ["✅"]
  absent : List String := ["❌"]
deriving DecidableEq, Repr, Inhabited

/-- Words in a document's body that show its mode; capitals do not matter. -/
structure ModeWords where
  mock : List String :=
    ["[mock]", "mocked service", "mocked api", "mock server", "mock service worker",
      "use_mocks=true"]
  full : List String :=
    ["[full]", "live environment", "live backend", "real backend", "use_mocks=false"]
deriving DecidableEq, Repr, Inhabited

/-- The words that name roles, and the number of roles that is too many for one scenario. -/
structure Roles where
  keywords : List String :=
    ["admin", "viewer", "editor", "owner", "guest", "member", "moderator", "superuser"]
  threshold : Nat := 2
deriving DecidableEq, Repr, Inhabited

structure Config where
  /-- The most documents checked at once. -/
  jobs : Option Nat := none
  scan : ScanConfig := {}
  failOnWarnings : Bool := false
  rules : RulesConfig := {}
  markers : Markers := {}
  modes : ModeWords := {}
  roles : Roles := {}
  /-- The test id prefix of each feature that has one of its own. -/
  idHeads : List (String × String) := []
deriving DecidableEq, Repr, Inhabited

/-- Why a configuration is refused. -/
inductive ConfigFault where
  | noJobs
  | blankMarker
  | noThreshold
  | unknownRule (id : String)
deriving DecidableEq, Repr

def ConfigFault.reason : ConfigFault → String
  | noJobs => "jobs must be at least 1"
  | blankMarker => "marker glyphs must not be empty"
  | noThreshold => "heuristics.role_threshold must be at least 1"
  | unknownRule id => "unknown rule id '" ++ id ++ "'"

def ConfigFault.message (f : ConfigFault) : String :=
  "Invalid configuration: " ++ f.reason

namespace Config

/-- The first value with which no run can work. -/
def fault? (c : Config) : Option ConfigFault :=
  if c.jobs = some 0 then some .noJobs
  else if (c.markers.present ++ c.markers.absent).any fun g => Text.allBlank g.toList then
    some .blankMarker
  else if c.roles.threshold = 0 then some .noThreshold
  else none

def check (c : Config) : Except ConfigFault Config :=
  match c.fault? with
  | some f => .error f
  | none => .ok c

/-- The head of the test ids of a feature: the one configured, or else the feature's ASCII letters
and digits in capitals. -/
def idHead (c : Config) (feature : String) : String :=
  match c.idHeads.lookup feature with
  | some head => head
  | none => String.ofList ((feature.toList.filter Char.isAlphanum).map Char.toUpper)

end Config

end ScriptAudit
