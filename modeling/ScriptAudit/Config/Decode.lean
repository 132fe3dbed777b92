import ScriptAudit.Config
import ScriptAudit.Data.Value
import ScriptAudit.Sorting

/-!
# Configuration from data

A section is a table with any of its keys, or a list of its values in the order of the keys; what
is left out keeps its default and unknown keys are ignored. A value of the wrong type anywhere
refuses the whole. Decoding does not judge the values, `Config.check` does.
-/

namespace ScriptAudit

namespace Config

open Data (Value)

/-- The points on which the two data formats differ. -/
inductive Format where
  | json
  | toml
deriving DecidableEq, Repr

namespace Format

/-- Whether a list may hold more values than the section has keys. -/
def allowsLongLists : Format → Bool
  | json => false
  | toml => true

/-- What may stand behind a severity that is written as the only key of a table. -/
def isEmptyPayload : Format → Value → Bool
  | json, .null => true
  | toml, .table [] | toml, .list [] => true
  | _, _ => false

end Format

/-- Reads one field of a section; a field left out is the default. -/
def field {α : Type} (v : Option Value) (decode : Value → Option α) (default : α) : Option α :=
  match v with
  | none => some default
  | some v => decode v

/-- Looks up the keys of a section. -/
def fields (format : Format) (keys : List String) : Value → Option (String → Option Value)
  | .table entries => some fun k => entries.lookup k
  | .list items =>
    if !format.allowsLongLists && keys.length < items.length then none
    else some fun k => (keys.zip items).lookup k
  | _ => none

def text? : Value → Option String
  | .text s => some s
  | _ => none

def bool? : Value → Option Bool
  | .bool b => some b
  | _ => none

/-- Counts are 64-bit. -/
def countBound : Nat := Nat.pow 2 64

def count? : Value → Option Nat
  | .int n => if 0 ≤ n && n < countBound then some n.toNat else none
  | _ => none

def jobs? : Value → Option (Option Nat)
  | .null => some none
  | v => (count? v).map some

def texts? : Value → Option (List String)
  | .list items => items.mapM text?
  | _ => none

def severity? (format : Format) : Value → Option Severity
  | .text s => Severity.ofLabel? s
  | .table [(s, payload)] => if format.isEmptyPayload payload then Severity.ofLabel? s else none
  | _ => none

/-- A table as pairs in ascending order of the keys. -/
def pairs? {α : Type} (decode : Value → Option α) : Value → Option (List (String × α))
  | .table entries => do
    let pairs ← entries.mapM fun (k, v) => (decode v).map fun x => (k, x)
    return sortBy (fun a b => a.1 ≤ b.1) pairs
  | _ => none

def scan? (format : Format) (v : Value) : Option ScanConfig := do
  let at? ← fields format ["exclude", "include_unsuffixed"] v
  let stock : ScanConfig := {}
  return { exclude := ← field (at? "exclude") texts? stock.exclude
           includeUnsuffixed := ← field (at? "include_unsuffixed") bool? stock.includeUnsuffixed }

def report? (format : Format) (v : Value) : Option Bool := do
  let at? ← fields format ["fail_on_warnings"] v
  field (at? "fail_on_warnings") bool? false

def rules? (format : Format) (v : Value) : Option RulesConfig := do
  let at? ← fields format ["disabled", "severity"] v
  return { disabled := ← field (at? "disabled") texts? []
           severity := ← field (at? "severity") (pairs? (severity? format)) [] }

def markers? (format : Format) (v : Value) : Option Markers := do
  let at? ← fields format ["present", "absent"] v
  let stock : Markers := {}
  return { present := ← field (at? "present") texts? stock.present
           absent := ← field (at? "absent") texts? stock.absent }

def modes? (format : Format) (v : Value) : Option ModeWords := do
  let at? ← fields format ["mock_markers", "full_markers"] v
  let stock : ModeWords := {}
  return { mock := ← field (at? "mock_markers") texts? stock.mock
           full := ← field (at? "full_markers") texts? stock.full }

def roles? (format : Format) (v : Value) : Option Roles := do
  let at? ← fields format ["role_keywords", "role_threshold"] v
  let stock : Roles := {}
  return { keywords := ← field (at? "role_keywords") texts? stock.keywords
           threshold := ← field (at? "role_threshold") count? stock.threshold }

def idHeads? (format : Format) (v : Value) : Option (List (String × String)) := do
  let at? ← fields format ["prefixes"] v
  field (at? "prefixes") (pairs? text?) []

def ofValue? (format : Format) (v : Value) : Option Config := do
  let at? ← fields format
    ["jobs", "scan", "report", "rules", "markers", "modes", "heuristics", "features"] v
  return { jobs := ← field (at? "jobs") jobs? none
           scan := ← field (at? "scan") (scan? format) {}
           failOnWarnings := ← field (at? "report") (report? format) false
           rules := ← field (at? "rules") (rules? format) {}
           markers := ← field (at? "markers") (markers? format) {}
           modes := ← field (at? "modes") (modes? format) {}
           roles := ← field (at? "heuristics") (roles? format) {}
           idHeads := ← field (at? "features") (idHeads? format) [] }

end Config

end ScriptAudit
