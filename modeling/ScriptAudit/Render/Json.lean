import ScriptAudit.Report
import ScriptAudit.Rule

/-!
# JSON output

Reports and rule sets as indented JSON: two spaces a level, one member a line, an empty array on
one line, and a line feed at the end.
-/

namespace ScriptAudit.Render

def hexDigit (n : Nat) : Char :=
  if n < 10 then Char.ofNat ('0'.toNat + n) else Char.ofNat ('a'.toNat + (n - 10))

/-- Control characters, quotes and backslashes are escaped, the common ones by a letter. -/
def escapeChar (c : Char) : List Char :=
  if c = '"' then ['\\', '"']
  else if c = '\\' then ['\\', '\\']
  else if c = '\n' then ['\\', 'n']
  else if c = '\r' then ['\\', 'r']
  else if c = '\t' then ['\\', 't']
  else if c = '\x08' then ['\\', 'b']
  else if c = '\x0c' then ['\\', 'f']
  else if c.toNat < 32 then ['\\', 'u', '0', '0', hexDigit (c.toNat / 16), hexDigit (c.toNat % 16)]
  else [c]

def quoted (s : String) : String :=
  String.ofList ('"' :: s.toList.flatMap escapeChar ++ ['"'])

/-- An object of an array, with its members given as name and written value. -/
def record (members : List (String × String)) : String :=
  "  \x7b\n" ++ ",\n".intercalate (members.map fun (name, value) =>
    "    " ++ quoted name ++ ": " ++ value) ++ "\n  \x7d"

def array (records : List String) : String :=
  if records.isEmpty then "[]\n" else "[\n" ++ ",\n".intercalate records ++ "\n]\n"

def diagnosticJson (d : Diagnostic) : String :=
  record [("file", quoted d.file), ("line", (d.line.map toString).getD "null"),
    ("ruleId", quoted d.ruleId), ("severity", quoted d.severity.label),
    ("message", quoted d.message)]

def reportJson (r : Report) : String :=
  array (r.diagnostics.map diagnosticJson)

def ruleJson (r : Rule) : String :=
  record [("id", quoted r.id), ("severity", quoted r.severity.label), ("summary", quoted r.summary)]

def rulesJson (rs : RuleSet) : String :=
  array (rs.rules.map ruleJson)

end ScriptAudit.Render
