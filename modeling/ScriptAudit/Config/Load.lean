import ScriptAudit.Config.Decode
import ScriptAudit.Toml.Reading
import ScriptAudit.Tree

/-!
# Loading the configuration

The configuration comes from the file named, which has to exist, or from the default file if there
is one. A number of jobs given besides takes the place of the configured one.
-/

namespace ScriptAudit

/-- The file looked for in the working directory when none is named. -/
def defaultConfigFile : Path := ⟨"scriptcheck.toml"⟩

namespace Config

/-- Why a configuration file cannot be used. -/
inductive FileFault where
  | unreadable (cause : PathError)
  | malformed
  | refused (fault : ConfigFault)
deriving DecidableEq, Repr

inductive LoadFault where
  | missing (file : Path)
  | badFile (file : Path) (fault : FileFault)
  /-- What the file says together with the number of jobs is refused. -/
  | refused (fault : ConfigFault)
deriving DecidableEq, Repr

def LoadFault.message : LoadFault → String
  | missing file => "config file not found: " ++ file.text
  | badFile file (.unreadable cause) =>
    "failed to load " ++ file.text ++ ": IO error on " ++ file.text ++ ": " ++ cause.message ++
      ": " ++ cause.message
  | badFile file .malformed => "failed to load " ++ file.text ++ ": Config parse error:"
  | badFile file (.refused fault) => "failed to load " ++ file.text ++ ": " ++ fault.message
  | refused fault => fault.message

/-- Reads and checks a configuration written in TOML. -/
def ofToml (source : String) : Except FileFault Config :=
  match (Toml.read? source).bind (ofValue? .toml) with
  | none => .error .malformed
  | some c => c.check.mapError .refused

def ofFile (t : Tree) (p : Path) : Except FileFault Config :=
  match t.readText p with
  | .error e => .error (.unreadable e)
  | .ok source => ofToml source

/-- A file that does not exist leaves the stock configuration. -/
def ofFileOrStock (t : Tree) (p : Path) : Except FileFault Config :=
  if t.reaches p then ofFile t p else .ok {}

def load (t : Tree) (named : Option Path) (jobs : Option Nat) : Except LoadFault Config := do
  let read ← match named with
    | some p => if t.reaches p then (ofFile t p).mapError (.badFile p) else .error (.missing p)
    | none => (ofFileOrStock t defaultConfigFile).mapError (.badFile defaultConfigFile)
  let config := { read with jobs := jobs.or read.jobs }
  config.check.mapError .refused

end Config

end ScriptAudit
