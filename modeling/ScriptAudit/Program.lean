import ScriptAudit.CommandLine
import ScriptAudit.Config.Load
import ScriptAudit.Render.Json
import ScriptAudit.Render.Plain
import ScriptAudit.Render.Table
import ScriptAudit.Rule.Stock
import ScriptAudit.Run

/-!
# The program

From the arguments and a file tree to what is printed and the exit code: 0 when the run passed, 1
when it failed, 2 when something could not be read or the program was called wrongly.
-/

namespace ScriptAudit

/-- What a call of the program leaves behind. -/
structure Transcript where
  exitCode : Nat
  output : String := ""
  /-- The program's own error message. -/
  message : Option String := none
  /-- Whether something else was logged before the message. -/
  logged : Bool := false
deriving DecidableEq, Repr

namespace Program

def failed (logged : Bool) (message : String) : Transcript :=
  { exitCode := 2, message := some ("Error: " ++ message ++ "\n"), logged }

def listRules (rules : RuleSet) : OutputFormat → Transcript
  | .text => { exitCode := 0, output := Render.rulesTable rules }
  | .json => { exitCode := 0, output := Render.rulesJson rules }

def showReport (r : Report) (o : Outcome) : OutputFormat → Transcript
  | .text => { exitCode := o.exitCode, output := Render.reportText false r o }
  | .json => { exitCode := o.exitCode, output := Render.reportJson r }

/-- The exit code of a run that breaks off. -/
def breakdownCode : Nat := 101

/-- Warnings count as failures when either the call or the configuration says so. -/
def failsOnWarnings (strict : Bool) (config : Config) : Bool :=
  strict || config.failOnWarnings

def perform (t : Tree) (i : Invocation) : Transcript :=
  let opened := i.config.any t.reaches
  let format := i.format.getD .text
  match Config.load t i.config i.jobs with
  | .error f => failed (i.verbose && opened) f.message
  | .ok config =>
    match RuleSet.stock.configure config.rules with
    | .error f => failed (i.verbose && opened) f.message
    | .ok rules =>
      if i.listRules then listRules rules format
      else
        match t.run config rules i.paths with
        -- a loaded configuration asks for some permit, so the run has broken off
        | .error _ => { exitCode := breakdownCode, logged := true }
        | .ok r => showReport r (r.outcome (failsOnWarnings i.strict config)) format

end Program

/-- Calls the program with a tree, the value of the variable that may name a configuration file,
and arguments. -/
def program (t : Tree) (configVariable : Option String) (args : List String) : Transcript :=
  match CommandLine.read configVariable args with
  | .ok i => Program.perform t i
  | .error .misuse => { exitCode := 2, logged := true }
  | .error .shortHelp => { exitCode := 0, output := CommandLine.shortHelpText configVariable }
  | .error .longHelp => { exitCode := 0, output := CommandLine.longHelpText configVariable }
  | .error .version => { exitCode := 0, output := CommandLine.versionText }

end ScriptAudit
