import ScriptAudit.Path
import ScriptAudit.Text.Cut
import ScriptAudit.Text.Decimal
import ScriptAudit.Text.Visible

/-!
# The command line

Arguments are read from left to right. A setting takes its value from behind an equals sign or from
the next argument, which must not start with a hyphen unless it is a single one. No flag or setting
may be given twice, and everything behind `--` is a path. The first thing that ends reading early
decides: misuse, or the wish for help or the version.
-/

namespace ScriptAudit

inductive OutputFormat where
  | text
  | json
deriving DecidableEq, Repr

/-- A complete set of arguments. -/
structure Invocation where
  paths : List Path := []
  format : Option OutputFormat := none
  config : Option Path := none
  jobs : Option Nat := none
  strict : Bool := false
  verbose : Bool := false
  listRules : Bool := false
deriving DecidableEq, Repr

namespace CommandLine

/-- Why reading ends before the arguments do. -/
inductive Stop where
  | misuse
  | shortHelp
  | longHelp
  | version
deriving DecidableEq, Repr

/-- An argument that takes a value. -/
inductive Setting where
  | format
  | config
  | jobs
deriving DecidableEq, Repr

inductive Flag where
  | strict
  | verbose
  | listRules
deriving DecidableEq, Repr

/-- What an argument that starts with a hyphen asks for. -/
inductive Switch where
  | setting (s : Setting)
  | flag (f : Flag)
  | stop (s : Stop)
deriving DecidableEq, Repr

def longSwitch : String → Switch
  | "format" => .setting .format
  | "config" => .setting .config
  | "jobs" => .setting .jobs
  | "strict" => .flag .strict
  | "verbose" => .flag .verbose
  | "list-rules" => .flag .listRules
  | "help" => .stop .longHelp
  | "version" => .stop .version
  | _ => .stop .misuse

def shortSwitch : Char → Switch
  | 'j' => .setting .jobs
  | 'v' => .flag .verbose
  | 'h' => .stop .shortHelp
  | 'V' => .stop .version
  | _ => .stop .misuse

/-- Job numbers are 64-bit and may have a plus sign. -/
def jobs? (value : List Char) : Option Nat :=
  Text.decimalBelow? (Nat.pow 2 64) (match value with
    | '+' :: digits => digits
    | digits => digits)

def format? : String → Option OutputFormat
  | "text" => some .text
  | "json" => some .json
  | _ => none

/-- A path argument is not empty. -/
def path? (value : String) : Option Path :=
  if value = "" then none else some ⟨value⟩

def misused {α : Type} : Option α → Except Stop α
  | some x => .ok x
  | none => .error .misuse

def turnOn (i : Invocation) : Flag → Except Stop Invocation
  | .strict => if i.strict then .error .misuse else .ok { i with strict := true }
  | .verbose => if i.verbose then .error .misuse else .ok { i with verbose := true }
  | .listRules => if i.listRules then .error .misuse else .ok { i with listRules := true }

def give (i : Invocation) (value : String) : Setting → Except Stop Invocation
  | .format =>
    if i.format.isSome then .error .misuse
    else (misused (format? value)).map fun f => { i with format := some f }
  | .config =>
    if i.config.isSome then .error .misuse
    else (misused (path? value)).map fun p => { i with config := some p }
  | .jobs =>
    if i.jobs.isSome then .error .misuse
    else (misused (jobs? value.toList)).map fun n => { i with jobs := some n }

def addPath (i : Invocation) (value : String) : Except Stop Invocation :=
  (misused (path? value)).map fun p => { i with paths := i.paths ++ [p] }

/-- Reads short switches that share one hyphen. The result names the setting that is still without
a value, if the last switch is one. -/
def readCluster (i : Invocation) : List Char → Except Stop (Invocation × Option Setting)
  | [] => .ok (i, none)
  | c :: rest =>
    match shortSwitch c with
    | .stop s => .error s
    | .flag f =>
      match turnOn i f with
      | .ok i => readCluster i rest
      | .error s => .error s
    | .setting s =>
      match rest with
      | [] => .ok (i, some s)
      | '=' :: value => (give i (String.ofList value) s).map fun i => (i, none)
      | value => (give i (String.ofList value) s).map fun i => (i, none)

/-- Reads a long switch without its hyphens, as `readCluster`. -/
def readLong (i : Invocation) (s : List Char) : Except Stop (Invocation × Option Setting) :=
  match Text.cutAt? (· == '=') s with
  | some (name, value) =>
    match longSwitch (String.ofList name) with
    | .setting s => (give i (String.ofList value) s).map fun i => (i, none)
    | _ => .error .misuse
  | none =>
    match longSwitch (String.ofList s) with
    | .setting s => .ok (i, some s)
    | .flag f => (turnOn i f).map fun i => (i, none)
    | .stop s => .error s

/-- Whether an argument can be the value of a setting. -/
def isValue (arg : String) : Bool :=
  arg = "-" || arg.toList.head? != some '-'

def readSwitch (i : Invocation) (arg : String) : Except Stop (Invocation × Option Setting) :=
  match arg.toList with
  | '-' :: '-' :: name => readLong i name
  | '-' :: c :: rest => readCluster i (c :: rest)
  | _ => (addPath i arg).map fun i => (i, none)

def readArguments : Invocation → List String → Except Stop Invocation
  | i, [] => .ok i
  | i, arg :: rest =>
    if arg = "--" then rest.foldlM addPath i
    else
      match readSwitch i arg with
      | .error s => .error s
      | .ok (i, none) => readArguments i rest
      | .ok (i, some setting) =>
        match rest with
        | [] => .error .misuse
        | value :: rest =>
          if isValue value then
            match give i value setting with
            | .ok i => readArguments i rest
            | .error s => .error s
          else .error .misuse

/-- Reads the arguments; `configVariable` names the configuration file if no argument does. Paths
are needed unless only the rules are listed. -/
def read (configVariable : Option String) (args : List String) : Except Stop Invocation := do
  let i ← readArguments {} args
  let i ← match i.config, configVariable with
    | none, some value => give i value .config
    | _, _ => .ok i
  if i.paths.isEmpty && !i.listRules then .error .misuse else .ok i

/-! ## Help -/

def versionText : String := "scriptcheck 0.1.0\n"

def usageText : String :=
  "CLI for validating QA test-script documents\n\nUsage: scriptcheck [OPTIONS] [PATHS]...\n\n"

/-- The value of the variable that may name a configuration file, with what follows it up to the
next option. Its further lines are indented; control sequences in it are not shown, and one that it
leaves open reaches as far as this text does. -/
def variableText (indent : Nat) (configVariable : Option String) (ending : String) : String :=
  let value := (configVariable.getD "").toList.flatMap fun c =>
    if c = '\n' then '\n' :: List.replicate indent ' ' else [c]
  "[env: SCRIPTCHECK_CONFIG=" ++ String.ofList (Text.visible (value ++ ending.toList))

def shortHelpText (configVariable : Option String) : String :=
  usageText ++
  "Arguments:\n" ++
  "  [PATHS]...  Files or directories to validate\n\n" ++
  "Options:\n" ++
  "      --format <FORMAT>  Output format [default: text] [possible values: text, json]\n" ++
  "      --strict           Treat warnings as failures\n" ++
  "      --config <CONFIG>  Config file (defaults to ./scriptcheck.toml when present) " ++
  variableText 25 configVariable "]\n  " ++
  "-j, --jobs <JOBS>      Maximum number of documents checked concurrently\n" ++
  "  -v, --verbose          Enable verbose output\n" ++
  "      --list-rules       Print the active rule set and exit\n" ++
  "  -h, --help             Print help (see more with '--help')\n" ++
  "  -V, --version          Print version\n"

def longHelpText (configVariable : Option String) : String :=
  usageText ++
  "Arguments:\n" ++
  "  [PATHS]...\n" ++
  "          Files or directories to validate\n\n" ++
  "Options:\n" ++
  "      --format <FORMAT>\n" ++
  "          Output format\n\n" ++
  "          Possible values:\n" ++
  "          - text: Human-readable, grouped by file\n" ++
  "          - json: JSON array of diagnostics\n" ++
  "          \n" ++
  "          [default: text]\n\n" ++
  "      --strict\n" ++
  "          Treat warnings as failures\n\n" ++
  "      --config <CONFIG>\n" ++
  "          Config file (defaults to ./scriptcheck.toml when present)\n" ++
  "          \n" ++
  "          " ++ variableText 10 configVariable "]\n\n  " ++
  "-j, --jobs <JOBS>\n" ++
  "          Maximum number of documents checked concurrently\n\n" ++
  "  -v, --verbose\n" ++
  "          Enable verbose output\n\n" ++
  "      --list-rules\n" ++
  "          Print the active rule set and exit\n\n" ++
  "  -h, --help\n" ++
  "          Print help (see a summary with '-h')\n\n" ++
  "  -V, --version\n" ++
  "          Print version\n"

end CommandLine

end ScriptAudit
