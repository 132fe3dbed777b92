import ScriptAudit.Program
import ScriptAudit.Tree.Edit

/-!
# Command line

Takes a picture of the directories that a call can reach, calls the program on it and prints what
it leaves behind. Only files that can matter are read; of all others the name is enough.
-/

namespace ScriptAudit.Main

/-- The names that lead to an absolute path. -/
def positionOf (absolute : String) : Position :=
  (absolute.splitOn "/").filter (!·.isEmpty)

def absolute (pos : Position) : String :=
  "/" ++ "/".intercalate pos

/-- Documents and configuration files; anything else only has to be there. -/
def isRead (config : Option String) (file : String) : Bool :=
  file.endsWith ".md" || file.endsWith ".toml" || config == some file

/-- Where a path leads, if it leads anywhere. -/
def realPath? (path : String) : IO (Option String) := do
  try
    return some (← IO.FS.realPath path).toString
  catch _ => return none

/-- No name holds this character. -/
def nowhere : Path := ⟨"/\x00"⟩

/-- Adds what stands at a position and below. A link is kept as a link to where it leads, or to
nothing. -/
partial def add (config : Option String) (t : Tree) (pos : Position) : IO Tree := do
  let here := absolute pos
  let place := (← IO.currentDir) / here
  match (← place.symlinkMetadata).type with
  | .symlink =>
    match ← realPath? here with
    | none => return t.set pos (.link nowhere) trivial
    | some target =>
      let t := t.set pos (.link ⟨target⟩) trivial
      if (t.top.at? (positionOf target)).isSome then return t
      else add config t (positionOf target)
  | .dir =>
    let t := if pos.isEmpty then t else t.set pos Node.empty trivial
    (← place.readDir).foldlM (fun t e => add config t (pos ++ [e.fileName])) t
  | _ =>
    if isRead config here then
      return t.set pos (.file (Content.ofBytes (← IO.FS.readBinFile here))) trivial
    else return t.set pos (.file .undecodable) trivial

/-- Adds the file or directory that a path leads to, unless it is there already. -/
def addRoot (config : Option String) (t : Tree) (path : Path) : IO Tree := do
  if t.reaches path then return t
  match ← realPath? path.text with
  | some place => add config t (positionOf place)
  | none => return t

/-- The paths that a call names, its configuration file first. -/
def named (configVariable : Option String) (args : List String) : List Path :=
  match CommandLine.read configVariable args with
  | .ok i => i.config.toList ++ i.paths
  | .error _ => []

end ScriptAudit.Main

open ScriptAudit in
def main (args : List String) : IO UInt32 := do
  let configVariable ← IO.getEnv "SCRIPTCHECK_CONFIG"
  let workDir := Main.positionOf (← IO.FS.realPath ".").toString
  let paths := Main.named configVariable args
  let config ← match paths with
    | p :: _ => Main.realPath? p.text
    | [] => pure none
  let t ← Main.add config (Tree.empty workDir) workDir
  let t ← paths.foldlM (Main.addRoot config) t
  let result := program t configVariable args
  IO.print result.output
  result.message.forM IO.eprint
  return result.exitCode.toUInt32
