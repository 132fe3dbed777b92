import ScriptAudit.Config
import ScriptAudit.Diagnostic
import ScriptAudit.Feature
import ScriptAudit.Tree

/-!
# Finding documents

A scan starts at one path. A file is looked at by itself; a directory is walked depth first, names
in ascending order, past hidden names and excluded directories and without following links. Each
directory that directly holds a document is a feature. What cannot be read becomes a diagnostic.
-/

namespace ScriptAudit

/-- A document found, with the mode that its file name declares. -/
structure Descriptor where
  path : Path
  feature : String
  mode : Option Mode
deriving DecidableEq, Repr, Inhabited

structure Scan where
  documents : List Descriptor := []
  features : List Feature := []
  problems : List Diagnostic := []
deriving Repr, Inhabited

namespace ScanConfig

/-- A name is passed over when it is hidden or names an excluded directory. -/
def skips (config : ScanConfig) (name : String) (isDirectory : Bool) : Bool :=
  name.toList.head? = some '.' || (isDirectory && config.exclude.contains name)

/-- A Markdown file that declares no mode and is no readme. -/
def isUnsuffixed (name : String) : Bool :=
  Text.endsWith ".md".toList name.toList && name.toList.map Char.toLower != "readme.md".toList

/-- Whether a file of this name is a document. -/
def accepts (config : ScanConfig) (name : String) : Bool :=
  (Mode.ofFileName? name).isSome || (config.includeUnsuffixed && isUnsuffixed name)

end ScanConfig

namespace Scan

/-- What a walk meets: a file, or a directory whose path is too long for it to be listed. -/
inductive Met where
  | file (p : Path)
  | unlisted (p : Path)
deriving DecidableEq, Repr

namespace Met

def file? : Met → Option Path
  | file p => some p
  | unlisted _ => none

def problem? : Met → Option Diagnostic
  | file _ => none
  | unlisted p => some (.unreadable p.display
      ("cannot read path: IO error for operation on " ++ p.text ++ ": " ++
        PathError.nameTooLong.message))

end Met

mutual

/-- What is met below a node that stands at `p`, in walk order. -/
def walkBelow (config : ScanConfig) (p : Path) : Node → List Met
  | .directory entries => if Tree.isTooLong p then [.unlisted p] else walkIn config p entries
  | .file _ => [.file p]
  | .link _ => []

/-- What is met below the entries of a directory, those passed over aside. -/
def walkIn (config : ScanConfig) (p : Path) : List (String × Node) → List Met
  | [] => []
  | (name, node) :: rest =>
    (if config.skips name node.isDirectory then [] else walkBelow config (p.join name) node) ++
      walkIn config p rest

end

def describe? (t : Tree) (config : ScanConfig) (p : Path) : Option Descriptor :=
  p.fileName?.bind fun name =>
    if config.accepts name then
      some { path := p, feature := t.featureOf p, mode := Mode.ofFileName? name }
    else none

/-- The screenshots in a directory, which need not exist. -/
def screenshots (t : Tree) (dir : Path) : Except PathError (List String) :=
  match t.list dir with
  | .ok names => .ok (names.filter fun name =>
      t.isFile (dir.join name) && Path.extension? name == some "png")
  | .error .notFound => .ok []
  | .error e => .error e

/-- The directories of the documents, each once in its first spelling, in path order. -/
def directories (documents : List Descriptor) : List Path :=
  sortBy Path.le (documents.foldl (fun dirs d =>
    let dir := d.path.directory
    if dirs.any (·.parts = dir.parts) then dirs else dirs ++ [dir]) [])

/-- A feature and the problem that its screenshots pose, if they do. -/
def featureAt (t : Tree) (documents : List Descriptor) (dir : Path) :
    Feature × Option Diagnostic :=
  let own := documents.filter fun d => d.path.directory.parts = dir.parts
  let feature : Feature :=
    { directory := dir, name := (own.head?.map (·.feature)).getD "", documents := own.map (·.path),
      screenshots := [] }
  match screenshots t feature.screenshotDirectory with
  | .ok names => ({ feature with screenshots := names }, none)
  | .error e => (feature, some (.unreadable feature.screenshotDirectory.display
      ("cannot list screenshots: " ++ e.message)))

def ofDocuments (t : Tree) (documents : List Descriptor) : Scan :=
  let found := (directories documents).map (featureAt t documents)
  { documents, features := found.map (·.1), problems := found.filterMap (·.2) }

end Scan

/-- Everything found under a root. -/
def Tree.scan (t : Tree) (config : ScanConfig) (root : Path) : Scan :=
  match t.find root with
  | .error e => { problems := [.unreadable root.display ("cannot read path: " ++ e.message)] }
  | .ok (.directory entries) =>
    let met := Scan.walkIn config root entries
    let found := Scan.ofDocuments t ((met.filterMap (·.file?)).filterMap (Scan.describe? t config))
    { found with problems := met.filterMap (·.problem?) ++ found.problems }
  | .ok _ => .ofDocuments t (Scan.describe? t config root).toList

end ScriptAudit
