import ScriptAudit.Path

/-!
# File trees

A tree of directories, files and symbolic links, with a working directory. Resolving a path walks
its segments from the root or the working directory, through at most forty links, and either
reaches a file or directory or fails with the cause that the system would report.

A directory lists each name once, in ascending order, and each name is one that an entry can have;
`Node.WellFormed` says so and a `Tree` carries the proof.

A tree is simpler than what a system may hold in three respects. Names are Unicode text, whatever is
in the tree may be read, and a canonical path has any length: the length of a path is bounded where
the path is handed over, while a system may also fail to resolve one that leads 4096 bytes deep.
-/

namespace ScriptAudit

/-- What a file holds: text, or bytes that are not UTF-8. -/
inductive Content where
  | text (s : String)
  | undecodable
deriving DecidableEq, Repr, Inhabited

def Content.ofBytes (bytes : ByteArray) : Content :=
  match String.fromUTF8? bytes with
  | some s => .text s
  | none => .undecodable

inductive Node where
  | file (content : Content)
  | directory (entries : List (String × Node))
  | link (target : Path)
deriving Repr, Inhabited

/-- Why a path could not be used. -/
inductive PathError where
  | notFound
  | notDirectory
  | isDirectory
  | tooManyLinks
  | nameTooLong
  | nulCharacter
  | notText
deriving DecidableEq, Repr

def PathError.message : PathError → String
  | notFound => "No such file or directory (os error 2)"
  | notDirectory => "Not a directory (os error 20)"
  | isDirectory => "Is a directory (os error 21)"
  | tooManyLinks => "Too many levels of symbolic links (os error 40)"
  | nameTooLong => "File name too long (os error 36)"
  | nulCharacter => "file name contained an unexpected NUL byte"
  | notText => "stream did not contain valid UTF-8"

/-- A name of more than 255 bytes cannot exist. -/
def Tree.nameLimit : Nat := 255

/-- What an entry of a directory can be called: neither a slash nor a NUL is in the name, and the
names that a path reads as no step or as a step up are taken. -/
def isEntryName (name : String) : Bool :=
  let s := name.toList
  !Path.isVoid s && s != ['.', '.'] && !s.contains '/' && !s.contains '\x00' &&
    name.utf8ByteSize ≤ Tree.nameLimit

namespace Node

def isFile : Node → Bool
  | file _ => true
  | _ => false

def isDirectory : Node → Bool
  | directory _ => true
  | _ => false

def entries : Node → List (String × Node)
  | directory es => es
  | _ => []

def empty : Node := directory []

mutual

/-- Every directory lists possible names, in strictly ascending order. -/
def WellFormed : Node → Prop
  | directory es => WellFormedEntries es
  | file _ => True
  | link _ => True

def WellFormedEntries : List (String × Node) → Prop
  | [] => True
  | (name, node) :: rest =>
    isEntryName name = true ∧ node.WellFormed ∧ (∀ e ∈ rest, name < e.1) ∧ WellFormedEntries rest

end

theorem WellFormed.entries {n : Node} (h : n.WellFormed) : WellFormedEntries n.entries := by
  cases n with
  | directory es => exact h
  | file _ => exact trivial
  | link _ => exact trivial

theorem WellFormedEntries.of_mem {es : List (String × Node)} (h : WellFormedEntries es)
    {name : String} {n : Node} (found : (name, n) ∈ es) :
    isEntryName name = true ∧ n.WellFormed := by
  induction es with
  | nil => cases found
  | cons head rest ih =>
    obtain ⟨named, hold, _, hrest⟩ := h
    rcases List.mem_cons.1 found with rfl | found
    · exact ⟨named, hold⟩
    · exact ih hrest found

theorem WellFormedEntries.lookup {es : List (String × Node)} (h : WellFormedEntries es)
    {name : String} {n : Node} (found : es.lookup name = some n) :
    isEntryName name = true ∧ n.WellFormed := by
  obtain ⟨before, after, rfl, _⟩ := List.lookup_eq_some_iff.1 found
  exact h.of_mem (List.mem_append_right _ List.mem_cons_self)

theorem WellFormedEntries.lookup_of_mem {es : List (String × Node)} (h : WellFormedEntries es)
    {name : String} {n : Node} (found : (name, n) ∈ es) : es.lookup name = some n := by
  induction es with
  | nil => cases found
  | cons head rest ih =>
    obtain ⟨_, _, hlt, hrest⟩ := h
    rcases List.mem_cons.1 found with rfl | found
    · exact List.lookup_cons_self
    · have apart : name ≠ head.1 := fun same =>
        String.lt_irrefl name (by simpa [same] using hlt _ found)
      rw [List.lookup_cons, beq_false_of_ne apart]
      exact ih hrest found

/-- The node reached by taking the names as they are, without following links. -/
def at? (n : Node) : List String → Option Node
  | [] => some n
  | name :: rest =>
    match n.entries.lookup name with
    | some child => child.at? rest
    | none => none

end Node

/-- The names that lead from the root of a tree to a node. -/
abbrev Position := List String

/-- The canonical absolute path of a position. -/
def Position.path (pos : Position) : Path :=
  ⟨String.ofList ('/' :: ['/'].intercalate (pos.map String.toList))⟩

structure Tree where
  top : Node
  workDir : Position
  wellFormed : top.WellFormed

namespace Tree

/-- The most links that one resolution follows. -/
def linkLimit : Nat := 40

/-- A path of 4096 bytes or more is refused before it is looked at. -/
def pathLimit : Nat := 4096

/-- Takes the segments one by one from `pos`; where a segment is a link, `follow` continues from
the directory that holds it with the target and the segments left. Every segment, also an empty
one or `.`, needs a directory to stand in. -/
def walk (top : Node)
    (follow : Position → Path → List (List Char) → Except PathError Position) :
    Position → List (List Char) → Except PathError Position
  | pos, [] => .ok pos
  | pos, segment :: rest =>
    match top.at? pos with
    | some (.directory es) =>
      if Path.isVoid segment then walk top follow pos rest
      else if segment = ['.', '.'] then walk top follow pos.dropLast rest
      else
        let name := String.ofList segment
        if nameLimit < name.utf8ByteSize then .error .nameTooLong
        else
          match es.lookup name with
          | none => .error .notFound
          | some (.link target) => follow pos target rest
          | some _ => walk top follow (pos ++ [name]) rest
    | _ => .error .notDirectory

/-- Where the walk along a path starts. -/
def startOf (p : Path) (base : Position) : Position :=
  if p.isAbsolute then [] else base

/-- Walks with at most `links` links followed. -/
def walkWithin (top : Node) : Nat → Position → List (List Char) → Except PathError Position
  | 0 => walk top fun _ _ _ => .error .tooManyLinks
  | links + 1 => walk top fun pos target rest =>
      walkWithin top links (startOf target pos) (target.segments ++ rest)

/-- Whether the system refuses a path for its length alone. -/
def isTooLong (p : Path) : Bool :=
  pathLimit ≤ p.text.utf8ByteSize

variable (t : Tree)

/-- The position of the file or directory that a path denotes. -/
def locate (p : Path) : Except PathError Position :=
  if p.text.toList.contains '\x00' then .error .nulCharacter
  else if p.text = "" then .error .notFound
  else walkWithin t.top linkLimit (startOf p t.workDir) p.segments

/-- As `locate`, for a path handed to the system, which bounds its length. -/
def find (p : Path) : Except PathError Node :=
  if p.text.toList.contains '\x00' then .error .nulCharacter
  else if isTooLong p then .error .nameTooLong
  else do
    let pos ← t.locate p
    match t.top.at? pos with
    | some n => .ok n
    | none => .error .notFound

/-- Whether the path leads to anything. -/
def reaches (p : Path) : Bool :=
  (t.find p).isOk

/-- The canonical path, however long, or the path itself when it leads nowhere. -/
def resolved (p : Path) : Path :=
  match t.locate p with
  | .ok pos => pos.path
  | .error _ => p

def readText (p : Path) : Except PathError String := do
  match ← t.find p with
  | .file (.text s) => .ok s
  | .file .undecodable => .error .notText
  | .directory _ => .error .isDirectory
  | .link _ => .error .tooManyLinks

/-- The names in a directory, ascending. -/
def list (p : Path) : Except PathError (List String) := do
  match ← t.find p with
  | .directory es => .ok (es.map (·.1))
  | _ => .error .notDirectory

/-- Whether the path leads to a file, links followed. -/
def isFile (p : Path) : Bool :=
  match t.find p with
  | .ok n => n.isFile
  | .error _ => false

/-- The name of the feature that a document at `p` belongs to: the last name of its directory, as
the tree resolves it or, when that fails, as it is written. -/
def featureOf (p : Path) : String :=
  ((t.resolved p.directory).fileName?).getD ""

end Tree

end ScriptAudit
