import ScriptAudit.Text.Blank
import ScriptAudit.Text.Cut

/-!
# Paths

A path is kept as it was written. What it denotes is read off its parts: repeated and trailing
slashes and inner `.` segments denote nothing, a leading `.` and every `..` are parts of their own.
Nothing here looks at a file tree, so `..` is never cancelled against what stands before it.
-/

namespace ScriptAudit

structure Path where
  text : String
deriving DecidableEq, Repr, Inhabited

namespace Path

/-- One step of a path. -/
inductive Part where
  | root
  | here
  | up
  | name (s : String)
deriving DecidableEq, Repr

namespace Part

/-- The root comes first, then `.`, then `..`, then all names. -/
def rank : Part → Nat
  | root => 0
  | here => 1
  | up => 2
  | name _ => 3

def spelled : Part → String
  | root => ""
  | here => "."
  | up => ".."
  | name s => s

def order : Part → Part → Ordering :=
  compareLex (compareOn rank) (compareOn spelled)

instance : Std.TransCmp order := by
  unfold order
  infer_instance

end Part

def segments (p : Path) : List (List Char) :=
  p.text.toList.splitOn '/'

/-- A segment that denotes nothing behind another one. -/
def isVoid : List Char → Bool
  | [] | ['.'] => true
  | _ => false

/-- A segment that is not the first. -/
def innerPart? (s : List Char) : Option Part :=
  if isVoid s then none else if s = ['.', '.'] then some .up else some (.name (String.ofList s))

def parts (p : Path) : List Part :=
  match p.segments with
  | [] => []
  | [[]] => []
  | [] :: rest => .root :: rest.filterMap innerPart?
  | ['.'] :: rest => .here :: rest.filterMap innerPart?
  | first :: rest => (first :: rest).filterMap innerPart?

def isAbsolute (p : Path) : Bool :=
  p.text.toList.head? == some '/'

/-- Everything before the last part, in the spelling of the whole; a single part leaves the empty
path, the root and the empty path have no parent. -/
def parent? (p : Path) : Option Path :=
  match p.segments with
  | [] => none
  | first :: rest =>
    match Text.dropEndWhile isVoid rest with
    | [] => if first.isEmpty then none else some ⟨""⟩
    | inner =>
      let kept := Text.dropEndWhile isVoid inner.dropLast
      if first.isEmpty && kept.isEmpty then some ⟨"/"⟩
      else some ⟨String.ofList (['/'].intercalate (first :: kept))⟩

/-- The last part, when it is a name. -/
def fileName? (p : Path) : Option String :=
  match p.parts.getLast? with
  | some (.name s) => some s
  | _ => none

/-- Appends a relative path; an absolute one takes the place of the whole. -/
def join (p : Path) (s : String) : Path :=
  if s.toList.head? = some '/' then ⟨s⟩
  else if p.text = "" || p.text.toList.getLast? = some '/' then ⟨p.text ++ s⟩
  else ⟨p.text ++ "/" ++ s⟩

/-- The spelling shown to readers: backslashes appear as slashes. -/
def display (p : Path) : String :=
  String.ofList (p.text.toList.map fun c => if c = '\\' then '/' else c)

/-- Paths are ordered part by part, so two spellings of the same parts are equal. -/
def order (p q : Path) : Ordering :=
  List.compareLex Part.order p.parts q.parts

def le (p q : Path) : Bool :=
  (order p q).isLE

instance : Std.TransCmp order where
  eq_swap := (inferInstance : Std.OrientedCmp (List.compareLex Part.order)).eq_swap
  isLE_trans := (inferInstance : Std.TransCmp (List.compareLex Part.order)).isLE_trans

theorem le_trans (p q r : Path) (hpq : le p q) (hqr : le q r) : le p r :=
  (inferInstance : Std.TransCmp order).isLE_trans hpq hqr

theorem le_total (p q : Path) : (le p q || le q p) = true := by
  have swapped : order q p = (order p q).swap := Std.OrientedCmp.eq_swap
  simp only [le, swapped]
  cases order p q <;> rfl

/-- The directory that holds the file; a bare name lives in `.`. -/
def directory (p : Path) : Path :=
  match p.parent? with
  | some d => if d.text = "" then ⟨"."⟩ else d
  | none => ⟨"."⟩

/-- The parent and its parent, as far as they exist. -/
def enclosing (p : Path) : List Path :=
  match p.parent? with
  | none => []
  | some d => d :: d.parent?.toList

/-- What stands behind the last dot of a file name; a name whose only dot comes first has none. -/
def extension? (name : String) : Option String :=
  match Text.cutAt? (· == '.') name.toList.reverse with
  | some (tail, head) => if head.isEmpty then none else some (String.ofList tail.reverse)
  | none => none

end Path

end ScriptAudit
