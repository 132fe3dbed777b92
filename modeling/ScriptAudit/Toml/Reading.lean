import ScriptAudit.Toml.Moment
import ScriptAudit.Toml.Number
import ScriptAudit.Toml.Table

/-!
# Reading TOML

`Toml.read?` turns a text into the table that it describes, or into nothing when the text is not
TOML 1.0. Arrays and inline tables nest less than eighty deep, and keys have fewer than eighty
parts.
-/

namespace ScriptAudit.Toml

open Data (Value)

def nestingLimit : Nat := 80

def skipSpaces (s : List Char) : List Char :=
  s.dropWhile isSpace

/-! ## Keys -/

def isBareKeyChar (c : Char) : Bool :=
  c.isAlphanum || c == '-' || c == '_'

def simpleKey (s : List Char) : Option (String × List Char) :=
  match s with
  | '"' :: _ | '\'' :: _ => (lineString s).map fun (k, rest) => (String.ofList k, rest)
  | _ =>
    let k := s.takeWhile isBareKeyChar
    if k.isEmpty then none else some (String.ofList k, s.dropWhile isBareKeyChar)

/-- The parts of a key with dots between them, spaces around each; at most `bound` of them. -/
def keyParts : Nat → List Char → Option (List String × List Char)
  | 0, _ => none
  | bound + 1, s => do
    let (part, rest) ← simpleKey (skipSpaces s)
    match skipSpaces rest with
    | '.' :: rest =>
      let (parts, rest) ← keyParts bound rest
      return (part :: parts, rest)
    | rest => return ([part], rest)

def key (s : List Char) : Option (List String × List Char) :=
  keyParts (nestingLimit - 1) s

/-! ## Blanks and comments -/

/-- Drops a comment, up to the line end or the end of the text. -/
def skipComment : List Char → List Char
  | '#' :: rest => rest.dropWhile isPrintable
  | s => s

/-- Drops spaces, line ends and comments, as they may stand between the values of an array;
`inComment` says whether the text starts inside a comment. -/
def skipFiller (inComment : Bool) : List Char → List Char
  | [] => []
  | '\n' :: rest => skipFiller false rest
  | '\r' :: '\n' :: rest => skipFiller false rest
  | c :: rest =>
    if inComment then (if isPrintable c then skipFiller true rest else c :: rest)
    else if c = '#' then skipFiller true rest
    else if isSpace c then skipFiller false rest
    else c :: rest

/-- What follows the end of a line, a comment before it skipped. -/
def afterLine? (s : List Char) : Option (List Char) :=
  match skipComment (skipSpaces s) with
  | [] => some []
  | rest => afterNewline? rest

/-! ## Values -/

/-- A number, date or time, tried in the order in which one may begin like another. -/
def numeric (s : List Char) : Option (Value × List Char) :=
  match moment s with
  | some (text, rest) =>
    some (.table [("$__toml_private_datetime", .text (String.ofList text))], rest)
  | none =>
    match float s with
    | some rest => some (.real, rest)
    | none => (integer s).map fun (n, rest) => (.int n, rest)

/-- A value that holds no other. -/
def scalar (s : List Char) : Option (Value × List Char) :=
  match s with
  | '"' :: _ | '\'' :: _ => (string s).map fun (t, rest) => (.text (String.ofList t), rest)
  | 't' :: 'r' :: 'u' :: 'e' :: rest => some (.bool true, rest)
  | 'f' :: 'a' :: 'l' :: 's' :: 'e' :: rest => some (.bool false, rest)
  | _ => numeric s

/-- The values of an array behind its opening bracket, at most `bound` of them. -/
def items (item : Reader Value) : Nat → Reader (List Value)
  | 0, _ => none
  | bound + 1, s =>
    match skipFiller false s with
    | ']' :: rest => some ([], rest)
    | s => do
      let (v, rest) ← item s
      match skipFiller false rest with
      | ',' :: rest => (items item bound rest).map fun (vs, rest) => (v :: vs, rest)
      | ']' :: rest => some ([v], rest)
      | _ => none

/-- A key, an equals sign and a value. -/
def pair (item : Reader Value) (s : List Char) : Option ((List String × Value) × List Char) := do
  let (k, rest) ← key s
  match rest with
  | '=' :: rest =>
    let (v, rest) ← item (skipSpaces rest)
    return ((k, v), skipSpaces rest)
  | _ => none

/-- The pairs of an inline table up to its closing brace, at least one and at most `bound`. -/
def pairs (item : Reader Value) : Nat → Reader (List (List String × Value))
  | 0, _ => none
  | bound + 1, s => do
    let (p, rest) ← pair item s
    match rest with
    | ',' :: rest => (pairs item bound rest).map fun (ps, rest) => (p :: ps, rest)
    | '\x7d' :: rest => some ([p], rest)
    | _ => none

def inlineTable (ps : List (List String × Value)) : Option Value :=
  (ps.foldlM (fun entries (k, v) => assign k v entries) []).map fun entries =>
    .table (entriesToValues entries)

/-- A value with at most `depth` arrays and inline tables inside one another. -/
def value : Nat → Reader Value
  | 0, s =>
    match s with
    | '[' :: _ | '\x7b' :: _ => none
    | _ => scalar s
  | depth + 1, s =>
    match s with
    | '[' :: rest => (items (value depth) (rest.length + 1) rest).map fun (vs, rest) =>
        (.list vs, rest)
    | '\x7b' :: rest =>
      match skipSpaces rest with
      | '\x7d' :: rest => some (.table [], rest)
      | rest => do
        let (ps, rest) ← pairs (value depth) (rest.length + 1) rest
        let v ← inlineTable ps
        return (v, rest)
    | _ => scalar s

/-! ## Lines -/

inductive Statement where
  | assignment (key : List String) (v : Value)
  | header (key : List String)
  | element (key : List String)

def statement (s : List Char) : Option (Statement × List Char) := do
  match s with
  | '[' :: '[' :: rest =>
    let (k, rest) ← key rest
    match rest with
    | ']' :: ']' :: rest => return (.element k, rest)
    | _ => none
  | '[' :: rest =>
    let (k, rest) ← key rest
    match rest with
    | ']' :: rest => return (.header k, rest)
    | _ => none
  | _ =>
    let ((k, v), rest) ← pair (value (nestingLimit - 1)) s
    return (.assignment k v, rest)

/-- All statements of a text, at most one a line and at most `bound` lines. -/
def statements : Nat → List Char → Option (List Statement)
  | 0, _ => none
  | bound + 1, s =>
    match skipSpaces s with
    | [] => some []
    | s =>
      match afterLine? s with
      | some rest => statements bound rest
      | none => do
        let (st, rest) ← statement s
        let rest ← afterLine? rest
        return st :: (← statements bound rest)

/-- The tables read so far and the key of the header that is open. -/
structure Building where
  root : Entries := []
  header : List String := []

def Building.step (b : Building) : Statement → Option Building
  | .assignment k v => (within (assign k v) b.header b.root).map fun root => { b with root }
  | .header k => (define k b.root).map fun root => { root, header := k }
  | .element k => (extend k b.root).map fun root => { root, header := k }

/-- The table that a text describes; a byte order mark at its start does not count. -/
def read? (source : String) : Option Value := do
  let text := match source.toList with
    | '\uFEFF' :: rest => rest
    | s => s
  let b ← (← statements (text.length + 1) text).foldlM Building.step {}
  return .table (entriesToValues b.root)

end ScriptAudit.Toml
