/-!
# TOML strings

The four kinds of string and the characters that each may hold as they are. A reader takes the text
behind the opening quotes and returns what the string holds with the text left; `none` means that
the text is malformed.
-/

namespace ScriptAudit.Toml

/-- Reads a value off the front of a text. -/
abbrev Reader (α : Type) := List Char → Option (α × List Char)

def isSpace (c : Char) : Bool :=
  c == ' ' || c == '\t'

/-- Tab, printable ASCII and everything beyond ASCII. -/
def isPrintable (c : Char) : Bool :=
  c == '\t' || (0x20 ≤ c.toNat && c.toNat != 0x7F)

def isBasicChar (c : Char) : Bool :=
  isPrintable c && c != '"' && c != '\\'

def isLiteralChar (c : Char) : Bool :=
  isPrintable c && c != '\''

/-- What follows a line end. -/
def afterNewline? : List Char → Option (List Char)
  | '\n' :: rest => some rest
  | '\r' :: '\n' :: rest => some rest
  | _ => none

def hexValue? (c : Char) : Option Nat :=
  if '0' ≤ c && c ≤ '9' then some (c.toNat - '0'.toNat)
  else if 'a' ≤ c && c ≤ 'f' then some (c.toNat - 'a'.toNat + 10)
  else if 'A' ≤ c && c ≤ 'F' then some (c.toNat - 'A'.toNat + 10)
  else none

/-- The character with a code point written in hexadecimal, surrogates excluded. -/
def codePoint? (digits : List Char) : Option Char := do
  let values ← digits.mapM hexValue?
  let n := values.foldl (fun n d => 16 * n + d) 0
  if h : n.isValidChar then some (Char.ofNatAux n h) else none

/-- The character that a letter behind a backslash stands for. -/
def escape? : Char → Option Char
  | 'b' => some '\x08'
  | 't' => some '\t'
  | 'n' => some '\n'
  | 'f' => some '\x0c'
  | 'r' => some '\r'
  | '"' => some '"'
  | '\\' => some '\\'
  | _ => none

/-- Puts a character that may be missing in front of what a reader found. -/
def prepend (c : Option Char) (found : Option (List Char × List Char)) :
    Option (List Char × List Char) :=
  match c, found with
  | some c, some (cs, rest) => some (c :: cs, rest)
  | _, _ => none

/-- A string in double quotes on one line. -/
def basic : Reader (List Char)
  | [] => none
  | '"' :: rest => some ([], rest)
  | '\\' :: 'u' :: a :: b :: c :: d :: rest => prepend (codePoint? [a, b, c, d]) (basic rest)
  | '\\' :: 'U' :: a :: b :: c :: d :: e :: f :: g :: h :: rest =>
    prepend (codePoint? [a, b, c, d, e, f, g, h]) (basic rest)
  | '\\' :: c :: rest => prepend (escape? c) (basic rest)
  | c :: rest => if isBasicChar c then prepend (some c) (basic rest) else none

/-- A string in single quotes on one line. -/
def literal : Reader (List Char)
  | [] => none
  | '\'' :: rest => some ([], rest)
  | c :: rest => if isLiteralChar c then prepend (some c) (literal rest) else none

/-- A backslash that ends its line, spaces behind it aside. -/
def endsLine (rest : List Char) : Bool :=
  (afterNewline? (rest.dropWhile isSpace)).isSome

/-- A string in three double quotes; up to two more may stand before the closing ones. `skipping`
holds behind a backslash at the end of a line, up to the next character that is not blank. -/
def basicBlock : Bool → Reader (List Char)
  | _, [] => none
  | true, '\r' :: '\n' :: rest => basicBlock true rest
  | true, '\n' :: rest => basicBlock true rest
  | true, ' ' :: rest => basicBlock true rest
  | true, '\t' :: rest => basicBlock true rest
  | _, '"' :: '"' :: '"' :: '"' :: '"' :: rest => some (['"', '"'], rest)
  | _, '"' :: '"' :: '"' :: '"' :: rest => some (['"'], rest)
  | _, '"' :: '"' :: '"' :: rest => some ([], rest)
  | _, '"' :: rest => prepend (some '"') (basicBlock false rest)
  | _, '\r' :: '\n' :: rest => prepend (some '\n') (basicBlock false rest)
  | _, '\n' :: rest => prepend (some '\n') (basicBlock false rest)
  | _, '\\' :: 'u' :: a :: b :: c :: d :: rest =>
    prepend (codePoint? [a, b, c, d]) (basicBlock false rest)
  | _, '\\' :: 'U' :: a :: b :: c :: d :: e :: f :: g :: h :: rest =>
    prepend (codePoint? [a, b, c, d, e, f, g, h]) (basicBlock false rest)
  | _, '\\' :: c :: rest =>
    if endsLine (c :: rest) then basicBlock true (c :: rest)
    else prepend (escape? c) (basicBlock false rest)
  | _, c :: rest => if isBasicChar c then prepend (some c) (basicBlock false rest) else none

/-- A string in three single quotes; up to two more may stand before the closing ones. -/
def literalBlock : Reader (List Char)
  | [] => none
  | '\'' :: '\'' :: '\'' :: '\'' :: '\'' :: rest => some (['\'', '\''], rest)
  | '\'' :: '\'' :: '\'' :: '\'' :: rest => some (['\''], rest)
  | '\'' :: '\'' :: '\'' :: rest => some ([], rest)
  | '\'' :: rest => prepend (some '\'') (literalBlock rest)
  | '\r' :: '\n' :: rest => prepend (some '\n') (literalBlock rest)
  | '\n' :: rest => prepend (some '\n') (literalBlock rest)
  | c :: rest => if isLiteralChar c then prepend (some c) (literalBlock rest) else none

/-- A line end right behind the opening quotes does not belong to the string. -/
def dropNewline (s : List Char) : List Char :=
  (afterNewline? s).getD s

/-- A string on one line, as it may also stand for a key. -/
def lineString : Reader (List Char)
  | '"' :: rest => basic rest
  | '\'' :: rest => literal rest
  | _ => none

def string : Reader (List Char)
  | '"' :: '"' :: '"' :: rest => basicBlock false (dropNewline rest)
  | '\'' :: '\'' :: '\'' :: rest => literalBlock (dropNewline rest)
  | s => lineString s

end ScriptAudit.Toml
