import ScriptAudit.Text.Decimal
import ScriptAudit.Toml.Quoted

/-!
# TOML numbers

Integers are 64-bit and signed; they may be decimal, or hexadecimal, octal or binary without a
sign. Other numbers are only recognised. A single underscore may stand between two digits.
-/

namespace ScriptAudit.Toml

/-- A run of digits of a class, with single underscores between them: the digits alone. -/
def digits (p : Char → Bool) : Reader (List Char)
  | c :: rest => if p c then some (more c rest) else none
  | [] => none
where
  /-- The digits from `c` on, and what follows. -/
  more (c : Char) : List Char → List Char × List Char
    | '_' :: d :: rest =>
      if p d then (c :: (more d rest).1, (more d rest).2) else ([c], '_' :: d :: rest)
    | d :: rest => if p d then (c :: (more d rest).1, (more d rest).2) else ([c], d :: rest)
    | [] => ([c], [])

/-- Whether a sign is there and is a minus. -/
def sign : List Char → Bool × List Char
  | '-' :: rest => (true, rest)
  | '+' :: rest => (false, rest)
  | s => (false, s)

/-- Decimal digits; a zero in front stands alone. -/
def decimalDigits : Reader (List Char)
  | '0' :: rest => some (['0'], rest)
  | s => digits Text.isDigit s

/-- One more than the largest integer. -/
def integerBound : Nat := Nat.pow 2 63

def isIntegerRange (n : Int) : Bool :=
  -(integerBound : Int) ≤ n && n < integerBound

def inRange? (n : Int) (rest : List Char) : Option (Int × List Char) :=
  if isIntegerRange n then some (n, rest) else none

def radixValue (radix : Nat) (ds : List Char) : Nat :=
  ds.foldl (fun n c => radix * n + (hexValue? c).getD 0) 0

def radixInteger (radix : Nat) (s : List Char) : Option (Int × List Char) := do
  let isDigit := fun c => match hexValue? c with
    | some v => v < radix
    | none => false
  let (ds, rest) ← digits isDigit s
  inRange? (radixValue radix ds) rest

def integer : Reader Int
  | '0' :: 'x' :: rest => radixInteger 16 rest
  | '0' :: 'o' :: rest => radixInteger 8 rest
  | '0' :: 'b' :: rest => radixInteger 2 rest
  | s => do
    let (negative, unsigned) := sign s
    let (ds, rest) ← decimalDigits unsigned
    let n : Int := Text.decimalValue ds
    inRange? (if negative then -n else n) rest

/-- The exponent behind an `e`. -/
def exponent? : Reader Int
  | 'e' :: rest | 'E' :: rest => do
    let (negative, unsigned) := sign rest
    let (ds, rest) ← digits Text.isDigit unsigned
    let n : Int := Text.decimalValue ds
    some (if negative then -n else n, rest)
  | _ => none

def fraction? : Reader (List Char)
  | '.' :: rest => digits Text.isDigit rest
  | _ => none

/-- The numbers from here on round to infinity. -/
def overflowBound : Nat := Nat.pow 2 1024 - Nat.pow 2 970

/-- Whether `mantissa * 10 ^ exponent` is too large for a double. -/
def overflows (mantissa : Nat) (exponent : Int) : Bool :=
  let size : Int := (toString mantissa).length + exponent
  if mantissa = 0 || size < 300 then false
  else if 320 < size then true
  else if exponent < 0 then overflowBound * Nat.pow 10 exponent.natAbs ≤ mantissa
  else overflowBound ≤ mantissa * Nat.pow 10 exponent.natAbs

/-- A number with a fraction or an exponent, below the positive overflow. -/
def decimalFloat (s : List Char) : Option (List Char) := do
  let (negative, unsigned) := sign s
  let (whole, rest) ← decimalDigits unsigned
  let (places, afterPlaces) := (fraction? rest).getD ([], rest)
  let (exponent, afterExponent) := (exponent? afterPlaces).getD (0, afterPlaces)
  let mantissa := Text.decimalValue (whole ++ places)
  if afterExponent.length = rest.length then none
  else if !negative && overflows mantissa (exponent - places.length) then none
  else some afterExponent

def specialFloat (s : List Char) : Option (List Char) :=
  match (sign s).2 with
  | 'i' :: 'n' :: 'f' :: rest => some rest
  | 'n' :: 'a' :: 'n' :: rest => some rest
  | _ => none

/-- What follows a number that is no integer. -/
def float (s : List Char) : Option (List Char) :=
  (decimalFloat s).or (specialFloat s)

end ScriptAudit.Toml
