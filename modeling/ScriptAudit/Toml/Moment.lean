import ScriptAudit.Text.Blank
import ScriptAudit.Text.Decimal
import ScriptAudit.Toml.Quoted

/-!
# TOML dates and times

A date, a time, or both with a `T` or a space between them and perhaps an offset. A moment is kept
as its normal text: capital letters, a `T` in the middle, at most nine places of seconds and no
zeros at their end.
-/

namespace ScriptAudit.Toml

/-- A number of exactly `width` digits within bounds, with its digits. -/
def fixed (width low high : Nat) (s : List Char) : Option ((Nat × List Char) × List Char) :=
  let ds := s.take width
  let n := Text.decimalValue ds
  if ds.length = width && ds.all Text.isDigit && low ≤ n && n ≤ high then
    some ((n, ds), s.drop width)
  else none

def character (c : Char) : List Char → Option (List Char)
  | d :: rest => if c = d then some rest else none
  | [] => none

def isLeapYear (year : Nat) : Bool :=
  year % 4 = 0 && (year % 100 != 0 || year % 400 = 0)

def daysIn (year month : Nat) : Nat :=
  if month = 2 then (if isLeapYear year then 29 else 28)
  else if month = 4 || month = 6 || month = 9 || month = 11 then 30
  else 31

def date (s : List Char) : Option (List Char × List Char) := do
  let ((year, y), s) ← fixed 4 0 9999 s
  let s ← character '-' s
  let ((month, m), s) ← fixed 2 1 12 s
  let s ← character '-' s
  let ((_, d), s) ← fixed 2 1 (daysIn year month) s
  return (y ++ '-' :: m ++ '-' :: d, s)

/-- The places of a second: at most nine count, and zeros at their end do not. -/
def places (s : List Char) : List Char × List Char :=
  match s with
  | '.' :: rest =>
    let ds := rest.takeWhile Text.isDigit
    if ds.isEmpty then ([], s)
    else
      let kept := Text.dropEndWhile (· == '0') (ds.take 9)
      (if kept.isEmpty then [] else '.' :: kept, rest.dropWhile Text.isDigit)
  | _ => ([], s)

def time (s : List Char) : Option (List Char × List Char) := do
  let ((_, h), s) ← fixed 2 0 23 s
  let s ← character ':' s
  let ((_, m), s) ← fixed 2 0 59 s
  let s ← character ':' s
  let ((_, sec), s) ← fixed 2 0 60 s
  let (fraction, s) := places s
  return (h ++ ':' :: m ++ ':' :: sec ++ fraction, s)

/-- The offset, empty when there is none; a sign has to be followed by a whole one, and an offset of
zero is written with a plus. -/
def offset (s : List Char) : Option (List Char × List Char) :=
  match s with
  | 'Z' :: rest | 'z' :: rest => some (['Z'], rest)
  | c :: rest =>
    if c = '+' || c = '-' then do
      let ((hours, h), s) ← fixed 2 0 23 rest
      let s ← character ':' s
      let ((minutes, m), s) ← fixed 2 0 59 s
      return ((if hours = 0 && minutes = 0 then '+' else c) :: h ++ ':' :: m, s)
    else some ([], s)
  | [] => some ([], [])

/-- What follows the mark between a date and a time. -/
def afterTimeMark? : List Char → Option (List Char)
  | 'T' :: rest | 't' :: rest | ' ' :: rest => some rest
  | _ => none

def moment (s : List Char) : Option (List Char × List Char) :=
  match date s with
  | none => time s
  | some (d, rest) =>
    match (afterTimeMark? rest).bind time with
    | none => some (d, rest)
    | some (t, rest) => (offset rest).map fun (o, rest) => (d ++ 'T' :: t ++ o, rest)

end ScriptAudit.Toml
