/-!
# Visible text

What is left of a text when the control characters and control sequences of terminals are taken out.
A sequence begins with an escape character. Blank control characters that stand inside one are
shown, and so is what follows them up to the next character that is not; there the sequence goes on.
-/

namespace ScriptAudit.Text

/-- How far a control sequence has been read. -/
inductive Sequence where
  /-- No sequence is open. -/
  | closed
  | escape
  | escapeIntermediate
  | control
  /-- A command to the system, ended by a bell. -/
  | command
  | device
  | deviceParameters
  | deviceIntermediate
  /-- A string, ended by the byte 156. -/
  | string
deriving DecidableEq, Repr

/-- A control character that moves the place of output only. -/
def isMove (c : Char) : Bool :=
  c = '\t' || c = '\n' || c = '\x0c' || c = '\r'

/-- Whether the byte 156 occurs in the UTF-8 form of a character. -/
def closesString (c : Char) : Bool :=
  (String.utf8EncodeChar c).contains 156

namespace Sequence

def shows : Sequence → Char → Bool
  | closed, c => isMove c || (' ' ≤ c && c != '\x7f')
  | escape, c | escapeIntermediate, c | control, c => isMove c
  | _, _ => false

/-- What a character does to the sequence that it stands in. An escape character begins a new one
and the two cancelling characters close any. -/
def next (s : Sequence) (c : Char) : Sequence :=
  if c = '\x1b' then escape
  else if c = '\x18' || c = '\x1a' then closed
  else match s with
    | closed => closed
    | escape =>
      if ' ' ≤ c && c ≤ '/' then escapeIntermediate
      else if c = '[' then control
      else if c = ']' then command
      else if c = 'P' then device
      else if c = 'X' || c = '^' || c = '_' then string
      else if '0' ≤ c && c ≤ '~' then closed
      else escape
    | escapeIntermediate => if '0' ≤ c && c ≤ '~' then closed else escapeIntermediate
    | control => if '@' ≤ c && c ≤ '~' then closed else control
    | command => if c = '\x07' then closed else command
    | device =>
      if ' ' ≤ c && c ≤ '/' then deviceIntermediate
      else if '0' ≤ c && c ≤ '?' then deviceParameters
      else if '@' ≤ c && c ≤ '~' then string
      else device
    | deviceParameters =>
      if ' ' ≤ c && c ≤ '/' then deviceIntermediate
      else if '<' ≤ c && c ≤ '~' then string
      else deviceParameters
    | deviceIntermediate => if '0' ≤ c && c ≤ '~' then string else deviceIntermediate
    | string => if closesString c then closed else string

end Sequence

/-- Reads on within `s`; `shown` says whether the character before was shown. -/
def visibleFrom (shown : Bool) (s : Sequence) : List Char → List Char
  | [] => []
  | c :: rest =>
    if (if shown then .closed else s : Sequence).shows c then
      c :: visibleFrom true (if c.toNat < 128 then s else .closed) rest
    else visibleFrom false (s.next c) rest

def visible (s : List Char) : List Char :=
  visibleFrom false .closed s

theorem visibleFrom_eq_self {shown : Bool} {s : List Char}
    (h : ∀ c ∈ s, Sequence.closed.shows c) : visibleFrom shown .closed s = s := by
  induction s generalizing shown with
  | nil => rfl
  | cons c rest ih =>
    have hc := h c List.mem_cons_self
    have hrest := fun d hd => h d (List.mem_cons_of_mem c hd)
    simp [visibleFrom, hc, ih hrest]

/-- A text with nothing to take out stays as it is. -/
theorem visible_eq_self {s : List Char} (h : ∀ c ∈ s, Sequence.closed.shows c) : visible s = s :=
  visibleFrom_eq_self h

end ScriptAudit.Text
