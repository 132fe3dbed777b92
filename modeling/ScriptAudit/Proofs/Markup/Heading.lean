import Mathlib.Data.List.TakeWhile
import ScriptAudit.Markup.Heading
import ScriptAudit.Proofs.Text.Line
import ScriptAudit.Proofs.Text.Search

/-!
# Recognised headings

Which heading a line is, said of the line by itself: it is no fence line, an even number of fence
lines stands before it, and its text is a heading. Scanning the lines in order comes to the same.
-/

namespace ScriptAudit.Markup

/-- The fence lines among the first `i` lines. -/
def fencesBefore (ls : List (List Char)) (i : Nat) : Nat :=
  (ls.take i).countP isFence

/-- The heading that the line in place `i` is recognised as. -/
def recognised? (ls : List (List Char)) (i : Nat) (s : List Char) : Option Heading :=
  if isFence s || fencesBefore ls i % 2 = 1 then none else Heading.ofLine? s

/-- The lines with their numbers and the headings that they are recognised as. -/
def marked (ls : List (List Char)) : List Line :=
  ls.mapIdx fun i s => { number := i + 1, text := s, heading := recognised? ls i s }

namespace Line

/-- The section whose heading the line is. -/
def section? (l : Line) : Option Section :=
  match l.heading with
  | some (.ofSection s) => some s
  | _ => none

def entry (l : Line) : Nat × List Char :=
  (l.number, l.text)

theorem section?_eq_some_iff {l : Line} {s : Section} :
    l.section? = some s ↔ l.heading = some (.ofSection s) := by
  simp only [section?]
  split <;> simp_all

theorem isTestCase_iff {l : Line} :
    l.isTestCase = true ↔ ∃ title, l.heading = some (.testCase title) := by
  simp only [isTestCase]
  split <;> simp_all

theorem section?_of_heading_eq_none {l : Line} (h : l.heading = none) : l.section? = none := by
  rw [section?, h]

theorem isTestCase_of_heading_eq_none {l : Line} (h : l.heading = none) : l.isTestCase = false := by
  rw [isTestCase, h]

theorem section?_of_isTestCase {l : Line} (h : l.isTestCase = true) : l.section? = none := by
  obtain ⟨title, heading⟩ := isTestCase_iff.1 h
  rw [section?, heading]

/-- A line that is no heading of either kind is plain. -/
theorem heading_eq_none {l : Line} (htest : l.isTestCase = false) (hsection : l.section? = none) :
    l.heading = none := by
  simp only [isTestCase] at htest
  simp only [section?] at hsection
  split at htest
  · cases htest
  · rename_i other
    split at hsection
    · cases hsection
    · rename_i further
      cases heading : l.heading with
      | none => rfl
      | some h =>
        cases h with
        | testCase title => exact absurd heading (other title)
        | ofSection s => exact absurd heading (further s)

theorem scan_eq_mapIdx (fenced : Bool) (start : Nat) (ls : List (List Char)) :
    scan fenced (ls.mapIdx fun i s => (start + i + 1, s)) =
      ls.mapIdx fun i s =>
        { number := start + i + 1, text := s
          heading := if isFence s || (fencesBefore ls i + fenced.toNat) % 2 = 1 then none
            else Heading.ofLine? s } := by
  induction ls generalizing fenced start with
  | nil => rfl
  | cons s ls ih =>
    have shift (i : Nat) : start + (i + 1) + 1 = start + 1 + i + 1 := by omega
    simp only [List.mapIdx_cons, shift]
    rw [scan]
    cases hs : isFence s with
    | true =>
      rw [if_pos rfl, ih]
      refine List.cons_eq_cons.2 ⟨by simp, ?_⟩
      apply List.mapIdx_eq_mapIdx_iff.2
      intro i hi
      have count : fencesBefore (s :: ls) (i + 1) = fencesBefore ls i + 1 := by
        simp [fencesBefore, hs]
      have parity : (fencesBefore ls i + 1 + fenced.toNat) % 2 =
          (fencesBefore ls i + (!fenced).toNat) % 2 := by
        cases fenced
        · rfl
        · exact Nat.add_mod_right _ 2
      rw [count, parity]
    | false =>
      rw [if_neg (by simp), ih]
      refine List.cons_eq_cons.2 ⟨?_, ?_⟩
      · cases fenced <;> simp [fencesBefore]
      · apply List.mapIdx_eq_mapIdx_iff.2
        intro i hi
        have count : fencesBefore (s :: ls) (i + 1) = fencesBefore ls i := by
          simp [fencesBefore, hs]
        rw [count]

theorem scan_numbered (ls : List (List Char)) :
    scan false (Text.numbered ls) = marked ls := by
  have plain := scan_eq_mapIdx false 0 ls
  simpa [Text.numbered, marked, recognised?] using plain

theorem map_entry_scan (fenced : Bool) (ls : List (Nat × List Char)) :
    (scan fenced ls).map entry = ls := by
  induction ls generalizing fenced with
  | nil => rfl
  | cons l ls ih =>
    rw [scan]
    split <;> rw [List.map_cons, ih] <;> rfl

end Line

theorem map_entry_marked (ls : List (List Char)) :
    (marked ls).map Line.entry = Text.numbered ls := by
  rw [← Line.scan_numbered, Line.map_entry_scan]

theorem pairwise_marked (ls : List (List Char)) :
    (marked ls).Pairwise (·.number < ·.number) := by
  have numbers := Text.pairwise_numbered ls
  rw [← map_entry_marked, List.pairwise_map] at numbers
  exact numbers

/-! ## What a line starts with -/

theorem isFence_cons {c : Char} {s : List Char} (blank : Text.isBlank c = false)
    (other : ¬"```".toList <+: c :: s) : isFence (c :: s) = false := by
  have start : Text.trimStart (c :: s) = c :: s := by simp [Text.trimStart, blank]
  rw [isFence, start, Option.isSome_eq_false_iff, Option.isNone_iff_eq_none]
  cases found : Text.after? "```".toList (c :: s) with
  | none => rfl
  | some rest => exact absurd ⟨rest, (Text.eq_append_of_after? found).symm⟩ other

theorem not_starts_fence {c : Char} (other : c ≠ '\x60') (s : List Char) :
    ¬"```".toList <+: c :: s := by
  rintro ⟨rest, whole⟩
  exact other (List.cons.inj whole).1.symm

theorem Heading.ofLine?_cons {c : Char} (blank : Text.isBlank c = false) (other : c ≠ '#')
    (s : List Char) : Heading.ofLine? (c :: s) = none := by
  have start : Text.trimStart (c :: s) = c :: s := by simp [Text.trimStart, blank]
  simp [Heading.ofLine?, hashText?, start, other]

/-- A heading has a blank behind its hashes. -/
theorem Heading.ofLine?_of_no_blank {s : List Char} (h : ∀ c ∈ s, Text.isBlank c = false) :
    Heading.ofLine? s = none := by
  have start : Text.trimStart s = s := by
    rw [Text.trimStart, Text.dropWhile_eq_self_iff]
    exact fun c hc => h c (List.mem_of_head? hc)
  rw [ofLine?, hashText?, start]
  split
  · rename_i rest
    split
    · rename_i c text behind
      have within : c ∈ rest.dropWhile (· == '#') := by simp [behind]
      have := h c (List.mem_cons_of_mem _ ((List.dropWhile_suffix _).subset within))
      simp [this]
    · rfl
  · rfl

/-- A line that is blank is no heading. -/
theorem Heading.ofLine?_of_allBlank {s : List Char} (h : Text.allBlank s = true) :
    Heading.ofLine? s = none := by
  have nothing : Text.trimStart s = [] :=
    List.dropWhile_eq_nil_iff.2 fun c hc => List.all_eq_true.1 h c hc
  rw [ofLine?, hashText?, nothing]
  rfl

theorem isBlank_eq_false_of_heading {ls : List (List Char)} {l : Line} (hl : l ∈ marked ls)
    {h : Heading} (heading : l.heading = some h) : l.isBlank = false := by
  obtain ⟨i, hi, rfl⟩ := List.mem_mapIdx.1 hl
  cases blank : Line.isBlank _ with
  | false => rfl
  | true =>
    dsimp only [recognised?] at heading
    split at heading
    · cases heading
    · rw [Heading.ofLine?_of_allBlank blank] at heading
      cases heading

/-! ## Marks of joined texts -/

/-- The marks of lines that stand below `start` others, `fences` of which are fence lines. -/
def markedFrom (start fences : Nat) (ls : List (List Char)) : List Line :=
  ls.mapIdx fun i s =>
    { number := start + i + 1, text := s
      heading := if isFence s || (fences + fencesBefore ls i) % 2 = 1 then none
        else Heading.ofLine? s }

theorem marked_eq_markedFrom (ls : List (List Char)) : marked ls = markedFrom 0 0 ls := by
  simp [marked, markedFrom, recognised?]

theorem markedFrom_append (start fences : Nat) (a b : List (List Char)) :
    markedFrom start fences (a ++ b) =
      markedFrom start fences a ++ markedFrom (start + a.length) (fences + a.countP isFence) b := by
  rw [markedFrom, List.mapIdx_append, markedFrom, markedFrom]
  refine congr (congrArg _ ?_) ?_
  · apply List.mapIdx_eq_mapIdx_iff.2
    intro i hi
    rw [fencesBefore, List.take_append_of_le_length (Nat.le_of_lt hi), fencesBefore]
  · apply List.mapIdx_eq_mapIdx_iff.2
    intro i hi
    have count : fencesBefore (a ++ b) (i + a.length) = a.countP isFence + fencesBefore b i := by
      rw [fencesBefore, List.take_append, List.take_of_length_le (by omega), List.countP_append,
        fencesBefore]
      simp
    have number : start + (i + a.length) = start + a.length + i := by omega
    rw [count, number, ← Nat.add_assoc]

theorem bounds_of_mem_markedFrom {start fences : Nat} {ls : List (List Char)} {l : Line}
    (h : l ∈ markedFrom start fences ls) :
    start < l.number ∧ l.number ≤ start + ls.length ∧ l.text ∈ ls := by
  obtain ⟨i, hi, rfl⟩ := List.mem_mapIdx.1 h
  refine ⟨?_, ?_, List.getElem_mem hi⟩ <;> dsimp only <;> omega

theorem markedFrom_cons (start fences : Nat) (s : List Char) (ls : List (List Char)) :
    markedFrom start fences (s :: ls) =
      { number := start + 1, text := s
        heading := if isFence s || fences % 2 = 1 then none else Heading.ofLine? s } ::
      markedFrom (start + 1) (fences + (isFence s).toNat) ls := by
  have split := markedFrom_append start fences [s] ls
  have count : [s].countP isFence = (isFence s).toNat := by
    cases own : isFence s <;> simp [own]
  rw [List.singleton_append, count, List.length_singleton] at split
  rw [split]
  rfl

/-- Inside an open fence nothing is a heading. -/
theorem markedFrom_of_odd {fences : Nat} (odd : fences % 2 = 1) {ls : List (List Char)}
    (free : ∀ l ∈ ls, isFence l = false) (start : Nat) :
    markedFrom start fences ls = ls.mapIdx fun i s => ⟨start + i + 1, s, none⟩ := by
  apply List.mapIdx_eq_mapIdx_iff.2
  intro i hi
  have none : fencesBefore ls i = 0 :=
    List.countP_eq_zero.2 fun l hl => by simp [free l (List.mem_of_mem_take hl)]
  simp [none, odd]

end ScriptAudit.Markup
