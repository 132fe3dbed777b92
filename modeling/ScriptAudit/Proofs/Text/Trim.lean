import Mathlib.Data.List.TakeWhile
import ScriptAudit.Proofs.Text.Search

/-!
# Trimmed texts

A text is its trimmed form between two runs of blanks. A word without blanks is found in the text
exactly where it is found in the trimmed form.
-/

namespace ScriptAudit.Text

theorem exists_trimEnd_append (s : List Char) :
    ∃ gap, s = trimEnd s ++ gap ∧ allBlank gap = true := by
  obtain ⟨gap, whole, blank, _⟩ := exists_dropEndWhile_append isBlank s
  exact ⟨gap, whole, List.all_eq_true.2 blank⟩

theorem trim_eq_trimEnd_trimStart (s : List Char) : trim s = trimEnd (trimStart s) :=
  rfl

theorem exists_trim_append (s : List Char) :
    ∃ front back, s = front ++ trim s ++ back ∧ allBlank front = true ∧ allBlank back = true := by
  obtain ⟨front, whole, blank, _⟩ := trimStart_eq_iff.1 (rfl : trimStart s = trimStart s)
  obtain ⟨back, rest, blank'⟩ := exists_trimEnd_append (trimStart s)
  refine ⟨front, back, ?_, blank, blank'⟩
  rw [trim_eq_trimEnd_trimStart, List.append_assoc, ← rest, ← whole]

theorem trim_trim (s : List Char) : trim (trim s) = trim s := by
  obtain ⟨front, back, whole, blank, blank'⟩ := exists_trim_append s
  conv => rhs; rw [whole, trim_append_of_allBlank blank', trim_allBlank_append blank]

theorem allBlank_append (a b : List Char) : allBlank (a ++ b) = (allBlank a && allBlank b) :=
  List.all_append

theorem allBlank_trim (s : List Char) : allBlank (trim s) = allBlank s := by
  obtain ⟨front, back, whole, blank, blank'⟩ := exists_trim_append s
  conv => rhs; rw [whole, allBlank_append, allBlank_append, blank, blank']
  simp

theorem trim_eq_nil_iff {s : List Char} : trim s = [] ↔ allBlank s = true := by
  constructor
  · intro nothing
    rw [← allBlank_trim, nothing]
    rfl
  · intro blank
    rw [← List.append_nil s, trim_allBlank_append blank]
    rfl

/-- A trimmed text starts with no blank. -/
theorem isBlank_head?_trim {s : List Char} {c : Char} (h : (trim s).head? = some c) :
    isBlank c = false :=
  (trim_eq_self_iff.1 (trim_trim s)).1 c h

theorem trimStart_trim (s : List Char) : trimStart (trim s) = trim s :=
  dropWhile_eq_self_iff.2 fun _ first => isBlank_head?_trim first

/-- Blanks around a text do not count. -/
theorem trim_between {front back : List Char} (blank : allBlank front = true)
    (blank' : allBlank back = true) (s : List Char) : trim (front ++ s ++ back) = trim s := by
  rw [trim_append_of_allBlank blank', trim_allBlank_append blank]

/-- Pieces that are written and trimmed make a trimmed text. -/
theorem trim_intercalate_space {pieces : List (List Char)}
    (h : ∀ p ∈ pieces, p ≠ [] ∧ trim p = p) :
    trim ([' '].intercalate pieces) = [' '].intercalate pieces := by
  induction pieces with
  | nil => rfl
  | cons p pieces ih =>
    obtain ⟨⟨written, trimmed⟩, others⟩ := List.forall_mem_cons.1 h
    by_cases more : pieces = []
    · rw [more, List.intercalate_singleton, trimmed]
    · obtain ⟨c, front, rfl⟩ := List.exists_cons_of_ne_nil written
      obtain ⟨q, rest, rfl⟩ := List.exists_cons_of_ne_nil more
      have dense : isBlank c = false := (trim_eq_self_iff.1 trimmed).1 c rfl
      have some : [' '].intercalate (q :: rest) ≠ [] := by
        obtain ⟨d, hd⟩ := List.exists_mem_of_ne_nil q (others q List.mem_cons_self).1
        exact List.ne_nil_of_mem (mem_intercalate_of_mem List.mem_cons_self hd)
      rw [List.intercalate_cons_of_ne_nil more, List.cons_append]
      exact trim_append dense _ (ih others) some

/-! ## Texts with something written in them -/

theorem exists_of_not_allBlank {s : List Char} (written : allBlank s = false) :
    ∃ a c b, s = a ++ c :: b ∧ isBlank c = false := by
  obtain ⟨c, hc, dense⟩ := List.all_eq_false.1 written
  obtain ⟨a, b, rfl⟩ := List.append_of_mem hc
  exact ⟨a, c, b, rfl, by simpa using dense⟩

theorem trimStart_append_of_written {s : List Char} (written : allBlank s = false)
    (t : List Char) : trimStart (s ++ t) = trimStart s ++ t := by
  rw [trimStart, List.dropWhile_append, if_neg]
  · rfl
  · rw [List.isEmpty_iff, List.dropWhile_eq_nil_iff]
    intro blank
    rw [allBlank, List.all_eq_true.2 blank] at written
    cases written

theorem trimEnd_append_of_written {s : List Char} (written : allBlank s = false)
    (t : List Char) : trimEnd (t ++ s) = t ++ trimEnd s := by
  obtain ⟨a, c, b, rfl, dense⟩ := exists_of_not_allBlank written
  rw [← List.append_assoc, trimEnd_append_cons dense, trimEnd_append_cons dense,
    List.append_assoc]

/-- Trimming takes no more off the end when something is put behind. -/
theorem trimEnd_prefix_trimEnd_append (s t : List Char) : trimEnd s <+: trimEnd (s ++ t) := by
  obtain ⟨gap, whole, _, ending⟩ := exists_dropEndWhile_append isBlank s
  rcases List.eq_nil_or_concat (trimEnd s) with nothing | ⟨a, c, shape⟩
  · rw [nothing]
    exact List.nil_prefix
  · rw [List.concat_eq_append] at shape
    have dense : isBlank c = false := ending c (by rw [← trimEnd, shape]; simp)
    have behind : s ++ t = a ++ c :: (gap ++ t) := by
      rw [whole, ← trimEnd, shape]
      simp
    rw [behind, trimEnd_append_cons dense, shape]
    exact ⟨trimEnd (gap ++ t), by simp⟩

theorem trim_prefix_trim_append {s : List Char} (written : allBlank s = false) (t : List Char) :
    trim s <+: trim (s ++ t) := by
  rw [trim_eq_trimEnd_trimStart, trim_eq_trimEnd_trimStart, trimStart_append_of_written written]
  exact trimEnd_prefix_trimEnd_append _ t

/-! ## Words without blanks -/

theorem prefix_trimEnd_iff {word : List Char} (dense : ∀ c ∈ word, isBlank c = false)
    {s : List Char} : word <+: trimEnd s ↔ word <+: s := by
  obtain ⟨gap, whole, blank⟩ := exists_trimEnd_append s
  constructor
  · intro h
    rw [whole]
    exact h.trans (List.prefix_append _ _)
  · intro h
    rw [whole] at h
    rcases List.prefix_or_prefix_of_prefix h (List.prefix_append _ _) with inside | ⟨tail, rfl⟩
    · exact inside
    · have within : tail <+: gap := (List.prefix_append_right_inj _).1 h
      cases tail with
      | nil => simp
      | cons c tail =>
        have hc := dense c (by simp)
        rw [List.all_eq_true.1 blank c (within.subset List.mem_cons_self)] at hc
        cases hc

theorem after?_isSome_iff {word s : List Char} : (after? word s).isSome = true ↔ word <+: s := by
  constructor
  · intro h
    obtain ⟨rest, found⟩ := Option.isSome_iff_exists.1 h
    exact ⟨rest, (eq_append_of_after? found).symm⟩
  · rintro ⟨rest, rfl⟩
    rw [after?_append]
    rfl

/-- A word that starts with no blank is in no run of blanks. -/
theorem not_infix_of_allBlank {c : Char} (hc : isBlank c = false) {word gap : List Char}
    (blank : allBlank gap = true) : ¬c :: word <:+: gap := by
  intro inside
  rw [List.all_eq_true.1 blank c (inside.subset List.mem_cons_self)] at hc
  cases hc

theorem infix_append_of_allBlank {c : Char} {word gap : List Char}
    (dense : ∀ d ∈ c :: word, isBlank d = false) (blank : allBlank gap = true) {s : List Char} :
    c :: word <:+: s ++ gap ↔ c :: word <:+: s := by
  refine ⟨fun h => ?_, fun h => h.trans (List.prefix_append _ _).isInfix⟩
  cases gap with
  | nil => simpa using h
  | cons d gap =>
    have hd : isBlank d = true := List.all_eq_true.1 blank d List.mem_cons_self
    have free : d ∉ c :: word := by
      intro mem
      rw [dense d mem] at hd
      cases hd
    rcases infix_of_infix_append_cons free h with inside | inside
    · exact inside
    · have blank' : allBlank gap = true :=
        List.all_eq_true.2 fun e he => List.all_eq_true.1 blank e (List.mem_cons_of_mem _ he)
      exact absurd inside (not_infix_of_allBlank (dense c List.mem_cons_self) blank')

/-- What is put behind a text leaves the first occurrence of a word where it is. -/
theorem cut?_append_right {word s a b : List Char} (h : cut? word s = some (a, b))
    (t : List Char) : cut? word (s ++ t) = some (a, b ++ t) := by
  induction s generalizing a with
  | nil =>
    obtain ⟨b', found, same⟩ := Option.map_eq_some_iff.1 h
    cases same
    have empty := eq_append_of_after? found
    obtain ⟨rfl, rfl⟩ := List.append_eq_nil_iff.1 empty.symm
    cases t <;> rfl
  | cons c s ih =>
    rw [List.cons_append, cut?]
    rw [cut?] at h
    cases found : after? word (c :: s) with
    | some rest =>
      rw [found] at h
      cases h
      have whole : c :: (s ++ t) = word ++ (b ++ t) := by
        rw [← List.cons_append, eq_append_of_after? found, List.append_assoc]
      rw [whole, after?_append]
    | none =>
      rw [found] at h
      obtain ⟨⟨a', b'⟩, tail, same⟩ := Option.map_eq_some_iff.1 h
      cases same
      -- the word fits into `s`, so none that starts with `c` reaches into `t`
      have fits : word.length ≤ (c :: s).length := by
        rw [eq_append_of_cut? tail]
        simp only [List.length_cons, List.length_append]
        omega
      cases reaches : after? word (c :: (s ++ t)) with
      | some rest =>
        have start : word <+: (c :: s) ++ t := ⟨rest, (eq_append_of_after? reaches).symm⟩
        have inside := List.prefix_of_prefix_length_le start (List.prefix_append _ _) fits
        rw [← after?_isSome_iff, found] at inside
        cases inside
      | none =>
        dsimp only
        rw [ih tail]
        rfl

/-- A character in front with which the word does not start leaves the rest to be searched. -/
theorem cut?_append_left {c : Char} {gap : List Char} (free : c ∉ gap) (word s : List Char) :
    cut? (c :: word) (gap ++ s) = (cut? (c :: word) s).map fun (a, b) => (gap ++ a, b) := by
  induction gap with
  | nil => simp
  | cons d gap ih =>
    obtain ⟨apart, free⟩ := not_or.1 (List.mem_cons.not.1 free)
    rw [List.cons_append, cut?, after?, if_neg apart, ih free, Option.map_map]
    rfl

end ScriptAudit.Text
