import ScriptAudit.Proofs.Text.Line
import ScriptAudit.Proofs.Text.Trim

/-!
# Edits of texts

What becomes of the lines of a text when blanks are put around them, when they are ended in another
way, and when a blank line is put between them.
-/

namespace ScriptAudit.Text

/-- The text with blanks put around its lines; line `n` gets those that `pad n` holds. -/
def padLines (pad : Nat → List Char × List Char) (s : List Char) : List Char :=
  ['\n'].intercalate ((s.splitOn '\n').mapIdx fun i p => (pad (i + 1)).1 ++ p ++ (pad (i + 1)).2)

/-- The text with a carriage return put before every line feed. -/
def withReturns (s : List Char) : List Char :=
  ['\r', '\n'].intercalate (s.splitOn '\n')

/-- The text with a line put behind its first `i` lines. -/
def insertLine (i : Nat) (line s : List Char) : List Char :=
  ['\n'].intercalate ((s.splitOn '\n').take i ++ line :: (s.splitOn '\n').drop i)

/-! ## Pieces -/

theorem exists_pieces (s : List Char) : ∃ front last, s.splitOn '\n' = front ++ [last] :=
  ⟨_, _, (List.dropLast_concat_getLast (List.splitOn_ne_nil '\n' s)).symm⟩

/-- What stands behind the last line feed is a line unless it is empty. -/
theorem lines_of_pieces {s last : List Char} {front : List (List Char)}
    (pieces : s.splitOn '\n' = front ++ [last]) :
    lines s = front.map dropReturn ++ if last.isEmpty then [] else [last] := by
  rw [lines, pieces]
  cases last <;> simp

theorem lines_intercalate {front : List (List Char)} {last : List Char}
    (single : ∀ p ∈ front ++ [last], '\n' ∉ p) :
    lines (['\n'].intercalate (front ++ [last])) =
      front.map dropReturn ++ if last.isEmpty then [] else [last] :=
  lines_of_pieces (List.splitOn_intercalate '\n' single (by simp))

theorem dropReturn_of_not_mem {s : List Char} (free : '\r' ∉ s) : dropReturn s = s :=
  dropReturn_eq_self fun last => free (List.mem_of_getLast? last)

theorem map_dropReturn_of_not_mem {ls : List (List Char)} (free : ∀ l ∈ ls, '\r' ∉ l) :
    ls.map dropReturn = ls := by
  rw [List.map_congr_left fun l hl => dropReturn_of_not_mem (free l hl), List.map_id']

theorem dropReturn_append_return (s : List Char) : dropReturn (s ++ ['\r']) = s := by
  simp [dropReturn]

theorem trim_dropReturn (s : List Char) : trim (dropReturn s) = trim s := by
  by_cases ending : s.getLast? = some '\r'
  · obtain ⟨front, rfl⟩ := List.getLast?_eq_some_iff.1 ending
    rw [dropReturn_append_return, trim_append_of_allBlank (by decide)]
  · rw [dropReturn_eq_self ending]

/-! ## The first character -/

theorem head?_append_ne {c : Char} {s t : List Char} (hs : s.head? ≠ some c)
    (ht : t.head? ≠ some c) : (s ++ t).head? ≠ some c := by
  cases s with
  | nil => exact ht
  | cons d s => exact hs

theorem head?_intercalate_ne {c : Char} {separator p : List Char} {pieces : List (List Char)}
    (first : p.head? ≠ some c) (between : ∃ d, separator.head? = some d ∧ d ≠ c) :
    (separator.intercalate (p :: pieces)).head? ≠ some c := by
  by_cases more : pieces = []
  · rwa [more, List.intercalate_singleton]
  · obtain ⟨d, head, apart⟩ := between
    obtain ⟨rest, rfl⟩ := List.head?_eq_some_iff.1 head
    rw [List.intercalate_cons_of_ne_nil more, List.append_assoc]
    exact head?_append_ne first fun same => apart (Option.some.inj same)

theorem head?_of_splitOn {c : Char} {s p : List Char} {pieces : List (List Char)}
    (split : s.splitOn '\n' = p :: pieces) (first : s.head? ≠ some c) : p.head? ≠ some c := by
  intro head
  have whole : ['\n'].intercalate (p :: pieces) = s := split ▸ List.intercalate_splitOn '\n'
  rw [← whole] at first
  obtain ⟨rest, rfl⟩ := List.head?_eq_some_iff.1 head
  by_cases more : pieces = []
  · rw [more, List.intercalate_singleton] at first
    exact first rfl
  · rw [List.intercalate_cons_of_ne_nil more] at first
    exact first rfl

/-! ## Blanks around lines -/

section padLines

variable {pad : Nat → List Char × List Char} {s : List Char}

theorem not_mem_padded {c : Char} (pads : ∀ n, c ∉ (pad n).1 ∧ c ∉ (pad n).2)
    {pieces : List (List Char)} (free : ∀ p ∈ pieces, c ∉ p) :
    ∀ l ∈ pieces.mapIdx fun i p => (pad (i + 1)).1 ++ p ++ (pad (i + 1)).2, c ∉ l := by
  intro l hl hc
  obtain ⟨i, hi, rfl⟩ := List.mem_mapIdx.1 hl
  simp only [List.mem_append, (pads (i + 1)).1, (pads (i + 1)).2, false_or, or_false] at hc
  exact free _ (List.getElem_mem hi) hc

theorem not_mem_padLines {c : Char} (feed : c ≠ '\n')
    (pads : ∀ n, c ∉ (pad n).1 ∧ c ∉ (pad n).2) (free : c ∉ s) : c ∉ padLines pad s := by
  intro mem
  rcases mem_intercalate mem with same | ⟨line, hline, hc⟩
  · exact feed same
  · exact not_mem_padded pads (fun p hp hc => free (mem_of_mem_splitOn hp hc)) line hline hc

theorem head?_padLines_ne {c : Char} (feed : c ≠ '\n')
    (pads : ∀ n, c ∉ (pad n).1 ∧ c ∉ (pad n).2) (first : s.head? ≠ some c) :
    (padLines pad s).head? ≠ some c := by
  obtain ⟨p, pieces, split⟩ := List.exists_cons_of_ne_nil (List.splitOn_ne_nil '\n' s)
  rw [padLines, split, List.mapIdx_cons]
  refine head?_intercalate_ne ?_ ⟨'\n', rfl, feed.symm⟩
  refine head?_append_ne (head?_append_ne ?_ (head?_of_splitOn split first)) ?_
  · exact fun h => (pads (0 + 1)).1 (List.mem_of_mem_head? h)
  · exact fun h => (pads (0 + 1)).2 (List.mem_of_mem_head? h)

theorem lines_padLines (feed : ∀ n, '\n' ∉ (pad n).1 ∧ '\n' ∉ (pad n).2)
    (carriage : ∀ n, '\r' ∉ (pad n).1 ∧ '\r' ∉ (pad n).2) (free : '\r' ∉ s)
    (beyond : ∀ n, (lines s).length < n → pad n = ([], [])) :
    lines (padLines pad s) =
      (lines s).mapIdx fun i l => (pad (i + 1)).1 ++ l ++ (pad (i + 1)).2 := by
  obtain ⟨front, last, pieces⟩ := exists_pieces s
  have single : ∀ p ∈ front ++ [last], '\n' ∉ p := fun p hp =>
    not_mem_of_mem_splitOn (pieces ▸ hp)
  have free' : ∀ p ∈ front ++ [last], '\r' ∉ p := fun p hp hc =>
    free (mem_of_mem_splitOn (pieces ▸ hp) hc)
  have single' := not_mem_padded feed single
  have free'' := not_mem_padded carriage free'
  rw [List.mapIdx_append, List.mapIdx_singleton, Nat.zero_add] at single' free''
  have own : lines s = front ++ if last.isEmpty then [] else [last] := by
    rw [lines_of_pieces pieces, map_dropReturn_of_not_mem fun p hp =>
      free' p (List.mem_append_left _ hp)]
  rw [padLines, pieces, List.mapIdx_append, List.mapIdx_singleton, Nat.zero_add,
    lines_intercalate single', map_dropReturn_of_not_mem fun p hp =>
      free'' p (List.mem_append_left _ hp), own, List.mapIdx_append]
  congr 1
  cases last with
  | nil =>
    have none := beyond (front.length + 1) (by rw [own]; simp)
    simp [none]
  | cons c last => simp

end padLines

/-! ## Carriage returns -/

theorem intercalate_returns (front : List (List Char)) (last : List Char) :
    ['\r', '\n'].intercalate (front ++ [last]) =
      ['\n'].intercalate (front.map (· ++ ['\r']) ++ [last]) := by
  induction front with
  | nil => rfl
  | cons p front ih =>
    rw [List.map_cons, List.cons_append, List.cons_append,
      List.intercalate_cons_of_ne_nil (by simp), List.intercalate_cons_of_ne_nil (by simp), ih]
    simp

/-- A text without carriage returns has the same lines with them. -/
theorem lines_withReturns {s : List Char} (free : '\r' ∉ s) : lines (withReturns s) = lines s := by
  obtain ⟨front, last, pieces⟩ := exists_pieces s
  have single : ∀ p ∈ front.map (· ++ ['\r']) ++ [last], '\n' ∉ p := by
    have inner : ∀ p ∈ front ++ [last], '\n' ∉ p := fun p hp =>
      not_mem_of_mem_splitOn (pieces ▸ hp)
    rw [List.forall_mem_append] at inner ⊢
    exact ⟨List.forall_mem_map.2 fun p hp => by simpa using inner.1 p hp, inner.2⟩
  have free' : ∀ p ∈ front, '\r' ∉ p := fun p hp hc =>
    free (mem_of_mem_splitOn (pieces ▸ List.mem_append_left _ hp) hc)
  rw [withReturns, pieces, intercalate_returns, lines_intercalate single, List.map_map,
    lines_of_pieces pieces, map_dropReturn_of_not_mem free']
  simp only [Function.comp_def, dropReturn_append_return, List.map_id']

theorem head?_withReturns_ne {c : Char} {s : List Char} (carriage : c ≠ '\r')
    (first : s.head? ≠ some c) : (withReturns s).head? ≠ some c := by
  obtain ⟨p, pieces, split⟩ := List.exists_cons_of_ne_nil (List.splitOn_ne_nil '\n' s)
  rw [withReturns, split]
  exact head?_intercalate_ne (head?_of_splitOn split first) ⟨'\r', rfl, carriage.symm⟩

/-! ## Blank lines -/

theorem head?_insertLine_ne {i : Nat} {c : Char} {line s : List Char} (feed : c ≠ '\n')
    (free : c ∉ line) (first : s.head? ≠ some c) : (insertLine i line s).head? ≠ some c := by
  obtain ⟨p, pieces, split⟩ := List.exists_cons_of_ne_nil (List.splitOn_ne_nil '\n' s)
  rw [insertLine, split]
  cases i with
  | zero =>
    rw [List.take_zero, List.nil_append]
    exact head?_intercalate_ne (fun h => free (List.mem_of_mem_head? h)) ⟨'\n', rfl, feed.symm⟩
  | succ i => exact head?_intercalate_ne (head?_of_splitOn split first) ⟨'\n', rfl, feed.symm⟩

/-- Blank lines in front of others are trimmed away with the feeds between them. -/
theorem trim_intercalate_blank_append {gap : List (List Char)}
    (blank : ∀ l ∈ gap, allBlank l = true) (ls : List (List Char)) :
    trim (['\n'].intercalate (gap ++ ls)) = trim (['\n'].intercalate ls) := by
  induction gap with
  | nil => rfl
  | cons l gap ih =>
    obtain ⟨first, others⟩ := List.forall_mem_cons.1 blank
    rw [← ih others, List.cons_append]
    by_cases more : gap ++ ls = []
    · rw [more, List.intercalate_singleton, List.intercalate_nil, trim_eq_nil_iff.2 first]
      rfl
    · have front : allBlank (l ++ ['\n']) = true := by
        rw [allBlank_append, first]
        rfl
      rw [List.intercalate_cons_of_ne_nil more, trim_allBlank_append front]

/-- So are blank lines behind others. -/
theorem trim_intercalate_append_blank {gap : List (List Char)}
    (blank : ∀ l ∈ gap, allBlank l = true) (ls : List (List Char)) :
    trim (['\n'].intercalate (ls ++ gap)) = trim (['\n'].intercalate ls) := by
  induction gap generalizing ls with
  | nil => rw [List.append_nil]
  | cons l gap ih =>
    obtain ⟨first, others⟩ := List.forall_mem_cons.1 blank
    rw [List.append_cons, ih others]
    by_cases some : ls = []
    · rw [some, List.nil_append, List.intercalate_singleton, List.intercalate_nil,
        trim_eq_nil_iff.2 first]
      rfl
    · have back : allBlank ('\n' :: l) = true := by
        rw [allBlank, List.all_cons]
        exact Bool.and_eq_true_iff.2 ⟨by decide, first⟩
      rw [intercalate_concat some, trim_append_of_allBlank back]

/-- The lines `ls`, and the lines `ls'` that a blank line behind the first `i` of them makes of them.
If no line feed ends the last one, the blank line gives it one, which takes a carriage return in
front of it along, and is no line itself if it is empty. -/
structure Inserted (i : Nat) (ls ls' a a' new b : List (List Char)) : Prop where
  before : ls = a ++ b
  after : ls' = a' ++ new ++ b
  length_eq : a.length = i
  trim_eq : a'.map trim = a.map trim
  blank : ∀ l ∈ new, allBlank l = true
  same : ∀ j, j + 1 < ls.length → a'[j]? = a[j]?
  one : new.length = 1 ∨ new = [] ∧ b = []

theorem lines_insertLine {i : Nat} {line s : List Char} (blank : allBlank line = true)
    (single : '\n' ∉ line) (inside : i ≤ (lines s).length) :
    ∃ a a' new b, Inserted i (lines s) (lines (insertLine i line s)) a a' new b := by
  obtain ⟨front, last, pieces⟩ := exists_pieces s
  have own := lines_of_pieces pieces
  have inner : ∀ p ∈ front ++ [last], '\n' ∉ p := fun p hp =>
    not_mem_of_mem_splitOn (pieces ▸ hp)
  by_cases among : i ≤ front.length
  · have shape : (front ++ [last]).take i ++ line :: (front ++ [last]).drop i =
        (front.take i ++ line :: front.drop i) ++ [last] := by
      rw [List.take_append_of_le_length among, List.drop_append_of_le_length among]
      simp
    have single' : ∀ p ∈ (front.take i ++ line :: front.drop i) ++ [last], '\n' ∉ p := by
      rw [← shape]
      intro p hp
      rcases List.mem_append.1 hp with hp | hp
      · exact inner p (List.mem_of_mem_take hp)
      · rcases List.mem_cons.1 hp with rfl | hp
        · exact single
        · exact inner p (List.mem_of_mem_drop hp)
    refine ⟨(front.take i).map dropReturn, (front.take i).map dropReturn, [dropReturn line],
      (front.drop i).map dropReturn ++ if last.isEmpty then [] else [last], ?_, ?_, ?_, rfl, ?_,
      fun _ _ => rfl, Or.inl rfl⟩
    · rw [own, ← List.append_assoc, ← List.map_append, List.take_append_drop]
    · rw [insertLine, pieces, shape, lines_intercalate single']
      simp
    · simp [among]
    · intro l hl
      rw [List.mem_singleton.1 hl, ← trim_eq_nil_iff, trim_dropReturn, trim_eq_nil_iff]
      exact blank
  · -- only a text that no line feed ends has a line behind its last one
    have written : last.isEmpty = false := by
      cases ending : last.isEmpty with
      | false => rfl
      | true =>
        rw [own, ending] at inside
        simp at inside
        omega
    have size : i = front.length + 1 := by
      rw [own, written] at inside
      simp at inside
      omega
    have all : (front ++ [last]).take i ++ line :: (front ++ [last]).drop i =
        (front ++ [last]) ++ [line] := by
      rw [List.take_of_length_le (by simp [size]), List.drop_of_length_le (by simp [size])]
    have single' : ∀ p ∈ (front ++ [last]) ++ [line], '\n' ∉ p :=
      List.forall_mem_append.2 ⟨inner, List.forall_mem_singleton.2 single⟩
    rw [if_neg (by simp [written])] at own
    refine ⟨front.map dropReturn ++ [last], (front ++ [last]).map dropReturn,
      if line.isEmpty then [] else [line], [], ?_, ?_, ?_, ?_, ?_, ?_, ?_⟩
    · rw [own, List.append_nil]
    · rw [insertLine, pieces, all, lines_intercalate single', List.append_nil]
    · simp [size]
    · simp [trim_dropReturn]
    · intro l hl
      split at hl
      · cases hl
      · exact List.mem_singleton.1 hl ▸ blank
    · intro j hj
      have within : j < front.length := by
        rw [own] at hj
        simpa using hj
      rw [List.map_append, List.getElem?_append_left (by simpa using within),
        List.getElem?_append_left (by simpa using within)]
    · cases line.isEmpty with
      | true => exact Or.inr ⟨rfl, rfl⟩
      | false => exact Or.inl rfl

end ScriptAudit.Text
