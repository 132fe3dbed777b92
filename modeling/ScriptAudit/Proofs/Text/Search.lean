import ScriptAudit.Text.Blank
import ScriptAudit.Text.Cut

/-!
# Searching and trimming text

What a search answers is said by how the text falls apart: a search succeeds exactly when the parts
exist, and the part in front is the shortest one. Whatever trimming and cutting leave is a connected
piece of the text.
-/

namespace ScriptAudit.Text

theorem after?_append (head rest : List Char) : after? head (head ++ rest) = some rest := by
  induction head with
  | nil => rfl
  | cons c head ih => rw [List.cons_append, after?, if_pos rfl, ih]

theorem cutAt?_eq_none_iff {p : Char → Bool} {s : List Char} :
    cutAt? p s = none ↔ ∀ c ∈ s, p c = false := by
  induction s with
  | nil => simp [cutAt?]
  | cons c s ih =>
    rw [cutAt?, List.forall_mem_cons]
    cases hc : p c with
    | true => simp
    | false => simpa using ih

theorem cutAt?_eq_some_iff {p : Char → Bool} {s a b : List Char} :
    cutAt? p s = some (a, b) ↔
      ∃ c, p c = true ∧ s = a ++ c :: b ∧ ∀ d ∈ a, p d = false := by
  induction s generalizing a with
  | nil => simp [cutAt?]
  | cons c s ih =>
    rw [cutAt?]
    cases hc : p c with
    | true =>
      rw [if_pos rfl]
      constructor
      · intro h
        cases h
        exact ⟨c, hc, rfl, by simp⟩
      · rintro ⟨d, hd, h, before⟩
        cases a with
        | nil =>
          cases h
          rfl
        | cons e a =>
          cases h
          rw [before _ List.mem_cons_self] at hc
          cases hc
    | false =>
      rw [if_neg (by simp), Option.map_eq_some_iff]
      constructor
      · rintro ⟨⟨a', b'⟩, found, same⟩
        cases same
        obtain ⟨d, hd, rfl, before⟩ := ih.1 found
        exact ⟨d, hd, rfl, List.forall_mem_cons.2 ⟨hc, before⟩⟩
      · rintro ⟨d, hd, h, before⟩
        cases a with
        | nil =>
          cases h
          rw [hd] at hc
          cases hc
        | cons e a =>
          cases h
          exact ⟨(a, b), ih.2 ⟨d, hd, rfl, fun x hx => before x (List.mem_cons_of_mem _ hx)⟩, rfl⟩

/-- Cutting at the first occurrence of a character. -/
theorem cutAt?_beq_eq_some_iff {m : Char} {s a b : List Char} :
    cutAt? (· == m) s = some (a, b) ↔ s = a ++ m :: b ∧ m ∉ a := by
  rw [cutAt?_eq_some_iff]
  constructor
  · rintro ⟨c, mark, whole, before⟩
    rw [beq_iff_eq] at mark
    rw [mark] at whole
    exact ⟨whole, fun hm => by simpa using before m hm⟩
  · rintro ⟨whole, free⟩
    refine ⟨m, beq_self_eq_true m, whole, fun d hd => beq_eq_false_iff_ne.2 ?_⟩
    rintro rfl
    exact free hd

theorem cutAt?_beq_eq_none_iff {m : Char} {s : List Char} : cutAt? (· == m) s = none ↔ m ∉ s := by
  rw [cutAt?_eq_none_iff]
  constructor
  · exact fun uncut hm => by simpa using uncut m hm
  · rintro free c hc
    refine beq_eq_false_iff_ne.2 ?_
    rintro rfl
    exact free hc

/-- What is in front of the place where a class of characters ends. -/
theorem takeWhile_eq_iff {p : Char → Bool} {s a : List Char} :
    s.takeWhile p = a ↔ ∃ b, s = a ++ b ∧ (∀ c ∈ a, p c = true) ∧
      ∀ c, b.head? = some c → p c = false := by
  constructor
  · rintro rfl
    refine ⟨s.dropWhile p, List.takeWhile_append_dropWhile.symm,
      List.all_eq_true.1 List.all_takeWhile, fun c hc => ?_⟩
    have first := List.head?_dropWhile_not p s
    rw [hc] at first
    simpa using first
  · rintro ⟨b, rfl, all, stop⟩
    rw [List.takeWhile_append_of_pos all]
    cases b with
    | nil => simp
    | cons c b => rw [List.takeWhile_cons_of_neg (by simp [stop c rfl]), List.append_nil]

/-- What is in front of the first occurrence of a character. -/
theorem takeWhile_bne_append {m : Char} {a : List Char} (free : m ∉ a) (b : List Char) :
    (a ++ m :: b).takeWhile (· != m) = a := by
  refine takeWhile_eq_iff.2 ⟨m :: b, rfl, fun c hc => bne_iff_ne.2 ?_, by simp⟩
  rintro rfl
  exact free hc

theorem cut?_eq_none_iff {word s : List Char} :
    cut? word s = none ↔ ∀ before after, s ≠ before ++ word ++ after := by
  induction s with
  | nil =>
    rw [cut?, Option.map_eq_none_iff]
    constructor
    · intro h before after split
      have empty : word = [] := by
        have := congrArg List.length split
        simp only [List.length_append, List.length_nil] at this
        exact List.eq_nil_of_length_eq_zero (by omega)
      subst empty
      cases h
    · intro h
      cases found : after? word [] with
      | none => rfl
      | some rest => exact False.elim (h [] rest (eq_append_of_after? found))
  | cons c s ih =>
    rw [cut?]
    cases found : after? word (c :: s) with
    | some rest =>
      simp only [reduceCtorEq, false_iff]
      intro h
      exact h [] rest (eq_append_of_after? found)
    | none =>
      simp only [Option.map_eq_none_iff, ih]
      constructor
      · intro h before after split
        cases before with
        | nil =>
          rw [List.nil_append] at split
          rw [split, after?_append] at found
          cases found
        | cons d before =>
          cases split
          exact h before after rfl
      · intro h before after split
        exact h (c :: before) after (by rw [split]; rfl)

/-- A word is found where its first character first occurs, when it goes on from there. -/
theorem cut?_append {c : Char} {word a : List Char} (free : c ∉ a) (b : List Char) :
    cut? (c :: word) (a ++ (c :: word) ++ b) = some (a, b) := by
  induction a with
  | nil =>
    have found := after?_append (c :: word) b
    rw [List.nil_append, List.cons_append] at *
    rw [cut?, found]
  | cons d a ih =>
    rw [List.mem_cons, not_or] at free
    rw [List.cons_append, List.cons_append, cut?, after?, if_neg free.1, ih free.2]
    rfl

/-- A word does not reach over a character that it does not hold. -/
theorem infix_of_infix_append_cons {c : Char} {word a b : List Char} (free : c ∉ word)
    (h : word <:+: a ++ c :: b) : word <:+: a ∨ word <:+: b := by
  rcases List.infix_append_iff.1 h with inside | inside | ⟨front, back, rfl, hfront, hback⟩
  · exact Or.inl inside
  · rcases List.infix_cons_iff.1 inside with start | inside
    · rcases List.prefix_cons_iff.1 start with rfl | ⟨t, rfl, _⟩
      · exact Or.inl List.nil_infix
      · exact absurd List.mem_cons_self free
    · exact Or.inr inside
  · rcases List.prefix_cons_iff.1 hback with rfl | ⟨t, rfl, _⟩
    · rw [List.append_nil]
      exact Or.inl hfront.isInfix
    · exact absurd (List.mem_append_right front List.mem_cons_self) free

/-- The word is found where it first occurs. -/
theorem length_le_of_cut? {word s a b : List Char} (h : cut? word s = some (a, b))
    {before after : List Char} (split : s = before ++ word ++ after) :
    a.length ≤ before.length := by
  induction s generalizing a before with
  | nil =>
    obtain ⟨b', found, same⟩ := Option.map_eq_some_iff.1 h
    cases same
    exact Nat.zero_le _
  | cons c s ih =>
    simp only [cut?] at h
    split at h
    · cases h
      exact Nat.zero_le _
    · rename_i absent
      obtain ⟨⟨a', b'⟩, tail, same⟩ := Option.map_eq_some_iff.1 h
      cases same
      cases before with
      | nil =>
        rw [List.nil_append] at split
        rw [split, after?_append] at absent
        cases absent
      | cons d before =>
        cases split
        exact Nat.succ_le_succ (ih tail rfl)

theorem occursIn_iff {word s : List Char} : occursIn word s = true ↔ word <:+: s := by
  rw [occursIn, ← Bool.not_eq_false, Option.isSome_eq_false_iff, Option.isNone_iff_eq_none,
    cut?_eq_none_iff]
  constructor
  · intro h
    by_cases inside : word <:+: s
    · exact inside
    · exact absurd (fun before after split => inside ⟨before, after, split.symm⟩) h
  · rintro ⟨before, after, split⟩ absent
    exact absent before after split.symm

theorem endsWith_iff {tail s : List Char} : endsWith tail s = true ↔ tail <:+ s := by
  rw [endsWith, List.isPrefixOf_iff_prefix, List.reverse_prefix]

/-! ## Pieces of the text -/

theorem dropEndWhile_front {α : Type _} (p : α → Bool) (s : List α) : dropEndWhile p s <+: s := by
  rw [← List.reverse_suffix, dropEndWhile, List.reverse_reverse]
  exact List.dropWhile_suffix p

theorem exists_dropEndWhile_append {α : Type _} (p : α → Bool) (s : List α) :
    ∃ tail, s = dropEndWhile p s ++ tail ∧ (∀ c ∈ tail, p c = true) ∧
      ∀ c, (dropEndWhile p s).getLast? = some c → p c = false := by
  refine ⟨(s.reverse.takeWhile p).reverse, ?_, fun c hc => ?_, fun c hc => ?_⟩
  · rw [dropEndWhile, ← List.reverse_append, List.takeWhile_append_dropWhile, List.reverse_reverse]
  · exact List.all_eq_true.1 List.all_takeWhile c (List.mem_reverse.1 hc)
  · rw [dropEndWhile, List.getLast?_reverse] at hc
    have first := List.head?_dropWhile_not p s.reverse
    rw [hc] at first
    simpa using first

theorem strip_within (p : Char → Bool) (s : List Char) : strip p s <:+: s :=
  (dropEndWhile_front p _).isInfix.trans (List.dropWhile_suffix p).isInfix

theorem trim_within (s : List Char) : trim s <:+: s :=
  strip_within isBlank s

theorem trimStart_within (s : List Char) : trimStart s <:+: s :=
  (List.dropWhile_suffix _).isInfix

/-! ## Trimming -/

/-- Blanks in front go, and nothing else does. -/
theorem trimStart_append {gap s : List Char} (blank : allBlank gap = true)
    (first : ∀ c, s.head? = some c → isBlank c = false) : trimStart (gap ++ s) = s := by
  rw [trimStart, List.dropWhile_append_of_pos (List.all_eq_true.1 blank)]
  cases s with
  | nil => rfl
  | cons c s => rw [List.dropWhile_cons_of_neg (by simp [first c rfl])]

theorem trimStart_eq_iff {s t : List Char} :
    trimStart s = t ↔ ∃ gap, s = gap ++ t ∧ allBlank gap = true ∧
      ∀ c, t.head? = some c → isBlank c = false := by
  constructor
  · rintro rfl
    refine ⟨s.takeWhile isBlank, List.takeWhile_append_dropWhile.symm, List.all_takeWhile,
      fun c hc => ?_⟩
    have first := List.head?_dropWhile_not isBlank s
    rw [← trimStart, hc] at first
    simpa using first
  · rintro ⟨gap, rfl, blank, first⟩
    exact trimStart_append blank first

theorem dropWhile_eq_self_iff {p : Char → Bool} {s : List Char} :
    s.dropWhile p = s ↔ ∀ c, s.head? = some c → p c = false := by
  cases s with
  | nil => simp
  | cons c s =>
    simp only [List.head?_cons, Option.some.injEq, forall_eq']
    cases hc : p c with
    | false => simp [hc]
    | true =>
      have shorter := (List.dropWhile_suffix p (l := s)).length_le
      simp only [List.dropWhile_cons_of_pos hc, reduceCtorEq, iff_false]
      intro same
      rw [same, List.length_cons] at shorter
      omega

theorem dropEndWhile_eq_self_iff {p : Char → Bool} {s : List Char} :
    dropEndWhile p s = s ↔ ∀ c, s.getLast? = some c → p c = false := by
  rw [← List.head?_reverse, ← dropWhile_eq_self_iff, dropEndWhile, List.reverse_eq_iff]

theorem strip_eq_self_iff {p : Char → Bool} {s : List Char} :
    strip p s = s ↔ (∀ c, s.head? = some c → p c = false) ∧
      ∀ c, s.getLast? = some c → p c = false := by
  rw [← dropWhile_eq_self_iff, ← dropEndWhile_eq_self_iff, strip]
  constructor
  · intro same
    have front := (List.dropWhile_suffix p (l := s))
    have back := (dropEndWhile_front p (s.dropWhile p)).length_le
    rw [same] at back
    have whole := front.eq_of_length_le back
    rw [whole] at same
    exact ⟨whole, same⟩
  · rintro ⟨front, back⟩
    rw [front, back]

theorem trim_eq_self_iff {s : List Char} :
    trim s = s ↔ (∀ c, s.head? = some c → isBlank c = false) ∧
      ∀ c, s.getLast? = some c → isBlank c = false :=
  strip_eq_self_iff

theorem not_blank_of_all {s : List Char} (h : s.all (fun c => !isBlank c) = true) :
    ∀ c ∈ s, isBlank c = false := by
  simpa using h

theorem trim_of_no_blank {s : List Char} (h : ∀ c ∈ s, isBlank c = false) : trim s = s :=
  trim_eq_self_iff.2 ⟨fun c hc => h c (List.mem_of_head? hc),
    fun c hc => h c (List.mem_of_getLast? hc)⟩

/-- A trimmed text keeps its end when something is put in front of it. -/
theorem trim_append {c : Char} (hc : isBlank c = false) (front : List Char) {s : List Char}
    (trimmed : trim s = s) (written : s ≠ []) : trim (c :: front ++ s) = c :: front ++ s := by
  obtain ⟨d, last⟩ := Option.isSome_iff_exists.1 (List.getLast?_isSome.2 written)
  rw [trim_eq_self_iff, List.getLast?_append, last, Option.some_or, ← last]
  refine ⟨fun e he => ?_, (trim_eq_self_iff.1 trimmed).2⟩
  cases he
  exact hc

/-- Blanks in front do not count. -/
theorem trim_allBlank_append {gap : List Char} (blank : allBlank gap = true) (s : List Char) :
    trim (gap ++ s) = trim s := by
  rw [trim, strip, List.dropWhile_append_of_pos (List.all_eq_true.1 blank)]
  rfl

theorem trim_blank_cons {c : Char} (hc : isBlank c = true) (s : List Char) :
    trim (c :: s) = trim s := by
  rw [trim, strip, List.dropWhile_cons_of_pos hc]
  rfl

theorem dropEndWhile_append_of_pos {p : Char → Bool} {gap : List Char}
    (h : ∀ c ∈ gap, p c = true) (s : List Char) :
    dropEndWhile p (s ++ gap) = dropEndWhile p s := by
  have all : ∀ c ∈ gap.reverse, p c = true := fun c hc => h c (List.mem_reverse.1 hc)
  rw [dropEndWhile, List.reverse_append, List.dropWhile_append_of_pos all, dropEndWhile]

/-- Blanks at the end do not count. -/
theorem trim_append_of_allBlank {gap : List Char} (blank : allBlank gap = true) (s : List Char) :
    trim (s ++ gap) = trim s := by
  have all := List.all_eq_true.1 blank
  have gone : gap.dropWhile isBlank = [] := by
    rw [← List.append_nil gap, List.dropWhile_append_of_pos all]
    rfl
  rw [trim, strip, List.dropWhile_append]
  split
  · rename_i nothing
    rw [List.isEmpty_iff] at nothing
    rw [gone, trim, strip, nothing]
  · rw [dropEndWhile_append_of_pos all]
    rfl

theorem trim_trimEnd (s : List Char) : trim (trimEnd s) = trim s := by
  obtain ⟨gap, whole, blank, _⟩ := exists_dropEndWhile_append isBlank s
  conv => rhs; rw [whole]
  exact (trim_append_of_allBlank (List.all_eq_true.2 blank) _).symm

theorem dropEndWhile_append_cons {p : Char → Bool} {c : Char} (hc : p c = false)
    (a b : List Char) : dropEndWhile p (a ++ c :: b) = a ++ c :: dropEndWhile p b := by
  have shape : (a ++ c :: b).reverse = b.reverse ++ c :: a.reverse := by simp
  rw [dropEndWhile, shape, List.dropWhile_append]
  split
  · rename_i nothing
    rw [List.isEmpty_iff] at nothing
    simp [dropEndWhile, nothing, hc]
  · simp [dropEndWhile]

theorem trim_trimStart (s : List Char) : trim (trimStart s) = trim s := by
  have gap : allBlank (s.takeWhile isBlank) = true := List.all_takeWhile
  have whole : s.takeWhile isBlank ++ trimStart s = s := List.takeWhile_append_dropWhile
  rw [← trim_allBlank_append gap, whole]

theorem trimEnd_append_cons {c : Char} (hc : isBlank c = false) (a b : List Char) :
    trimEnd (a ++ c :: b) = a ++ c :: trimEnd b :=
  dropEndWhile_append_cons hc a b

/-- A character that is not blank stays in front. -/
theorem trim_cons {c : Char} (hc : isBlank c = false) (s : List Char) :
    trim (c :: s) = c :: trimEnd s := by
  rw [trim, strip, List.dropWhile_cons_of_neg (by simp [hc])]
  exact trimEnd_append_cons hc [] s

/-! ## Pieces between separators -/

/-- A piece holds characters of the text that are not separators. -/
theorem of_mem_splitOnP {p : Char → Bool} {s piece : List Char} (h : piece ∈ s.splitOnP p)
    {c : Char} (hc : c ∈ piece) : c ∈ s ∧ p c = false := by
  induction s generalizing piece with
  | nil =>
    rw [List.splitOnP_nil, List.mem_singleton] at h
    simp [h] at hc
  | cons d s ih =>
    rw [List.splitOnP_cons_eq_if_modifyHead] at h
    split at h
    · rcases List.mem_cons.1 h with rfl | h
      · cases hc
      · exact (ih h hc).imp_left (List.mem_cons_of_mem d)
    · rename_i other
      obtain ⟨first, rest, split⟩ := List.exists_cons_of_ne_nil (List.splitOnP_ne_nil p s)
      rw [split] at h ih
      rcases List.mem_cons.1 h with rfl | h
      · rcases List.mem_cons.1 hc with rfl | hc
        · exact ⟨List.mem_cons_self, by simpa using other⟩
        · exact (ih List.mem_cons_self hc).imp_left (List.mem_cons_of_mem d)
      · exact (ih (List.mem_cons_of_mem _ h) hc).imp_left (List.mem_cons_of_mem d)

theorem not_mem_of_mem_splitOn {c : Char} {s piece : List Char} (h : piece ∈ s.splitOn c) :
    c ∉ piece := by
  intro hc
  simpa using (of_mem_splitOnP h hc).2

theorem mem_of_mem_splitOn {c separator : Char} {s piece : List Char}
    (h : piece ∈ s.splitOn separator) (hc : c ∈ piece) : c ∈ s :=
  (of_mem_splitOnP h hc).1

theorem mem_intercalate_of_mem {separator s : List Char} {pieces : List (List Char)}
    (hs : s ∈ pieces) {c : Char} (hc : c ∈ s) : c ∈ separator.intercalate pieces := by
  induction pieces with
  | nil => cases hs
  | cons r pieces ih =>
    by_cases more : pieces = []
    · subst more
      rw [List.mem_singleton.1 hs] at hc
      rwa [List.intercalate_singleton]
    · rw [List.intercalate_cons_of_ne_nil more, List.append_assoc, List.mem_append]
      rcases List.mem_cons.1 hs with rfl | later
      · exact Or.inl hc
      · exact Or.inr (List.mem_append_right _ (ih later))

theorem mem_intercalate {c separator : Char} {pieces : List (List Char)}
    (h : c ∈ [separator].intercalate pieces) : c = separator ∨ ∃ s ∈ pieces, c ∈ s := by
  induction pieces with
  | nil => simp at h
  | cons s pieces ih =>
    by_cases more : pieces = []
    · rw [more, List.intercalate_singleton] at h
      exact Or.inr ⟨s, List.mem_cons_self, h⟩
    · rw [List.intercalate_cons_of_ne_nil more, List.mem_append, List.mem_append] at h
      rcases h with (own | between) | later
      · exact Or.inr ⟨s, List.mem_cons_self, own⟩
      · exact Or.inl (List.mem_singleton.1 between)
      · rcases ih later with between | ⟨r, hr, hc⟩
        · exact Or.inl between
        · exact Or.inr ⟨r, List.mem_cons_of_mem _ hr, hc⟩

theorem intercalate_concat {separator : Char} {pieces : List (List Char)} (some : pieces ≠ [])
    (s : List Char) : [separator].intercalate (pieces ++ [s]) =
      [separator].intercalate pieces ++ separator :: s := by
  induction pieces with
  | nil => exact absurd rfl some
  | cons r pieces ih =>
    rw [List.cons_append, List.intercalate_cons_of_ne_nil (by simp)]
    by_cases more : pieces = []
    · simp [more]
    · rw [ih more, List.intercalate_cons_of_ne_nil more]
      simp

end ScriptAudit.Text
