import ScriptAudit.Markup.Placeholder
import ScriptAudit.Proofs.Text.Search

/-!
# Which lines hold well-written placeholders

A line is read in segments from the left. Here the same is said of every place where the opening
word occurs, without a reading order: what follows it up to the next `>` has to be a path and a
description.
-/

namespace ScriptAudit.Markup

/-- A line is read in its first segment and the rest behind it. -/
theorem placeholders_of_cut {line before inside inner rest : List Char}
    (found : Text.cut? placeholderOpening line = some (before, inside))
    (closed : Text.cutAt? (· == '>') inside = some (inner, rest)) :
    placeholders line = readPlaceholder inner :: placeholders rest := by
  rw [placeholders]
  split
  · rename_i absent
    rw [found] at absent
    cases absent
  · rename_i again
    rw [found] at again
    cases again
    split
    · rename_i unclosed
      rw [closed] at unclosed
      cases unclosed
    · rename_i again
      rw [closed] at again
      cases again
      rfl

theorem placeholders_eq_unclosed {line before inside : List Char}
    (found : Text.cut? placeholderOpening line = some (before, inside))
    (unclosed : Text.cutAt? (· == '>') inside = none) :
    placeholders line = [.error .unclosed] := by
  rw [placeholders]
  split
  · rename_i absent
    rw [found] at absent
    cases absent
  · rename_i again
    rw [found] at again
    cases again
    split
    · rfl
    · rename_i closed
      rw [unclosed] at closed
      cases closed

theorem placeholders_eq_nil_iff {line : List Char} :
    placeholders line = [] ↔ ¬placeholderOpening <:+: line := by
  rw [← Text.occursIn_iff, Text.occursIn, Option.not_isSome_iff_eq_none]
  constructor
  · intro h
    rw [placeholders] at h
    split at h
    · assumption
    · split at h <;> cases h
  · intro absent
    rw [placeholders]
    split
    · rfl
    · rename_i found
      rw [absent] at found
      cases found

theorem placeholders_of_allBlank {line : List Char} (h : Text.allBlank line = true) :
    placeholders line = [] := by
  refine placeholders_eq_nil_iff.2 fun opened => ?_
  have blank := List.all_eq_true.1 h '<' (opened.subset (by decide))
  exact absurd blank (by decide)

/-- Between the opening and the next `>` stand a path that is not blank and, behind the first `|`, a
description; no `<` is among them. -/
def OpensPlaceholder (rest : List Char) : Prop :=
  ∃ inner after, rest = inner ++ '>' :: after ∧ '>' ∉ inner ∧ '<' ∉ inner ∧
    ∃ path description, inner = path ++ '|' :: description ∧ '|' ∉ path ∧
      Text.allBlank path = false

/-- Every opening in the line is one of a placeholder. -/
def PlaceholdersWritten (line : List Char) : Prop :=
  ∀ before rest, line = before ++ placeholderOpening ++ rest → OpensPlaceholder rest

theorem readPlaceholder_of_nested {inner : List Char} (inside : '<' ∈ inner) :
    readPlaceholder inner = .error .nested := by
  rw [readPlaceholder, if_pos (by simpa using inside)]

theorem readPlaceholder_of_no_bar {inner : List Char} (outside : '<' ∉ inner)
    (free : '|' ∉ inner) : readPlaceholder inner = .error (.noSeparator inner) := by
  rw [readPlaceholder, if_neg (by simpa using outside), Text.cutAt?_beq_eq_none_iff.2 free]

theorem readPlaceholder_of_bar {path description : List Char}
    (outside : '<' ∉ path ++ '|' :: description) (free : '|' ∉ path) :
    readPlaceholder (path ++ '|' :: description) =
      if Text.allBlank path then .error .emptyPath
      else .ok (Text.trim path, Text.trim description) := by
  rw [readPlaceholder, if_neg (by simpa using outside),
    Text.cutAt?_beq_eq_some_iff.2 ⟨rfl, free⟩]

theorem readPlaceholder_eq_ok_iff {inner path description : List Char} :
    readPlaceholder inner = .ok (path, description) ↔
      '<' ∉ inner ∧ ∃ p d, inner = p ++ '|' :: d ∧ '|' ∉ p ∧ Text.allBlank p = false ∧
        path = Text.trim p ∧ description = Text.trim d := by
  constructor
  · intro read
    have outside : '<' ∉ inner := by
      intro inside
      rw [readPlaceholder_of_nested inside] at read
      cases read
    by_cases bar : '|' ∈ inner
    · obtain ⟨p, d, rfl, free⟩ := List.eq_append_cons_of_mem bar
      rw [readPlaceholder_of_bar outside free] at read
      split at read
      · cases read
      · rename_i written
        cases read
        exact ⟨outside, p, d, rfl, free, by simpa using written, rfl, rfl⟩
    · rw [readPlaceholder_of_no_bar outside bar] at read
      cases read
  · rintro ⟨outside, p, d, rfl, free, written, rfl, rfl⟩
    rw [readPlaceholder_of_bar outside free, if_neg (by simp [written])]

theorem readPlaceholder_isOk_iff {inner : List Char} :
    (readPlaceholder inner).isOk = true ↔
      '<' ∉ inner ∧ ∃ path description, inner = path ++ '|' :: description ∧ '|' ∉ path ∧
        Text.allBlank path = false := by
  constructor
  · intro h
    cases read : readPlaceholder inner with
    | error f => rw [read] at h; cases h
    | ok r =>
      obtain ⟨hn, p, d, hs, hf, hw, _⟩ := readPlaceholder_eq_ok_iff.1 read
      exact ⟨hn, p, d, hs, hf, hw⟩
  · rintro ⟨hn, p, d, hs, hf, hw⟩
    rw [readPlaceholder_eq_ok_iff.2 ⟨hn, p, d, hs, hf, hw, rfl, rfl⟩]
    rfl

/-- An opening that starts later than another one, whose segment holds no further `<`, starts behind
that segment. -/
theorem opening_behind_segment {inner rest x after : List Char} (free : '<' ∉ inner) (hx : x ≠ [])
    (same : placeholderOpening ++ inner ++ '>' :: rest = x ++ placeholderOpening ++ after) :
    ∃ y, rest = y ++ placeholderOpening ++ after := by
  obtain ⟨word, opening, hword⟩ :
      ∃ word, placeholderOpening = '<' :: word ∧ '<' ∉ word := ⟨_, rfl, by decide⟩
  cases x with
  | nil => exact absurd rfl hx
  | cons c x =>
    rw [opening] at same
    simp only [List.cons_append, List.cons.injEq, List.append_assoc] at same
    have shape : (word ++ inner ++ ['>']) ++ rest = x ++ '<' :: (word ++ after) := by
      simpa using same.2
    have none : '<' ∉ word ++ inner ++ ['>'] := by simp [hword, free]
    rcases List.append_eq_append_iff.1 shape with ⟨y, _, tail⟩ | ⟨y, whole, tail⟩
    · exact ⟨y, by rw [opening]; simpa using tail⟩
    · cases y with
      | nil => exact ⟨[], by rw [opening]; simpa using tail.symm⟩
      | cons d y =>
        have first : '<' = d := (List.cons.inj tail).1
        exact absurd (by rw [whole, ← first]; simp) none

/-- The segments of a line are all in order exactly when every opening in it is. -/
theorem placeholders_isOk_iff (line : List Char) :
    (∀ r ∈ placeholders line, r.isOk = true) ↔ PlaceholdersWritten line := by
  fun_induction placeholders line with
  | case1 line absent =>
    have none := Text.cut?_eq_none_iff.1 absent
    exact ⟨fun _ before rest split => absurd split (none before rest), by simp⟩
  | case2 line a inside found unclosed =>
    have never := Text.cutAt?_beq_eq_none_iff.1 unclosed
    constructor
    · intro h
      simp [Except.isOk, Except.toBool] at h
    · intro h
      obtain ⟨inner, after, rfl, _⟩ := h a inside (Text.eq_append_of_cut? found)
      exact absurd (by simp) never
  | case3 line a inside found inner rest closed ih =>
    have split := Text.eq_append_of_cut? found
    obtain ⟨rfl, free⟩ := Text.cutAt?_beq_eq_some_iff.1 closed
    rw [List.forall_mem_cons, ih, readPlaceholder_isOk_iff]
    constructor
    · rintro ⟨⟨unnested, written⟩, further⟩ b r occurs
      have first := Text.length_le_of_cut? found occurs
      have front : a <+: line := ⟨_, by simpa using split.symm⟩
      have other : b <+: line := ⟨_, by simpa using occurs.symm⟩
      obtain ⟨x, rfl⟩ : ∃ x, b = a ++ x :=
        (List.prefix_of_prefix_length_le front other first).imp fun _ h => h.symm
      have same : placeholderOpening ++ inner ++ '>' :: rest = x ++ placeholderOpening ++ r := by
        have both := split.symm.trans occurs
        simpa using both
      by_cases hx : x = []
      · subst hx
        refine ⟨inner, rest, ?_, free, unnested, written⟩
        simpa using same.symm
      · obtain ⟨y, hy⟩ := opening_behind_segment unnested hx same
        exact further y r hy
    · intro h
      refine ⟨?_, fun b r occurs => h (a ++ placeholderOpening ++ inner ++ '>' :: b) r ?_⟩
      · obtain ⟨inner', after, same, free', unnested, written⟩ := h a _ split
        cases closed.symm.trans (Text.cutAt?_beq_eq_some_iff.2 ⟨same, free'⟩)
        exact ⟨unnested, written⟩
      · rw [split, occurs]
        simp

/-- What a placeholder holds stands in its line. -/
theorem infix_of_mem_placeholders {line path description : List Char}
    (h : .ok (path, description) ∈ placeholders line) :
    path <:+: line ∧ description <:+: line := by
  fun_induction placeholders line with
  | case1 line absent => simp at h
  | case2 line a inside found unclosed => simp at h
  | case3 line a inside found inner rest closed ih =>
    have split := Text.eq_append_of_cut? found
    obtain ⟨c, _, hinside⟩ := Text.eq_append_of_cutAt? closed
    rcases List.mem_cons.1 h with read | further
    · obtain ⟨_, p, d, rfl, _, _, rfl, rfl⟩ := readPlaceholder_eq_ok_iff.1 read.symm
      have within : ∀ s, s <:+: p ++ '|' :: d → s <:+: line := by
        intro s hs
        refine hs.trans ⟨a ++ placeholderOpening, c :: rest, ?_⟩
        rw [split, hinside]
        simp
      exact ⟨within _ ((Text.trim_within p).trans ⟨[], '|' :: d, by simp⟩),
        within _ ((Text.trim_within d).trans ⟨p ++ ['|'], [], by simp⟩)⟩
    · obtain ⟨hp, hd⟩ := ih further
      have within : rest <:+: line := by
        refine ⟨a ++ placeholderOpening ++ inner ++ [c], [], ?_⟩
        rw [split, hinside]
        simp
      exact ⟨hp.trans within, hd.trans within⟩

/-- A line in which no placeholder is opened has none that is not well-written. -/
theorem placeholdersWritten_of_eq_nil {line : List Char} (h : placeholders line = []) :
    PlaceholdersWritten line := by
  rw [← placeholders_isOk_iff, h]
  simp

end ScriptAudit.Markup
