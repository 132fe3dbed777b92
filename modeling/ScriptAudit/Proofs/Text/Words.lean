import Mathlib.Data.List.Basic
import ScriptAudit.Proofs.Text.Search

/-!
# Words

The words of a text are its longest pieces without blanks. Of two texts, one behind the other, all
words stay as they are but the last of the first text and the first of the second: where no blank
stands between these, they are one word.
-/

namespace ScriptAudit.Text

/-- A blank ends a word. -/
theorem words_append_blank {c : Char} (blank : isBlank c = true) (a b : List Char) :
    words (a ++ c :: b) = words a ++ words b := by
  rw [words, runs, List.splitOnP_append_cons a b blank, List.filter_append]
  rfl

theorem words_of_dense {s : List Char} (dense : ∀ c ∈ s, isBlank c = false) :
    words s = if s = [] then [] else [s] := by
  rw [words, runs, List.splitOnP_eq_singleton dense]
  cases s <;> rfl

/-- A word holds characters of the text that are not blank. -/
theorem of_mem_words {s word : List Char} (h : word ∈ words s) :
    word ≠ [] ∧ ∀ c ∈ word, c ∈ s ∧ isBlank c = false := by
  obtain ⟨piece, written⟩ := List.mem_filter.1 h
  refine ⟨?_, fun c => of_mem_splitOnP piece⟩
  rintro rfl
  cases written

/-! ## Texts put together -/

/-- What stands behind the last blank may go on in another text. -/
theorem exists_last_piece (s : List Char) : ∃ front u, (∀ c ∈ u, isBlank c = false) ∧
    ∀ t, words (s ++ t) = front ++ words (u ++ t) := by
  obtain ⟨u, whole, dense, ending⟩ := exists_dropEndWhile_append (fun c => !isBlank c) s
  have dense : ∀ c ∈ u, isBlank c = false := fun c hc => by simpa using dense c hc
  rcases List.eq_nil_or_concat (dropEndWhile (fun c => !isBlank c) s) with nothing | ⟨a, c, shape⟩
  · rw [nothing, List.nil_append] at whole
    exact ⟨[], u, dense, fun t => by rw [whole, List.nil_append]⟩
  · rw [List.concat_eq_append] at shape
    have blank : isBlank c = true := by simpa [shape] using ending
    refine ⟨words a, u, dense, fun t => ?_⟩
    rw [whole, shape, ← words_append_blank blank]
    simp

/-- What stands in front of the first blank may have begun in another text. -/
theorem exists_first_piece (t : List Char) : ∃ v back, (∀ c ∈ v, c ∈ t ∧ isBlank c = false) ∧
    ∀ s, words (s ++ t) = words (s ++ v) ++ back := by
  obtain ⟨rest, whole, dense, ending⟩ :=
    takeWhile_eq_iff.1 (rfl : t.takeWhile (fun c => !isBlank c) = _)
  have dense : ∀ c ∈ t.takeWhile (fun c => !isBlank c), c ∈ t ∧ isBlank c = false := fun c hc =>
    ⟨(List.takeWhile_prefix _).subset hc, by simpa using dense c hc⟩
  cases rest with
  | nil =>
    rw [List.append_nil] at whole
    exact ⟨_, [], dense, fun s => by rw [← whole, List.append_nil]⟩
  | cons c rest =>
    have blank : isBlank c = true := by simpa using ending c rfl
    refine ⟨_, words rest, dense, fun s => ?_⟩
    conv => lhs; rw [whole, ← List.append_assoc]
    exact words_append_blank blank _ rest

/-- The words of two texts, one behind the other: between the words `front` of the first and `back`
of the second, the last piece of the one and the first piece of the other are put together. -/
theorem exists_words_append (s t : List Char) : ∃ front u v back,
    (∀ c ∈ u, isBlank c = false) ∧ (∀ c ∈ v, c ∈ t ∧ isBlank c = false) ∧
      words s = front ++ words u ∧ words t = words v ++ back ∧
      words (s ++ t) = front ++ words (u ++ v) ++ back := by
  obtain ⟨front, u, dense, before⟩ := exists_last_piece s
  obtain ⟨v, back, dense', behind⟩ := exists_first_piece t
  refine ⟨front, u, v, back, dense, dense', ?_, behind [], ?_⟩
  · simpa using before []
  · rw [behind, before]

/-! ## Words with single spaces between them -/

/-- The words of a text with one space between each two. -/
theorem words_intercalate {ws : List (List Char)}
    (h : ∀ w ∈ ws, w ≠ [] ∧ ∀ c ∈ w, isBlank c = false) : words ([' '].intercalate ws) = ws := by
  induction ws with
  | nil => rfl
  | cons w ws ih =>
    obtain ⟨⟨written, dense⟩, others⟩ := List.forall_mem_cons.1 h
    have own : words w = [w] := by rw [words_of_dense dense, if_neg written]
    by_cases more : ws = []
    · rw [more, List.intercalate_singleton, own]
    · rw [List.intercalate_cons_of_ne_nil more, List.append_assoc, List.singleton_append,
        words_append_blank (by decide), own, ih others]
      rfl

/-- What is put behind the last word is put behind them all. -/
theorem intercalate_append_last (front : List (List Char)) (u v : List Char) :
    [' '].intercalate (front ++ [u ++ v]) = [' '].intercalate (front ++ [u]) ++ v := by
  by_cases first : front = []
  · simp [first]
  · rw [intercalate_concat first, intercalate_concat first]
    simp

/-- They end as the last word does. -/
theorem getLast?_intercalate {front : List (List Char)} {u : List Char} (written : u ≠ []) :
    ([' '].intercalate (front ++ [u])).getLast? = u.getLast? := by
  have behind := intercalate_append_last front [] u
  rw [List.nil_append] at behind
  rw [behind, List.getLast?_append_of_ne_nil _ written]

theorem countP_isBlank_intercalate {ws : List (List Char)}
    (dense : ∀ w ∈ ws, ∀ c ∈ w, isBlank c = false) :
    ([' '].intercalate ws).countP isBlank = ws.length - 1 := by
  induction ws with
  | nil => rfl
  | cons w ws ih =>
    obtain ⟨own, others⟩ := List.forall_mem_cons.1 dense
    have none : w.countP isBlank = 0 := List.countP_eq_zero.2 fun c hc => by simp [own c hc]
    by_cases more : ws = []
    · simp [more, none]
    · have many := List.length_pos_iff.2 more
      have space : [' '].countP isBlank = 1 := by decide
      simp only [List.intercalate_cons_of_ne_nil more, List.countP_append, none, space, ih others,
        List.length_cons]
      omega

end ScriptAudit.Text
