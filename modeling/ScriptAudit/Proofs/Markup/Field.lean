import Mathlib.Data.List.TakeWhile
import ScriptAudit.Markup.Field
import ScriptAudit.Proofs.Text.Search

/-!
# Fields are pieces of their lines

What starts a step is said of the text without a reading order. Everything that a field takes from a
line stands in that line as it was written.
-/

namespace ScriptAudit.Markup

theorem numberMark?_eq_some_iff {s digits rest : List Char} :
    numberMark? s = some (digits, rest) ↔
      ∃ mark, s = digits ++ mark :: rest ∧ digits ≠ [] ∧
        (∀ c ∈ digits, Text.isDigit c = true) ∧ (mark = '.' ∨ mark = ')') := by
  have parts := List.takeWhile_append_dropWhile (p := Text.isDigit) (l := s)
  unfold numberMark?
  constructor
  · intro h
    split at h
    · rename_i c tail behind
      dsimp only at h
      split at h
      · rename_i accepted
        cases h
        simp only [Bool.and_eq_true, Bool.not_eq_true', List.isEmpty_eq_false_iff, Bool.or_eq_true,
          beq_iff_eq] at accepted
        refine ⟨c, ?_, accepted.1, fun d hd => List.mem_takeWhile_imp hd, accepted.2⟩
        rw [← behind, parts]
      · cases h
    · cases h
  · rintro ⟨mark, rfl, some, all, hmark⟩
    have stops : Text.isDigit mark = false := by rcases hmark with rfl | rfl <;> rfl
    have front : (digits ++ mark :: rest).takeWhile Text.isDigit = digits :=
      Text.takeWhile_eq_iff.2 ⟨mark :: rest, rfl, all, by simp [stops]⟩
    have behind : (digits ++ mark :: rest).dropWhile Text.isDigit = mark :: rest := by
      rw [List.dropWhile_append_of_pos all, List.dropWhile_cons_of_neg (by simp [stops])]
    rw [behind]
    dsimp only
    rw [front, if_pos (by simpa [some] using hmark)]

/-- A numbered step: digits, a dot or a closing parenthesis, and then nothing or a blank. -/
def IsNumberedStep (s : List Char) : Prop :=
  ∃ digits mark rest, Text.trim s = digits ++ mark :: rest ∧ digits ≠ [] ∧
    (∀ c ∈ digits, Text.isDigit c = true) ∧ (mark = '.' ∨ mark = ')') ∧
    ∀ c, rest.head? = some c → Text.isBlank c = true

theorem stepHead?_isSome_iff {s : List Char} :
    (stepHead? (Text.trim s)).isSome = true ↔ IsNumberedStep s := by
  simp only [stepHead?, IsNumberedStep]
  constructor
  · intro h
    split at h
    · rename_i digits found
      obtain ⟨mark, split, some, all, hmark⟩ := numberMark?_eq_some_iff.1 found
      exact ⟨digits, mark, [], split, some, all, hmark, by simp⟩
    · rename_i digits c rest found
      obtain ⟨mark, split, some, all, hmark⟩ := numberMark?_eq_some_iff.1 found
      split at h
      · rename_i blank
        refine ⟨digits, mark, c :: rest, split, some, all, hmark, fun d hd => ?_⟩
        cases hd
        exact blank
      · cases h
    · cases h
  · rintro ⟨digits, mark, rest, split, some, all, hmark, blank⟩
    rw [numberMark?_eq_some_iff.2 ⟨mark, split, some, all, hmark⟩]
    cases rest with
    | nil => rfl
    | cons c rest =>
      dsimp only
      rw [if_pos (blank c rfl)]
      rfl

/-! ## Steps in order -/

theorem readSteps_cons_text {l : Nat × List Char} (head : stepHead? (Text.trim l.2) = none)
    (rest : List (Nat × List Char)) :
    readSteps (l :: rest) = (l :: (readSteps rest).1, (readSteps rest).2) := by
  rw [readSteps, head]

theorem readSteps_cons_step {l : Nat × List Char} {digits first : List Char}
    (head : stepHead? (Text.trim l.2) = some (digits, first)) (rest : List (Nat × List Char)) :
    readSteps (l :: rest) =
      ([], { number := stepNumber digits
             text := String.ofList
               (joinPieces (first :: (readSteps rest).1.map fun f => stripListMarker f.2))
             line := l.1 } :: (readSteps rest).2) := by
  rw [readSteps, head]

/-! ## Pieces -/

theorem afterBullet?_suffix {s rest : List Char} (h : afterBullet? s = some rest) :
    rest <:+ s := by
  simp only [afterBullet?] at h
  split at h
  · cases h
    exact List.suffix_cons _ _
  · cases h
    exact List.suffix_cons _ _
  · cases h
    exact List.suffix_cons _ _
  · obtain ⟨⟨digits, tail⟩, found, same⟩ := Option.map_eq_some_iff.1 h
    cases same
    obtain ⟨mark, rfl, _⟩ := numberMark?_eq_some_iff.1 found
    exact ⟨digits ++ [mark], by simp⟩

theorem stripListMarker_within (line : List Char) : stripListMarker line <:+: line := by
  simp only [stripListMarker]
  split
  · rename_i c rest found
    split
    · have behind := (afterBullet?_suffix found).isInfix.trans (Text.trim_within line)
      exact (Text.trim_within rest).trans ((List.suffix_cons c rest).isInfix.trans behind)
    · exact Text.trim_within line
  · exact Text.trim_within line

theorem stepHead?_within {s digits text : List Char}
    (h : stepHead? (Text.trim s) = some (digits, text)) : text <:+: s := by
  simp only [stepHead?] at h
  split at h
  · cases h
    exact List.nil_infix
  · rename_i ds c rest found
    obtain ⟨mark, split, _⟩ := numberMark?_eq_some_iff.1 found
    split at h
    · cases h
      have behind : c :: rest <:+: Text.trim s := ⟨digits ++ [mark], [], by rw [split]; simp⟩
      exact (Text.trim_within rest).trans
        ((List.suffix_cons c rest).isInfix.trans (behind.trans (Text.trim_within s)))
    · cases h
  · cases h

theorem afterGlyph?_suffix {glyphs : List String} {s rest : List Char}
    (h : afterGlyph? glyphs s = some rest) : rest <:+ s := by
  obtain ⟨g, _, found⟩ := List.exists_of_findSome?_eq_some h
  exact ⟨g.toList, (Text.eq_append_of_after? found).symm⟩

theorem readMarker_suffix (markers : Markers) (s : List Char) :
    (readMarker markers s).2 <:+ s := by
  simp only [readMarker]
  split
  · rename_i found
    exact afterGlyph?_suffix found
  · split
    · rename_i found
      exact afterGlyph?_suffix found
    · exact List.suffix_refl s

theorem bold?_within {s element rest : List Char} (h : bold? s = some (element, rest)) :
    element <:+: s ∧ rest <:+: s := by
  unfold bold? at h
  split at h
  · rename_i c tail found
    obtain ⟨⟨a, b⟩, cut, same⟩ := Option.map_eq_some_iff.1 h
    cases same
    have whole : s = ['*', '*'] ++ c :: (a ++ ['*', '*'] ++ rest) := by
      rw [Text.eq_append_of_after? found, Text.eq_append_of_cut? cut]
    exact ⟨⟨['*', '*'], ['*', '*'] ++ rest, by rw [whole]; simp⟩,
      ⟨['*', '*'] ++ c :: a ++ ['*', '*'], [], by rw [whole]; simp⟩⟩
  · cases h

theorem skipColon_within (s : List Char) : skipColon s <:+: s := by
  simp only [skipColon]
  split
  · rename_i rest found
    have behind : ':' :: rest <:+: s := found ▸ Text.trimStart_within s
    exact (Text.trimStart_within rest).trans ((List.suffix_cons ':' rest).isInfix.trans behind)
  · exact Text.trimStart_within s

theorem splitElement_within (s : List Char) :
    (splitElement s).1 <:+: s ∧ (splitElement s).2 <:+: s := by
  simp only [splitElement]
  split
  · rename_i element rest found
    obtain ⟨helement, hrest⟩ := bold?_within found
    exact ⟨(Text.trim_within element).trans helement,
      (Text.trim_within _).trans ((skipColon_within rest).trans hrest)⟩
  · split
    · rename_i element description found
      obtain ⟨c, _, rfl⟩ := Text.eq_append_of_cutAt? found
      exact ⟨(Text.trim_within element).trans ⟨[], c :: description, by simp⟩,
        (Text.trim_within description).trans ⟨element ++ [c], [], by simp⟩⟩
    · exact ⟨List.infix_refl s, List.nil_infix⟩

theorem readUiEntry_within (markers : Markers) (line : Nat × List Char) :
    (readUiEntry markers line).element.toList <:+: line.2 ∧
      (readUiEntry markers line).description.toList <:+: line.2 := by
  have within := (Text.trim_within _).trans
    ((readMarker_suffix markers (stripListMarker line.2)).isInfix.trans
      (stripListMarker_within line.2))
  obtain ⟨helement, hdescription⟩ :=
    splitElement_within (Text.trim (readMarker markers (stripListMarker line.2)).2)
  simp only [readUiEntry]
  rw [String.toList_ofList, String.toList_ofList]
  exact ⟨helement.trans within, hdescription.trans within⟩

theorem readPrerequisite_within (line : Nat × List Char) :
    (readPrerequisite line).text.toList <:+: line.2 := by
  rw [readPrerequisite, String.toList_ofList]
  exact stripListMarker_within line.2

theorem readUrl_within (line : Nat × List Char) : (readUrl line).text.toList <:+: line.2 := by
  rw [readUrl, String.toList_ofList]
  exact (Text.trim_within _).trans
    ((Text.strip_within isUrlQuote _).trans (stripListMarker_within line.2))

end ScriptAudit.Markup
