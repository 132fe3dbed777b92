import ScriptAudit.Markup.Field
import ScriptAudit.Proofs.Markup.Heading
import ScriptAudit.Proofs.Markup.Placeholder
import ScriptAudit.Proofs.Text.Trim

/-!
# What blanks around a line change

Nothing: a line is a fence, a heading or the place of placeholders exactly when its trimmed text is,
so the marks of a text are those of its trimmed lines.
-/

namespace ScriptAudit.Markup

/-! ## Fences and headings -/

theorem isFence_trim (line : List Char) : isFence (Text.trim line) = isFence line := by
  have dense : ∀ c ∈ "```".toList, Text.isBlank c = false := by
    have free : "```".toList.any Text.isBlank = false := by decide
    simpa using free
  rw [isFence, isFence, Text.trimStart_trim, Bool.eq_iff_iff, Text.after?_isSome_iff,
    Text.after?_isSome_iff, Text.trim_eq_trimEnd_trimStart, Text.prefix_trimEnd_iff dense]

theorem isFence_of_allBlank {line : List Char} (blank : Text.allBlank line = true) :
    isFence line = false := by
  rw [← isFence_trim, Text.trim_eq_nil_iff.2 blank]
  rfl

theorem Heading.ofText?_nil : Heading.ofText? [] = none := by decide

theorem hashText?_eq_some_iff {line text : List Char} :
    hashText? line = some text ↔
      ∃ hashes c rest, Text.trimStart line = '#' :: (hashes ++ c :: rest) ∧
        (∀ d ∈ hashes, (d == '#') = true) ∧ Text.isBlank c = true ∧ text = Text.trim rest := by
  rw [hashText?]
  constructor
  · intro h
    split at h
    · rename_i rest start
      split at h
      · rename_i c behind found
        split at h
        · rename_i blank
          cases h
          refine ⟨rest.takeWhile (· == '#'), c, behind, ?_, ?_, blank, rfl⟩
          · rw [start, ← found, List.takeWhile_append_dropWhile]
          · exact List.all_eq_true.1 List.all_takeWhile
        · cases h
      · cases h
    · cases h
  · rintro ⟨hashes, c, rest, start, all, blank, rfl⟩
    have other : ¬(c == '#') = true := by
      rintro hash
      rw [beq_iff_eq.1 hash] at blank
      cases blank
    have behind : (hashes ++ c :: rest).dropWhile (· == '#') = c :: rest := by
      rw [List.dropWhile_append_of_pos all, Text.dropWhile_eq_self_iff]
      simpa using other
    simp only [start, behind, if_pos blank]

theorem Heading.ofLine?_eq_some_iff {line : List Char} {h : Heading} :
    Heading.ofLine? line = some h ↔
      ∃ hashes c rest, Text.trimStart line = '#' :: (hashes ++ c :: rest) ∧
        (∀ d ∈ hashes, (d == '#') = true) ∧ Text.isBlank c = true ∧
        Heading.ofText? (Text.trim rest) = some h := by
  rw [Heading.ofLine?, Option.bind_eq_some_iff]
  simp only [hashText?_eq_some_iff]
  constructor
  · rintro ⟨_, ⟨hashes, c, rest, start, all, blank, rfl⟩, heading⟩
    exact ⟨hashes, c, rest, start, all, blank, heading⟩
  · rintro ⟨hashes, c, rest, start, all, blank, heading⟩
    exact ⟨_, ⟨hashes, c, rest, start, all, blank, rfl⟩, heading⟩

theorem Heading.ofLine?_trim (line : List Char) :
    Heading.ofLine? (Text.trim line) = Heading.ofLine? line := by
  apply Option.ext
  intro h
  rw [ofLine?_eq_some_iff, ofLine?_eq_some_iff, Text.trimStart_trim,
    Text.trim_eq_trimEnd_trimStart]
  constructor
  · rintro ⟨hashes, c, rest, start, all, blank, heading⟩
    obtain ⟨gap, whole, blanks⟩ := Text.exists_trimEnd_append (Text.trimStart line)
    refine ⟨hashes, c, rest ++ gap, ?_, all, blank, ?_⟩
    · rw [whole, start]
      simp
    · rw [Text.trim_append_of_allBlank blanks, heading]
  · rintro ⟨hashes, c, rest, start, all, blank, heading⟩
    -- the text of a heading is not empty, so it keeps the blank in front of it
    have written : ¬Text.allBlank rest = true := by
      intro nothing
      rw [Text.trim_eq_nil_iff.2 nothing, ofText?_nil] at heading
      cases heading
    obtain ⟨d, hd, dense⟩ : ∃ d ∈ rest, Text.isBlank d = false := by
      simpa [Text.allBlank] using written
    obtain ⟨a, b, rfl⟩ := List.append_of_mem hd
    have front := Text.trimEnd_append_cons dense ('#' :: (hashes ++ c :: a)) b
    refine ⟨hashes, c, a ++ d :: Text.trimEnd b, ?_, all, blank, ?_⟩
    · rw [start]
      simpa using front
    · rw [← Text.trimEnd_append_cons dense, Text.trim_trimEnd, heading]

theorem fencesBefore_map_trim (ls : List (List Char)) (i : Nat) :
    fencesBefore (ls.map Text.trim) i = fencesBefore ls i := by
  rw [fencesBefore, fencesBefore, ← List.map_take, List.countP_map]
  exact List.countP_congr fun line _ => by rw [Function.comp_apply, isFence_trim]

/-- The same line without the blanks around it. -/
def Line.trim (l : Line) : Line :=
  { l with text := Text.trim l.text }

theorem recognised?_map_trim (ls : List (List Char)) (i : Nat) (line : List Char) :
    recognised? (ls.map Text.trim) i (Text.trim line) = recognised? ls i line := by
  rw [recognised?, recognised?, fencesBefore_map_trim, isFence_trim, Heading.ofLine?_trim]

theorem marked_map_trim (ls : List (List Char)) :
    marked (ls.map Text.trim) = (marked ls).map Line.trim := by
  apply List.ext_getElem?
  intro i
  rw [marked, marked, List.getElem?_mapIdx, List.getElem?_map, List.getElem?_map,
    List.getElem?_mapIdx, Option.map_map, Option.map_map]
  refine congrArg (Option.map · ls[i]?) (funext fun line => ?_)
  simp only [Function.comp_apply, Line.trim, recognised?_map_trim]

/-! ## Placeholders -/

theorem placeholderOpening_dense : ∀ c ∈ placeholderOpening, Text.isBlank c = false := by
  have free : placeholderOpening.any Text.isBlank = false := by decide
  simpa using free

theorem placeholders_allBlank_append {gap : List Char} (blank : Text.allBlank gap = true)
    (line : List Char) : placeholders (gap ++ line) = placeholders line := by
  obtain ⟨word, opening⟩ : ∃ word, placeholderOpening = '<' :: word := ⟨_, rfl⟩
  have free : '<' ∉ gap := by
    intro mem
    exact absurd (List.all_eq_true.1 blank _ mem) (by decide)
  have front := Text.cut?_append_left free word line
  rw [← opening] at front
  cases found : Text.cut? placeholderOpening line with
  | none =>
    rw [found] at front
    have absent : ∀ {s}, Text.cut? placeholderOpening s = none → placeholders s = [] := by
      intro s none
      rw [placeholders_eq_nil_iff, ← Text.occursIn_iff, Text.occursIn, none]
      simp
    rw [absent front, absent found]
  | some parts =>
    obtain ⟨before, inside⟩ := parts
    rw [found] at front
    cases closed : Text.cutAt? (· == '>') inside with
    | none => rw [placeholders_eq_unclosed front closed, placeholders_eq_unclosed found closed]
    | some segment =>
      obtain ⟨inner, rest⟩ := segment
      rw [placeholders_of_cut front closed, placeholders_of_cut found closed]

theorem placeholders_append_of_allBlank {gap : List Char} (blank : Text.allBlank gap = true)
    (line : List Char) : placeholders (line ++ gap) = placeholders line := by
  have free : ∀ c ∈ gap, (c == '>') = false := by
    intro c hc
    refine beq_false_of_ne ?_
    rintro rfl
    exact absurd (List.all_eq_true.1 blank _ hc) (by decide)
  fun_induction placeholders line with
  | case1 line absent =>
    rw [placeholders_eq_nil_iff]
    intro inside
    have none := Text.cut?_eq_none_iff.1 absent
    obtain ⟨before, after, split⟩ :=
      (Text.infix_append_of_allBlank placeholderOpening_dense blank).1 inside
    exact none before after split.symm
  | case2 line before inside found unclosed =>
    refine placeholders_eq_unclosed (Text.cut?_append_right found gap) ?_
    rw [Text.cutAt?_eq_none_iff] at unclosed ⊢
    intro c hc
    rcases List.mem_append.1 hc with hc | hc
    · exact unclosed c hc
    · exact free c hc
  | case3 line before inside found inner rest closed ih =>
    obtain ⟨c, hc, rfl, free'⟩ := Text.cutAt?_eq_some_iff.1 closed
    have again : Text.cutAt? (· == '>') (inner ++ c :: rest ++ gap) = some (inner, rest ++ gap) :=
      Text.cutAt?_eq_some_iff.2 ⟨c, hc, by simp, free'⟩
    rw [placeholders_of_cut (Text.cut?_append_right found gap) again, ih]

theorem placeholders_trim (line : List Char) :
    placeholders (Text.trim line) = placeholders line := by
  obtain ⟨front, back, whole, blank, blank'⟩ := Text.exists_trim_append line
  conv => rhs; rw [whole]
  rw [placeholders_append_of_allBlank blank', placeholders_allBlank_append blank]

/-! ## Fields -/

theorem stripListMarker_trim (line : List Char) :
    stripListMarker (Text.trim line) = stripListMarker line := by
  rw [stripListMarker, stripListMarker, Text.trim_trim]

end ScriptAudit.Markup
