import ScriptAudit.Proofs.Markup.Renumber
import ScriptAudit.Proofs.Text.Edit

/-!
# Blank lines only shift

A blank line put between two lines of a text moves the lines behind it down by one and changes
nothing else that is read, unless it stands inside a setup script.
-/

namespace ScriptAudit

/-- The number that a line gets when one is put in behind line `i`. -/
def past (i n : Nat) : Nat :=
  if n ≤ i then n else n + 1

theorem past_of_le {i n : Nat} (h : n ≤ i) : past i n = n :=
  if_pos h

theorem past_of_lt {i n : Nat} (h : i < n) : past i n = n + 1 :=
  if_neg (Nat.not_le.2 h)

theorem strictMono_past (i : Nat) : StrictMono (past i) := by
  intro m n lt
  rw [past, past]
  split <;> split <;> omega

namespace Markup

/-! ## Marks below a blank line -/

theorem condense_congr {f g : Nat → Nat} {ls : List Line}
    (same : ∀ l ∈ ls, f l.number = g l.number) : Line.condense f ls = Line.condense g ls :=
  List.map_congr_left fun l hl => by
    rw [Line.condensed, Line.condensed, same l (List.mem_filter.1 hl).1]

/-- Lines further down have other numbers and the same headings. -/
theorem condense_markedFrom_succ (i fences : Nat) (ls : List (List Char)) :
    Line.condense id (markedFrom (i + 1) fences ls) =
      Line.condense (past i) (markedFrom i fences ls) := by
  have shift : markedFrom (i + 1) fences ls =
      (markedFrom i fences ls).map fun l => { l with number := l.number + 1 } := by
    apply List.ext_getElem?
    intro j
    simp only [markedFrom, List.getElem?_mapIdx, List.getElem?_map, Option.map_map,
      Function.comp_def, Nat.add_right_comm i 1 j]
  have moved : Line.condense (past i) (markedFrom i fences ls) =
      Line.condense (· + 1) (markedFrom i fences ls) :=
    condense_congr fun l hl => past_of_lt (bounds_of_mem_markedFrom hl).1
  rw [shift, moved, Line.condense, List.filter_map, List.map_map]
  rfl

theorem condense_markedFrom_of_le {i : Nat} {ls : List (List Char)} (short : ls.length ≤ i) :
    Line.condense (past i) (marked ls) = Line.condense id (marked ls) := by
  rw [marked_eq_markedFrom]
  refine condense_congr fun l hl => past_of_le ?_
  have := bounds_of_mem_markedFrom hl
  omega

theorem condense_markedFrom_of_blank {ls : List (List Char)}
    (blank : ∀ l ∈ ls, Text.allBlank l = true) (start fences : Nat) :
    Line.condense id (markedFrom start fences ls) = [] := by
  rw [Line.condense, List.map_eq_nil_iff, List.filter_eq_nil_iff]
  intro l hl
  have own : l.isBlank = true := blank _ (bounds_of_mem_markedFrom hl).2.2
  simp [own]

/-! ## A text with a blank line put in -/

section Inserted

variable {i : Nat} {ls ls' a a' new b : List (List Char)}
  (inserted : Text.Inserted i ls ls' a a' new b)
include inserted

theorem length_of_inserted : a'.length = i := by
  have lengths := congrArg List.length inserted.trim_eq
  rw [List.length_map, List.length_map, inserted.length_eq] at lengths
  exact lengths

theorem alike_of_inserted : Alike (past i) ls ls' := by
  have trimmed : isFence ∘ Text.trim = isFence := funext isFence_trim
  have fences : a'.countP isFence = a.countP isFence := by
    rw [← trimmed, ← List.countP_map, inserted.trim_eq, List.countP_map]
  have none : new.countP isFence = 0 :=
    List.countP_eq_zero.2 fun l hl => by simp [isFence_of_allBlank (inserted.blank l hl)]
  have front : Line.condense id (marked a') = Line.condense (past i) (marked a) := by
    rw [condense_markedFrom_of_le (Nat.le_of_eq inserted.length_eq)]
    exact alike_of_map_trim inserted.trim_eq
  have back : Line.condense id (markedFrom (i + new.length) (a.countP isFence) b) =
      Line.condense (past i) (markedFrom i (a.countP isFence) b) := by
    rcases inserted.one with one | ⟨_, empty⟩
    · rw [one, condense_markedFrom_succ]
    · rw [empty]
      rfl
  simp only [marked_eq_markedFrom] at front
  simp only [Alike, inserted.after, inserted.before, marked_eq_markedFrom, markedFrom_append,
    Line.condense_append, List.length_append, List.countP_append, Nat.zero_add, none,
    Nat.add_zero, fences, length_of_inserted inserted, inserted.length_eq, front, back,
    condense_markedFrom_of_blank inserted.blank, List.append_nil]

theorem contentAt_of_inserted {s : Section} {n : Nat} :
    ContentAt ls' s (past i n) ↔ ContentAt ls s n := by
  have before := congrArg List.length inserted.before
  have after := congrArg List.length inserted.after
  have size := inserted.length_eq
  have size' := length_of_inserted inserted
  simp only [List.length_append] at before after
  refine (alike_of_inserted inserted).contentAt_iff (strictMono_past i) ?_
  rcases inserted.one with one | ⟨none, empty⟩
  · rw [past]
    split <;> omega
  · simp only [none, empty, List.length_nil] at before after
    rw [past]
    split <;> omega

/-- In front of the blank line a script is as before. Its last line is not the last of the text. -/
theorem filter_front {start : Line} (grammatical : Grammatical (marked ls) start) :
    (Text.numbered a').filter (fun e => ContentAt ls' .setupScripts e.1) =
      (Text.numbered a).filter fun e => ContentAt ls .setupScripts e.1 := by
  have content : ∀ e ∈ Text.numbered a',
      decide (ContentAt ls' .setupScripts e.1) = decide (ContentAt ls .setupScripts e.1) := by
    intro e he
    have upto := (Text.bounds_of_mem_numbered he).2
    rw [length_of_inserted inserted] at upto
    rw [decide_eq_decide, ← contentAt_of_inserted inserted, past_of_le upto]
  rw [List.filter_congr content]
  refine filter_numbered_congr fun j held => inserted.same j ?_
  exact grammatical.lt_length_of_contentAt (s := .setupScripts) (r := .testSteps) rfl (by decide)
    held

/-- Behind the blank line it is as before under the new numbers. -/
theorem filter_back : (Text.numberedFrom (1 + (i + new.length)) b).filter
      (fun e => ContentAt ls' .setupScripts e.1) =
    ((Text.numberedFrom (1 + i) b).filter fun e => ContentAt ls .setupScripts e.1).map
      fun e => (e.1 + 1, e.2) := by
  rcases inserted.one with one | ⟨_, empty⟩
  · rw [one, ← Nat.add_assoc, Text.numberedFrom_succ, List.filter_map]
    refine congrArg (List.map _) (List.filter_congr fun e he => ?_)
    have below := (Text.bounds_of_mem_numberedFrom he).1
    rw [Function.comp_apply, decide_eq_decide, ← contentAt_of_inserted inserted,
      past_of_lt (by omega)]
  · rw [empty]
    rfl

/-- A script that does not reach over the blank line stands on one side of it. -/
theorem filter_eq_nil {start : Line} (grammatical : Grammatical (marked ls) start)
    (outside : ¬(ContentAt ls .setupScripts i ∧ ContentAt ls .setupScripts (i + 1))) :
    (Text.numbered a).filter (fun e => ContentAt ls .setupScripts e.1) = [] ∨
      (Text.numberedFrom (1 + i) b).filter (fun e => ContentAt ls .setupScripts e.1) = [] := by
  by_cases front : (Text.numbered a).filter (fun e => ContentAt ls .setupScripts e.1) = []
  · exact Or.inl front
  · obtain ⟨d, hd⟩ := List.exists_mem_of_ne_nil _ front
    obtain ⟨above, held⟩ := List.mem_filter.1 hd
    refine Or.inr (List.filter_eq_nil_iff.2 fun e he held' => outside ?_)
    have upto := (Text.bounds_of_mem_numbered above).2
    have below := (Text.bounds_of_mem_numberedFrom he).1
    rw [inserted.length_eq] at upto
    have between {k : Nat} (low : d.1 ≤ k) (high : k ≤ e.1) : ContentAt ls .setupScripts k :=
      grammatical.contentAt_between (of_decide_eq_true held) (of_decide_eq_true held') low high
    exact ⟨between upto (by omega), between (by omega) (by omega)⟩

theorem scriptText_of_inserted {start : Line} (grammatical : Grammatical (marked ls) start)
    (outside : ¬(ContentAt ls .setupScripts i ∧ ContentAt ls .setupScripts (i + 1))) :
    scriptText ls' = scriptText ls := by
  have whole : Text.numbered ls = Text.numbered a ++ Text.numberedFrom (1 + i) b := by
    rw [inserted.before, Text.numbered_eq_numberedFrom, Text.numberedFrom_append,
      inserted.length_eq, Text.numbered_eq_numberedFrom]
  have whole' : Text.numbered ls' = Text.numbered a' ++ Text.numberedFrom (1 + i) new ++
      Text.numberedFrom (1 + (i + new.length)) b := by
    rw [inserted.after, Text.numbered_eq_numberedFrom, Text.numberedFrom_append,
      Text.numberedFrom_append, List.length_append, length_of_inserted inserted,
      Text.numbered_eq_numberedFrom]
  have blank : ∀ l ∈ ((Text.numberedFrom (1 + i) new).filter
      fun e => ContentAt ls' .setupScripts e.1).map (·.2), Text.allBlank l = true := by
    refine List.forall_mem_map.2 fun e he => inserted.blank _ ?_
    exact Text.mem_of_mem_numberedFrom (List.mem_filter.1 he).1
  rw [scriptText, scriptText, scriptLines, scriptLines, whole, whole', List.filter_append,
    List.filter_append, List.filter_append, filter_front inserted grammatical,
    filter_back inserted]
  simp only [List.map_append, List.map_map, Function.comp_def]
  rcases filter_eq_nil inserted grammatical outside with empty | empty
  · rw [empty, List.map_nil, List.nil_append, List.nil_append,
      Text.trim_intercalate_blank_append blank]
  · rw [empty, List.map_nil, List.append_nil, List.append_nil,
      Text.trim_intercalate_append_blank blank]

end Inserted

end Markup

open Markup

/-- The text with a line put in behind its first `i` lines. -/
def insertLine (i : Nat) (line : List Char) (source : String) : String :=
  String.ofList (Text.insertLine i line source.toList)

/-- A blank line outside of a setup script only moves what stands behind it. -/
theorem Document.read_insertLine (path : Path) (feature : String) (markers : Markers)
    {source : String} (unmarked : source.toList.head? ≠ some '\uFEFF') {i : Nat}
    {line : List Char} (blank : Text.allBlank line = true) (single : '\n' ∉ line)
    (inside : i ≤ (bodyLines source).length)
    (outside : ¬(ContentAt (bodyLines source) .setupScripts i ∧
      ContentAt (bodyLines source) .setupScripts (i + 1))) :
    Renumbered (past i) path (insertLine i line source) (read path feature markers source)
      (read path feature markers (insertLine i line source)) := by
  have free : '\uFEFF' ∉ line := fun mem =>
    absurd (List.all_eq_true.1 blank _ mem) (by decide)
  have unmarked' : (insertLine i line source).toList.head? ≠ some '\uFEFF' := by
    rw [insertLine, String.toList_ofList]
    exact Text.head?_insertLine_ne (by decide) free unmarked
  have text : bodyLines (insertLine i line source) =
      Text.lines (Text.insertLine i line source.toList) := by
    rw [bodyLines_of_unmarked unmarked', insertLine, String.toList_ofList]
  have own := bodyLines_of_unmarked unmarked
  obtain ⟨a, a', new, b, inserted⟩ := Text.lines_insertLine blank single (own ▸ inside)
  rw [← text, ← own] at inserted
  exact read_of_alike (strictMono_past i) path feature markers (alike_of_inserted inserted)
    fun start grammatical => scriptText_of_inserted inserted grammatical outside

/-- A test case with steps and nothing else. -/
def Document.stepsOnly : String :=
  "# Test Case: A\n# Test Steps\n1. b"

theorem Document.read_insertLine_stepsOnly :
    stepsOnly.toList.head? ≠ some '\uFEFF' ∧ Text.allBlank [' ', '\t'] = true ∧
    '\n' ∉ [' ', '\t'] ∧ 2 ≤ (bodyLines stepsOnly).length ∧
    ¬(ContentAt (bodyLines stepsOnly) .setupScripts 2 ∧
      ContentAt (bodyLines stepsOnly) .setupScripts (2 + 1)) ∧
    Renumbered (past 2) ⟨"a.mock.md"⟩ (insertLine 2 [' ', '\t'] stepsOnly)
      (read ⟨"a.mock.md"⟩ "a" {} stepsOnly)
      (read ⟨"a.mock.md"⟩ "a" {} (insertLine 2 [' ', '\t'] stepsOnly)) := by
  have unmarked : stepsOnly.toList.head? ≠ some '\uFEFF' := by decide +kernel
  have blank : Text.allBlank [' ', '\t'] = true := by decide
  have single : '\n' ∉ [' ', '\t'] := by decide
  have inside : 2 ≤ (bodyLines stepsOnly).length := by decide +kernel
  have outside : ¬(ContentAt (bodyLines stepsOnly) .setupScripts 2 ∧
      ContentAt (bodyLines stepsOnly) .setupScripts (2 + 1)) := by decide +kernel
  exact ⟨unmarked, blank, single, inside, outside,
    read_insertLine ⟨"a.mock.md"⟩ "a" {} unmarked blank single inside outside⟩

end ScriptAudit
