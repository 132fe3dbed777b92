import Mathlib.Tactic.Choose
import ScriptAudit.Proofs.Markup.Content
import ScriptAudit.Proofs.Markup.OpenFence

/-!
# Missing sections

A required section without a heading is reported once, behind the nearest section of lower rank that
has one: at its last written line, over all its headings, or at its first heading if nothing is
written below any of them. Without such a section the report is at the test case heading.
-/

namespace ScriptAudit

theorem Section.mem_take_rank_iff {s r : Section} : r ∈ all.take s.rank ↔ r.rank < s.rank := by
  cases s <;> cases r <;> decide

theorem Section.pairwise_all : all.Pairwise fun s r => s.rank < r.rank := by decide

namespace Markup

/-- The line of this number belongs to the section and is not blank. -/
def WrittenAt (ls : List (List Char)) (s : Section) (n : Nat) : Prop :=
  ContentAt ls s n ∧ ∃ text, (n, text) ∈ Text.numbered ls ∧ Text.allBlank text = false

/-- Where a section ends. -/
inductive EndsAt (ls : List (List Char)) (start : Line) (s : Section) : Nat → Prop
  | written {n : Nat} : WrittenAt ls s n → (∀ m, WrittenAt ls s m → m ≤ n) → EndsAt ls start s n
  | heading {h : Line} : (∀ m, ¬WrittenAt ls s m) →
      IsFirst (marked ls) (fun k => start.number < k.number ∧ k.section? = some s) h →
      EndsAt ls start s h.number

/-- What a report of a missing section says that it is expected after, and the line. -/
inductive Precedes (ls : List (List Char)) (start : Line) (s : Section) :
    Option Section → Nat → Prop
  | ofSection {p : Section} {n : Nat} : p.rank < s.rank → Opens ls p →
      (∀ r, r.rank < s.rank → Opens ls r → r.rank ≤ p.rank) → EndsAt ls start p n →
      Precedes ls start s (some p) n
  | testCase : (∀ r, r.rank < s.rank → ¬Opens ls r) → Precedes ls start s none start.number

section

variable {ls : List (List Char)} {start : Line} {s : Section} {m n : Nat}

theorem EndsAt.unique (hm : EndsAt ls start s m) (hn : EndsAt ls start s n) : m = n := by
  cases hm with
  | written last greatest =>
    cases hn with
    | written last' greatest' => exact Nat.le_antisymm (greatest' m last) (greatest n last')
    | heading none _ => exact absurd last (none m)
  | heading none first =>
    cases hn with
    | written last' _ => exact absurd last' (none n)
    | heading _ first' =>
      exact Nat.le_antisymm (first.least _ first'.mem first'.holds)
        (first'.least _ first.mem first.holds)

theorem Precedes.unique {p q : Option Section} (hp : Precedes ls start s p m)
    (hq : Precedes ls start s q n) : (p, m) = (q, n) := by
  cases hp with
  | ofSection lower opened nearest ending =>
    cases hq with
    | ofSection lower' opened' nearest' ending' =>
      obtain rfl := Section.eq_of_rank_eq
        (Nat.le_antisymm (nearest' _ lower opened) (nearest _ lower' opened'))
      rw [ending.unique ending']
    | testCase none => exact absurd opened (none _ lower)
  | testCase none =>
    cases hq with
    | ofSection lower' opened' _ _ => exact absurd opened' (none _ lower')
    | testCase _ => rfl

end

namespace Outline

variable {o : Outline} {s p : Section} {n : Nat}

/-- The previous section is the nearest that is open. -/
theorem nearest_of_previous? (h : o.previous? s = some (p, n)) :
    p.rank < s.rank ∧ o.endLine? p = some n ∧
      ∀ r, r.rank < s.rank → (o.endLine? r).isSome → r.rank ≤ p.rank := by
  obtain ⟨later, q, earlier, split, found, shut⟩ := List.findSome?_eq_some_iff.1 h
  obtain ⟨m, ending, same⟩ := Option.map_eq_some_iff.1 found
  cases same
  have whole : Section.all.take s.rank = earlier.reverse ++ p :: later.reverse := by
    rw [← List.reverse_reverse (Section.all.take s.rank), split]
    simp
  have ascending := Section.pairwise_all.sublist (List.take_sublist s.rank _)
  have mem : p ∈ Section.all.take s.rank := by simp [whole]
  refine ⟨Section.mem_take_rank_iff.1 mem, ending, fun r below opened => ?_⟩
  have hr := Section.mem_take_rank_iff.2 below
  rw [whole] at hr ascending
  rcases List.mem_append.1 hr with hr | hr
  · exact Nat.le_of_lt ((List.pairwise_append.1 ascending).2.2 r hr p List.mem_cons_self)
  · rcases List.mem_cons.1 hr with rfl | hr
    · exact Nat.le_refl _
    · have none := shut r (List.mem_reverse.1 hr)
      rw [Option.map_eq_none_iff.1 none] at opened
      cases opened

theorem endLine?_eq_none_of_previous? (h : o.previous? s = none) {r : Section}
    (below : r.rank < s.rank) : o.endLine? r = none := by
  have shut := List.findSome?_eq_none_iff.1 h r
    (List.mem_reverse.2 (Section.mem_take_rank_iff.2 below))
  exact Option.map_eq_none_iff.1 shut

theorem endLine?_isSome_iff_opens {ls : List (List Char)}
    (outlined : ofLines? (marked ls) = some o) : (o.endLine? s).isSome = true ↔ Opens ls s := by
  rw [endLine?, Option.isSome_map, headingLine?_isSome_iff_opens outlined]

namespace Splits

variable {ls : List (List Char)} {start : Line} {rest : List Line}
  (splits : o.Splits (marked ls) start rest)
include splits

theorem isFirst_of_headingLine? (h : o.headingLine? s = some n) :
    ∃ l, IsFirst (marked ls) (fun k => start.number < k.number ∧ k.section? = some s) l ∧
      l.number = n := by
  rw [headingLine?, blocksOf, List.head?_filter, Option.map_eq_some_iff] at h
  obtain ⟨b, found, rfl⟩ := h
  obtain ⟨hb, same, least⟩ := (find?_eq_some_iff_of_key_lt splits.pairwise_blocks).1 found
  obtain ⟨l, hl, after, section?, number⟩ :=
    splits.exists_block_at_iff.1 ⟨b, hb, of_decide_eq_true same, rfl⟩
  refine ⟨l, ⟨hl, ⟨after, section?⟩, fun k hk another => ?_⟩, number⟩
  obtain ⟨after, section?⟩ := another
  obtain ⟨c, hc, same, line⟩ := splits.exists_block_at_iff.2 ⟨k, hk, after, section?, rfl⟩
  have := least c hc (decide_eq_true same)
  omega

theorem writtenAt_iff : WrittenAt ls s n ↔ ∃ text, (n, text) ∈ o.written s := by
  simp only [written, List.mem_filter, splits.mem_content_iff_contentAt, Bool.not_eq_true']
  constructor
  · rintro ⟨content, text, mem, written⟩
    exact ⟨text, ⟨mem, content⟩, written⟩
  · rintro ⟨text, ⟨mem, content⟩, written⟩
    exact ⟨content, text, mem, written⟩

theorem endsAt_of_endLine? (h : o.endLine? s = some n) : EndsAt ls start s n := by
  rw [endLine?, Option.map_eq_some_iff] at h
  obtain ⟨heading, opened, rfl⟩ := h
  cases last : (o.written s).getLast? with
  | none =>
    obtain ⟨l, first, rfl⟩ := splits.isFirst_of_headingLine? opened
    refine .heading (fun m written => ?_) first
    obtain ⟨text, mem⟩ := splits.writtenAt_iff.1 written
    rw [List.getLast?_eq_none_iff.1 last] at mem
    cases mem
  | some e =>
    refine .written (splits.writtenAt_iff.2 ⟨e.2, List.mem_of_getLast? last⟩) fun m written => ?_
    obtain ⟨text, mem⟩ := splits.writtenAt_iff.1 written
    exact key_le_of_getLast? (splits.pairwise_written s) last mem

theorem exists_precedes (outlined : ofLines? (marked ls) = some o) (s : Section) :
    ∃ p n, Precedes ls start s p n ∧ o.missingFault s = (some n, .missingSection s p n) := by
  have opens (r : Section) := endLine?_isSome_iff_opens (s := r) outlined
  rw [missingFault]
  cases previous : o.previous? s with
  | some pair =>
    obtain ⟨below, ending, nearest⟩ := nearest_of_previous? previous
    refine ⟨some pair.1, pair.2, .ofSection below ?_ (fun r lower opened => ?_)
      (splits.endsAt_of_endLine? ending), rfl⟩
    · exact (opens _).1 (by rw [ending]; rfl)
    · exact nearest r lower ((opens r).2 opened)
  | none =>
    refine ⟨none, start.number, .testCase fun r lower opened => ?_, by rw [splits.line_eq]⟩
    have shut := (opens r).2 opened
    rw [endLine?_eq_none_of_previous? previous lower] at shut
    cases shut

end Splits

end Outline

end Markup

open Markup

namespace Document

/-- Each required section that is not opened is reported once, at the place that it is expected
after, and nothing else is reported as missing. -/
theorem read_missing (path : Path) (feature : String) (markers : Markers) {source : String}
    {start : Line} (first : IsStart (bodyLines source) start)
    (closed : (bodyLines source).countP isFence % 2 = 0) :
    ∃ place : Section → Option Section × Nat,
      (∀ s p n, Precedes (bodyLines source) start s p n ↔ (p, n) = place s) ∧
      reportedUnder "missing-section" (read path feature markers source) =
        Diagnostic.sort
          ((Section.all.filter fun s => s.isRequired ∧ ¬Opens (bodyLines source) s).map fun s =>
            (Fault.missingSection s (place s).1 (place s).2).diagnostic path.display
              (some (place s).2)) := by
  obtain ⟨o, outlined⟩ := Outline.exists_of_hasTestCase ⟨start, first.mem, first.holds⟩
  obtain ⟨own, rest, splits⟩ := Outline.splits_of_ofLines? outlined
  obtain rfl : own = start := splits.isStart.unique first
  choose previous line precedes fault using splits.exists_precedes outlined
  refine ⟨fun s => (previous s, line s), fun s p n => ⟨(·.unique (precedes s)), ?_⟩, ?_⟩
  · rintro ⟨⟩
    exact precedes s
  have missing : o.missingFaults =
      (Section.all.filter fun s => s.isRequired ∧ ¬Opens (bodyLines source) s).map fun s =>
        (some (line s), .missingSection s (previous s) (line s)) := by
    rw [Outline.missingFaults, funext fault]
    refine congrArg (List.map _) (List.filter_congr fun s _ => ?_)
    rw [Bool.eq_iff_iff, decide_eq_true_iff, ← Outline.headingLine?_isSome_iff_opens outlined]
    simp
  rw [reportedUnder_read path feature markers ((scan_textLines source).symm ▸ outlined) _
    (by decide), filter_report_structureFaults, openFence?_textLines_eq_none_iff.2 closed, missing]
  simp [report, Function.comp_def]

/-- A text that opens two sections out of order, with a line below the one that comes first. -/
def halfway : String :=
  "# Test Case: A\n# Test Steps\n1. b\n\n# Prerequisites\n# Test Steps"

def halfwayStart : Line :=
  ⟨1, "# Test Case: A".toList, some (.testCase " A".toList)⟩

theorem read_missing_halfway :
    IsStart (bodyLines halfway) halfwayStart ∧ (bodyLines halfway).countP isFence % 2 = 0 ∧
    ∃ place : Section → Option Section × Nat,
      (∀ s p n, Precedes (bodyLines halfway) halfwayStart s p n ↔ (p, n) = place s) ∧
      reportedUnder "missing-section" (read ⟨"a.mock.md"⟩ "a" {} halfway) =
        Diagnostic.sort
          ((Section.all.filter fun s => s.isRequired ∧ ¬Opens (bodyLines halfway) s).map fun s =>
            (Fault.missingSection s (place s).1 (place s).2).diagnostic "a.mock.md"
              (some (place s).2)) := by
  have first : IsStart (bodyLines halfway) halfwayStart :=
    ⟨by decide +kernel, by decide +kernel, by decide +kernel⟩
  have closed : (bodyLines halfway).countP isFence % 2 = 0 := by decide +kernel
  exact ⟨first, closed, read_missing ⟨"a.mock.md"⟩ "a" {} first closed⟩

example : reportedUnder "missing-section"
      (read ⟨"a.mock.md"⟩ "a" {} "# Test Case: A\n# Test Steps\n1. b\n\n# Prerequisites") =
    [(Fault.missingSection .expectedResult (some .testSteps) 3).diagnostic "a.mock.md" (some 3),
      (Fault.missingSection .expectedUiState (some .testSteps) 3).diagnostic "a.mock.md"
        (some 3)] := by
  decide +kernel

end Document

end ScriptAudit
