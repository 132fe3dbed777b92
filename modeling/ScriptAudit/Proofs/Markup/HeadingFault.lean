import ScriptAudit.Proofs.Markup.Content
import ScriptAudit.Proofs.Markup.OpenFence

/-!
# Faults of headings

Which faults the headings of a text with a test case have, and at which lines: headings of sections
that come again or too late, further test case headings, and text where only headings may stand.
Reading reports each of them once and nothing else under their ids.
-/

namespace ScriptAudit

namespace Markup

/-- A heading of the section stands between the test case heading and the line `n`. -/
def OpenedBefore (lines : List Line) (start : Line) (n : Nat) (s : Section) : Prop :=
  ∃ k ∈ lines, start.number < k.number ∧ k.number < n ∧ k.section? = some s

/-- A written line that is no heading, between the test case heading and its first section. -/
structure Stray (lines : List Line) (start l : Line) : Prop where
  below : start.number < l.number
  plain : l.heading = none
  above : ∀ h ∈ lines, start.number < h.number → h.section?.isSome → l.number < h.number
  written : l.isBlank = false

/-- What is wrong with the headings of a text whose test case heading is `start`, and where. -/
inductive HeadingFault (lines : List Line) (start : Line) : Nat → Fault → Prop
  | misplaced {h : Line} {s : Section} {fault : Fault} : h ∈ lines → start.number < h.number →
      h.section? = some s → Misplaced (OpenedBefore lines start h.number) s fault →
      HeadingFault lines start h.number fault
  | repeatedTestCase {t : Line} : t ∈ lines → start.number < t.number → t.isTestCase = true →
      HeadingFault lines start t.number .repeatedTestCase
  | contentBeforeTestCase {l : Line} :
      IsFirst lines (fun k => k.number < start.number ∧ k.isBlank = false) l →
      HeadingFault lines start l.number .contentBeforeTestCase
  | strayContent {l : Line} : IsFirst lines (Stray lines start) l →
      HeadingFault lines start l.number .strayContent

/-! ## Lists of faults -/

/-- Each fault at its line is found once, in the order of the lines, and nothing else. -/
structure FindsEach (P : Nat → Fault → Prop) (found : List Located) : Prop where
  mem_iff : ∀ l, l ∈ found ↔ ∃ n f, P n f ∧ l = (some n, f)
  ascending : found.Pairwise fun a b => Diagnostic.lineRank a.1 < Diagnostic.lineRank b.1

/-- The same of what is reported in a file. -/
structure ReportsEach (file : String) (P : Nat → Fault → Prop) (ds : List Diagnostic) : Prop where
  mem_iff : ∀ x, x ∈ ds ↔ ∃ n f, P n f ∧ x = f.diagnostic file (some n)
  ascending : ds.Pairwise fun a b => Diagnostic.lineRank a.line < Diagnostic.lineRank b.line

theorem FindsEach.reportsEach {P : Nat → Fault → Prop} {found : List Located}
    (finds : FindsEach P found) (path : Path) :
    ReportsEach path.display P (Diagnostic.sort (report path found)) := by
  have ascending : (report path found).Pairwise fun a b =>
      Diagnostic.lineRank a.line < Diagnostic.lineRank b.line :=
    List.pairwise_map.2 finds.ascending
  have ordered : (report path found).Pairwise (Diagnostic.le · ·) := by
    refine List.pairwise_map.2 (finds.ascending.imp fun lt => ?_)
    exact Diagnostic.le_of_lineRank_lt rfl lt
  rw [Diagnostic.sort, sortBy_of_pairwise ordered]
  refine ⟨fun x => ?_, ascending⟩
  simp only [report, List.mem_map, finds.mem_iff]
  constructor
  · rintro ⟨_, ⟨n, f, holds, rfl⟩, rfl⟩
    exact ⟨n, f, holds, rfl⟩
  · rintro ⟨n, f, holds, rfl⟩
    exact ⟨_, ⟨n, f, holds, rfl⟩, rfl⟩

theorem pairwise_toList {α : Type _} {R : α → α → Prop} (a : Option α) : a.toList.Pairwise R := by
  cases a <;> simp

/-- One kind of fault is found at the lines of this list. -/
theorem findsEach_map {α : Type _} (key : α → Nat) {xs : List α} {fault : Fault}
    {P : Nat → Fault → Prop} (ascending : xs.Pairwise fun a b => key a < key b)
    (places : ∀ n f, P n f ↔ f = fault ∧ ∃ a ∈ xs, key a = n) :
    FindsEach P (xs.map fun a => (some (key a), fault)) := by
  constructor
  · intro l
    simp only [List.mem_map, places]
    constructor
    · rintro ⟨a, ha, rfl⟩
      exact ⟨key a, fault, ⟨rfl, a, ha, rfl⟩, rfl⟩
    · rintro ⟨_, _, ⟨rfl, a, ha, rfl⟩, rfl⟩
      exact ⟨a, ha, rfl⟩
  · exact List.pairwise_map.2 (ascending.imp fun lt => Nat.succ_lt_succ lt)

namespace Outline.Splits

variable {o : Outline} {ls : List (List Char)} {start : Line} {rest : List Line}
  (splits : o.Splits (marked ls) start rest)
include splits

theorem openedBefore_iff {n : Nat} {s : Section} :
    OpenedBefore (marked ls) start n s ↔
      s ∈ ([] : List Section) ∨ ∃ c ∈ o.blocks, c.line < n ∧ c.ofSection = s := by
  have at_iff (m : Nat) := splits.exists_block_at_iff (s := s) (n := m)
  simp only [List.not_mem_nil, false_or]
  constructor
  · rintro ⟨k, hk, after, before, section?⟩
    obtain ⟨b, hb, same, line⟩ := (at_iff _).2 ⟨k, hk, after, section?, rfl⟩
    exact ⟨b, hb, by omega, same⟩
  · rintro ⟨b, hb, before, same⟩
    obtain ⟨k, hk, after, section?, number⟩ := (at_iff _).1 ⟨b, hb, same, rfl⟩
    exact ⟨k, hk, after, by omega, section?⟩

theorem orderFaults_findsEach :
    FindsEach (fun n f => HeadingFault (marked ls) start n f ∧ f.ruleId = "section-order")
      o.orderFaults := by
  constructor
  · intro l
    rw [orderFaults, mem_orderFaultsAfter_iff splits.pairwise_blocks]
    constructor
    · rintro ⟨b, hb, fault, misplaced, rfl⟩
      rw [Misplaced.congr fun s => splits.openedBefore_iff.symm] at misplaced
      obtain ⟨h, hh, after, section?, number⟩ := splits.exists_block_at_iff.1 ⟨b, hb, rfl, rfl⟩
      rw [← number] at misplaced ⊢
      exact ⟨_, _, ⟨.misplaced hh after section? misplaced, misplaced.ruleId_eq⟩, rfl⟩
    · rintro ⟨n, fault, ⟨wrong, id⟩, rfl⟩
      cases wrong with
      | misplaced hh after section? misplaced =>
        obtain ⟨b, hb, same, line⟩ := splits.exists_block_at_iff.2 ⟨_, hh, after, section?, rfl⟩
        rw [Misplaced.congr fun s => splits.openedBefore_iff, ← line, ← same] at misplaced
        exact ⟨b, hb, fault, misplaced, by rw [line]⟩
      | repeatedTestCase => exact absurd id (by decide)
      | contentBeforeTestCase => exact absurd id (by decide)
      | strayContent => exact absurd id (by decide)
  · have lines : (o.blocks.map fun b => some b.line).Pairwise fun m n =>
        Diagnostic.lineRank m < Diagnostic.lineRank n :=
      List.pairwise_map.2 (splits.pairwise_blocks.imp fun lt => Nat.succ_lt_succ lt)
    have kept := lines.sublist (orderFaultsAfter_lines_sublist [] o.blocks)
    rwa [List.pairwise_map] at kept

theorem repeatFaults_findsEach :
    FindsEach (fun n f => HeadingFault (marked ls) start n f ∧ f.ruleId = "multiple-test-cases")
      o.repeatFaults := by
  rw [repeatFaults, splits.repeated_eq, List.map_map]
  refine findsEach_map Line.number (splits.pairwise_rest.filter _) fun n f => ?_
  simp only [List.mem_filter, splits.mem_rest_iff]
  constructor
  · rintro ⟨wrong, id⟩
    cases wrong with
    | misplaced _ _ _ misplaced => exact absurd (misplaced.ruleId_eq.symm.trans id) (by decide)
    | repeatedTestCase ht after test => exact ⟨rfl, _, ⟨⟨ht, after⟩, test⟩, rfl⟩
    | contentBeforeTestCase => exact absurd id (by decide)
    | strayContent => exact absurd id (by decide)
  · rintro ⟨rfl, t, ⟨⟨ht, after⟩, test⟩, rfl⟩
    exact ⟨.repeatedTestCase ht after test, rfl⟩

theorem preambleFaults_findsEach :
    FindsEach (fun n f => HeadingFault (marked ls) start n f ∧ f.ruleId = "content-before-heading")
      o.preambleFaults := by
  have ascending := (List.pairwise_append.1 splits.pairwise_lines).1
  have first {l : Line} : o.before.find? (!·.isBlank) = some l ↔
      IsFirst (marked ls) (fun k => k.number < start.number ∧ k.isBlank = false) l := by
    rw [find?_eq_some_iff_of_key_lt ascending]
    simp only [splits.mem_before_iff, Bool.not_eq_true']
    exact ⟨fun ⟨⟨mem, before⟩, written, least⟩ => ⟨mem, ⟨before, written⟩, fun k hk holds =>
      least k ⟨hk, holds.1⟩ holds.2⟩, fun ⟨mem, ⟨before, written⟩, least⟩ =>
      ⟨⟨mem, before⟩, written, fun k hk holds => least k hk.1 ⟨hk.2, holds⟩⟩⟩
  refine findsEach_map Line.number (pairwise_toList _) fun n f => ?_
  simp only [Option.mem_toList, first]
  constructor
  · rintro ⟨wrong, id⟩
    cases wrong with
    | misplaced _ _ _ misplaced => exact absurd (misplaced.ruleId_eq.symm.trans id) (by decide)
    | repeatedTestCase => exact absurd id (by decide)
    | contentBeforeTestCase hl => exact ⟨rfl, _, hl, rfl⟩
    | strayContent => exact absurd id (by decide)
  · rintro ⟨rfl, l, hl, rfl⟩
    exact ⟨.contentBeforeTestCase hl, rfl⟩

theorem mem_lead_iff {e : Nat × List Char} :
    e ∈ o.lead ↔ ∃ l ∈ marked ls, e = l.entry ∧ start.number < l.number ∧ l.heading = none ∧
      ∀ h ∈ marked ls, start.number < h.number → h.section?.isSome → l.number < h.number := by
  rw [splits.lead_eq, Markup.mem_lead_iff splits.pairwise_rest]
  simp only [splits.mem_rest_iff]
  constructor
  · rintro ⟨l, ⟨hl, after⟩, plain, rfl, above⟩
    exact ⟨l, hl, rfl, after, plain, fun h hh below => above h ⟨hh, below⟩⟩
  · rintro ⟨l, hl, rfl, after, plain, above⟩
    exact ⟨l, ⟨hl, after⟩, plain, rfl, fun h hh => above h hh.1 hh.2⟩

theorem pairwise_lead : o.lead.Pairwise (·.1 < ·.1) := by
  rw [splits.lead_eq, ← List.pairwise_map]
  exact (List.pairwise_append.1 (pairwise_numbers splits.pairwise_rest)).1

theorem strayFaults_findsEach :
    FindsEach (fun n f => HeadingFault (marked ls) start n f ∧ f.ruleId = "stray-content")
      o.strayFaults := by
  have stray {l : Line} (hl : l ∈ marked ls) : Stray (marked ls) start l ↔
      l.entry ∈ o.lead ∧ Text.allBlank l.entry.2 = false := by
    rw [splits.mem_lead_iff]
    constructor
    · rintro ⟨below, plain, above, written⟩
      exact ⟨⟨l, hl, rfl, below, plain, above⟩, written⟩
    · rintro ⟨⟨k, hk, same, below, plain, above⟩, written⟩
      obtain rfl := eq_of_key_eq (pairwise_marked ls) hl hk (congrArg Prod.fst same)
      exact ⟨below, plain, above, written⟩
  have first {n : Nat} : (∃ e, o.lead.find? (fun l => !Text.allBlank l.2) = some e ∧ e.1 = n) ↔
      ∃ l, IsFirst (marked ls) (Stray (marked ls) start) l ∧ l.number = n := by
    simp only [find?_eq_some_iff_of_key_lt splits.pairwise_lead, Bool.not_eq_true']
    constructor
    · rintro ⟨e, ⟨he, written, least⟩, rfl⟩
      obtain ⟨l, hl, rfl, _⟩ := splits.mem_lead_iff.1 he
      refine ⟨l, ⟨hl, (stray hl).2 ⟨he, written⟩, fun k hk holds => ?_⟩, rfl⟩
      exact least k.entry ((stray hk).1 holds).1 ((stray hk).1 holds).2
    · rintro ⟨l, ⟨hl, holds, least⟩, rfl⟩
      obtain ⟨he, written⟩ := (stray hl).1 holds
      refine ⟨l.entry, ⟨he, written, fun e he written => ?_⟩, rfl⟩
      obtain ⟨k, hk, rfl, _⟩ := splits.mem_lead_iff.1 he
      exact least k hk ((stray hk).2 ⟨he, written⟩)
  refine findsEach_map Prod.fst (pairwise_toList _) fun n f => ?_
  simp only [Option.mem_toList, first]
  constructor
  · rintro ⟨wrong, id⟩
    cases wrong with
    | misplaced _ _ _ misplaced => exact absurd (misplaced.ruleId_eq.symm.trans id) (by decide)
    | repeatedTestCase => exact absurd id (by decide)
    | contentBeforeTestCase => exact absurd id (by decide)
    | strayContent hl => exact ⟨rfl, _, hl, rfl⟩
  · rintro ⟨rfl, l, hl, rfl⟩
    exact ⟨.strayContent hl, rfl⟩

end Outline.Splits

end Markup

open Markup

namespace Document

/-- What reading reports of the headings of a text with a test case is what is wrong with them. -/
theorem read_headings (path : Path) (feature : String) (markers : Markers) {source : String}
    {start : Line} (first : IsStart (bodyLines source) start) :
    ∀ id ∈ ["section-order", "multiple-test-cases", "content-before-heading", "stray-content"],
      ReportsEach path.display
        (fun n f => HeadingFault (marked (bodyLines source)) start n f ∧ f.ruleId = id)
        (reportedUnder id (read path feature markers source)) := by
  obtain ⟨o, outlined⟩ := Outline.exists_of_hasTestCase ⟨start, first.mem, first.holds⟩
  obtain ⟨own, rest, splits⟩ := Outline.splits_of_ofLines? outlined
  obtain rfl : own = start := splits.isStart.unique first
  rw [← scan_textLines] at outlined
  have reported {id : String} {found : List Located} (inText : id ≠ "filename-mode")
      (finds : FindsEach (fun n f => HeadingFault (marked (bodyLines source)) own n f ∧
        f.ruleId = id) found)
      (kind : (report path (structureFaults (textLines source) o)).filter (·.ruleId = id) =
        report path found) :
      ReportsEach path.display
        (fun n f => HeadingFault (marked (bodyLines source)) own n f ∧ f.ruleId = id)
        (reportedUnder id (read path feature markers source)) := by
    rw [reportedUnder_read path feature markers outlined id inText, kind]
    exact finds.reportsEach path
  simp only [List.forall_mem_cons]
  refine ⟨reported (by decide) splits.orderFaults_findsEach ?_,
    reported (by decide) splits.repeatFaults_findsEach ?_,
    reported (by decide) splits.preambleFaults_findsEach ?_,
    reported (by decide) splits.strayFaults_findsEach ?_, by simp⟩
  all_goals simp [filter_report_structureFaults]

/-- A text with each of these faults. -/
def jumbled : String :=
  "a\n# Test Case: A\nb\n# Test Steps\n# Prerequisites\n# Test Case: B\n# Test Steps"

def jumbledStart : Line :=
  ⟨2, "# Test Case: A".toList, some (.testCase " A".toList)⟩

theorem read_headings_jumbled :
    IsStart (bodyLines jumbled) jumbledStart ∧
    ∀ id ∈ ["section-order", "multiple-test-cases", "content-before-heading", "stray-content"],
      ReportsEach "a.mock.md"
        (fun n f => HeadingFault (marked (bodyLines jumbled)) jumbledStart n f ∧ f.ruleId = id)
        (reportedUnder id (read ⟨"a.mock.md"⟩ "a" {} jumbled)) := by
  have first : IsStart (bodyLines jumbled) jumbledStart :=
    ⟨by decide +kernel, by decide +kernel, by decide +kernel⟩
  exact ⟨first, read_headings ⟨"a.mock.md"⟩ "a" {} first⟩

example : reportedUnder "section-order"
      (read ⟨"a.mock.md"⟩ "a" {} "# Test Case: A\n# Test Steps\n# Prerequisites\n# Test Steps") =
    [(Fault.sectionOutOfOrder .prerequisites).diagnostic "a.mock.md" (some 3),
      (Fault.repeatedSection .testSteps).diagnostic "a.mock.md" (some 4)] := by
  decide +kernel

end Document

end ScriptAudit
