import ScriptAudit.Markup.Outline
import ScriptAudit.Proofs.Markup.Heading

/-!
# What an outline keeps of its lines

Splitting lines at their headings keeps their order, and which block a plain line falls into is
decided by the nearest section heading above it. Lines are told apart by their numbers, which are
assumed to ascend.
-/

namespace ScriptAudit.Markup

theorem Line.kinds (l : Line) :
    l.heading = none ∨ l.isTestCase = true ∨ ∃ s, l.section? = some s := by
  cases htest : l.isTestCase with
  | true => exact Or.inr (Or.inl rfl)
  | false =>
    cases hsection : l.section? with
    | some s => exact Or.inr (Or.inr ⟨s, rfl⟩)
    | none => exact Or.inl (Line.heading_eq_none htest hsection)

theorem blocks_cons_plain {l : Line} (h : l.heading = none) (rest : List Line) :
    blocks (l :: rest) = (l.entry :: (blocks rest).1, (blocks rest).2) := by
  rw [blocks, h]
  rfl

theorem blocks_cons_testCase {l : Line} (h : l.isTestCase = true) (rest : List Line) :
    blocks (l :: rest) = blocks rest := by
  obtain ⟨title, heading⟩ := Line.isTestCase_iff.1 h
  rw [blocks, heading]

theorem blocks_cons_section {l : Line} {s : Section} (h : l.section? = some s)
    (rest : List Line) :
    blocks (l :: rest) = ([], ⟨s, l.number, (blocks rest).1⟩ :: (blocks rest).2) := by
  rw [blocks, Line.section?_eq_some_iff.1 h]

theorem blocks_append_section {h : Line} {s : Section} (section? : h.section? = some s)
    (ls rest : List Line) :
    blocks (ls ++ h :: rest) =
      ((blocks ls).1, (blocks ls).2 ++ ⟨s, h.number, (blocks rest).1⟩ :: (blocks rest).2) := by
  induction ls with
  | nil => exact blocks_cons_section section? rest
  | cons l ls ih =>
    rw [List.cons_append]
    rcases l.kinds with plain | test | ⟨r, own⟩
    · rw [blocks_cons_plain plain, blocks_cons_plain plain, ih]
    · rw [blocks_cons_testCase test, blocks_cons_testCase test, ih]
    · rw [blocks_cons_section own, blocks_cons_section own, ih]
      rfl

theorem blocks_append_of_unheaded {ls : List Line} (free : ∀ l ∈ ls, l.section? = none)
    (rest : List Line) :
    blocks (ls ++ rest) = ((blocks ls).1 ++ (blocks rest).1, (blocks rest).2) := by
  induction ls with
  | nil => rfl
  | cons l ls ih =>
    obtain ⟨own, others⟩ := List.forall_mem_cons.1 free
    rw [List.cons_append]
    rcases l.kinds with plain | test | ⟨r, section?⟩
    · rw [blocks_cons_plain plain, blocks_cons_plain plain, ih others]
      rfl
    · rw [blocks_cons_testCase test, blocks_cons_testCase test, ih others]
    · rw [own] at section?
      cases section?

theorem blocks_of_plain {ls : List Line} (plain : ∀ l ∈ ls, l.heading = none) :
    blocks ls = (ls.map Line.entry, []) := by
  induction ls with
  | nil => rfl
  | cons l ls ih =>
    obtain ⟨own, others⟩ := List.forall_mem_cons.1 plain
    rw [blocks_cons_plain own, ih others]
    rfl

/-- The blocks are those of the section headings, in order. -/
theorem blocks_headings (ls : List Line) :
    (blocks ls).2.map (fun b => (b.ofSection, b.line)) =
      ls.filterMap fun l => l.section?.map fun s => (s, l.number) := by
  induction ls with
  | nil => rfl
  | cons l rest ih =>
    rcases l.kinds with plain | test | ⟨s, section?⟩
    · rw [blocks_cons_plain plain, List.filterMap_cons, Line.section?_of_heading_eq_none plain]
      exact ih
    · rw [blocks_cons_testCase test, List.filterMap_cons, Line.section?_of_isTestCase test]
      exact ih
    · rw [blocks_cons_section section?, List.filterMap_cons, section?]
      exact congrArg (List.cons _) ih

theorem exists_block_at_iff {ls : List Line} {s : Section} {n : Nat} :
    (∃ b ∈ (blocks ls).2, b.ofSection = s ∧ b.line = n) ↔
      ∃ l ∈ ls, l.section? = some s ∧ l.number = n := by
  have heading : (s, n) ∈ (blocks ls).2.map (fun b => (b.ofSection, b.line)) ↔
      (s, n) ∈ ls.filterMap fun l => l.section?.map fun s => (s, l.number) := by
    rw [blocks_headings]
  simpa [List.mem_filterMap, Option.map_eq_some_iff, and_left_comm (a := _ = some _)]
    using heading

theorem exists_block_iff {ls : List Line} {s : Section} :
    (∃ b ∈ (blocks ls).2, b.ofSection = s) ↔ ∃ l ∈ ls, l.section? = some s := by
  constructor
  · rintro ⟨b, hb, same⟩
    obtain ⟨l, hl, section?, _⟩ := exists_block_at_iff.1 ⟨b, hb, same, rfl⟩
    exact ⟨l, hl, section?⟩
  · rintro ⟨l, hl, section?⟩
    obtain ⟨b, hb, same, _⟩ := exists_block_at_iff.2 ⟨l, hl, section?, rfl⟩
    exact ⟨b, hb, same⟩

/-! ## Order -/

/-- The numbers of a block's lines, its heading first. -/
def Block.numbers (b : Block) : List Nat :=
  b.line :: b.content.map (·.1)

theorem blocks_numbers_sublist (ls : List Line) :
    ((blocks ls).1.map (·.1) ++ (blocks ls).2.flatMap Block.numbers).Sublist
      (ls.map (·.number)) := by
  induction ls with
  | nil => exact .slnil
  | cons l rest ih =>
    rw [List.map_cons]
    rcases l.kinds with plain | test | ⟨s, section?⟩
    · rw [blocks_cons_plain plain]
      exact ih.cons_cons l.number
    · rw [blocks_cons_testCase test]
      exact ih.cons l.number
    · rw [blocks_cons_section section?]
      exact ih.cons_cons l.number

theorem pairwise_numbers {ls : List Line} (ascending : ls.Pairwise (·.number < ·.number)) :
    ((blocks ls).1.map (·.1) ++ (blocks ls).2.flatMap Block.numbers).Pairwise (· < ·) :=
  (List.pairwise_map.2 ascending).sublist (blocks_numbers_sublist ls)

/-! ## Membership -/

/-- The nearest section heading above the line is one of `s`. -/
def Under (ls : List Line) (s : Section) (l : Line) : Prop :=
  ∃ h ∈ ls, h.section? = some s ∧ h.number < l.number ∧
    ∀ k ∈ ls, h.number < k.number → k.number ≤ l.number → k.section? = none

/-- A line that is no section heading keeps none from being the first. -/
theorem forall_section_cons_iff {l : Line} (free : l.section? = none) {ls : List Line} {n : Nat} :
    (∀ h ∈ l :: ls, h.section?.isSome → n < h.number) ↔
      ∀ h ∈ ls, h.section?.isSome → n < h.number := by
  simp [free]

/-- Which lines stand in front of all section headings. -/
theorem mem_lead_iff {ls : List Line} (ascending : ls.Pairwise (·.number < ·.number))
    {e : Nat × List Char} :
    e ∈ (blocks ls).1 ↔ ∃ l ∈ ls, l.heading = none ∧ e = l.entry ∧
      ∀ h ∈ ls, h.section?.isSome → l.number < h.number := by
  induction ls with
  | nil => simp [blocks]
  | cons l rest ih =>
    obtain ⟨above, ascending⟩ := List.pairwise_cons.1 ascending
    rcases l.kinds with plain | test | ⟨s, section?⟩
    · have free := Line.section?_of_heading_eq_none plain
      rw [blocks_cons_plain plain, List.mem_cons, ih ascending]
      simp only [forall_section_cons_iff free]
      constructor
      · rintro (rfl | ⟨k, hk, first⟩)
        · exact ⟨l, List.mem_cons_self, plain, rfl, fun h hh _ => above h hh⟩
        · exact ⟨k, List.mem_cons_of_mem _ hk, first⟩
      · rintro ⟨k, hk, first⟩
        rcases List.mem_cons.1 hk with rfl | hk
        · exact Or.inl first.2.1
        · exact Or.inr ⟨k, hk, first⟩
    · have free := Line.section?_of_isTestCase test
      rw [blocks_cons_testCase test, ih ascending]
      simp only [forall_section_cons_iff free]
      constructor
      · rintro ⟨k, hk, first⟩
        exact ⟨k, List.mem_cons_of_mem _ hk, first⟩
      · rintro ⟨k, hk, first⟩
        rcases List.mem_cons.1 hk with rfl | hk
        · obtain ⟨title, heading⟩ := Line.isTestCase_iff.1 test
          rw [heading] at first
          cases first.1
        · exact ⟨k, hk, first⟩
    · rw [blocks_cons_section section?]
      simp only [List.not_mem_nil, false_iff]
      rintro ⟨k, hk, hplain, rfl, hfirst⟩
      have below := hfirst l List.mem_cons_self (by rw [section?]; rfl)
      rcases List.mem_cons.1 hk with rfl | hk
      · omega
      · have := above k hk
        omega

theorem under_cons_iff {ls : List Line} {l k : Line} {s : Section}
    (above : ∀ a ∈ ls, l.number < a.number) (hk : k ∈ ls) :
    Under (l :: ls) s k ↔ Under ls s k ∨
      (l.section? = some s ∧ ∀ h ∈ ls, h.section?.isSome → k.number < h.number) := by
  have hlk := above k hk
  constructor
  · rintro ⟨h, hh, section?, before, nearest⟩
    rcases List.mem_cons.1 hh with rfl | hh
    · refine Or.inr ⟨section?, fun j hj some => ?_⟩
      by_cases later : j.number ≤ k.number
      · rw [nearest j (List.mem_cons_of_mem _ hj) (above j hj) later] at some
        cases some
      · omega
    · exact Or.inl ⟨h, hh, section?, before, fun j hj => nearest j (List.mem_cons_of_mem _ hj)⟩
  · rintro (⟨h, hh, section?, before, nearest⟩ | ⟨section?, first⟩)
    · refine ⟨h, List.mem_cons_of_mem _ hh, section?, before, fun j hj after upto => ?_⟩
      rcases List.mem_cons.1 hj with rfl | hj
      · have := above h hh
        omega
      · exact nearest j hj after upto
    · refine ⟨l, List.mem_cons_self, section?, hlk, fun j hj after upto => ?_⟩
      rcases List.mem_cons.1 hj with rfl | hj
      · omega
      · cases hs : j.section? with
        | none => rfl
        | some r =>
          have := first j hj (by rw [hs]; rfl)
          omega

theorem not_under_head {ls : List Line} {l : Line} {s : Section}
    (above : ∀ a ∈ ls, l.number < a.number) : ¬Under (l :: ls) s l := by
  rintro ⟨h, hh, _, before, _⟩
  rcases List.mem_cons.1 hh with rfl | hh
  · omega
  · have := above h hh
    omega

/-- Which lines a section holds. -/
theorem mem_content_iff {ls : List Line} (ascending : ls.Pairwise (·.number < ·.number))
    {s : Section} {e : Nat × List Char} :
    (∃ b ∈ (blocks ls).2, b.ofSection = s ∧ e ∈ b.content) ↔
      ∃ l ∈ ls, l.heading = none ∧ e = l.entry ∧ Under ls s l := by
  induction ls with
  | nil => simp [blocks]
  | cons l rest ih =>
    obtain ⟨above, ascending⟩ := List.pairwise_cons.1 ascending
    -- whether a line below is under a heading of `rest` or of the line `l` itself
    have split : (∃ k ∈ l :: rest, k.heading = none ∧ e = k.entry ∧ Under (l :: rest) s k) ↔
        ∃ k ∈ rest, k.heading = none ∧ e = k.entry ∧ (Under rest s k ∨
          (l.section? = some s ∧ ∀ h ∈ rest, h.section?.isSome → k.number < h.number)) := by
      constructor
      · rintro ⟨k, hk, hplain, he, under⟩
        rcases List.mem_cons.1 hk with rfl | hk
        · exact absurd under (not_under_head above)
        · exact ⟨k, hk, hplain, he, (under_cons_iff above hk).1 under⟩
      · rintro ⟨k, hk, hplain, he, under⟩
        exact ⟨k, List.mem_cons_of_mem _ hk, hplain, he, (under_cons_iff above hk).2 under⟩
    rw [split]
    rcases l.kinds with plain | test | ⟨r, section?⟩
    · rw [blocks_cons_plain plain, ih ascending]
      simp [Line.section?_of_heading_eq_none plain]
    · rw [blocks_cons_testCase test, ih ascending]
      simp [Line.section?_of_isTestCase test]
    · rw [blocks_cons_section section?]
      simp only [List.mem_cons, exists_eq_or_imp, ih ascending, mem_lead_iff ascending, section?,
        Option.some.injEq]
      constructor
      · rintro (⟨rfl, k, hk, hplain, he, first⟩ | ⟨k, hk, hplain, he, under⟩)
        · exact ⟨k, hk, hplain, he, Or.inr ⟨rfl, first⟩⟩
        · exact ⟨k, hk, hplain, he, Or.inl under⟩
      · rintro ⟨k, hk, hplain, he, under | ⟨rfl, first⟩⟩
        · exact Or.inr ⟨k, hk, hplain, he, under⟩
        · exact Or.inl ⟨rfl, k, hk, hplain, he, first⟩

/-! ## Outlines -/

namespace Outline

/-- How lines fall apart at their first test case heading. -/
structure Splits (o : Outline) (lines : List Line) (start : Line) (rest : List Line) : Prop where
  lines_eq : lines = o.before ++ start :: rest
  before_isTestCase : ∀ l ∈ o.before, l.isTestCase = false
  heading : start.heading = some (.testCase o.title)
  line_eq : o.line = start.number
  repeated_eq : o.repeated = (rest.filter (·.isTestCase)).map (·.number)
  lead_eq : o.lead = (Markup.blocks rest).1
  blocks_eq : o.blocks = (Markup.blocks rest).2

theorem splits_of_ofLines? {lines : List Line} {o : Outline} (h : ofLines? lines = some o) :
    ∃ start rest, o.Splits lines start rest := by
  simp only [ofLines?] at h
  split at h
  · rename_i n text title rest after
    cases h
    refine ⟨⟨n, text, some (.testCase title)⟩, rest, ?_, ?_, rfl, rfl, rfl, rfl, rfl⟩
    · rw [← after, List.takeWhile_append_dropWhile]
    · intro l hl
      simpa using List.mem_takeWhile_imp hl
  · cases h

theorem ofLines?_eq_none_iff {lines : List Line} :
    ofLines? lines = none ↔ ∀ l ∈ lines, l.isTestCase = false := by
  constructor
  · intro h l hl
    cases test : l.isTestCase with
    | false => rfl
    | true =>
      have found : lines.dropWhile (!·.isTestCase) ≠ [] := by
        intro empty
        simpa [test] using List.dropWhile_eq_nil_iff.1 empty l hl
      simp only [ofLines?] at h
      split at h
      · cases h
      · rename_i other
        obtain ⟨⟨n, text, heading⟩, rest, after⟩ := List.exists_cons_of_ne_nil found
        have first := List.head_dropWhile_not (fun l : Line => !l.isTestCase) found
        simp only [after, List.head_cons, Bool.not_eq_false'] at first
        obtain ⟨title, rfl⟩ := Line.isTestCase_iff.1 first
        exact absurd after (other n text title rest)
  · intro h
    have empty : lines.dropWhile (!·.isTestCase) = [] :=
      List.dropWhile_eq_nil_iff.2 fun l hl => by simp [h l hl]
    rw [ofLines?, empty]

end Outline

end ScriptAudit.Markup
