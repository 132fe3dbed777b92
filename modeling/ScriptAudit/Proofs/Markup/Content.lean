import ScriptAudit.Proofs.Ascending
import ScriptAudit.Proofs.Markup.Grammar

/-!
# What a section holds

A plain line belongs to the section whose heading is the nearest above it, if that heading stands
below a test case. Whether a line does is said of its number, and holds of any text; the lines that
an outline keeps of a section are these. In a document they stand together.
-/

namespace ScriptAudit.Markup

/-- The first line of a kind. -/
structure IsFirst (lines : List Line) (P : Line → Prop) (l : Line) : Prop where
  mem : l ∈ lines
  holds : P l
  least : ∀ k ∈ lines, P k → l.number ≤ k.number

/-- The test case heading of a text; any other below it is a repetition. -/
abbrev IsStart (ls : List (List Char)) (start : Line) : Prop :=
  IsFirst (marked ls) (·.isTestCase = true) start

theorem IsStart.unique {ls : List (List Char)} {a b : Line} (ha : IsStart ls a)
    (hb : IsStart ls b) : a = b :=
  eq_of_key_eq (pairwise_marked ls) ha.mem hb.mem
    (Nat.le_antisymm (ha.least b hb.mem hb.holds) (hb.least a ha.mem ha.holds))

/-- The line of this number is plain and belongs to the section. -/
def ContentAt (ls : List (List Char)) (s : Section) (n : Nat) : Prop :=
  ∃ l ∈ marked ls, l.number = n ∧ l.heading = none ∧
    ∃ t ∈ marked ls, t.isTestCase = true ∧ ∃ h ∈ marked ls, t.number < h.number ∧
      h.section? = some s ∧ h.number < n ∧
        ∀ k ∈ marked ls, h.number < k.number → k.number ≤ n → k.section? = none

instance (ls : List (List Char)) (s : Section) (n : Nat) : Decidable (ContentAt ls s n) :=
  inferInstanceAs (Decidable (∃ l ∈ marked ls, l.number = n ∧ l.heading = none ∧
    ∃ t ∈ marked ls, t.isTestCase = true ∧ ∃ h ∈ marked ls, t.number < h.number ∧
      h.section? = some s ∧ h.number < n ∧
        ∀ k ∈ marked ls, h.number < k.number → k.number ≤ n → k.section? = none))

/-- The lines of a section that are not blank. -/
def writtenLines (ls : List (List Char)) (s : Section) : List (Nat × List Char) :=
  (Text.numbered ls).filter fun e => ContentAt ls s e.1 ∧ Text.allBlank e.2 = false

theorem exists_mem_marked_iff {ls : List (List Char)} {n : Nat} :
    (∃ l ∈ marked ls, l.number = n) ↔ 1 ≤ n ∧ n ≤ ls.length := by
  constructor
  · rintro ⟨l, hl, rfl⟩
    have entry : l.entry ∈ Text.numbered ls := map_entry_marked ls ▸ List.mem_map_of_mem hl
    exact Text.bounds_of_mem_numbered entry
  · rintro ⟨low, high⟩
    have inside : n - 1 < (marked ls).length := by simp [marked]; omega
    refine ⟨(marked ls)[n - 1], List.getElem_mem inside, ?_⟩
    simp only [marked, List.getElem_mapIdx]
    omega

namespace Outline.Splits

variable {o : Outline} {ls : List (List Char)} {start : Line} {rest : List Line}
  (splits : o.Splits (marked ls) start rest)
include splits

theorem isStart : IsStart ls start where
  mem := splits.start_mem
  holds := splits.isTestCase
  least t ht test := by
    by_cases early : t.number < start.number
    · have other := splits.before_isTestCase t (splits.mem_before_iff.2 ⟨ht, early⟩)
      rw [test] at other
      cases other
    · omega

theorem mem_content_iff_contentAt {s : Section} {e : Nat × List Char} :
    e ∈ o.content s ↔ e ∈ Text.numbered ls ∧ ContentAt ls s e.1 := by
  have blockwise : e ∈ o.content s ↔ ∃ b ∈ (Markup.blocks rest).2, b.ofSection = s ∧
      e ∈ b.content := by
    simp [content, blocksOf, splits.blocks_eq, and_assoc]
  rw [blockwise, Markup.mem_content_iff splits.pairwise_rest, ← map_entry_marked]
  constructor
  · rintro ⟨l, hl, plain, rfl, h, hh, section?, below, nearest⟩
    obtain ⟨mem, _⟩ := splits.mem_rest_iff.1 hl
    obtain ⟨headed, after⟩ := splits.mem_rest_iff.1 hh
    refine ⟨List.mem_map_of_mem mem, l, mem, rfl, plain, start, splits.start_mem,
      splits.isTestCase, h, headed, after, section?, below, fun k hk above upto => ?_⟩
    exact nearest k (splits.mem_rest_iff.2 ⟨hk, by omega⟩) above upto
  · rintro ⟨he, l, hl, same, plain, t, ht, test, h, hh, after, section?, below, nearest⟩
    obtain ⟨k, hk, rfl⟩ := List.mem_map.1 he
    obtain rfl : l = k := eq_of_key_eq (pairwise_marked ls) hl hk same
    have first := splits.isStart.least t ht test
    have number : l.entry.1 = l.number := rfl
    have headed : h ∈ rest := splits.mem_rest_iff.2 ⟨hh, by omega⟩
    refine ⟨l, splits.mem_rest_iff.2 ⟨hl, by omega⟩, plain, rfl, h, headed, section?, below,
      fun k hk above upto => ?_⟩
    exact nearest k (splits.mem_rest_iff.1 hk).1 above upto

/-- The lines of a section, in the order of the text. -/
theorem content_eq_filter (s : Section) :
    o.content s = (Text.numbered ls).filter fun e => ContentAt ls s e.1 :=
  eq_of_mem_iff (splits.pairwise_content s) ((Text.pairwise_numbered ls).filter _) fun e => by
    rw [splits.mem_content_iff_contentAt, List.mem_filter, decide_eq_true_iff]

theorem written_eq (s : Section) : o.written s = writtenLines ls s := by
  rw [written, splits.content_eq_filter, List.filter_filter, writtenLines]
  refine List.filter_congr fun e _ => ?_
  rw [Bool.decide_and, Bool.and_comm]
  cases Text.allBlank e.2 <;> rfl

end Outline.Splits

/-! ## Sections of a document -/

namespace Grammatical

variable {ls : List (List Char)} {start : Line} (grammatical : Grammatical (marked ls) start)
include grammatical

/-- A section has one heading in a document. -/
theorem heading_unique {h k : Line} (hh : h ∈ marked ls) (hk : k ∈ marked ls) {s : Section}
    (hs : h.section? = some s) (ks : k.section? = some s) (after : start.number < h.number)
    (after' : start.number < k.number) : h = k := by
  rcases Nat.lt_trichotomy h.number k.number with lt | same | gt
  · exact absurd (grammatical.ascending h hh k hk s s hs ks after lt) (Nat.lt_irrefl _)
  · exact eq_of_key_eq (pairwise_marked ls) hh hk same
  · exact absurd (grammatical.ascending k hk h hh s s ks hs after' gt) (Nat.lt_irrefl _)

/-- In a document the lines of a section stand together. -/
theorem contentAt_between {s : Section} {m n : Nat} (hm : ContentAt ls s m)
    (hn : ContentAt ls s n) {k : Nat} (low : m ≤ k) (high : k ≤ n) : ContentAt ls s k := by
  obtain ⟨a, ha, number, _, t, ht, test, h, hh, after, section?, below, _⟩ := hm
  obtain ⟨b, hb, number', _, u, hu, test', h', hh', after', section?', _, nearest⟩ := hn
  rw [grammatical.only t ht test] at after
  rw [grammatical.only u hu test'] at after'
  obtain rfl := grammatical.heading_unique hh hh' section? section?' after after'
  have first := exists_mem_marked_iff.1 ⟨a, ha, number⟩
  have last := exists_mem_marked_iff.1 ⟨b, hb, number'⟩
  obtain ⟨l, hl, rfl⟩ := exists_mem_marked_iff.2
    (show 1 ≤ k ∧ k ≤ ls.length from ⟨by omega, by omega⟩)
  have untitled : l.isTestCase = false := by
    cases test : l.isTestCase with
    | false => rfl
    | true =>
      rw [grammatical.only l hl test] at low
      omega
  have unheaded : l.section? = none := nearest l hl (by omega) high
  exact ⟨l, hl, rfl, Line.heading_eq_none untitled unheaded, start, grammatical.mem,
    grammatical.isTestCase, h, hh, after, section?, by omega,
    fun k hk above upto => nearest k hk above (by omega)⟩

/-- Below a section stands every required one that comes after it. -/
theorem lt_length_of_contentAt {s r : Section} (required : r.isRequired = true)
    (later : s.rank < r.rank) {n : Nat} (hn : ContentAt ls s n) : n < ls.length := by
  obtain ⟨_, _, _, _, t, ht, test, h, hh, after, section?, below, nearest⟩ := hn
  rw [grammatical.only t ht test] at after
  obtain ⟨e, he, after', section?'⟩ := grammatical.required r required
  have order : h.number < e.number := by
    rcases Nat.lt_trichotomy h.number e.number with lt | same | gt
    · exact lt
    · rw [eq_of_key_eq (pairwise_marked ls) hh he same, section?', Option.some.injEq] at section?
      rw [section?] at later
      exact absurd later (Nat.lt_irrefl _)
    · have := grammatical.ascending e he h hh r s section?' section? after' gt
      omega
  have beyond : n < e.number := by
    by_cases upto : e.number ≤ n
    · rw [nearest e he order upto] at section?'
      cases section?'
    · omega
  have := (exists_mem_marked_iff.1 ⟨e, he, rfl⟩).2
  omega

end Grammatical

end ScriptAudit.Markup
