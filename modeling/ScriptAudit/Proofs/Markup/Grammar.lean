import ScriptAudit.Proofs.Ascending
import ScriptAudit.Proofs.Markup.Fault
import ScriptAudit.Proofs.Markup.Field

/-!
# The grammar of documents

What a text has to look like to be a document, said of its lines and the headings that they are
recognised as, each condition by itself. Reading accepts exactly these texts, and a text that it
refuses comes with at least one structural fault.
-/

namespace ScriptAudit

namespace Markup

/-- The lines of a text; one byte order mark in front does not count. -/
def bodyLines (source : String) : List (List Char) :=
  match source.toList with
  | '\uFEFF' :: rest => Text.lines rest
  | text => Text.lines text

/-- A line that is written under a section. -/
structure WrittenUnder (lines : List Line) (s : Section) (l : Line) : Prop where
  mem : l ∈ lines
  heading : l.heading = none
  under : Under lines s l
  isBlank : l.isBlank = false

/-- Marked lines of a document whose test case heading is `start`. -/
structure Grammatical (lines : List Line) (start : Line) : Prop where
  mem : start ∈ lines
  isTestCase : start.isTestCase = true
  only : ∀ l ∈ lines, l.isTestCase = true → l = start
  before : ∀ l ∈ lines, l.number < start.number → l.isBlank = true
  /-- Between the test case heading and the first section heading. -/
  between : ∀ l ∈ lines, start.number < l.number →
    (∀ h ∈ lines, h.section?.isSome → l.number < h.number) → l.isBlank = true
  ascending : ∀ h ∈ lines, ∀ k ∈ lines, ∀ s r, h.section? = some s → k.section? = some r →
    start.number < h.number → h.number < k.number → s.rank < r.rank
  required : ∀ s : Section, s.isRequired = true →
    ∃ h ∈ lines, start.number < h.number ∧ h.section? = some s
  fences : (lines.countP fun l => isFence l.text) % 2 = 0
  placeholders : ∀ l ∈ lines, PlaceholdersWritten l.text
  url : ∀ l k, WrittenUnder lines .startingUrl l → WrittenUnder lines .startingUrl k → l = k
  steps : ∀ l, WrittenUnder lines .testSteps l →
    (∀ k, WrittenUnder lines .testSteps k → l.number ≤ k.number) → IsNumberedStep l.text

/-! ## Outlines and the grammar -/

theorem textLines_eq (source : String) : textLines source = Text.numbered (bodyLines source) := by
  unfold textLines bodyLines
  split
  · rename_i rest text
    rw [text]
    rfl
  · rename_i other
    cases text : source.toList with
    | nil => rfl
    | cons c rest =>
      have unmarked : '\uFEFF' ≠ c := fun same => other rest (by rw [text, same])
      dsimp only
      rw [Text.after?, if_neg unmarked]
      rfl

theorem bodyLines_of_unmarked {source : String} (unmarked : source.toList.head? ≠ some '\uFEFF') :
    bodyLines source = Text.lines source.toList := by
  unfold bodyLines
  split
  · rename_i rest whole
    rw [whole] at unmarked
    exact absurd rfl unmarked
  · rfl

theorem bodyLines_marked (s : List Char) :
    bodyLines (String.ofList ('\uFEFF' :: s)) = Text.lines s := by
  rw [bodyLines, String.toList_ofList]
  rfl

theorem scan_textLines (source : String) :
    Line.scan false (textLines source) = marked (bodyLines source) := by
  rw [textLines_eq, Line.scan_numbered]

namespace Outline.Splits

variable {o : Outline} {ls : List (List Char)} {start : Line} {rest : List Line}
  (splits : o.Splits (marked ls) start rest)
include splits

theorem isTestCase : start.isTestCase = true :=
  Line.isTestCase_iff.2 ⟨_, splits.heading⟩

theorem start_mem : start ∈ marked ls := by
  rw [splits.lines_eq]
  simp

theorem pairwise_lines : (o.before ++ start :: rest).Pairwise (·.number < ·.number) :=
  splits.lines_eq ▸ pairwise_marked ls

theorem pairwise_rest : rest.Pairwise (·.number < ·.number) :=
  (List.pairwise_cons.1 (List.pairwise_append.1 splits.pairwise_lines).2.1).2

theorem mem_before_iff {l : Line} : l ∈ o.before ↔ l ∈ marked ls ∧ l.number < start.number := by
  obtain ⟨_, ordered, apart⟩ := List.pairwise_append.1 splits.pairwise_lines
  obtain ⟨above, _⟩ := List.pairwise_cons.1 ordered
  rw [splits.lines_eq, List.mem_append, List.mem_cons]
  constructor
  · intro hl
    exact ⟨Or.inl hl, apart l hl start List.mem_cons_self⟩
  · rintro ⟨hl | rfl | hl, lt⟩
    · exact hl
    · omega
    · have := above l hl
      omega

theorem mem_rest_iff {l : Line} : l ∈ rest ↔ l ∈ marked ls ∧ start.number < l.number := by
  obtain ⟨_, ordered, apart⟩ := List.pairwise_append.1 splits.pairwise_lines
  obtain ⟨above, _⟩ := List.pairwise_cons.1 ordered
  rw [splits.lines_eq, List.mem_append, List.mem_cons]
  constructor
  · intro hl
    exact ⟨Or.inr (Or.inr hl), above l hl⟩
  · rintro ⟨hl | rfl | hl, lt⟩
    · have := apart l hl start List.mem_cons_self
      omega
    · omega
    · exact hl

theorem before_iff :
    (∀ l ∈ o.before, l.isBlank = true) ↔
      ∀ l ∈ marked ls, l.number < start.number → l.isBlank = true := by
  simp only [splits.mem_before_iff, and_imp]

theorem repeated_eq_nil_iff :
    o.repeated = [] ↔ ∀ l ∈ marked ls, l.isTestCase = true → l = start := by
  rw [splits.repeated_eq, List.map_eq_nil_iff, List.filter_eq_nil_iff]
  constructor
  · intro none l hl test
    rw [splits.lines_eq, List.mem_append, List.mem_cons] at hl
    rcases hl with hl | rfl | hl
    · rw [splits.before_isTestCase l hl] at test
      cases test
    · rfl
    · exact absurd test (none l hl)
  · intro only l hl test
    obtain ⟨mem, lt⟩ := splits.mem_rest_iff.1 hl
    rw [only l mem test] at lt
    omega

theorem blocks_pairwise_iff :
    (o.blocks.Pairwise fun b c => b.ofSection.rank < c.ofSection.rank) ↔
      ∀ h ∈ marked ls, ∀ k ∈ marked ls, ∀ s r, h.section? = some s → k.section? = some r →
        start.number < h.number → h.number < k.number → s.rank < r.rank := by
  have headings : (o.blocks.Pairwise fun b c => b.ofSection.rank < c.ofSection.rank) ↔
      rest.Pairwise fun h k => ∀ s, h.section? = some s → ∀ r, k.section? = some r →
        s.rank < r.rank := by
    have mapped := List.pairwise_map (R := fun a b : Section × Nat => a.1.rank < b.1.rank)
      (f := fun b : Block => (b.ofSection, b.line)) (l := (Markup.blocks rest).2)
    rw [splits.blocks_eq, ← mapped, blocks_headings, List.pairwise_filterMap]
    refine Iff.of_eq (congrArg (List.Pairwise · rest) ?_)
    funext h k
    simp
  rw [headings, pairwise_iff_of_key_lt splits.pairwise_rest]
  constructor
  · intro h a ha b hb s r hs hr after lt
    have mem := splits.mem_rest_iff.2 ⟨ha, after⟩
    have mem' := splits.mem_rest_iff.2 ⟨hb, by omega⟩
    exact h a mem b mem' lt s hs r hr
  · intro h a ha b hb lt s hs r hr
    obtain ⟨mem, after⟩ := splits.mem_rest_iff.1 ha
    exact h a mem b (splits.mem_rest_iff.1 hb).1 s r hs hr after lt

theorem exists_block_iff {s : Section} :
    (∃ b ∈ o.blocks, b.ofSection = s) ↔
      ∃ h ∈ marked ls, start.number < h.number ∧ h.section? = some s := by
  rw [splits.blocks_eq, Markup.exists_block_iff]
  simp only [splits.mem_rest_iff, and_assoc]

theorem exists_block_at_iff {s : Section} {n : Nat} :
    (∃ b ∈ o.blocks, b.ofSection = s ∧ b.line = n) ↔
      ∃ h ∈ marked ls, start.number < h.number ∧ h.section? = some s ∧ h.number = n := by
  rw [splits.blocks_eq, Markup.exists_block_at_iff]
  simp only [splits.mem_rest_iff, and_assoc]

theorem pairwise_blocks : o.blocks.Pairwise (·.line < ·.line) := by
  have ordered := (List.pairwise_append.1 (pairwise_numbers splits.pairwise_rest)).2.1
  rw [← splits.blocks_eq, List.pairwise_flatMap] at ordered
  exact ordered.2.imp fun apart => apart _ List.mem_cons_self _ List.mem_cons_self

theorem pairwise_content (s : Section) : (o.content s).Pairwise (·.1 < ·.1) := by
  have ordered := (List.pairwise_append.1 (pairwise_numbers splits.pairwise_rest)).2.1
  rw [← splits.blocks_eq, List.pairwise_flatMap] at ordered
  obtain ⟨inner, across⟩ := ordered
  rw [content, blocksOf]
  refine List.pairwise_flatMap.2 ⟨fun b hb => ?_, ?_⟩
  · have numbers := inner b (List.mem_filter.1 hb).1
    exact List.pairwise_map.1 (List.pairwise_cons.1 numbers).2
  · refine (across.filter _).imp fun apart x hx y hy => ?_
    exact apart _ (List.mem_cons_of_mem _ (List.mem_map_of_mem hx)) _
      (List.mem_cons_of_mem _ (List.mem_map_of_mem hy))

theorem pairwise_written (s : Section) : (o.written s).Pairwise (·.1 < ·.1) :=
  (splits.pairwise_content s).filter _

/-! Where nothing is written in front of the test case, no section is opened there either. -/

variable (before : ∀ l ∈ marked ls, l.number < start.number → l.isBlank = true)
include before

theorem lt_number_of_section {h : Line} (hh : h ∈ marked ls) {s : Section}
    (section? : h.section? = some s) : start.number < h.number := by
  rcases Nat.lt_trichotomy h.number start.number with lt | same | gt
  · have written := isBlank_eq_false_of_heading hh (Line.section?_eq_some_iff.1 section?)
    rw [before h hh lt] at written
    cases written
  · rw [eq_of_key_eq (pairwise_marked ls) hh splits.start_mem same,
      Line.section?_of_isTestCase splits.isTestCase] at section?
    cases section?
  · exact gt

theorem under_iff {s : Section} {l : Line} : Under rest s l ↔ Under (marked ls) s l := by
  constructor
  · rintro ⟨h, hh, section?, lt, nearest⟩
    obtain ⟨mem, after⟩ := splits.mem_rest_iff.1 hh
    exact ⟨h, mem, section?, lt, fun k hk above upto =>
      nearest k (splits.mem_rest_iff.2 ⟨hk, by omega⟩) above upto⟩
  · rintro ⟨h, hh, section?, lt, nearest⟩
    have after := splits.lt_number_of_section before hh section?
    exact ⟨h, splits.mem_rest_iff.2 ⟨hh, after⟩, section?, lt, fun k hk above upto =>
      nearest k (splits.mem_rest_iff.1 hk).1 above upto⟩

theorem mem_content_iff {s : Section} {e : Nat × List Char} :
    e ∈ o.content s ↔
      ∃ l ∈ marked ls, l.heading = none ∧ e = l.entry ∧ Under (marked ls) s l := by
  have blockwise : e ∈ o.content s ↔ ∃ b ∈ (Markup.blocks rest).2, b.ofSection = s ∧
      e ∈ b.content := by
    simp [content, blocksOf, splits.blocks_eq, and_assoc]
  rw [blockwise, Markup.mem_content_iff splits.pairwise_rest]
  constructor
  · rintro ⟨l, hl, plain, he, under⟩
    exact ⟨l, (splits.mem_rest_iff.1 hl).1, plain, he, (splits.under_iff before).1 under⟩
  · rintro ⟨l, hl, plain, he, under⟩
    obtain ⟨h, hh, section?, lt, _⟩ := id under
    have after := splits.lt_number_of_section before hh section?
    exact ⟨l, splits.mem_rest_iff.2 ⟨hl, by omega⟩, plain, he,
      (splits.under_iff before).2 under⟩

theorem mem_written_iff {s : Section} {e : Nat × List Char} :
    e ∈ o.written s ↔ ∃ l, WrittenUnder (marked ls) s l ∧ e = l.entry := by
  rw [written, List.mem_filter, splits.mem_content_iff before, Bool.not_eq_true']
  constructor
  · rintro ⟨⟨l, hl, plain, rfl, under⟩, written⟩
    exact ⟨l, ⟨hl, plain, under, written⟩, rfl⟩
  · rintro ⟨l, ⟨hl, plain, under, written⟩, rfl⟩
    exact ⟨⟨l, hl, plain, rfl, under⟩, written⟩

theorem length_written_le_one_iff {s : Section} :
    (o.written s).length ≤ 1 ↔
      ∀ l k, WrittenUnder (marked ls) s l → WrittenUnder (marked ls) s k → l = k := by
  have ordered := splits.pairwise_written s
  constructor
  · intro few l k hl hk
    have mem := (splits.mem_written_iff before).2 ⟨l, hl, rfl⟩
    have mem' := (splits.mem_written_iff before).2 ⟨k, hk, rfl⟩
    obtain ⟨e, single⟩ : ∃ e, o.written s = [e] :=
      List.length_eq_one_iff.1 (by have := List.length_pos_of_mem mem; omega)
    rw [single, List.mem_singleton] at mem mem'
    exact eq_of_key_eq (pairwise_marked ls) hl.mem hk.mem
      (congrArg Prod.fst (mem.trans mem'.symm))
  · intro unique
    match lines : o.written s with
    | [] => simp
    | [_] => simp
    | a :: b :: more =>
      obtain ⟨l, hl, rfl⟩ := (splits.mem_written_iff before).1
        (show a ∈ o.written s by rw [lines]; simp)
      obtain ⟨k, hk, rfl⟩ := (splits.mem_written_iff before).1
        (show b ∈ o.written s by rw [lines]; simp)
      rw [lines, unique l k hl hk] at ordered
      have apart := (List.pairwise_cons.1 ordered).1 _ List.mem_cons_self
      exact absurd apart (Nat.lt_irrefl _)

/-- A condition on the first written line of a section. -/
theorem forall_head?_written_iff {s : Section} {P : List Char → Prop} :
    (∀ e, (o.written s).head? = some e → P e.2) ↔
      ∀ l, WrittenUnder (marked ls) s l →
        (∀ k, WrittenUnder (marked ls) s k → l.number ≤ k.number) → P l.text := by
  have ordered := splits.pairwise_written s
  constructor
  · intro h l hl least
    have mem := (splits.mem_written_iff before).2 ⟨l, hl, rfl⟩
    obtain ⟨e, more, lines⟩ := List.exists_cons_of_ne_nil (List.ne_nil_of_mem mem)
    obtain ⟨k, hk, rfl⟩ := (splits.mem_written_iff before).1
      (show e ∈ o.written s by rw [lines]; simp)
    rw [lines] at mem ordered h
    rcases List.mem_cons.1 mem with same | later
    · have first := h k.entry rfl
      rw [← same] at first
      exact first
    · have lt := (List.pairwise_cons.1 ordered).1 _ later
      exact absurd (least k hk) (Nat.not_le.2 lt)
  · intro h e first
    obtain ⟨more, lines⟩ := List.head?_eq_some_iff.1 first
    obtain ⟨l, hl, rfl⟩ := (splits.mem_written_iff before).1
      (show e ∈ o.written s by rw [lines]; simp)
    apply h l hl
    intro k hk
    have mem := (splits.mem_written_iff before).2 ⟨k, hk, rfl⟩
    rw [lines] at mem ordered
    rcases List.mem_cons.1 mem with same | later
    · exact Nat.le_of_eq (congrArg Prod.fst same).symm
    · exact Nat.le_of_lt ((List.pairwise_cons.1 ordered).1 _ later)

omit before

/-- Between the test case and the first section: the lead, if nothing repeats the test case. -/
theorem lead_iff (before : ∀ l ∈ marked ls, l.number < start.number → l.isBlank = true)
    (only : ∀ l ∈ marked ls, l.isTestCase = true → l = start) :
    (∀ e ∈ o.lead, Text.allBlank e.2 = true) ↔
      ∀ l ∈ marked ls, start.number < l.number →
        (∀ h ∈ marked ls, h.section?.isSome → l.number < h.number) → l.isBlank = true := by
  simp only [splits.lead_eq, mem_lead_iff splits.pairwise_rest]
  constructor
  · intro h l hl after first
    have mem := splits.mem_rest_iff.2 ⟨hl, after⟩
    have untitled : l.isTestCase = false := by
      cases test : l.isTestCase with
      | false => rfl
      | true =>
        rw [only l hl test] at after
        omega
    have unheaded : l.section? = none := by
      cases section? : l.section? with
      | none => rfl
      | some s =>
        have := first l hl (by rw [section?]; rfl)
        omega
    exact h l.entry ⟨l, mem, Line.heading_eq_none untitled unheaded, rfl,
      fun k hk => first k (splits.mem_rest_iff.1 hk).1⟩
  · rintro h e ⟨l, hl, _, rfl, first⟩
    obtain ⟨mem, after⟩ := splits.mem_rest_iff.1 hl
    apply h l mem after
    intro k hk some
    obtain ⟨s, section?⟩ := Option.isSome_iff_exists.1 some
    exact first k (splits.mem_rest_iff.2 ⟨hk, splits.lt_number_of_section before hk section?⟩) some

theorem sound_iff : o.Sound (Text.numbered ls) ↔ Grammatical (marked ls) start := by
  have texts : ∀ P : List Char → Prop,
      (∀ l ∈ Text.numbered ls, P l.2) ↔ ∀ l ∈ marked ls, P l.text := by
    intro P
    rw [← map_entry_marked, List.forall_mem_map]
    rfl
  have fences : ((Text.numbered ls).countP fun l => isFence l.2) =
      (marked ls).countP fun l => isFence l.text := by
    rw [← map_entry_marked, List.countP_map]
    rfl
  constructor
  · intro sound
    have before := splits.before_iff.1 sound.before
    have only := splits.repeated_eq_nil_iff.1 sound.repeated
    refine ⟨splits.start_mem, splits.isTestCase, only, before,
      (splits.lead_iff before only).1 sound.lead, splits.blocks_pairwise_iff.1 sound.ascending,
      fun s required => splits.exists_block_iff.1 (sound.required s required),
      fences ▸ sound.fences, (texts _).1 sound.placeholders,
      (splits.length_written_le_one_iff before).1 sound.url, ?_⟩
    refine (splits.forall_head?_written_iff before).1 fun e first => ?_
    exact stepHead?_isSome_iff.1 (sound.steps e first)
  · intro grammatical
    have before := grammatical.before
    have only := grammatical.only
    refine ⟨(texts _).2 grammatical.placeholders, fences ▸ grammatical.fences,
      splits.before_iff.2 before, splits.repeated_eq_nil_iff.2 only,
      (splits.lead_iff before only).2 grammatical.between,
      splits.blocks_pairwise_iff.2 grammatical.ascending,
      fun s required => splits.exists_block_iff.2 (grammatical.required s required),
      (splits.length_written_le_one_iff before).2 grammatical.url, fun e first => ?_⟩
    exact stepHead?_isSome_iff.2
      ((splits.forall_head?_written_iff before).2 grammatical.steps e first)

end Outline.Splits

theorem exists_sound_iff {source : String} :
    (∃ o, Outline.ofLines? (Line.scan false (textLines source)) = some o ∧
        o.Sound (textLines source)) ↔
      ∃ start, Grammatical (marked (bodyLines source)) start := by
  rw [scan_textLines, textLines_eq]
  constructor
  · rintro ⟨o, found, sound⟩
    obtain ⟨start, rest, splits⟩ := Outline.splits_of_ofLines? found
    exact ⟨start, splits.sound_iff.1 sound⟩
  · rintro ⟨start, grammatical⟩
    cases found : Outline.ofLines? (marked (bodyLines source)) with
    | none =>
      have absent := Outline.ofLines?_eq_none_iff.1 found start grammatical.mem
      rw [grammatical.isTestCase] at absent
      cases absent
    | some o =>
      obtain ⟨first, rest, splits⟩ := Outline.splits_of_ofLines? found
      have same := grammatical.only first splits.start_mem splits.isTestCase
      subst same
      exact ⟨o, rfl, splits.sound_iff.2 grammatical⟩

theorem mode_eq_of_fileEnding {m n : Mode} {s : List Char} (hm : m.fileEnding.toList <:+ s)
    (hn : n.fileEnding.toList <:+ s) : m = n := by
  have length : m.fileEnding.toList.length = n.fileEnding.toList.length := by
    cases m <;> cases n <;> decide +kernel
  have same := List.suffix_of_suffix_length_le hm hn (Nat.le_of_eq length)
  cases m <;> cases n <;> first | rfl | exact absurd same (by decide)

theorem ofFileName?_eq_some_iff {name : String} {m : Mode} :
    Mode.ofFileName? name = some m ↔ m.fileEnding.toList <:+ name.toList := by
  have ends {n : Mode} (h : Mode.ofFileName? name = some n) :
      n.fileEnding.toList <:+ name.toList := by
    rw [Mode.ofFileName?] at h
    have accepted := List.find?_some h
    exact Text.endsWith_iff.1 accepted
  constructor
  · exact ends
  · intro h
    have mem : m ∈ Mode.all := by cases m <;> decide
    have found : (Mode.ofFileName? name).isSome = true := by
      rw [Mode.ofFileName?, List.find?_isSome]
      exact ⟨m, mem, Text.endsWith_iff.2 h⟩
    obtain ⟨n, hn⟩ := Option.isSome_iff_exists.1 found
    rw [hn, mode_eq_of_fileEnding (ends hn) h]

theorem exists_mode_iff {path : Path} :
    (∃ m, path.fileName?.bind Mode.ofFileName? = some m) ↔
      ∃ name, path.fileName? = some name ∧
        (".mock.md".toList <:+ name.toList ∨ ".full.md".toList <:+ name.toList) := by
  simp only [Option.bind_eq_some_iff, ofFileName?_eq_some_iff]
  constructor
  · rintro ⟨m, name, named, ending⟩
    cases m with
    | mock => exact ⟨name, named, Or.inl ending⟩
    | full => exact ⟨name, named, Or.inr ending⟩
  · rintro ⟨name, named, ending | ending⟩
    · exact ⟨.mock, name, named, ending⟩
    · exact ⟨.full, name, named, ending⟩

end Markup

open Markup

/-- A text is read as a document exactly when its file name declares a mode and its lines follow the
grammar; one that is refused has at least one fault, and all that is said of it is about its
structure. -/
theorem Document.read_isOk_iff_grammatical (path : Path) (feature : String) (markers : Markers)
    (source : String) :
    ((∃ d, Document.read path feature markers source = .ok d) ↔
      (∃ name, path.fileName? = some name ∧
        (".mock.md".toList <:+ name.toList ∨ ".full.md".toList <:+ name.toList)) ∧
      ∃ start, Grammatical (marked (bodyLines source)) start) ∧
    ∀ ds, Document.read path feature markers source = .error ds →
      ds ≠ [] ∧ ∀ d ∈ ds, d.kind = .parseError ∧ d.severity = .error ∧ d.file = path.display := by
  constructor
  · rw [← exists_mode_iff, ← exists_sound_iff]
    constructor
    · rintro ⟨d, h⟩
      obtain ⟨mode, o, hmode, found, sound, _⟩ := Document.read_eq_ok_iff.1 h
      exact ⟨⟨mode, hmode⟩, o, found, sound⟩
    · rintro ⟨⟨mode, hmode⟩, o, found, sound⟩
      exact ⟨_, Document.read_eq_ok_iff.2 ⟨mode, o, hmode, found, sound, rfl⟩⟩
  · intro ds h
    obtain ⟨some, structural⟩ := Document.read_eq_error h
    refine ⟨some, fun d hd => ?_⟩
    obtain ⟨line, fault, rfl⟩ := structural d hd
    exact ⟨rfl, rfl, rfl⟩

end ScriptAudit
