import ScriptAudit.Markup.Reading
import ScriptAudit.Proofs.Markup.Outline
import ScriptAudit.Proofs.Markup.Placeholder

/-!
# When nothing is wrong

Each kind of fault is absent exactly under a condition on the lines or on the outline. A document
results exactly when all of them are absent.
-/

namespace ScriptAudit

namespace Markup

theorem placeholderFaults_eq_nil_iff {lines : List (Nat × List Char)} :
    placeholderFaults lines = [] ↔ ∀ l ∈ lines, PlaceholdersWritten l.2 := by
  rw [placeholderFaults, List.flatMap_eq_nil_iff]
  apply forall₂_congr
  intro l _
  rw [← placeholders_isOk_iff, List.filterMap_eq_nil_iff]
  apply forall₂_congr
  intro r _
  cases r <;> simp [Except.isOk, Except.toBool]

theorem openFence?_eq_none_iff {lines : List (Nat × List Char)} :
    openFence? lines = none ↔ (lines.countP fun l => isFence l.2) % 2 = 0 := by
  rw [openFence?, List.countP_eq_length_filter]
  constructor
  · intro h
    split at h
    · rename_i odd
      rw [Option.map_eq_none_iff, List.getLast?_eq_none_iff] at h
      rw [h]
      rfl
    · omega
  · intro even
    rw [if_neg (by omega)]

theorem fenceFaults_eq_nil_iff {lines : List (Nat × List Char)} :
    fenceFaults lines = [] ↔ (lines.countP fun l => isFence l.2) % 2 = 0 := by
  rw [← openFence?_eq_none_iff, fenceFaults]
  cases openFence? lines <;> simp

theorem readSteps_further_eq_nil_iff {lines : List (Nat × List Char)} :
    (readSteps lines).1 = [] ↔
      ∀ l, lines.head? = some l → (stepHead? (Text.trim l.2)).isSome := by
  cases lines with
  | nil => simp [readSteps]
  | cons l rest =>
    rw [readSteps]
    cases head : stepHead? (Text.trim l.2) with
    | none => simp [head]
    | some step => simp [head]

/-- Why a heading of `s` may not follow the sections opened before it. -/
inductive Misplaced (opened : Section → Prop) (s : Section) : Fault → Prop
  | again : opened s → Misplaced opened s (.repeatedSection s)
  | late {r : Section} : ¬opened s → opened r → s.rank < r.rank →
      Misplaced opened s (.sectionOutOfOrder s)

theorem Misplaced.ruleId_eq {opened : Section → Prop} {s : Section} {fault : Fault}
    (misplaced : Misplaced opened s fault) : fault.ruleId = "section-order" := by
  cases misplaced <;> rfl

theorem Misplaced.congr {opened opened' : Section → Prop} (same : ∀ r, opened r ↔ opened' r)
    (s : Section) (fault : Fault) : Misplaced opened s fault ↔ Misplaced opened' s fault := by
  rw [funext fun r => propext (same r)]

namespace Outline

variable {o : Outline}

theorem preambleFaults_eq_nil_iff :
    o.preambleFaults = [] ↔ ∀ l ∈ o.before, l.isBlank = true := by
  rw [preambleFaults, List.map_eq_nil_iff, Option.toList_eq_nil_iff, List.find?_eq_none]
  simp

theorem repeatFaults_eq_nil_iff : o.repeatFaults = [] ↔ o.repeated = [] :=
  List.map_eq_nil_iff

theorem strayFaults_eq_nil_iff :
    o.strayFaults = [] ↔ ∀ l ∈ o.lead, Text.allBlank l.2 = true := by
  rw [strayFaults, List.map_eq_nil_iff, Option.toList_eq_nil_iff, List.find?_eq_none]
  simp

/-- What is wrong with a heading of the section, given the sections opened before it. -/
def headingFault? (opened : List Section) (s : Section) : Option Fault :=
  if s ∈ opened then some (.repeatedSection s)
  else if opened.any fun r => s.rank < r.rank then some (.sectionOutOfOrder s)
  else none

theorem orderFaultsAfter_cons (opened : List Section) (b : Block) (bs : List Block) :
    orderFaultsAfter opened (b :: bs) =
      (headingFault? opened b.ofSection).toList.map (fun fault => (some b.line, fault)) ++
        orderFaultsAfter (b.ofSection :: opened) bs := by
  rw [orderFaultsAfter, headingFault?]
  refine congrArg (· ++ _) ?_
  split
  · rfl
  · split <;> rfl

theorem orderFaultsAfter_congr {opened : List Section} {bs cs : List Block}
    (same : cs.map (fun b => (b.ofSection, b.line)) = bs.map fun b => (b.ofSection, b.line)) :
    orderFaultsAfter opened cs = orderFaultsAfter opened bs := by
  induction bs generalizing opened cs with
  | nil =>
    rw [List.map_nil, List.map_eq_nil_iff] at same
    rw [same]
  | cons b bs ih =>
    obtain ⟨c, cs, rfl, own, others⟩ := List.map_eq_cons_iff.1 same
    rw [Prod.mk.injEq] at own
    rw [orderFaultsAfter_cons, orderFaultsAfter_cons, ih others, own.1, own.2]

theorem headingFault?_eq_none_iff {opened : List Section} {s : Section} :
    headingFault? opened s = none ↔ ∀ r ∈ opened, r.rank < s.rank := by
  rw [headingFault?]
  constructor
  · intro h r hr
    split at h
    · cases h
    · rename_i fresh
      split at h
      · cases h
      · rename_i ordered
        have different : r.rank ≠ s.rank :=
          fun same => fresh (Section.eq_of_rank_eq same ▸ hr)
        have upto : ¬s.rank < r.rank :=
          fun below => ordered (List.any_eq_true.2 ⟨r, hr, decide_eq_true below⟩)
        omega
  · intro h
    have fresh : s ∉ opened := fun hs => Nat.lt_irrefl _ (h _ hs)
    have ordered : ¬(opened.any fun r => s.rank < r.rank) = true := by
      intro below
      obtain ⟨r, hr, lt⟩ := List.any_eq_true.1 below
      exact Nat.lt_asymm (h r hr) (of_decide_eq_true lt)
    rw [if_neg fresh, if_neg ordered]

theorem headingFault?_eq_some_iff {opened : List Section} {s : Section} {fault : Fault} :
    headingFault? opened s = some fault ↔ Misplaced (· ∈ opened) s fault := by
  rw [headingFault?]
  constructor
  · intro h
    split at h
    · rename_i again
      cases h
      exact .again again
    · rename_i fresh
      split at h
      · rename_i late
        cases h
        obtain ⟨r, hr, below⟩ := List.any_eq_true.1 late
        exact .late fresh hr (of_decide_eq_true below)
      · cases h
  · rintro (again | ⟨fresh, hr, below⟩)
    · rw [if_pos again]
    · rw [if_neg fresh, if_pos (List.any_eq_true.2 ⟨_, hr, decide_eq_true below⟩)]

/-- Each heading is judged by the sections opened before it. -/
theorem mem_orderFaultsAfter_iff {opened : List Section} {bs : List Block}
    (ascending : bs.Pairwise (·.line < ·.line)) {l : Located} :
    l ∈ orderFaultsAfter opened bs ↔ ∃ b ∈ bs, ∃ fault,
      Misplaced (fun s => s ∈ opened ∨ ∃ c ∈ bs, c.line < b.line ∧ c.ofSection = s)
        b.ofSection fault ∧ l = (some b.line, fault) := by
  induction bs generalizing opened with
  | nil => simp [orderFaultsAfter]
  | cons a bs ih =>
    obtain ⟨above, ascending⟩ := List.pairwise_cons.1 ascending
    have first (s : Section) :
        s ∈ opened ↔ s ∈ opened ∨ ∃ c ∈ a :: bs, c.line < a.line ∧ c.ofSection = s := by
      refine ⟨Or.inl, ?_⟩
      rintro (own | ⟨c, hc, earlier, _⟩)
      · exact own
      · rcases List.mem_cons.1 hc with rfl | hc
        · omega
        · have := above c hc
          omega
    have later {b : Block} (hb : b ∈ bs) (s : Section) :
        (s ∈ a.ofSection :: opened ∨ ∃ c ∈ bs, c.line < b.line ∧ c.ofSection = s) ↔
          s ∈ opened ∨ ∃ c ∈ a :: bs, c.line < b.line ∧ c.ofSection = s := by
      simp only [List.mem_cons, exists_eq_or_imp, above b hb, true_and, eq_comm (a := s),
        or_left_comm, or_assoc]
    rw [orderFaultsAfter_cons, List.mem_append, ih ascending]
    simp only [List.mem_map, Option.mem_toList, headingFault?_eq_some_iff,
      Misplaced.congr first]
    constructor
    · rintro (⟨fault, misplaced, rfl⟩ | ⟨b, hb, fault, misplaced, rfl⟩)
      · exact ⟨a, List.mem_cons_self, fault, misplaced, rfl⟩
      · exact ⟨b, List.mem_cons_of_mem _ hb, fault,
          (Misplaced.congr (later hb) _ _).1 misplaced, rfl⟩
    · rintro ⟨b, hb, fault, misplaced, rfl⟩
      rcases List.mem_cons.1 hb with rfl | hb
      · exact Or.inl ⟨fault, misplaced, rfl⟩
      · exact Or.inr ⟨b, hb, fault, (Misplaced.congr (later hb) _ _).2 misplaced, rfl⟩

/-- Each heading is judged once. -/
theorem orderFaultsAfter_lines_sublist (opened : List Section) (bs : List Block) :
    ((orderFaultsAfter opened bs).map (·.1)).Sublist (bs.map fun b => some b.line) := by
  induction bs generalizing opened with
  | nil => exact .slnil
  | cons b bs ih =>
    rw [orderFaultsAfter_cons, List.map_append, List.map_map, List.map_cons]
    cases headingFault? opened b.ofSection with
    | none => exact (ih _).cons _
    | some fault => exact (ih _).cons_cons _

/-- The headings so far are all lower, and those to come ascend. -/
theorem orderFaultsAfter_eq_nil_iff {opened : List Section} {bs : List Block} :
    orderFaultsAfter opened bs = [] ↔
      (∀ b ∈ bs, ∀ s ∈ opened, s.rank < b.ofSection.rank) ∧
        bs.Pairwise fun b c => b.ofSection.rank < c.ofSection.rank := by
  induction bs generalizing opened with
  | nil => simp [orderFaultsAfter]
  | cons b bs ih =>
    rw [orderFaultsAfter_cons, List.append_eq_nil_iff, List.map_eq_nil_iff,
      Option.toList_eq_nil_iff, headingFault?_eq_none_iff, ih, List.pairwise_cons]
    constructor
    · rintro ⟨below, later, ascending⟩
      refine ⟨fun c hc s hs => ?_, fun c hc => later c hc _ List.mem_cons_self, ascending⟩
      rcases List.mem_cons.1 hc with rfl | hc
      · exact below s hs
      · exact later c hc s (List.mem_cons_of_mem _ hs)
    · rintro ⟨below, above, ascending⟩
      refine ⟨below b List.mem_cons_self, fun c hc s hs => ?_, ascending⟩
      rcases List.mem_cons.1 hs with rfl | hs
      · exact above c hc
      · exact below c (List.mem_cons_of_mem _ hc) s hs

theorem orderFaults_eq_nil_iff :
    o.orderFaults = [] ↔ o.blocks.Pairwise fun b c => b.ofSection.rank < c.ofSection.rank := by
  rw [orderFaults, orderFaultsAfter_eq_nil_iff]
  simp

theorem headingLine?_isSome_iff {s : Section} :
    (o.headingLine? s).isSome = true ↔ ∃ b ∈ o.blocks, b.ofSection = s := by
  rw [headingLine?, Option.isSome_map, List.isSome_head?, blocksOf]
  simp [List.filter_eq_nil_iff]

theorem missingFaults_eq_nil_iff :
    o.missingFaults = [] ↔
      ∀ s : Section, s.isRequired = true → ∃ b ∈ o.blocks, b.ofSection = s := by
  rw [missingFaults, List.map_eq_nil_iff, List.filter_eq_nil_iff]
  constructor
  · intro h s required
    have absent := h s s.mem_all
    rw [required, Bool.true_and, Option.isNone_iff_eq_none, ← ne_eq,
      ← Option.isSome_iff_ne_none] at absent
    exact headingLine?_isSome_iff.1 absent
  · intro h s _ missing
    obtain ⟨required, absent⟩ := Bool.and_eq_true_iff.1 missing
    have opened := headingLine?_isSome_iff.2 (h s required)
    rw [Option.isNone_iff_eq_none.1 absent] at opened
    cases opened

theorem urlFaults_eq_nil_iff :
    o.urlFaults = [] ↔ (o.written .startingUrl).length ≤ 1 := by
  simp only [urlFaults]
  split
  · rename_i lines
    simp [lines]
  · rename_i few
    simp only [true_iff]
    match lines : o.written .startingUrl with
    | [] => simp
    | [_] => simp
    | a :: b :: rest => exact absurd lines (few a b rest)

theorem stepFaults_eq_nil_iff :
    o.stepFaults = [] ↔ ∀ l, (o.written .testSteps).head? = some l →
      (stepHead? (Text.trim l.2)).isSome = true := by
  rw [stepFaults, List.map_eq_nil_iff, Option.toList_eq_nil_iff, List.head?_eq_none_iff,
    readSteps_further_eq_nil_iff]

end Outline

/-- An outline without structural faults. -/
structure Outline.Sound (o : Outline) (lines : List (Nat × List Char)) : Prop where
  placeholders : ∀ l ∈ lines, PlaceholdersWritten l.2
  fences : (lines.countP fun l => isFence l.2) % 2 = 0
  before : ∀ l ∈ o.before, l.isBlank = true
  repeated : o.repeated = []
  lead : ∀ l ∈ o.lead, Text.allBlank l.2 = true
  ascending : o.blocks.Pairwise fun b c => b.ofSection.rank < c.ofSection.rank
  required : ∀ s : Section, s.isRequired = true → ∃ b ∈ o.blocks, b.ofSection = s
  url : (o.written .startingUrl).length ≤ 1
  steps : ∀ l, (o.written .testSteps).head? = some l → (stepHead? (Text.trim l.2)).isSome = true

theorem structureFaults_eq_nil_iff {lines : List (Nat × List Char)} {o : Outline} :
    structureFaults lines o = [] ↔ o.Sound lines := by
  simp only [structureFaults, List.append_eq_nil_iff, placeholderFaults_eq_nil_iff,
    fenceFaults_eq_nil_iff, Outline.preambleFaults_eq_nil_iff, Outline.repeatFaults_eq_nil_iff,
    Outline.strayFaults_eq_nil_iff, Outline.orderFaults_eq_nil_iff, Outline.urlFaults_eq_nil_iff,
    Outline.stepFaults_eq_nil_iff]
  constructor
  · rintro ⟨⟨⟨⟨⟨⟨⟨⟨placeholders, fences⟩, before⟩, repeated⟩, lead⟩, ascending⟩, missing⟩, url⟩,
      steps⟩
    -- with even fences none is open, so missing sections are reported
    have shut : openFence? lines = none := openFence?_eq_none_iff.2 fences
    rw [shut, if_neg (by simp), Outline.missingFaults_eq_nil_iff] at missing
    exact ⟨placeholders, fences, before, repeated, lead, ascending, missing, url, steps⟩
  · intro sound
    have shut : openFence? lines = none := openFence?_eq_none_iff.2 sound.fences
    rw [shut, if_neg (by simp), Outline.missingFaults_eq_nil_iff]
    exact ⟨⟨⟨⟨⟨⟨⟨⟨sound.placeholders, sound.fences⟩, sound.before⟩, sound.repeated⟩, sound.lead⟩,
      sound.ascending⟩, sound.required⟩, sound.url⟩, sound.steps⟩

theorem mem_modeFaults_iff {path : Path} {l : Located} :
    l ∈ modeFaults path ↔
      path.fileName?.bind Mode.ofFileName? = none ∧ l = (none, .noModeInFileName) := by
  rw [modeFaults]
  cases path.fileName?.bind Mode.ofFileName? <;> simp

theorem modeFaults_eq_nil_iff {path : Path} :
    modeFaults path = [] ↔ ∃ m, path.fileName?.bind Mode.ofFileName? = some m := by
  rw [modeFaults, ← Option.isSome_iff_exists]
  cases path.fileName?.bind Mode.ofFileName? <;> simp

theorem faults_eq_nil_iff {path : Path} {source : String} :
    faults path source = [] ↔
      (∃ m, path.fileName?.bind Mode.ofFileName? = some m) ∧
        ∃ o, Outline.ofLines? (Line.scan false (textLines source)) = some o ∧
          o.Sound (textLines source) := by
  rw [faults, List.append_eq_nil_iff, modeFaults_eq_nil_iff]
  apply and_congr_right
  intro _
  cases Outline.ofLines? (Line.scan false (textLines source)) with
  | none => simp
  | some o => simp [structureFaults_eq_nil_iff]

end Markup

namespace Document

open Markup

theorem exists_of_isOk {r : Except (List Diagnostic) Document} (h : r.isOk = true) :
    ∃ d, r = .ok d := by
  cases r with
  | error _ => cases h
  | ok d => exact ⟨d, rfl⟩

theorem read_eq_ok_iff {path : Path} {feature : String} {markers : Markers} {source : String}
    {d : Document} :
    read path feature markers source = .ok d ↔
      ∃ mode o, path.fileName?.bind Mode.ofFileName? = some mode ∧
        Outline.ofLines? (Line.scan false (textLines source)) = some o ∧
        o.Sound (textLines source) ∧
        d = { path, feature, mode,
              cases := [o.testCase markers (readPlaceholders (textLines source))], source } := by
  simp only [read]
  constructor
  · intro h
    split at h
    · rename_i nothing hmode houtline
      obtain ⟨_, o, found, sound⟩ := faults_eq_nil_iff.1 nothing
      rw [houtline] at found
      cases found
      cases h
      exact ⟨_, _, hmode, houtline, sound, rfl⟩
    · cases h
  · rintro ⟨mode, o, hmode, houtline, sound, rfl⟩
    have nothing : faults path source = [] :=
      faults_eq_nil_iff.2 ⟨⟨mode, hmode⟩, o, houtline, sound⟩
    rw [nothing, hmode, houtline]

/-- A document that is refused has a fault, and every diagnostic is about its structure. -/
theorem read_eq_error {path : Path} {feature : String} {markers : Markers} {source : String}
    {ds : List Diagnostic} (h : read path feature markers source = .error ds) :
    ds ≠ [] ∧ ∀ d ∈ ds, ∃ line fault, d = Fault.diagnostic path.display line fault := by
  simp only [read] at h
  split at h
  · cases h
  · rename_i found other
    cases h
    constructor
    · intro nothing
      have empty := List.map_eq_nil_iff.1 (Diagnostic.sort_eq_nil_iff.1 nothing)
      obtain ⟨⟨mode, hmode⟩, o, houtline, _⟩ := faults_eq_nil_iff.1 empty
      exact other mode o empty hmode houtline
    · intro d hd
      rw [Diagnostic.sort, mem_sortBy] at hd
      obtain ⟨⟨line, fault⟩, _, rfl⟩ := List.mem_map.1 hd
      exact ⟨line, fault, rfl⟩

end Document

end ScriptAudit
