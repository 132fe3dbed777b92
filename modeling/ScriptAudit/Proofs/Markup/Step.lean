import Mathlib.Data.List.Forall2
import ScriptAudit.Proofs.Markup.Content
import ScriptAudit.Proofs.Text.Trim

/-!
# Steps and their lines

Every written line of the test steps goes into one step: a numbered line begins one, and any other
continues the nearest above it. The text of a step is what these lines say without their marks, one
space between the pieces.
-/

namespace ScriptAudit

namespace Markup

/-! ## What a line own -/

/-- A bullet, or a number with a dot or a closing parenthesis. -/
inductive IsListMark : List Char → Prop
  | bullet {c : Char} : c = '-' ∨ c = '*' ∨ c = '+' → IsListMark [c]
  | number {digits : List Char} {mark : Char} : digits ≠ [] →
      (∀ c ∈ digits, Text.isDigit c = true) → mark = '.' ∨ mark = ')' →
      IsListMark (digits ++ [mark])

/-- What a line own without one list mark, which counts only with a blank behind it. -/
inductive Unlisted (line : List Char) : List Char → Prop
  | listed {mark rest : List Char} {c : Char} : IsListMark mark → Text.isBlank c = true →
      Text.trim line = mark ++ c :: rest → Unlisted line (Text.trim rest)
  | plain : (∀ mark c rest, IsListMark mark → Text.isBlank c = true →
      Text.trim line ≠ mark ++ c :: rest) → Unlisted line (Text.trim line)

/-- A line that begins a step: a number, and behind it nothing or a blank and the text. -/
def BeginsStep (line digits text : List Char) : Prop :=
  ∃ mark rest, Text.trim line = digits ++ mark :: rest ∧ digits ≠ [] ∧
    (∀ c ∈ digits, Text.isDigit c = true) ∧ (mark = '.' ∨ mark = ')') ∧
    (∀ c, rest.head? = some c → Text.isBlank c = true) ∧ text = Text.trim rest

theorem isNumberedStep_iff {line : List Char} :
    IsNumberedStep line ↔ ∃ digits text, BeginsStep line digits text := by
  constructor
  · rintro ⟨digits, mark, rest, whole, some, numeric, closed, blank⟩
    exact ⟨digits, _, mark, rest, whole, some, numeric, closed, blank, rfl⟩
  · rintro ⟨digits, _, mark, rest, whole, some, numeric, closed, blank, _⟩
    exact ⟨digits, mark, rest, whole, some, numeric, closed, blank⟩

theorem stepHead?_eq_some_iff {line digits text : List Char} :
    stepHead? (Text.trim line) = some (digits, text) ↔ BeginsStep line digits text := by
  constructor
  · intro found
    rw [stepHead?] at found
    split at found
    · rename_i own whole
      cases found
      obtain ⟨mark, split, some, numeric, closed⟩ := numberMark?_eq_some_iff.1 whole
      exact ⟨mark, [], split, some, numeric, closed, by simp, rfl⟩
    · rename_i own c rest whole
      obtain ⟨mark, split, some, numeric, closed⟩ := numberMark?_eq_some_iff.1 whole
      split at found
      · rename_i blank
        cases found
        exact ⟨mark, c :: rest, split, some, numeric, closed, by simpa using blank,
          (Text.trim_blank_cons blank rest).symm⟩
      · cases found
    · cases found
  · rintro ⟨mark, rest, whole, some, numeric, closed, blank, rfl⟩
    rw [stepHead?, numberMark?_eq_some_iff.2 ⟨mark, whole, some, numeric, closed⟩]
    cases rest with
    | nil => rfl
    | cons c rest =>
      dsimp only
      rw [if_pos (blank c rfl), Text.trim_blank_cons (blank c rfl)]

theorem not_isNumberedStep_of_stepHead? {line : List Char}
    (head : stepHead? (Text.trim line) = none) : ¬IsNumberedStep line := by
  rw [← stepHead?_isSome_iff, head]
  simp

theorem afterBullet?_eq_some_iff {s rest : List Char} :
    afterBullet? s = some rest ↔ ∃ mark, IsListMark mark ∧ s = mark ++ rest := by
  constructor
  · intro found
    unfold afterBullet? at found
    split at found
    · cases found
      exact ⟨_, .bullet (.inl rfl), rfl⟩
    · cases found
      exact ⟨_, .bullet (.inr (.inl rfl)), rfl⟩
    · cases found
      exact ⟨_, .bullet (.inr (.inr rfl)), rfl⟩
    · obtain ⟨⟨digits, behind⟩, whole, rfl⟩ := Option.map_eq_some_iff.1 found
      obtain ⟨mark, rfl, some, numeric, closed⟩ := numberMark?_eq_some_iff.1 whole
      exact ⟨digits ++ [mark], .number some numeric closed, by simp⟩
  · rintro ⟨_, listed, rfl⟩
    cases listed with
    | bullet bullet => rcases bullet with rfl | rfl | rfl <;> rfl
    | @number digits mark some numeric closed =>
      have own : numberMark? (digits ++ [mark] ++ rest) = Option.some (digits, rest) :=
        numberMark?_eq_some_iff.2 ⟨mark, by simp, some, numeric, closed⟩
      obtain ⟨d, digits, rfl⟩ := List.exists_cons_of_ne_nil some
      have digit := numeric d List.mem_cons_self
      have other {c : Char} (bullet : Text.isDigit c = false) : d ≠ c := by
        rintro rfl
        rw [digit] at bullet
        cases bullet
      rw [afterBullet?, own]
      · rfl
      · exact fun _ same => other (c := '-') (by decide) (List.cons.inj same).1
      · exact fun _ same => other (c := '*') (by decide) (List.cons.inj same).1
      · exact fun _ same => other (c := '+') (by decide) (List.cons.inj same).1

theorem unlisted_iff {line piece : List Char} :
    Unlisted line piece ↔ piece = stripListMarker line := by
  have plain (none : ∀ c rest, Text.isBlank c = true →
      afterBullet? (Text.trim line) ≠ some (c :: rest)) : Unlisted line (Text.trim line) :=
    .plain fun mark c rest listed blank whole =>
      none c rest blank (afterBullet?_eq_some_iff.2 ⟨mark, listed, whole⟩)
  rw [stripListMarker]
  constructor
  · rintro (⟨listed, blank, whole⟩ | none)
    · rename_i mark rest c
      rw [afterBullet?_eq_some_iff.2 ⟨mark, listed, whole⟩]
      dsimp only
      rw [if_pos blank]
    · split
      · rename_i c rest found
        obtain ⟨mark, listed, whole⟩ := afterBullet?_eq_some_iff.1 found
        rw [if_neg fun blank => none mark c rest listed blank whole]
      · rfl
  · rintro rfl
    split
    · rename_i c rest found
      obtain ⟨mark, listed, whole⟩ := afterBullet?_eq_some_iff.1 found
      split
      · rename_i blank
        exact .listed listed blank whole
      · rename_i dense
        refine plain fun d behind blank other => ?_
        rw [found] at other
        cases other
        exact dense blank
    · rename_i none
      exact plain fun c rest _ => none c rest

theorem Unlisted.trim_eq {line piece : List Char} (own : Unlisted line piece) :
    Text.trim piece = piece := by
  cases own with
  | listed => exact Text.trim_trim _
  | plain => exact Text.trim_trim _

/-- Behind the mark of a line that is not blank something is written, since the line is trimmed. -/
theorem Unlisted.ne_nil {line piece : List Char} (own : Unlisted line piece)
    (written : Text.allBlank line = false) : piece ≠ [] := by
  cases own with
  | plain =>
    rw [Ne, Text.trim_eq_nil_iff, written]
    simp
  | @listed mark rest c listed blank whole =>
    intro nothing
    have gap : Text.allBlank (c :: rest) = true := by
      rw [Text.allBlank, List.all_cons, blank]
      exact Text.trim_eq_nil_iff.1 nothing
    obtain ⟨d, last⟩ := Option.isSome_iff_exists.1
      (List.getLast?_isSome.2 (List.cons_ne_nil c rest))
    have dense := (Text.trim_eq_self_iff.1 (Text.trim_trim line)).2 d
      (by rw [whole, List.getLast?_append, last, Option.some_or])
    have mem := List.all_eq_true.1 gap d (List.mem_of_getLast? last)
    rw [dense] at mem
    cases mem

/-! ## Which lines a step takes -/

instance (line : List Char) : Decidable (IsNumberedStep line) :=
  decidable_of_iff _ stepHead?_isSome_iff

/-- The line belongs to the step that begins in line `n`: it stands below, and no other step begins
up to it. -/
def Continues (lines : List (Nat × List Char)) (n : Nat) (e : Nat × List Char) : Prop :=
  n < e.1 ∧ ∀ k ∈ lines, n < k.1 → k.1 ≤ e.1 → ¬IsNumberedStep k.2

instance (lines : List (Nat × List Char)) (n : Nat) (e : Nat × List Char) :
    Decidable (Continues lines n e) :=
  inferInstanceAs (Decidable (n < e.1 ∧ ∀ k ∈ lines, n < k.1 → k.1 ≤ e.1 → ¬IsNumberedStep k.2))

/-- The lines that continue the step that begins in line `n`. -/
def continuations (lines : List (Nat × List Char)) (n : Nat) : List (Nat × List Char) :=
  lines.filter fun e => Continues lines n e

/-- The lines that begin a step. -/
def stepLines (lines : List (Nat × List Char)) : List (Nat × List Char) :=
  lines.filter fun e => IsNumberedStep e.2

/-- What is read of the line that begins a step and of those that continue it. -/
structure ReadsStep (further : List (Nat × List Char)) (head : Nat × List Char) (s : Step) :
    Prop where
  line : s.line = head.1
  text : ∃ digits first pieces, BeginsStep head.2 digits first ∧ s.number = stepNumber digits ∧
    List.Forall₂ (fun e piece => Unlisted e.2 piece ∧ piece ≠ [] ∧ Text.trim piece = piece)
      further pieces ∧
    s.text.toList = [' '].intercalate ((first :: pieces).filter (· ≠ []))

theorem ReadsStep.trim_text {further : List (Nat × List Char)} {head : Nat × List Char} {s : Step}
    (reads : ReadsStep further head s) : Text.trim s.text.toList = s.text.toList := by
  obtain ⟨digits, first, pieces, ⟨_, _, _, _, _, _, _, rfl⟩, _, taken, text⟩ := reads.text
  have trimmed : ∀ p ∈ pieces, Text.trim p = p :=
    ((List.forall₂_and_left (R := fun _ _ => True) _ _).1
      (taken.flip.imp fun _ _ own => ⟨own.2.2, trivial⟩)).1
  rw [text]
  refine Text.trim_intercalate_space fun p hp => ?_
  obtain ⟨hp, written⟩ := List.mem_filter.1 hp
  refine ⟨of_decide_eq_true written, ?_⟩
  rcases List.mem_cons.1 hp with rfl | hp
  · exact Text.trim_trim _
  · exact trimmed p hp

section

variable {lines : List (Nat × List Char)} {l : Nat × List Char}

theorem stepLines_cons_step (step : IsNumberedStep l.2) (rest : List (Nat × List Char)) :
    stepLines (l :: rest) = l :: stepLines rest :=
  List.filter_cons_of_pos (decide_eq_true step)

theorem stepLines_cons_text (text : ¬IsNumberedStep l.2) (rest : List (Nat × List Char)) :
    stepLines (l :: rest) = stepLines rest :=
  List.filter_cons_of_neg (by simpa using text)

theorem continuations_cons_of_le {n : Nat} (upto : l.1 ≤ n) (rest : List (Nat × List Char)) :
    continuations (l :: rest) n = continuations rest n := by
  have same (e : Nat × List Char) : Continues (l :: rest) n e ↔ Continues rest n e := by
    rw [Continues, List.forall_mem_cons, Continues]
    exact and_congr_right fun _ => and_iff_right fun below => absurd below (Nat.not_lt.2 upto)
  have above : ¬Continues (l :: rest) n l := fun own => Nat.not_lt.2 upto own.1
  rw [continuations, List.filter_cons_of_neg (by simpa using above), continuations]
  exact List.filter_congr fun e _ => decide_eq_decide.2 (same e)

/-- The lines before the first step continue the one above them all. -/
theorem continuations_of_forall_lt {n : Nat} (ascending : lines.Pairwise (·.1 < ·.1))
    (below : ∀ e ∈ lines, n < e.1) : continuations lines n = (readSteps lines).1 := by
  induction lines with
  | nil => rfl
  | cons l rest ih =>
    obtain ⟨later, ascending⟩ := List.pairwise_cons.1 ascending
    obtain ⟨own, others⟩ := List.forall_mem_cons.1 below
    cases head : stepHead? (Text.trim l.2) with
    | none =>
      have text := not_isNumberedStep_of_stepHead? head
      have same (e : Nat × List Char) : Continues (l :: rest) n e ↔ Continues rest n e := by
        rw [Continues, List.forall_mem_cons, Continues]
        exact and_congr_right fun _ => and_iff_right fun _ _ => text
      rw [readSteps_cons_text head, ← ih ascending others, continuations, List.filter_cons_of_pos]
      · exact congrArg _ (List.filter_congr fun e _ => decide_eq_decide.2 (same e))
      · refine decide_eq_true ⟨own, fun k hk _ upto => ?_⟩
        rcases List.mem_cons.1 hk with rfl | hk
        · exact text
        · have := later k hk
          omega
    | some parts =>
      have step : IsNumberedStep l.2 := by
        rw [← stepHead?_isSome_iff, head]
        rfl
      rw [readSteps_cons_step head, continuations, List.filter_eq_nil_iff]
      intro e he
      rw [decide_eq_true_iff]
      rintro ⟨_, none⟩
      refine none l List.mem_cons_self own ?_ step
      rcases List.mem_cons.1 he with rfl | he
      · exact Nat.le_refl _
      · exact Nat.le_of_lt (later e he)

/-- Each line that begins a step is read as one, together with the lines that continue it. -/
theorem readsStep_of_readSteps (ascending : lines.Pairwise (·.1 < ·.1))
    (written : ∀ e ∈ lines, Text.allBlank e.2 = false) :
    List.Forall₂ (fun head s => ReadsStep (continuations lines head.1) head s) (stepLines lines)
      (readSteps lines).2 := by
  induction lines with
  | nil => exact .nil
  | cons l rest ih =>
    obtain ⟨later, ascending⟩ := List.pairwise_cons.1 ascending
    obtain ⟨own, others⟩ := List.forall_mem_cons.1 written
    have below : ∀ head ∈ stepLines rest, l.1 < head.1 := fun head hhead =>
      later head (List.mem_filter.1 hhead).1
    have further : List.Forall₂ (fun head s => ReadsStep (continuations (l :: rest) head.1) head s)
        (stepLines rest) (readSteps rest).2 :=
      ((List.forall₂_and_left _ _).2 ⟨below, ih ascending others⟩).imp fun head s reads => by
        rw [continuations_cons_of_le (Nat.le_of_lt reads.1)]
        exact reads.2
    cases head : stepHead? (Text.trim l.2) with
    | none =>
      have text := not_isNumberedStep_of_stepHead? head
      rw [stepLines_cons_text text, readSteps_cons_text head]
      exact further
    | some parts =>
      obtain ⟨digits, first⟩ := parts
      have begins := stepHead?_eq_some_iff.1 head
      rw [stepLines_cons_step (isNumberedStep_iff.2 ⟨digits, first, begins⟩),
        readSteps_cons_step head]
      refine .cons ⟨rfl, digits, first, (readSteps rest).1.map fun e => stripListMarker e.2, begins,
        rfl, ?_, ?_⟩ further
      · rw [continuations_cons_of_le (Nat.le_refl _), ← continuations_of_forall_lt ascending later,
          List.forall₂_map_right_iff, List.forall₂_same]
        intro e he
        have piece := unlisted_iff.2 (rfl : stripListMarker e.2 = _)
        exact ⟨piece, piece.ne_nil (others e (List.mem_filter.1 he).1), piece.trim_eq⟩
      · rw [String.toList_ofList, joinPieces]
        exact congrArg _ (List.filter_congr fun p _ => by cases p <;> rfl)

/-- A line that begins no step continues the nearest above it that does, and no other. -/
theorem exists_step_above (ascending : lines.Pairwise (·.1 < ·.1))
    (first : ∀ l, lines.head? = some l → IsNumberedStep l.2) {e : Nat × List Char} (he : e ∈ lines)
    (text : ¬IsNumberedStep e.2) :
    ∃ head ∈ stepLines lines, head.1 < e.1 ∧
      (∀ k ∈ stepLines lines, k.1 < e.1 → k.1 ≤ head.1) ∧
      ∀ k ∈ stepLines lines, e ∈ continuations lines k.1 ↔ k = head := by
  obtain ⟨l, rest, rfl⟩ := List.exists_cons_of_ne_nil (List.ne_nil_of_mem he)
  have step := first l rfl
  have below : l.1 < e.1 := by
    rcases List.mem_cons.1 he with rfl | he
    · exact absurd step text
    · exact (List.pairwise_cons.1 ascending).1 e he
  have begins {k : Nat × List Char} :
      k ∈ stepLines (l :: rest) ↔ k ∈ l :: rest ∧ IsNumberedStep k.2 := by
    rw [stepLines, List.mem_filter, decide_eq_true_iff]
  -- the last of the steps above the line
  let above := (stepLines (l :: rest)).filter (·.1 < e.1)
  have some : l ∈ above :=
    List.mem_filter.2 ⟨begins.2 ⟨List.mem_cons_self, step⟩, decide_eq_true below⟩
  obtain ⟨head, last⟩ := Option.isSome_iff_exists.1
    (List.getLast?_isSome.2 (List.ne_nil_of_mem some))
  obtain ⟨hhead, before⟩ := List.mem_filter.1 (List.mem_of_getLast? last)
  have before := of_decide_eq_true before
  have nearest : ∀ k ∈ stepLines (l :: rest), k.1 < e.1 → k.1 ≤ head.1 := fun k hk lt =>
    key_le_of_getLast? ((ascending.filter _).filter _) last
      (List.mem_filter.2 ⟨hk, decide_eq_true lt⟩)
  refine ⟨head, hhead, before, nearest, fun k hk => ⟨fun taken => ?_, ?_⟩⟩
  · have own := of_decide_eq_true (List.mem_filter.1 taken).2
    refine eq_of_key_eq ascending (begins.1 hk).1 (begins.1 hhead).1
      (Nat.le_antisymm (nearest k hk own.1) (Nat.not_lt.1 fun lt => ?_))
    exact own.2 head (begins.1 hhead).1 lt (Nat.le_of_lt before) (begins.1 hhead).2
  · rintro rfl
    refine List.mem_filter.2 ⟨he, decide_eq_true ⟨before, fun m hm lt upto other => ?_⟩⟩
    rcases Nat.lt_or_eq_of_le upto with early | same
    · have := nearest m (begins.2 ⟨hm, other⟩) early
      omega
    · rw [eq_of_key_eq ascending hm he same] at other
      exact text other

end

end Markup

open Markup

/-- The steps of a document are read from the written lines of their section, the first of which
begins one. -/
theorem Document.exists_steps_of_read {path : Path} {feature : String} {markers : Markers}
    {source : String} {d : Document} (result : read path feature markers source = .ok d) :
    ∃ c lines, d.cases = [c] ∧ lines = writtenLines (bodyLines source) .testSteps ∧
      List.Forall₂ (fun head s => ReadsStep (continuations lines head.1) head s) (stepLines lines)
        c.steps ∧
      lines.Pairwise (·.1 < ·.1) ∧ ∀ l, lines.head? = some l → IsNumberedStep l.2 := by
  obtain ⟨mode, o, _, outlined, sound, rfl⟩ := read_eq_ok_iff.1 result
  rw [scan_textLines] at outlined
  obtain ⟨start, rest, splits⟩ := Outline.splits_of_ofLines? outlined
  have whole := splits.written_eq .testSteps
  have ascending : (o.written .testSteps).Pairwise (·.1 < ·.1) := splits.pairwise_written _
  have written : ∀ e ∈ o.written .testSteps, Text.allBlank e.2 = false := fun e he => by
    simpa using (List.mem_filter.1 he).2
  have reads := readsStep_of_readSteps ascending written
  refine ⟨_, o.written .testSteps, rfl, whole, reads, ascending, fun l hl => ?_⟩
  exact stepHead?_isSome_iff.1 (sound.steps l hl)

/-- The steps of a document are its numbered lines in order, each with the lines up to the next, and
no written line of the section is left out. -/
theorem Document.steps_of_read {path : Path} {feature : String} {markers : Markers}
    {source : String} {d : Document} (result : read path feature markers source = .ok d) :
    ∃ c lines, d.cases = [c] ∧ lines = writtenLines (bodyLines source) .testSteps ∧
      List.Forall₂ (fun head s => ReadsStep (continuations lines head.1) head s) (stepLines lines)
        c.steps ∧
      (∀ e ∈ lines, ¬IsNumberedStep e.2 → ∃ head ∈ stepLines lines, head.1 < e.1 ∧
        (∀ k ∈ stepLines lines, k.1 < e.1 → k.1 ≤ head.1) ∧
        ∀ k ∈ stepLines lines, e ∈ continuations lines k.1 ↔ k = head) ∧
      (∀ s ∈ c.steps, Text.trim s.text.toList = s.text.toList) ∧ (c.steps = [] ↔ lines = []) := by
  obtain ⟨c, lines, only, whole, reads, ascending, first⟩ := exists_steps_of_read result
  refine ⟨c, lines, only, whole, reads, fun e he text => exists_step_above ascending first he text,
    ?_, ?_⟩
  · exact ((List.forall₂_and_left (R := fun _ _ => True) _ _).1
      (reads.flip.imp fun _ _ own => ⟨own.trim_text, trivial⟩)).1
  · constructor
    · intro none
      rw [none, List.forall₂_nil_right_iff, stepLines, List.filter_eq_nil_iff] at reads
      cases lines with
      | nil => rfl
      | cons l lines => exact absurd (decide_eq_true (first l rfl)) (reads l List.mem_cons_self)
    · rintro rfl
      exact List.forall₂_nil_left_iff.1 reads

/-- A document whose first step goes on in the next line. -/
def Document.continued : String :=
  "# Test Case: A\n# Prerequisites\n# Test Steps\n1.\n- Open\n2) Wait\n# Expected UI State\n" ++
    "# Expected Result"

theorem Document.steps_of_read_continued :
    ∃ d, read ⟨"a.mock.md"⟩ "a" {} continued = .ok d ∧
      ∃ c lines, d.cases = [c] ∧ lines = writtenLines (bodyLines continued) .testSteps ∧
        List.Forall₂ (fun head s => ReadsStep (continuations lines head.1) head s)
          (stepLines lines) c.steps ∧
        (∀ e ∈ lines, ¬IsNumberedStep e.2 → ∃ head ∈ stepLines lines, head.1 < e.1 ∧
          (∀ k ∈ stepLines lines, k.1 < e.1 → k.1 ≤ head.1) ∧
          ∀ k ∈ stepLines lines, e ∈ continuations lines k.1 ↔ k = head) ∧
        (∀ s ∈ c.steps, Text.trim s.text.toList = s.text.toList) ∧ (c.steps = [] ↔ lines = []) :=
  (exists_of_isOk (r := read ⟨"a.mock.md"⟩ "a" {} continued) (by decide +kernel)).imp
    fun _ result => ⟨result, steps_of_read result⟩

end ScriptAudit
