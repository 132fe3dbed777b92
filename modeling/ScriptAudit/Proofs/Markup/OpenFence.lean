import ScriptAudit.Proofs.Markup.Grammar
import ScriptAudit.Proofs.Markup.Report

/-!
# Fences left open

A text with an odd number of fence lines is never a document. Where its test case is recognised the
last fence is reported, and then no missing section is, not even one that the fence cannot have
swallowed. Where the fence swallows the test case itself, only that is reported.
-/

namespace ScriptAudit

namespace Markup

/-- The last fence line of a text has this number. -/
def LastFence (ls : List (List Char)) (n : Nat) : Prop :=
  (∃ s, (n, s) ∈ Text.numbered ls ∧ isFence s = true) ∧
    ∀ m s, (m, s) ∈ Text.numbered ls → isFence s = true → m ≤ n

/-- A test case is recognised among the lines. -/
def HasTestCase (ls : List (List Char)) : Prop :=
  ∃ l ∈ marked ls, l.isTestCase = true

/-- A heading of the section is recognised below the test case. -/
def Opens (ls : List (List Char)) (s : Section) : Prop :=
  ∃ l ∈ marked ls, ∃ h ∈ marked ls, l.isTestCase = true ∧ l.number < h.number ∧
    h.section? = some s

/-- Behind the last fence stands what would be a heading of the section outside a fence. -/
def MaySwallow (ls : List (List Char)) (s : Section) : Prop :=
  ∃ n, LastFence ls n ∧ ∃ m line, (m, line) ∈ Text.numbered ls ∧ n < m ∧
    Heading.ofLine? line = some (.ofSection s)

instance (ls : List (List Char)) : Decidable (HasTestCase ls) :=
  inferInstanceAs (Decidable (∃ l ∈ marked ls, l.isTestCase = true))

instance (ls : List (List Char)) (s : Section) : Decidable (Opens ls s) :=
  inferInstanceAs (Decidable (∃ l ∈ marked ls, ∃ h ∈ marked ls,
    l.isTestCase = true ∧ l.number < h.number ∧ h.section? = some s))

theorem countP_numbered (ls : List (List Char)) :
    ((Text.numbered ls).countP fun l => isFence l.2) = ls.countP isFence := by
  calc ((Text.numbered ls).countP fun l => isFence l.2)
      = ((Text.numbered ls).map (·.2)).countP isFence := by rw [List.countP_map]; rfl
    _ = ls.countP isFence := by rw [Text.map_snd_numbered]

theorem openFence?_eq_some_iff {ls : List (List Char)} {n : Nat} :
    openFence? (Text.numbered ls) = some n ↔ ls.countP isFence % 2 = 1 ∧ LastFence ls n := by
  have ascending : ((Text.numbered ls).filter fun l => isFence l.2).Pairwise (·.1 < ·.1) :=
    (Text.pairwise_numbered ls).filter _
  have mem {m : Nat} {s : List Char} :
      (m, s) ∈ (Text.numbered ls).filter (fun l => isFence l.2) ↔
        (m, s) ∈ Text.numbered ls ∧ isFence s = true := List.mem_filter
  rw [openFence?, ← countP_numbered, List.countP_eq_length_filter]
  generalize (Text.numbered ls).filter (fun l => isFence l.2) = fences at ascending mem
  constructor
  · intro h
    split at h
    · rename_i odd
      obtain ⟨⟨n, s⟩, ending, rfl⟩ := Option.map_eq_some_iff.1 h
      exact ⟨odd, ⟨s, mem.1 (List.mem_of_getLast? ending)⟩, fun m r hm fence =>
        key_le_of_getLast? ascending ending (mem.2 ⟨hm, fence⟩)⟩
    · cases h
  · rintro ⟨odd, ⟨s, hs⟩, last⟩
    rw [if_pos odd, Option.map_eq_some_iff]
    cases ending : fences.getLast? with
    | none =>
      rw [List.getLast?_eq_none_iff.1 ending] at odd
      cases odd
    | some l =>
      obtain ⟨hl, fence⟩ := mem.1 (List.mem_of_getLast? ending)
      have upto := last l.1 l.2 hl fence
      have above := key_le_of_getLast? ascending ending (mem.2 hs)
      exact ⟨l, rfl, by omega⟩

theorem openFence?_textLines_eq_none_iff {source : String} :
    openFence? (textLines source) = none ↔ (bodyLines source).countP isFence % 2 = 0 := by
  rw [openFence?_eq_none_iff, textLines_eq, countP_numbered]

/-- What is wrong with the fences of a text that leaves one open. -/
theorem fenceFaults_of_odd {source : String}
    (odd : (bodyLines source).countP isFence % 2 = 1) :
    ∃ n, LastFence (bodyLines source) n ∧
      fenceFaults (textLines source) = [(some n, .openFence)] := by
  cases found : openFence? (textLines source) with
  | none =>
    have even := openFence?_textLines_eq_none_iff.1 found
    omega
  | some n =>
    have last := found
    rw [textLines_eq, openFence?_eq_some_iff] at last
    refine ⟨n, last.2, ?_⟩
    rw [fenceFaults, found]
    rfl

namespace Outline

variable {ls : List (List Char)} {o : Outline}

theorem ofLines?_marked_eq_none_iff : ofLines? (marked ls) = none ↔ ¬HasTestCase ls := by
  rw [ofLines?_eq_none_iff, HasTestCase]
  simp

theorem exists_of_hasTestCase (h : HasTestCase ls) : ∃ o, ofLines? (marked ls) = some o :=
  Option.ne_none_iff_exists'.1 fun none => ofLines?_marked_eq_none_iff.1 none h

theorem headingLine?_isSome_iff_opens (outlined : ofLines? (marked ls) = some o) {s : Section} :
    (o.headingLine? s).isSome = true ↔ Opens ls s := by
  obtain ⟨start, rest, splits⟩ := splits_of_ofLines? outlined
  rw [headingLine?_isSome_iff, splits.exists_block_iff]
  constructor
  · rintro ⟨h, hh, after, section?⟩
    exact ⟨start, splits.start_mem, h, hh, splits.isTestCase, after, section?⟩
  · rintro ⟨l, hl, h, hh, test, after, section?⟩
    refine ⟨h, hh, ?_, section?⟩
    by_cases first : start.number ≤ l.number
    · omega
    · have early := splits.before_isTestCase l (splits.mem_before_iff.2 ⟨hl, by omega⟩)
      rw [test] at early
      cases early

end Outline

/-! ## The section that a report names -/

/-- What is reported of a missing section. -/
def NamesMissing (path : Path) (s : Section) (x : Diagnostic) : Prop :=
  ∃ previous line, x = (Fault.missingSection s previous line).diagnostic path.display (some line)

theorem section_eq_of_message_eq {s r : Section} {p q : Option Section} {m n : Nat}
    (h : (Fault.missingSection s p m).message = (Fault.missingSection r q n).message) : s = r := by
  have texts := congrArg String.toList h
  rw [Fault.toList_message_missingSection, Fault.toList_message_missingSection] at texts
  have behind := (List.cons.inj (List.append_cancel_left texts)).2
  have labels := congrArg (List.takeWhile (· != '\'')) behind
  rw [Text.takeWhile_bne_append s.quote_not_mem_label,
    Text.takeWhile_bne_append r.quote_not_mem_label] at labels
  exact Section.eq_of_label_eq (String.toList_inj.1 labels)

theorem NamesMissing.ruleId_eq {path : Path} {s : Section} {x : Diagnostic}
    (h : NamesMissing path s x) : x.ruleId = "missing-section" := by
  obtain ⟨_, _, rfl⟩ := h
  rfl

theorem exists_namesMissing_iff {path : Path} {o : Outline} {s : Section} :
    (∃ x ∈ report path o.missingFaults, NamesMissing path s x) ↔
      s.isRequired = true ∧ ¬(o.headingLine? s).isSome = true := by
  simp only [report, Outline.missingFaults, List.map_map, List.mem_map, List.mem_filter,
    Bool.and_eq_true, ← Option.not_isSome, Bool.not_eq_true', Bool.not_eq_true]
  constructor
  · rintro ⟨_, ⟨r, ⟨_, required, absent⟩, rfl⟩, previous, line, same⟩
    obtain ⟨p, n, fault⟩ := o.missingFault_eq r
    rw [Function.comp_apply, fault] at same
    obtain rfl : r = s := section_eq_of_message_eq (congrArg Diagnostic.message same)
    exact ⟨required, absent⟩
  · rintro ⟨required, absent⟩
    obtain ⟨p, n, fault⟩ := o.missingFault_eq s
    refine ⟨_, ⟨s, ⟨s.mem_all, required, absent⟩, rfl⟩, p, n, ?_⟩
    rw [Function.comp_apply, fault]

end Markup

open Markup

namespace Document

variable (path : Path) (feature : String) (markers : Markers) {source : String}
  {ds : List Diagnostic}

theorem exists_read_error_of_odd (odd : (bodyLines source).countP isFence % 2 = 1) :
    ∃ ds, read path feature markers source = .error ds := by
  refine ⟨_, read_of_faults path feature markers fun none => ?_⟩
  obtain ⟨_, o, _, sound⟩ := faults_eq_nil_iff.1 none
  have even := sound.fences
  rw [textLines_eq, countP_numbered] at even
  omega

theorem exists_read_error_of_not_opens {s : Section} (required : s.isRequired = true)
    (closed : ¬Opens (bodyLines source) s) :
    ∃ ds, read path feature markers source = .error ds := by
  refine ⟨_, read_of_faults path feature markers fun none => ?_⟩
  obtain ⟨_, o, outlined, sound⟩ := faults_eq_nil_iff.1 none
  rw [scan_textLines] at outlined
  have opened := Outline.headingLine?_isSome_iff.2 (sound.required s required)
  exact closed ((Outline.headingLine?_isSome_iff_opens outlined).1 opened)

variable {path feature markers}

/-- Without a test case nothing else than its absence is reported, and what is wrong with the file
name. -/
theorem mem_iff_of_read_error_headless (refused : read path feature markers source = .error ds)
    (headless : ¬HasTestCase (bodyLines source)) {x : Diagnostic} :
    x ∈ ds ↔ x = Fault.noTestCase.diagnostic path.display none ∨
      path.fileName?.bind Mode.ofFileName? = none ∧
        x = Fault.noModeInFileName.diagnostic path.display none := by
  have outlined := Outline.ofLines?_marked_eq_none_iff.2 headless
  have whole : faults path source = modeFaults path ++ [(none, .noTestCase)] := by
    rw [faults, scan_textLines, outlined]
  have named : x ∈ report path (modeFaults path) ↔ path.fileName?.bind Mode.ofFileName? = none ∧
      x = Fault.noModeInFileName.diagnostic path.display none := by
    simp only [report, List.mem_map, mem_modeFaults_iff]
    constructor
    · rintro ⟨_, ⟨unnamed, rfl⟩, rfl⟩
      exact ⟨unnamed, rfl⟩
    · rintro ⟨unnamed, rfl⟩
      exact ⟨_, ⟨unnamed, rfl⟩, rfl⟩
  have missing : x ∈ report path [(none, .noTestCase)] ↔
      x = Fault.noTestCase.diagnostic path.display none := List.mem_singleton
  rw [(perm_of_read_error refused).mem_iff, whole, report_append, List.mem_append, named, missing,
    or_comm]

/-- Missing sections are reported only while no fence is open. -/
theorem mem_missing_of_read_error_iff (refused : read path feature markers source = .error ds)
    {o : Outline} (outlined : Outline.ofLines? (marked (bodyLines source)) = some o)
    {x : Diagnostic} :
    x ∈ ds ∧ x.ruleId = "missing-section" ↔
      (bodyLines source).countP isFence % 2 = 0 ∧ x ∈ report path o.missingFaults := by
  rw [← scan_textLines] at outlined
  have perm := filter_perm_of_read_error refused outlined "missing-section" (by decide)
  rw [filter_report_structureFaults] at perm
  have mem := perm.mem_iff (a := x)
  rw [List.mem_filter, decide_eq_true_iff] at mem
  rw [mem, ← openFence?_textLines_eq_none_iff]
  cases openFence? (textLines source) with
  | none => simp
  | some n => simp [report]

variable (path feature markers)

/-- A text that leaves a fence open is refused. Where it has a test case, the fence is reported once,
at its line. Where it has none, the missing test case is reported and besides it at most the file
name. -/
theorem read_of_openFence (odd : (bodyLines source).countP isFence % 2 = 1) :
    ∃ ds, read path feature markers source = .error ds ∧
      (HasTestCase (bodyLines source) → ∃ n, LastFence (bodyLines source) n ∧
        ds.filter (·.ruleId = "unclosed-fence") =
          [Fault.openFence.diagnostic path.display (some n)]) ∧
      (¬HasTestCase (bodyLines source) →
        Fault.noTestCase.diagnostic path.display none ∈ ds ∧
        ∀ x ∈ ds, x = Fault.noTestCase.diagnostic path.display none ∨
          path.fileName?.bind Mode.ofFileName? = none ∧
            x = Fault.noModeInFileName.diagnostic path.display none) := by
  obtain ⟨n, last, fence⟩ := fenceFaults_of_odd odd
  obtain ⟨ds, refused⟩ := exists_read_error_of_odd path feature markers odd
  refine ⟨ds, refused, fun headed => ⟨n, last, ?_⟩, fun headless => ?_⟩
  · obtain ⟨o, outlined⟩ := Outline.exists_of_hasTestCase headed
    rw [← scan_textLines] at outlined
    have perm := filter_perm_of_read_error refused outlined "unclosed-fence" (by decide)
    rw [filter_report_structureFaults, fence] at perm
    simpa [report] using perm
  · have mem (x : Diagnostic) := mem_iff_of_read_error_headless refused headless (x := x)
    exact ⟨(mem _).2 (Or.inl rfl), fun x hx => (mem x).1 hx⟩

/-- A text whose last section ends in an open fence. -/
def unfinished : String :=
  "# Test Case: A\n# Prerequisites\n# Test Steps\n# Expected UI State\n```"

theorem odd_unfinished : (bodyLines unfinished).countP isFence % 2 = 1 := by decide +kernel

theorem hasTestCase_unfinished : HasTestCase (bodyLines unfinished) := by decide +kernel

theorem not_opens_unfinished : ¬Opens (bodyLines unfinished) .expectedResult := by decide +kernel

theorem read_of_openFence_unfinished :
    (bodyLines unfinished).countP isFence % 2 = 1 ∧ HasTestCase (bodyLines unfinished) ∧
    ∃ ds, read ⟨"a.mock.md"⟩ "a" {} unfinished = .error ds ∧
      ∃ n, LastFence (bodyLines unfinished) n ∧ ds.filter (·.ruleId = "unclosed-fence") =
        [Fault.openFence.diagnostic "a.mock.md" (some n)] := by
  obtain ⟨ds, refused, once, _⟩ := read_of_openFence ⟨"a.mock.md"⟩ "a" {} odd_unfinished
  exact ⟨odd_unfinished, hasTestCase_unfinished, ds, refused, once hasTestCase_unfinished⟩

theorem forall_of_refused {r : Except (List Diagnostic) Document} (id : String)
    (h : (match r with
      | .error ds => ds.all (·.ruleId != id)
      | .ok _ => true) = true) {ds : List Diagnostic} (refused : r = .error ds) :
    ∀ x ∈ ds, x.ruleId ≠ id := by
  subst refused
  exact fun x hx => bne_iff_ne.1 (List.all_eq_true.1 h x hx)

/-- A fence that swallows the test case goes unmentioned. -/
theorem openFence_unreported :
    ∃ source, (bodyLines source).countP isFence % 2 = 1 ∧
      ∀ ds, read ⟨"a.mock.md"⟩ "a" {} source = .error ds →
        ∀ x ∈ ds, x.ruleId ≠ "unclosed-fence" :=
  ⟨"```\n# Test Case: A", by decide +kernel,
    fun _ refused => forall_of_refused _ (by decide +kernel) refused⟩

/-- Of the required sections that are not opened, a text without an open fence has each reported,
and one with an open fence none. -/
theorem missing_of_read (headed : HasTestCase (bodyLines source)) {s : Section}
    (required : s.isRequired = true) :
    ((∃ ds, read path feature markers source = .error ds ∧ ∃ x ∈ ds, NamesMissing path s x) ↔
      ¬Opens (bodyLines source) s ∧ (bodyLines source).countP isFence % 2 = 0) ∧
    ((bodyLines source).countP isFence % 2 = 1 → ∃ ds,
      read path feature markers source = .error ds ∧ ∀ x ∈ ds, x.ruleId ≠ "missing-section") := by
  obtain ⟨o, outlined⟩ := Outline.exists_of_hasTestCase headed
  have named : (∃ x ∈ report path o.missingFaults, NamesMissing path s x) ↔
      s.isRequired = true ∧ ¬Opens (bodyLines source) s := by
    rw [exists_namesMissing_iff, Outline.headingLine?_isSome_iff_opens outlined]
  refine ⟨⟨?_, ?_⟩, fun odd => ?_⟩
  · rintro ⟨ds, refused, x, hx, names⟩
    obtain ⟨even, own⟩ :=
      (mem_missing_of_read_error_iff refused outlined).1 ⟨hx, names.ruleId_eq⟩
    exact ⟨(named.1 ⟨x, own, names⟩).2, even⟩
  · rintro ⟨closed, even⟩
    obtain ⟨ds, refused⟩ := exists_read_error_of_not_opens path feature markers required closed
    obtain ⟨x, own, names⟩ := named.2 ⟨required, closed⟩
    have hx := (mem_missing_of_read_error_iff refused outlined).2 ⟨even, own⟩
    exact ⟨ds, refused, x, hx.1, names⟩
  · obtain ⟨ds, refused⟩ := exists_read_error_of_odd path feature markers odd
    refine ⟨ds, refused, fun x hx id => ?_⟩
    have even := ((mem_missing_of_read_error_iff refused outlined).1 ⟨hx, id⟩).1
    omega

theorem missing_of_read_unfinished :
    HasTestCase (bodyLines unfinished) ∧ Section.expectedResult.isRequired = true ∧
    ¬Opens (bodyLines unfinished) .expectedResult ∧
    ¬∃ ds, read ⟨"a.mock.md"⟩ "a" {} unfinished = .error ds ∧
      ∃ x ∈ ds, NamesMissing ⟨"a.mock.md"⟩ .expectedResult x := by
  refine ⟨hasTestCase_unfinished, rfl, not_opens_unfinished, fun named => ?_⟩
  have odd := odd_unfinished
  have even := ((missing_of_read ⟨"a.mock.md"⟩ "a" {} hasTestCase_unfinished
    (show Section.expectedResult.isRequired = true from rfl)).1.1 named).2
  omega

/-- A section that the fence cannot have swallowed goes unmentioned all the same. -/
theorem missing_unreported :
    ∃ source s, HasTestCase (bodyLines source) ∧ (bodyLines source).countP isFence % 2 = 1 ∧
      s.isRequired = true ∧ ¬Opens (bodyLines source) s ∧ ¬MaySwallow (bodyLines source) s ∧
      ∀ ds, read ⟨"a.mock.md"⟩ "a" {} source = .error ds →
        ∀ x ∈ ds, ¬NamesMissing ⟨"a.mock.md"⟩ s x := by
  refine ⟨unfinished, .expectedResult, hasTestCase_unfinished, odd_unfinished, rfl,
    not_opens_unfinished, ?_, fun ds refused x hx names => ?_⟩
  · rintro ⟨_, _, m, line, hline, _, heading⟩
    have none : ∀ l ∈ Text.numbered (bodyLines unfinished),
        Heading.ofLine? l.2 ≠ some (.ofSection .expectedResult) := by decide +kernel
    exact none (m, line) hline heading
  · have silent := forall_of_refused "missing-section" (by decide +kernel) refused x hx
    exact silent names.ruleId_eq

end Document

end ScriptAudit
