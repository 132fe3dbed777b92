import Mathlib.Order.Monotone.Basic
import ScriptAudit.Proofs.Markup.Condense
import ScriptAudit.Proofs.Markup.Content
import ScriptAudit.Proofs.Markup.Report
import ScriptAudit.Proofs.Text.Ascending

/-!
# Reading under new line numbers

Two texts whose written lines are the same, but for blanks around them and for numbers that keep
their order, are read alike: as the same document under the new numbers, or with the same faults in
the same order. A setup script has to be compared by itself, since it is kept with its blank lines.
-/

namespace ScriptAudit

namespace Markup

variable {f : Nat → Nat}

/-! ## The order of reports -/

namespace Fault

theorem ruleId_renumber (fault : Fault) : (fault.renumber f).ruleId = fault.ruleId := by
  cases fault <;> rfl

theorem renumber_id (fault : Fault) : fault.renumber id = fault := by
  cases fault <;> rfl

theorem renumber_of_ruleId_ne {fault : Fault} (other : fault.ruleId ≠ "missing-section") :
    fault.renumber f = fault := by
  cases fault <;> first | rfl | exact absurd rfl other

theorem exists_of_ruleId_eq {fault : Fault} (id : fault.ruleId = "missing-section") :
    ∃ s p n, fault = .missingSection s p n := by
  cases fault <;> simp [ruleId] at id ⊢

/-- The line that is quoted does not decide between two messages that quote the same. -/
theorem compare_message_missingSection (s r : Section) (p q : Option Section) (m n : Nat) :
    compare (missingSection s p m).message (missingSection r q m).message =
      compare (missingSection s p n).message (missingSection r q n).message := by
  have previous (p : Option Section) : '\'' ∉ ((p.map Section.label).getD "Test Case").toList := by
    cases p with
    | none => decide
    | some s => exact s.quote_not_mem_label
  have lt (s r : Section) (p q : Option Section) :
      (missingSection s p m).message < (missingSection r q m).message ↔
        (missingSection s p n).message < (missingSection r q n).message := by
    simp only [String.lt_iff, toList_message_missingSection]
    refine Text.append_cons_lt_congr (by decide) (by decide) fun _ => ?_
    refine Text.append_cons_lt_congr s.quote_not_mem_label r.quote_not_mem_label fun _ => ?_
    refine Text.append_cons_lt_congr (by decide) (by decide) fun _ => ?_
    refine Text.append_cons_lt_congr (previous p) (previous q) fun _ => ?_
    simp only [List.lt_irrefl]
  exact Text.compare_congr (lt s r p q) (lt r s q p)

end Fault

theorem compare_lineRank_map (mono : StrictMono f) (a b : Option Nat) :
    compare (Diagnostic.lineRank (a.map f)) (Diagnostic.lineRank (b.map f)) =
      compare (Diagnostic.lineRank a) (Diagnostic.lineRank b) := by
  have lt (a b : Option Nat) : Diagnostic.lineRank (a.map f) < Diagnostic.lineRank (b.map f) ↔
      Diagnostic.lineRank a < Diagnostic.lineRank b := by
    cases a <;> cases b <;> simp [Diagnostic.lineRank, mono.lt_iff_lt]
  simp only [Nat.compare_eq_ite_lt, lt]

namespace Located

/-- A fault that quotes a line stands at that line. -/
def Quotes (l : Located) : Prop :=
  ∀ s p n, l.2 = .missingSection s p n → l.1 = some n

/-- What is reported of a fault in the document at a path. -/
def diagnostic (path : Path) (l : Located) : Diagnostic :=
  l.2.diagnostic path.display l.1

theorem order_renumber (mono : StrictMono f) {a b : Located} (ha : Quotes a) (hb : Quotes b)
    (path : Path) :
    Diagnostic.order (diagnostic path (renumber f a)) (diagnostic path (renumber f b)) =
      Diagnostic.order (diagnostic path a) (diagnostic path b) := by
  symm
  refine Diagnostic.order_congr rfl (compare_lineRank_map mono a.1 b.1).symm ?_ fun line id => ?_
  · change compare a.2.ruleId b.2.ruleId =
      compare (a.2.renumber f).ruleId (b.2.renumber f).ruleId
    rw [Fault.ruleId_renumber, Fault.ruleId_renumber]
  · change compare a.2.message b.2.message =
      compare (a.2.renumber f).message (b.2.renumber f).message
    by_cases missing : a.2.ruleId = "missing-section"
    · obtain ⟨s, p, m, faultA⟩ := Fault.exists_of_ruleId_eq missing
      obtain ⟨r, q, n, faultB⟩ := Fault.exists_of_ruleId_eq (Eq.trans id.symm missing)
      have same : some m = some n := (ha s p m faultA).symm.trans (line.trans (hb r q n faultB))
      cases same
      rw [faultA, faultB]
      exact Fault.compare_message_missingSection s r p q m (f m)
    · rw [Fault.renumber_of_ruleId_ne missing,
        Fault.renumber_of_ruleId_ne fun other => missing (Eq.trans id other)]

theorem renumber_id (l : Located) : renumber id l = l := by
  obtain ⟨line, fault⟩ := l
  simp only [renumber, Fault.renumber_id, Option.map_id_fun, id]

end Located

/-- The order in which faults are reported. -/
def Located.le (path : Path) (a b : Located) : Bool :=
  Diagnostic.le (Located.diagnostic path a) (Located.diagnostic path b)

theorem sort_report (path : Path) (found : List Located) :
    Diagnostic.sort (report path found) = report path (sortBy (Located.le path) found) :=
  sortBy_map fun _ _ _ _ => rfl

theorem sortBy_renumber (mono : StrictMono f) {found : List Located}
    (quotes : ∀ l ∈ found, Located.Quotes l) (path : Path) :
    sortBy (Located.le path) (found.map (Located.renumber f)) =
      (sortBy (Located.le path) found).map (Located.renumber f) :=
  sortBy_map fun a ha b hb => by
    rw [Located.le, Located.le, Diagnostic.le, Diagnostic.le,
      Located.order_renumber mono (quotes a ha) (quotes b hb)]

theorem quotes_of_ruleId {found : List Located} {own : String}
    (ids : ∀ l ∈ found, l.2.ruleId = own) (other : own ≠ "missing-section") :
    ∀ l ∈ found, Located.Quotes l := by
  intro l hl s p n fault
  have id := ids l hl
  rw [fault] at id
  exact absurd id.symm other

theorem quotes_of_mem_structureFaults {lines : List (Nat × List Char)} {o : Outline} :
    ∀ l ∈ structureFaults lines o, Located.Quotes l := by
  have missing : ∀ l ∈ (if (openFence? lines).isSome then [] else o.missingFaults),
      Located.Quotes l := by
    split
    · simp
    · intro l hl s p n fault
      obtain ⟨r, _, rfl⟩ := List.mem_map.1 hl
      obtain ⟨q, m, found⟩ := o.missingFault_eq r
      rw [found] at fault ⊢
      cases fault
      rfl
  simp only [structureFaults, List.forall_mem_append]
  refine ⟨⟨⟨⟨⟨⟨⟨⟨?_, ?_⟩, ?_⟩, ?_⟩, ?_⟩, ?_⟩, missing⟩, ?_⟩, ?_⟩
  · exact quotes_of_ruleId ruleId_of_mem_placeholderFaults (by decide)
  · exact quotes_of_ruleId ruleId_of_mem_map (by decide)
  · exact quotes_of_ruleId ruleId_of_mem_map (by decide)
  · exact quotes_of_ruleId ruleId_of_mem_map (by decide)
  · exact quotes_of_ruleId ruleId_of_mem_map (by decide)
  · exact quotes_of_ruleId Outline.ruleId_of_mem_orderFaultsAfter (by decide)
  · exact quotes_of_ruleId Outline.ruleId_of_mem_urlFaults (by decide)
  · exact quotes_of_ruleId ruleId_of_mem_map (by decide)

theorem quotes_of_mem_faults {path : Path} {source : String} :
    ∀ l ∈ faults path source, Located.Quotes l := by
  simp only [faults, List.forall_mem_append]
  refine ⟨quotes_of_ruleId ruleId_of_mem_modeFaults (by decide), ?_⟩
  split
  · intro l hl s p n fault
    rw [List.mem_singleton.1 hl] at fault
    cases fault
  · exact quotes_of_mem_structureFaults

/-! ## Texts that are alike -/

/-- The written lines of two texts are the same, but for blanks around them, under new numbers. -/
def Alike (f : Nat → Nat) (ls ls' : List (List Char)) : Prop :=
  Line.condense id (marked ls') = Line.condense f (marked ls)

namespace Alike

variable {ls ls' : List (List Char)} (alike : Alike f ls ls')
include alike

theorem outline : (Outline.ofLines? (marked ls')).map (Outline.condense id) =
    (Outline.ofLines? (marked ls)).map (Outline.condense f) := by
  rw [← Outline.ofLines?_condense id (headingsWritten_marked ls'),
    ← Outline.ofLines?_condense f (headingsWritten_marked ls), alike]

theorem numbered : condense id (Text.numbered ls') = condense f (Text.numbered ls) := by
  rw [← map_entry_marked, ← map_entry_marked, ← Line.map_entry_condense,
    ← Line.map_entry_condense, alike]

theorem structureFaults {o o' : Outline} (outline : o'.condense id = o.condense f) :
    Markup.structureFaults (Text.numbered ls') o' =
      (Markup.structureFaults (Text.numbered ls) o).map (Located.renumber f) := by
  have condensed := structureFaults_condense id (Text.numbered ls') o'
  rw [alike.numbered, outline, structureFaults_condense] at condensed
  rw [condensed, funext Located.renumber_id, List.map_id']

theorem readPlaceholders :
    (Markup.readPlaceholders (Text.numbered ls')).map (·.renumber id) =
      (Markup.readPlaceholders (Text.numbered ls)).map (·.renumber f) := by
  rw [← readPlaceholders_condense, alike.numbered, readPlaceholders_condense]

end Alike

theorem faults_of_alike (path : Path) {source source' : String}
    (alike : Alike f (bodyLines source) (bodyLines source')) :
    faults path source' = (faults path source).map (Located.renumber f) := by
  have named : (modeFaults path).map (Located.renumber f) = modeFaults path := by
    rw [modeFaults]
    split <;> rfl
  have outline := alike.outline
  simp only [faults, textLines_eq, Line.scan_numbered]
  cases found : Outline.ofLines? (marked (bodyLines source)) with
  | none =>
    rw [found, Option.map_none, Option.map_eq_none_iff] at outline
    rw [outline, List.map_append, named]
    rfl
  | some o =>
    rw [found, Option.map_some, Option.map_eq_some_iff] at outline
    obtain ⟨o', found', same⟩ := outline
    rw [found', List.map_append, named]
    dsimp only
    rw [alike.structureFaults same]

/-! ## What stands where -/

/-- The line of this number is recognised as the heading. -/
def HeadedAt (ls : List (List Char)) (n : Nat) (h : Heading) : Prop :=
  ∃ l ∈ marked ls, l.number = n ∧ l.heading = some h

/-- What a section holds is decided by the headings alone. -/
theorem contentAt_iff_headedAt {ls : List (List Char)} {s : Section} {n : Nat} :
    ContentAt ls s n ↔ (1 ≤ n ∧ n ≤ ls.length) ∧ (∀ h, ¬HeadedAt ls n h) ∧
      ∃ m title k, HeadedAt ls m (.testCase title) ∧ HeadedAt ls k (.ofSection s) ∧ m < k ∧ k < n ∧
        ∀ j r, k < j → j ≤ n → ¬HeadedAt ls j (.ofSection r) := by
  rw [← exists_mem_marked_iff]
  constructor
  · rintro ⟨l, hl, rfl, plain, t, ht, test, h, hh, after, section?, below, nearest⟩
    obtain ⟨title, titled⟩ := Line.isTestCase_iff.1 test
    refine ⟨⟨l, hl, rfl⟩, ?_, t.number, title, h.number, ⟨t, ht, rfl, titled⟩,
      ⟨h, hh, rfl, Line.section?_eq_some_iff.1 section?⟩, after, below, ?_⟩
    · rintro g ⟨k, hk, same, heading⟩
      rw [eq_of_key_eq (pairwise_marked ls) hk hl same, plain] at heading
      cases heading
    · rintro j r above upto ⟨k, hk, rfl, heading⟩
      rw [← Line.section?_eq_some_iff, nearest k hk above upto] at heading
      cases heading
  · rintro ⟨⟨l, hl, rfl⟩, plain, _, title, _, ⟨t, ht, rfl, titled⟩, ⟨h, hh, rfl, section?⟩, after,
      below, nearest⟩
    refine ⟨l, hl, rfl, ?_, t, ht, Line.isTestCase_iff.2 ⟨title, titled⟩, h, hh, after,
      Line.section?_eq_some_iff.2 section?, below, fun k hk above upto => ?_⟩
    · exact Option.eq_none_iff_forall_ne_some.2 fun g heading => plain g ⟨l, hl, rfl, heading⟩
    · exact Option.eq_none_iff_forall_ne_some.2 fun r heading =>
        nearest k.number r above upto ⟨k, hk, rfl, Line.section?_eq_some_iff.1 heading⟩

theorem exists_mem_condense_iff {g : Nat → Nat} {ls : List (List Char)} {m : Nat} {h : Heading} :
    (∃ l ∈ Line.condense g (marked ls), l.number = m ∧ l.heading = some h) ↔
      ∃ n, g n = m ∧ HeadedAt ls n h := by
  simp only [Line.condense, List.mem_map, List.mem_filter, Bool.not_eq_true']
  constructor
  · rintro ⟨_, ⟨l, ⟨hl, _⟩, rfl⟩, rfl, heading⟩
    exact ⟨l.number, rfl, l, hl, rfl, heading⟩
  · rintro ⟨_, rfl, l, hl, rfl, heading⟩
    have written := headingsWritten_marked ls l hl h heading
    exact ⟨l.condensed g, ⟨l, ⟨hl, written⟩, rfl⟩, rfl, heading⟩

namespace Alike

variable {ls ls' : List (List Char)} (alike : Alike f ls ls')
include alike

theorem headedAt_iff {m : Nat} {h : Heading} :
    HeadedAt ls' m h ↔ ∃ n, f n = m ∧ HeadedAt ls n h := by
  rw [← exists_mem_condense_iff, ← alike, exists_mem_condense_iff]
  simp only [id, exists_eq_left]

theorem headedAt_map_iff (mono : StrictMono f) {n : Nat} {h : Heading} :
    HeadedAt ls' (f n) h ↔ HeadedAt ls n h := by
  rw [alike.headedAt_iff]
  constructor
  · rintro ⟨m, same, headed⟩
    exact mono.injective same ▸ headed
  · exact fun headed => ⟨n, rfl, headed⟩

theorem contentAt_iff (mono : StrictMono f) {s : Section} {n : Nat}
    (inside : 1 ≤ f n ∧ f n ≤ ls'.length ↔ 1 ≤ n ∧ n ≤ ls.length) :
    ContentAt ls' s (f n) ↔ ContentAt ls s n := by
  rw [contentAt_iff_headedAt, contentAt_iff_headedAt, inside]
  simp only [alike.headedAt_map_iff mono]
  refine and_congr_right fun _ => and_congr_right fun _ => ⟨?_, ?_⟩
  · rintro ⟨m, title, k, titled, headed, after, below, nearest⟩
    obtain ⟨m, rfl, titled'⟩ := alike.headedAt_iff.1 titled
    obtain ⟨k, rfl, headed'⟩ := alike.headedAt_iff.1 headed
    refine ⟨m, title, k, titled', headed', mono.lt_iff_lt.1 after, mono.lt_iff_lt.1 below, ?_⟩
    intro j r above upto other
    exact nearest (f j) r (mono.lt_iff_lt.2 above) (mono.le_iff_le.2 upto)
      ((alike.headedAt_map_iff mono).2 other)
  · rintro ⟨m, title, k, titled, headed, after, below, nearest⟩
    refine ⟨f m, title, f k, (alike.headedAt_map_iff mono).2 titled,
      (alike.headedAt_map_iff mono).2 headed, mono.lt_iff_lt.2 after, mono.lt_iff_lt.2 below, ?_⟩
    intro j r above upto other
    obtain ⟨j, rfl, other'⟩ := alike.headedAt_iff.1 other
    exact nearest j r (mono.lt_iff_lt.1 above) (mono.le_iff_le.1 upto) other'

end Alike

/-- Blanks around lines leave a text alike. -/
theorem alike_of_map_trim {ls ls' : List (List Char)} (same : ls'.map Text.trim = ls.map Text.trim) :
    Alike id ls ls' := by
  have trimmed (ls : List (List Char)) :
      Line.condense id (marked (ls.map Text.trim)) = Line.condense id (marked ls) := by
    rw [marked_map_trim, Line.condense, List.filter_map, List.map_map, Line.condense]
    simp [Function.comp_def, Line.trim, Line.isBlank, Line.condensed, Text.allBlank_trim,
      Text.trim_trim]
  rw [Alike, ← trimmed ls, ← same, trimmed]

/-! ## Scripts -/

/-- The lines of the setup script of a text. -/
def scriptLines (ls : List (List Char)) : List (List Char) :=
  ((Text.numbered ls).filter fun e => ContentAt ls .setupScripts e.1).map (·.2)

/-- The text that is kept of them. -/
def scriptText (ls : List (List Char)) : List Char :=
  Text.trim (['\n'].intercalate (scriptLines ls))

/-- Where a numbered line is kept, only its text counts. -/
theorem filter_numbered_congr {p : Nat → Prop} [DecidablePred p] {xs ys : List (List Char)}
    (same : ∀ i, p (i + 1) → xs[i]? = ys[i]?) :
    (Text.numbered xs).filter (p ·.1) = (Text.numbered ys).filter (p ·.1) := by
  refine eq_of_mem_iff ((Text.pairwise_numbered xs).filter _)
    ((Text.pairwise_numbered ys).filter _) fun ⟨n, line⟩ => ?_
  simp only [List.mem_filter, Text.mem_numbered_iff, decide_eq_true_iff]
  constructor
  · rintro ⟨⟨i, rfl, found⟩, kept⟩
    exact ⟨⟨i, rfl, (same i kept).symm.trans found⟩, kept⟩
  · rintro ⟨⟨i, rfl, found⟩, kept⟩
    exact ⟨⟨i, rfl, (same i kept).trans found⟩, kept⟩

theorem readScript?_renumber {n : Nat} {content content' : List (Nat × List Char)}
    (same : Text.trim (['\n'].intercalate (content'.map (·.2))) =
      Text.trim (['\n'].intercalate (content.map (·.2)))) :
    readScript? (f n) content' = (readScript? n content).map (·.renumber f) := by
  simp only [readScript?, same]
  split <;> rfl

/-! ## Numbers that stay -/

theorem testCase_renumber_id (t : TestCase) : t.renumber id = t := by
  have passage (p : Passage) : p.renumber id = p := rfl
  have step (s : Step) : s.renumber id = s := rfl
  have entry (e : UiEntry) : e.renumber id = e := rfl
  have placeholder (p : Placeholder) : p.renumber id = p := rfl
  simp only [TestCase.renumber, passage, step, entry, placeholder, List.map_id', Option.map_id',
    id]

theorem document_renumber_id (d : Document) : d.renumber id = d := by
  rw [Document.renumber, List.map_congr_left fun t _ => testCase_renumber_id t, List.map_id']

end Markup

open Markup

variable {f : Nat → Nat}

theorem TestCase.eq_of_script {a b : TestCase}
    (others : { a with setupScript := none } = { b with setupScript := none })
    (script : a.setupScript = b.setupScript) : a = b := by
  cases a
  cases b
  simp_all

/-- Two texts give one test case, if their scripts are the same. -/
theorem Markup.Alike.testCase {ls ls' : List (List Char)} (alike : Alike f ls ls') {o o' : Outline}
    (outlined : Outline.ofLines? (marked ls) = some o)
    (outlined' : Outline.ofLines? (marked ls') = some o')
    (outline : o'.condense id = o.condense f) (script : scriptText ls' = scriptText ls)
    (markers : Markers) :
    o'.testCase markers (Markup.readPlaceholders (Text.numbered ls')) =
      (o.testCase markers (Markup.readPlaceholders (Text.numbered ls))).renumber f := by
  have others := testCase_condense id markers o' (Markup.readPlaceholders (Text.numbered ls'))
  rw [outline, alike.readPlaceholders, testCase_condense, testCase_renumber_id] at others
  refine TestCase.eq_of_script others.symm ?_
  have heading := Outline.headingLine?_condense id o' .setupScripts
  rw [outline, Outline.headingLine?_condense, Option.map_id] at heading
  obtain ⟨start, rest, splits⟩ := Outline.splits_of_ofLines? outlined
  obtain ⟨start', rest', splits'⟩ := Outline.splits_of_ofLines? outlined'
  have text : Text.trim (['\n'].intercalate ((o'.content .setupScripts).map (·.2))) =
      Text.trim (['\n'].intercalate ((o.content .setupScripts).map (·.2))) := by
    rw [splits.content_eq_filter, splits'.content_eq_filter]
    exact script
  change (o'.headingLine? .setupScripts).bind (readScript? · (o'.content .setupScripts)) =
    ((o.headingLine? .setupScripts).bind (readScript? · (o.content .setupScripts))).map
      (·.renumber f)
  rw [show o'.headingLine? .setupScripts = _ from heading.symm]
  cases o.headingLine? .setupScripts with
  | none => rfl
  | some n => exact readScript?_renumber text

/-- What comes of reading a text again with other numbers: the same document, or the same faults. -/
inductive Renumbered (f : Nat → Nat) (path : Path) (source' : String) :
    Except (List Diagnostic) Document → Except (List Diagnostic) Document → Prop
  | document (d : Document) :
      Renumbered f path source' (.ok d) (.ok { d.renumber f with source := source' })
  | faults (found : List Located) :
      Renumbered f path source' (.error (report path found))
        (.error (report path (found.map (Located.renumber f))))

theorem Document.read_of_alike (mono : StrictMono f) (path : Path) (feature : String)
    (markers : Markers) {source source' : String}
    (alike : Alike f (bodyLines source) (bodyLines source'))
    (script : ∀ start, Grammatical (marked (bodyLines source)) start →
      scriptText (bodyLines source') = scriptText (bodyLines source)) :
    Renumbered f path source' (read path feature markers source)
      (read path feature markers source') := by
  have found := faults_of_alike path alike
  by_cases none : faults path source = []
  · obtain ⟨⟨mode, declared⟩, o, outlined, sound⟩ := faults_eq_nil_iff.1 none
    rw [none, List.map_nil] at found
    obtain ⟨_, o', outlined', sound'⟩ := faults_eq_nil_iff.1 found
    rw [read_eq_ok_iff.2 ⟨mode, o, declared, outlined, sound, rfl⟩,
      read_eq_ok_iff.2 ⟨mode, o', declared, outlined', sound', rfl⟩]
    rw [scan_textLines] at outlined outlined'
    have outline := alike.outline
    rw [outlined, outlined', Option.map_some, Option.map_some, Option.some.injEq] at outline
    obtain ⟨start, rest, splits⟩ := Outline.splits_of_ofLines? outlined
    have same := alike.testCase outlined outlined' outline
      (script start (splits.sound_iff.1 (textLines_eq source ▸ sound))) markers
    rw [textLines_eq, textLines_eq, same]
    exact .document _
  · have some : faults path source' ≠ [] := by
      rw [found]
      exact fun empty => none (List.map_eq_nil_iff.1 empty)
    rw [read_of_faults path feature markers none, read_of_faults path feature markers some, found,
      sort_report, sort_report, sortBy_renumber mono quotes_of_mem_faults]
    exact .faults _

/-- Under numbers that stay, nothing but the source is different. -/
theorem Renumbered.eq_map {path : Path} {source' : String}
    {before after : Except (List Diagnostic) Document}
    (renumbered : Renumbered id path source' before after) :
    after = before.map fun d => { d with source := source' } := by
  cases renumbered with
  | document d =>
    rw [document_renumber_id]
    rfl
  | faults found =>
    rw [List.map_congr_left fun l _ => Located.renumber_id l, List.map_id']
    rfl

end ScriptAudit
