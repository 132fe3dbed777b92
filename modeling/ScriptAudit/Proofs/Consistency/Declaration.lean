import ScriptAudit.Proofs.Placement

/-!
# Declared modes

A prerequisite that starts with a label such as `Mode:` and a known word declares a mode. Of each
test case only the first declaration is compared with the mode of the document. So a declaration of
the other mode is reported unless one of the document's own mode stands above it, while of the
directories around the document any that disagrees is reported.
-/

namespace ScriptAudit

namespace Consistency

/-! ## What a declaration is -/

def isLetter (c : Char) : Bool :=
  (foldCase c).isLower

def IsModeLabel (s : List Char) : Prop :=
  s.map foldCase ∈ ["mode".toList, "service".toList, "services".toList]

/-- The text starts with a label, a colon and the word, with blanks around the colon only; the word
goes on as long as letters follow. -/
def DeclaresWord (s word : List Char) : Prop :=
  ∃ label gap gap' rest, s = label ++ (gap ++ ':' :: (gap' ++ (word ++ rest))) ∧
    IsModeLabel label ∧ Text.allBlank gap = true ∧ Text.allBlank gap' = true ∧ word ≠ [] ∧
    (∀ c ∈ word, isLetter c = true) ∧ ∀ c, rest.head? = some c → isLetter c = false

def Declares (p : Passage) (mode : Mode) : Prop :=
  ∃ word, DeclaresWord p.text.toList word ∧ wordMode? word = some mode

/-- A letter is an ASCII one or one of the two characters that are taken for one. -/
theorem toNat_of_isLetter {c : Char} (h : isLetter c = true) :
    c.toNat = 0x17F ∨ c.toNat = 0x212A ∨ 0x41 ≤ c.toNat ∧ c.toNat ≤ 0x7A := by
  simp only [isLetter, foldCase] at h
  by_cases longS : c = '\u017F'
  · exact Or.inl (longS ▸ rfl)
  by_cases kelvin : c = '\u212A'
  · exact Or.inr (Or.inl (kelvin ▸ rfl))
  rw [if_neg longS, if_neg kelvin] at h
  delta Char.toLower at h
  split at h
  · rename_i upper
    have low := UInt32.le_iff_toNat_le.1 upper.1
    have high := UInt32.le_iff_toNat_le.1 upper.2
    simp only [Char.toNat_val, Char.reduceToNat] at low high
    omega
  · delta Char.isLower at h
    simp only [ge_iff_le, Bool.and_eq_true, decide_eq_true_eq, UInt32.le_iff_toNat_le] at h
    simp at h
    omega

theorem isBlank_of_isLetter {c : Char} (h : isLetter c = true) : Text.isBlank c = false := by
  have := toNat_of_isLetter h
  simp [Text.isBlank]
  omega

theorem afterWord?_eq_some_iff {word s rest : List Char} :
    afterWord? word s = some rest ↔ ∃ front, s = front ++ rest ∧ front.map foldCase = word := by
  rw [afterWord?]
  constructor
  · intro h
    split at h
    · rename_i same
      cases h
      exact ⟨_, (List.take_append_drop _ s).symm, same⟩
    · cases h
  · rintro ⟨front, rfl, rfl⟩
    simp

theorem afterWord?_eq_none {word s : List Char} (h : ¬word <+: s.map foldCase) :
    afterWord? word s = none := by
  cases found : afterWord? word s with
  | none => rfl
  | some rest =>
    obtain ⟨front, rfl, rfl⟩ := afterWord?_eq_some_iff.1 found
    exact absurd (by simp) h

theorem exists_label_of_afterModeLabel? {s rest : List Char} (h : afterModeLabel? s = some rest) :
    ∃ label, s = label ++ rest ∧ IsModeLabel label := by
  simp only [afterModeLabel?, Option.or_eq_some_iff, afterWord?_eq_some_iff] at h
  rcases h with ⟨label, split, same⟩ | ⟨_, ⟨label, split, same⟩ | ⟨_, label, split, same⟩⟩
  · exact ⟨label, split, by simp [IsModeLabel, same]⟩
  · exact ⟨label, split, by simp [IsModeLabel, same]⟩
  · exact ⟨label, split, by simp [IsModeLabel, same]⟩

/-- A label is found as it is written, unless a letter follows. -/
theorem afterModeLabel?_append {label rest : List Char} (h : IsModeLabel label)
    (ends : ∀ c, rest.head? = some c → isLetter c = false) :
    afterModeLabel? (label ++ rest) = some rest := by
  have found : afterWord? (label.map foldCase) (label ++ rest) = some rest :=
    afterWord?_eq_some_iff.2 ⟨label, rfl, rfl⟩
  have other {word : List Char} (apart : ¬word <+: label.map foldCase ++ rest.map foldCase) :
      afterWord? word (label ++ rest) = none :=
    afterWord?_eq_none (by rwa [List.map_append])
  simp only [IsModeLabel, List.mem_cons, List.not_mem_nil, or_false] at h
  rw [afterModeLabel?]
  rcases h with mode | service | services
  · rw [mode] at found
    rw [found, Option.some_or]
  · rw [service] at found other
    -- with one more letter it would be the plural
    have singular : ¬"services".toList <+: "service".toList ++ rest.map foldCase := by
      cases rest with
      | nil => decide
      | cons c rest =>
        have ends := ends c rfl
        intro plural
        have last : 's' = foldCase c := by simpa using plural
        rw [isLetter, ← last] at ends
        cases ends
    rw [other (by simp), other singular, found, Option.none_or, Option.none_or]
  · rw [services] at found other
    rw [other (by simp), found, Option.none_or, Option.some_or]

/-- What the steps of the reader give, one after the other. -/
theorem declaredWord?_eq_some_iff_steps {s word : List Char} :
    declaredWord? s = some word ↔ ∃ behind, afterModeLabel? s = some behind ∧
      ∃ tail, Text.trimStart behind = ':' :: tail ∧
        (Text.trimStart tail).takeWhile isLetter = word ∧ word ≠ [] := by
  have letters : (fun c => (foldCase c).isLower) = isLetter := rfl
  simp only [declaredWord?, letters, bind, Option.bind_eq_some_iff]
  refine exists_congr fun behind => and_congr_right fun _ => ?_
  constructor
  · intro h
    split at h
    · rename_i tail colon
      split at h
      · cases h
      · rename_i some
        cases h
        exact ⟨tail, colon, rfl, by simpa using some⟩
    · cases h
  · rintro ⟨tail, colon, rfl, some⟩
    rw [colon]
    exact if_neg (by simpa using some)

theorem declaredWord?_eq_some_iff {s word : List Char} :
    declaredWord? s = some word ↔ DeclaresWord s word := by
  rw [declaredWord?_eq_some_iff_steps]
  constructor
  · rintro ⟨behind, label?, tail, colon, own, some⟩
    obtain ⟨label, rfl, label⟩ := exists_label_of_afterModeLabel? label?
    obtain ⟨gap, rfl, blank, _⟩ := Text.trimStart_eq_iff.1 colon
    obtain ⟨rest, behindColon, letters, ends⟩ := Text.takeWhile_eq_iff.1 own
    obtain ⟨gap', rfl, blank', _⟩ := Text.trimStart_eq_iff.1 behindColon
    exact ⟨_, gap, gap', rest, rfl, label, blank, blank', some, letters, ends⟩
  · rintro ⟨label, gap, gap', rest, rfl, label, blank, blank', some, letters, ends⟩
    have behindLabel : ∀ c, (gap ++ ':' :: (gap' ++ (word ++ rest))).head? = Option.some c →
        isLetter c = false := by
      intro c hc
      cases gap with
      | nil =>
        cases hc
        rfl
      | cons d gap =>
        cases hc
        have visible := isBlank_of_isLetter (c := c)
        rw [List.all_eq_true.1 blank c List.mem_cons_self] at visible
        simpa using visible
    have first : ∀ c, (word ++ rest).head? = Option.some c → Text.isBlank c = false := by
      obtain ⟨d, word, rfl⟩ := List.exists_cons_of_ne_nil some
      intro c hc
      cases hc
      exact isBlank_of_isLetter (letters d List.mem_cons_self)
    exact ⟨_, afterModeLabel?_append label behindLabel,
      _, Text.trimStart_append blank (by simp; decide),
      Text.takeWhile_eq_iff.2 ⟨rest, Text.trimStart_append blank' first, letters, ends⟩, some⟩

theorem declaredMode?_eq_some_iff {p : Passage} {mode : Mode} :
    declaredMode? p = some mode ↔ Declares p mode := by
  simp only [declaredMode?, Declares, Option.bind_eq_some_iff, declaredWord?_eq_some_iff]

theorem declaredMode?_eq_none_iff {p : Passage} :
    declaredMode? p = none ↔ ∀ mode, ¬Declares p mode := by
  rw [Option.eq_none_iff_forall_ne_some]
  simp only [ne_eq, declaredMode?_eq_some_iff]

theorem Declares.unique {p : Passage} {m n : Mode} (hm : Declares p m) (hn : Declares p n) :
    m = n :=
  Option.some.inj
    ((declaredMode?_eq_some_iff.2 hm).symm.trans (declaredMode?_eq_some_iff.2 hn))

/-! ## The declaration that counts -/

/-- The prerequisite is the first of its test case that declares a mode. -/
def FirstDeclares (c : TestCase) (p : Passage) (mode : Mode) : Prop :=
  Declares p mode ∧ ∃ before after, c.prerequisites = before ++ p :: after ∧
    ∀ q ∈ before, ∀ m, ¬Declares q m

/-- What is reported of a prerequisite that declares another mode than the document's. -/
def contradiction (d : Document) (p : Passage) (mode : Mode) : Diagnostic :=
  diagnostic .error "mode-placement" d.file (some p.line)
    ("file name declares " ++ d.mode.label ++ " mode but prerequisites declare " ++ mode.label ++
      " services ('" ++ p.text ++ "')")

variable {d : Document} {c : TestCase}

theorem declarationFault_eq_some_iff {x : Diagnostic} :
    declarationFault d c = some x ↔
      ∃ p mode, FirstDeclares c p mode ∧ mode ≠ d.mode ∧ x = contradiction d p mode := by
  simp only [declarationFault, Option.bind_eq_some_iff, List.findSome?_eq_some_iff,
    Option.map_eq_none_iff, declaredMode?_eq_none_iff, Option.map_eq_some_iff,
    declaredMode?_eq_some_iff]
  constructor
  · rintro ⟨_, ⟨before, p, after, split, ⟨mode, declared, rfl⟩, first⟩, other⟩
    dsimp only at other
    split at other
    · cases other
    · rename_i different
      cases other
      exact ⟨p, mode, ⟨declared, before, after, split, first⟩, different, rfl⟩
  · rintro ⟨p, mode, ⟨declares, before, after, split, first⟩, different, rfl⟩
    exact ⟨(p, mode), ⟨before, p, after, split,
      ⟨mode, declares, rfl⟩, first⟩, if_neg different⟩

/-- Where a mode is declared there is a first declaration, and it is the same or stands above. -/
theorem exists_firstDeclares {p : Passage} (hp : p ∈ c.prerequisites) {mode : Mode}
    (declares : Declares p mode) :
    ∃ q m before after, c.prerequisites = before ++ q :: after ∧ FirstDeclares c q m ∧
      (q = p ∨ p ∈ after) := by
  have some : (c.prerequisites.find? fun q => (declaredMode? q).isSome).isSome = true := by
    refine List.find?_isSome.2 ⟨p, hp, ?_⟩
    rw [declaredMode?_eq_some_iff.2 declares]
    rfl
  obtain ⟨q, found⟩ := Option.isSome_iff_exists.1 some
  obtain ⟨own, before, after, split, first⟩ := List.find?_eq_some_iff_append.1 found
  obtain ⟨m, own⟩ := Option.isSome_iff_exists.1 own
  have silent : ∀ r ∈ before, ∀ m, ¬Declares r m := by
    intro r hr
    exact declaredMode?_eq_none_iff.1 (by simpa using first r hr)
  refine ⟨q, m, before, after, split,
    ⟨declaredMode?_eq_some_iff.1 own, before, after, split, silent⟩, ?_⟩
  rw [split, List.mem_append, List.mem_cons] at hp
  rcases hp with above | same | below
  · exact absurd declares (silent p above mode)
  · exact Or.inl same.symm
  · exact Or.inr below

/-! ## Reports on a document -/

theorem line_of_mem_placementFault {x : Diagnostic} (hx : x ∈ placementFault d) :
    x.line = none := by
  obtain ⟨_, _, rfl⟩ := List.mem_map.1 hx
  rfl

/-- A report at a line is one on a declaration. -/
theorem mem_modeFaults_and_line_iff {x : Diagnostic} :
    x ∈ modeFaults d ∧ x.line ≠ none ↔ ∃ c ∈ d.cases, ∃ p mode,
      FirstDeclares c p mode ∧ mode ≠ d.mode ∧ x = contradiction d p mode := by
  simp only [modeFaults, List.mem_append, List.mem_filterMap, declarationFault_eq_some_iff]
  constructor
  · rintro ⟨placed | declared, line⟩
    · exact absurd (line_of_mem_placementFault placed) line
    · exact declared
  · rintro ⟨c, hc, p, mode, first, different, rfl⟩
    exact ⟨Or.inr ⟨c, hc, p, mode, first, different, rfl⟩, Option.some_ne_none _⟩

/-- A declaration that disagrees is reported, or another for its mode is, or one that agrees stands
above it. -/
theorem reported_or_agrees_above (hc : c ∈ d.cases) {p : Passage} (hp : p ∈ c.prerequisites)
    {mode : Mode} (declares : Declares p mode) (different : mode ≠ d.mode) :
    (∃ q ∈ c.prerequisites, Declares q mode ∧ contradiction d q mode ∈ modeFaults d) ∨
      ∃ before q after, c.prerequisites = before ++ q :: after ∧ p ∈ after ∧
        Declares q d.mode := by
  obtain ⟨q, m, before, after, split, first, position⟩ := exists_firstDeclares hp declares
  by_cases same : m = d.mode
  · subst same
    refine Or.inr ⟨before, q, after, split, ?_, first.1⟩
    rcases position with rfl | below
    · exact absurd (declares.unique first.1) different
    · exact below
  · obtain rfl : m = mode :=
      (Mode.eq_opposite_of_ne same).trans (Mode.eq_opposite_of_ne different).symm
    have hq : q ∈ c.prerequisites := by simp [split]
    have reported := mem_modeFaults_and_line_iff.2 ⟨c, hc, q, m, first, different, rfl⟩
    exact Or.inl ⟨q, hq, first.1, reported.1⟩

theorem modeFaults_eq_nil
    (agree : ∀ c ∈ d.cases, ∀ p ∈ c.prerequisites, ∀ mode, Declares p mode → mode = d.mode)
    (pinned : ∀ name ∈ shown d.path.parts, ∀ s mode, directoryMode? name = some (s, mode) →
      mode = d.mode) : modeFaults d = [] := by
  have fits : misplacement? d = none := by
    rw [misplacement?_eq, misplacedIn, List.find?_eq_none]
    rintro ⟨s, mode⟩ found
    obtain ⟨name, hname, pins⟩ := List.mem_filterMap.1 found
    simpa using pinned name hname s mode pins
  have silent : ∀ c ∈ d.cases, declarationFault d c = none := by
    intro c hc
    rw [Option.eq_none_iff_forall_ne_some]
    intro x found
    obtain ⟨p, mode, ⟨declares, before, after, split, _⟩, different, _⟩ :=
      declarationFault_eq_some_iff.1 found
    exact different (agree c hc p (by simp [split]) mode declares)
  rw [modeFaults, placementFault, fits, List.filterMap_eq_nil_iff.2 silent]
  rfl

end Consistency

open Consistency

/-- Each document of a feature is judged by itself. A declaration is reported exactly when it is the
first of its test case and disagrees with the document; one that disagrees and is not reported has
one that agrees above it. A document with no declaration and no directory against its mode gets no
report. -/
theorem Feature.check_declarations (f : Feature) (documents : List Document) :
    (f.check documents).filter (·.ruleId = "mode-placement") = documents.flatMap modeFaults ∧
    ∀ d : Document,
      (∀ x, x ∈ modeFaults d ∧ x.line ≠ none ↔ ∃ c ∈ d.cases, ∃ p mode,
        FirstDeclares c p mode ∧ mode ≠ d.mode ∧ x = contradiction d p mode) ∧
      (∀ c ∈ d.cases, ∀ p ∈ c.prerequisites, ∀ mode, Declares p mode → mode ≠ d.mode →
        (∃ q ∈ c.prerequisites, Declares q mode ∧ contradiction d q mode ∈ modeFaults d) ∨
        ∃ before q after, c.prerequisites = before ++ q :: after ∧ p ∈ after ∧
          Declares q d.mode) ∧
      ((∀ c ∈ d.cases, ∀ p ∈ c.prerequisites, ∀ mode, Declares p mode → mode = d.mode) →
        (∀ name ∈ shown d.path.parts, ∀ s mode, directoryMode? name = some (s, mode) →
          mode = d.mode) → modeFaults d = []) := by
  refine ⟨f.filter_check_mode documents, fun d => ⟨fun x => ?_, fun c hc p hp mode => ?_, ?_⟩⟩
  · exact mem_modeFaults_and_line_iff
  · exact reported_or_agrees_above hc hp
  · exact modeFaults_eq_nil

/-- A mock document with these prerequisites. -/
def declaring (prerequisites : List String) : Document where
  path := ⟨"a/x.mock.md"⟩
  feature := "a"
  mode := .mock
  cases := [{ (default : TestCase) with
    prerequisites := prerequisites.mapIdx fun i text => { text, line := i + 3 } }]
  source := ""

/-- A declaration that disagrees is reported, and one that agrees is not. -/
theorem Feature.check_declarations_live :
    (∃ c ∈ (declaring ["Services: live"]).cases, FirstDeclares c ⟨"Services: live", 3⟩ .full) ∧
      contradiction (declaring ["Services: live"]) ⟨"Services: live", 3⟩ .full ∈
        modeFaults (declaring ["Services: live"]) ∧
    Declares ⟨"MODE : mocked", 3⟩ .mock ∧ modeFaults (declaring ["MODE : mocked"]) = [] := by
  have live : Declares ⟨"Services: live", 3⟩ .full :=
    declaredMode?_eq_some_iff.1 (by decide +kernel)
  have mocked : Declares ⟨"MODE : mocked", 3⟩ .mock :=
    declaredMode?_eq_some_iff.1 (by decide +kernel)
  have first : ∃ c ∈ (declaring ["Services: live"]).cases,
      FirstDeclares c ⟨"Services: live", 3⟩ .full :=
    ⟨_, List.mem_singleton_self _, live, [], [], rfl, by simp⟩
  have verdicts := (Feature.check_declarations default []).2
  refine ⟨first, ?_, mocked, ?_⟩
  · obtain ⟨c, hc, first⟩ := first
    exact (((verdicts _).1 _).2 ⟨c, hc, _, _, first, by decide, rfl⟩).1
  · refine (verdicts _).2.2 (fun c hc p hp mode declares => ?_) (fun name hname => ?_)
    · rw [List.mem_singleton.1 hc] at hp
      rw [List.mem_singleton.1 hp] at declares
      exact declares.unique mocked
    · have names : shown (declaring ["MODE : mocked"]).path.parts = ["a"] := by decide +kernel
      rw [names, List.mem_singleton] at hname
      have plain : directoryMode? "a" = none := by decide +kernel
      rw [hname, plain]
      rintro _ _ ⟨⟩

/-- A declaration that disagrees goes unreported below one that agrees. -/
theorem declaration_unreported :
    ∃ c ∈ (declaring ["Mode: mock", "Mode: full"]).cases, ∃ p ∈ c.prerequisites,
      Declares p .full ∧ (declaring ["Mode: mock", "Mode: full"]).mode ≠ .full ∧
      ∀ f : Feature, ∀ x ∈ f.check [declaring ["Mode: mock", "Mode: full"]],
        x.ruleId ≠ "mode-placement" := by
  refine ⟨_, List.mem_singleton_self _, ⟨"Mode: full", 4⟩, by decide,
    declaredMode?_eq_some_iff.1 (by decide +kernel), by decide, fun f x hx own => ?_⟩
  have reported : x ∈ (f.check [declaring ["Mode: mock", "Mode: full"]]).filter
      (·.ruleId = "mode-placement") := List.mem_filter.2 ⟨hx, decide_eq_true own⟩
  have none : modeFaults (declaring ["Mode: mock", "Mode: full"]) = [] := by decide +kernel
  rw [f.filter_check_mode, List.flatMap_singleton, none] at reported
  cases reported

end ScriptAudit
