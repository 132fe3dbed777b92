import ScriptAudit.Proofs.Markup.Layout

/-!
# Entries of a draft

Each field of a draft comes back from the line that it is written in, whatever it looks like: one
mark is put in front of it, and one mark is what reading takes away. The lines are neither headings
nor fences, so they stay in the section that they are written in.
-/

namespace ScriptAudit

open Markup

/-! ## Texts of one line -/

/-- A text of one line without blanks at its ends. -/
structure IsTrimmedLine (s : String) : Prop where
  single : '\n' ∉ s.toList
  trimmed : Text.trim s.toList = s.toList

theorem IsTrimmedLine.exists_cons {s : String} (h : IsTrimmedLine s) (written : s ≠ "") :
    ∃ c rest, s.toList = c :: rest ∧ Text.isBlank c = false := by
  obtain ⟨c, rest, whole⟩ := List.exists_cons_of_ne_nil (mt String.toList_eq_nil_iff.1 written)
  refine ⟨c, rest, whole, (Text.trim_eq_self_iff.1 h.trimmed).1 c ?_⟩
  rw [whole]
  rfl

/-- What ends with such a text does not end with a carriage return. -/
theorem IsTrimmedLine.ending {s : String} (h : IsTrimmedLine s) (front : List Char)
    (other : front.getLast? ≠ some '\r') : (front ++ s.toList).getLast? ≠ some '\r' := by
  rw [List.getLast?_append]
  cases last : s.toList.getLast? with
  | none => exact other
  | some c =>
    rintro ⟨⟩
    exact absurd ((Text.trim_eq_self_iff.1 h.trimmed).2 _ last) (by decide)

theorem Text.isBlank_of_isDigit {c : Char} (h : isDigit c = true) : isBlank c = false := by
  have range : 48 ≤ c.toNat ∧ c.toNat ≤ 57 := by
    simp only [isDigit, Bool.and_eq_true, decide_eq_true_eq, Char.le_def] at h
    exact h
  simp only [isBlank, Bool.or_eq_false_iff, Bool.and_eq_false_iff, decide_eq_false_iff_not,
    beq_eq_false_iff_ne]
  omega

namespace Markup

/-! ## Reading one line -/

theorem stripListMarker_bullet {c : Char} (hc : Text.isBlank c = false) (s : List Char) :
    stripListMarker (bullet (c :: s)) = Text.trim (c :: s) := by
  have line : Text.trim (bullet (c :: s)) = '-' :: ' ' :: Text.trimEnd (c :: s) := by
    have text : Text.trimEnd (c :: s) = c :: Text.trimEnd s := Text.trimEnd_append_cons hc [] s
    have gap : Text.trimEnd (' ' :: c :: s) = ' ' :: c :: Text.trimEnd s :=
      Text.trimEnd_append_cons hc [' '] s
    rw [bullet, Text.trim_cons (by decide), gap, text]
  rw [stripListMarker, line]
  change Text.trim (Text.trimEnd (c :: s)) = _
  exact Text.trim_trimEnd _

theorem stripListMarker_of_no_blank {s : List Char} (h : ∀ c ∈ s, Text.isBlank c = false) :
    stripListMarker s = s := by
  rw [stripListMarker, Text.trim_of_no_blank h]
  split
  · rename_i c rest found
    have inside := (afterBullet?_suffix found).subset List.mem_cons_self
    rw [if_neg (by simp [h c inside])]
  · rfl

theorem readPrerequisite_bullet {p : String} (line : IsTrimmedLine p) (written : p ≠ "") (n : Nat) :
    readPrerequisite (n, bullet p.toList) = { text := p, line := n } := by
  obtain ⟨c, rest, whole, hc⟩ := line.exists_cons written
  rw [readPrerequisite, whole, stripListMarker_bullet hc, ← whole, line.trimmed,
    String.ofList_toList]

theorem trim_stepLine {s : String} (line : IsTrimmedLine s) (written : s ≠ "") (i : Nat) :
    Text.trim (stepLine i s) = stepLine i s := by
  obtain ⟨c, digits, number⟩ := List.exists_cons_of_ne_nil (Text.toString_toList_ne_nil i)
  have digit : Text.isDigit c = true :=
    Text.isDigit_of_mem_toString (number ▸ List.mem_cons_self)
  have kept := Text.trim_append (Text.isBlank_of_isDigit digit) (digits ++ ['.', ' '])
    line.trimmed (mt String.toList_eq_nil_iff.1 written)
  have shape : stepLine i s = c :: (digits ++ ['.', ' ']) ++ s.toList := by
    rw [stepLine, number]
    simp
  rw [shape, kept]

theorem stepHead?_stepLine {s : String} (line : IsTrimmedLine s) (written : s ≠ "") (i : Nat) :
    stepHead? (Text.trim (stepLine i s)) = some ((toString i).toList, s.toList) := by
  have mark : numberMark? (stepLine i s) = some ((toString i).toList, ' ' :: s.toList) :=
    numberMark?_eq_some_iff.2 ⟨'.', rfl, Text.toString_toList_ne_nil i,
      fun c hc => Text.isDigit_of_mem_toString hc, Or.inl rfl⟩
  rw [trim_stepLine line written, stepHead?, mark]
  change some (_, Text.trim s.toList) = _
  rw [line.trimmed]

theorem stepNumber_toString {n : Nat} (h : n < stepBound) : stepNumber (toString n).toList = n := by
  have read : Text.decimalBelow? stepBound (toString n).toList = some n :=
    Text.decimalBelow?_eq_some_iff.2 ⟨Text.toString_toList_ne_nil n,
      fun c hc => Text.isDigit_of_mem_toString hc, Text.decimalValue_toString n, h⟩
  rw [stepNumber, read]
  rfl

theorem joinPieces_singleton (s : List Char) : joinPieces [s] = s := by
  cases s <;> simp [joinPieces]

/-- Numbered lines are read one by one, when no line goes on over the next. -/
theorem readSteps_stepLines {steps : List String}
    (heads : ∀ s ∈ steps, ∀ i, stepHead? (Text.trim (stepLine i s)) =
      some ((toString i).toList, s.toList)) (n k : Nat)
    (numbers : ∀ i, i ≤ k + steps.length → stepNumber (toString i).toList = i) :
    readSteps (Text.numberedFrom n (steps.mapIdx fun i s => stepLine (k + i + 1) s)) =
      ([], steps.mapIdx fun i s => { number := k + i + 1, text := s, line := n + i }) := by
  induction steps generalizing n k with
  | nil => rfl
  | cons s steps ih =>
    obtain ⟨first, rest⟩ := List.forall_mem_cons.1 heads
    rw [List.length_cons] at numbers
    have head := readSteps_cons_step (l := (n, stepLine (k + 1) s)) (first (k + 1))
    have below := ih rest (n + 1) (k + 1) fun i hi => numbers i (by omega)
    have number := numbers (k + 1) (by omega)
    have shift (i : Nat) : k + 1 + i + 1 = k + (i + 1) + 1 := by omega
    have place (i : Nat) : n + 1 + i = n + (i + 1) := by omega
    simp only [shift, place] at below
    rw [List.mapIdx_cons, List.mapIdx_cons, Text.numberedFrom_cons, Nat.add_zero, Nat.add_zero,
      head, below, number, List.map_nil, joinPieces_singleton, String.ofList_toList]
    rfl

theorem readMarker_glyph (m : Marker) (s : List Char) :
    readMarker {} (m.glyph :: s) = (some m, s) := by
  cases m <;> rfl

theorem bold?_append {element : List Char} (written : element ≠ []) (free : '*' ∉ element)
    (rest : List Char) :
    bold? ('*' :: '*' :: (element ++ '*' :: '*' :: rest)) = some (element, rest) := by
  obtain ⟨c, tail, rfl⟩ := List.exists_cons_of_ne_nil written
  have found : Text.cut? ['*', '*'] (tail ++ ['*', '*'] ++ rest) = some (tail, rest) :=
    Text.cut?_append (fun h => free (List.mem_cons_of_mem _ h)) rest
  have front : Text.after? ['*', '*'] ('*' :: '*' :: c :: (tail ++ ['*', '*'] ++ rest)) =
      some (c :: (tail ++ ['*', '*'] ++ rest)) := rfl
  have shape : '*' :: '*' :: (c :: tail ++ '*' :: '*' :: rest) =
      '*' :: '*' :: c :: (tail ++ ['*', '*'] ++ rest) := by simp
  rw [shape, bold?, front]
  dsimp only
  rw [found]
  rfl

theorem trim_skipColon_colon (s : List Char) : Text.trim (skipColon (':' :: s)) = Text.trim s :=
  Text.trim_trimStart s

/-- An empty description leaves no gap behind the colon. -/
theorem trim_text (e : Expectation) :
    Text.trim e.text = '*' :: '*' ::
      (e.element.toList ++ '*' :: '*' :: ':' :: Text.trimEnd (' ' :: e.description.toList)) := by
  have colon : Text.isBlank ':' = false := by decide
  have kept := Text.trimEnd_append_cons colon ('*' :: (e.element.toList ++ ['*', '*']))
    (' ' :: e.description.toList)
  rw [Expectation.text, Text.trim_cons (by decide)]
  simpa using kept

theorem splitElement_text {e : Expectation} (element : IsTrimmedLine e.element)
    (written : e.element ≠ "") (free : '*' ∉ e.element.toList)
    (description : IsTrimmedLine e.description) :
    splitElement (Text.trim e.text) = (e.element.toList, e.description.toList) := by
  have rest : Text.trim (skipColon (':' :: Text.trimEnd (' ' :: e.description.toList))) =
      e.description.toList := by
    rw [trim_skipColon_colon, Text.trim_trimEnd, Text.trim_blank_cons (by decide),
      description.trimmed]
  rw [trim_text, splitElement, bold?_append (mt String.toList_eq_nil_iff.1 written) free]
  dsimp only
  rw [element.trimmed, rest]

theorem readUiEntry_line {e : Expectation} (element : IsTrimmedLine e.element)
    (written : e.element ≠ "") (free : '*' ∉ e.element.toList)
    (description : IsTrimmedLine e.description) (n : Nat) :
    readUiEntry {} (n, e.line) =
      { marker := some e.marker, element := e.element, description := e.description
        line := n } := by
  have glyph : Text.isBlank e.marker.glyph = false := by cases e.marker <;> decide
  have rest : Text.trim (Text.trimEnd (' ' :: e.text)) = Text.trim e.text := by
    rw [Text.trim_trimEnd, Text.trim_blank_cons (by decide)]
  rw [readUiEntry, Expectation.line, stripListMarker_bullet glyph, Text.trim_cons glyph,
    readMarker_glyph]
  dsimp only
  rw [rest, splitElement_text element written free description, String.ofList_toList,
    String.ofList_toList]

theorem readUrl_word {u : String} (word : ∀ c ∈ u.toList, Text.isBlank c = false)
    (ends : ∀ c ∈ ['\x60', '<', '>'], u.toList.head? ≠ some c ∧ u.toList.getLast? ≠ some c)
    (n : Nat) : readUrl (n, u.toList) = { text := u, line := n } := by
  have other {c : Char} (h : ∀ d ∈ ['\x60', '<', '>'], c ≠ d) : isUrlQuote c = false := by
    simpa [isUrlQuote, and_assoc] using h
  have bare : Text.strip isUrlQuote u.toList = u.toList := by
    refine Text.strip_eq_self_iff.2
      ⟨fun c hc => other fun d hd => ?_, fun c hc => other fun d hd => ?_⟩
    · rintro rfl
      exact (ends c hd).1 hc
    · rintro rfl
      exact (ends c hd).2 hc
  rw [readUrl, stripListMarker_of_no_blank word, bare, Text.trim_of_no_blank word,
    String.ofList_toList]

theorem placeholders_captureLine {c : Capture} (path : IsTrimmedLine c.path)
    (written : c.path ≠ "") (description : IsTrimmedLine c.description)
    (pathFree : ∀ m ∈ ['|', '<', '>'], m ∉ c.path.toList)
    (descriptionFree : ∀ m ∈ ['<', '>'], m ∉ c.description.toList) :
    placeholders c.line = [.ok (c.path.toList, c.description.toList)] := by
  have shape : c.line = ['-', ' '] ++ placeholderOpening ++
      (c.path.toList ++ '|' :: c.description.toList ++ ['>']) := by
    simp [Capture.line, bullet]
  have found : Text.cut? placeholderOpening c.line =
      some (['-', ' '], c.path.toList ++ '|' :: c.description.toList ++ ['>']) := by
    rw [shape]
    exact Text.cut?_append (by decide) _
  have closed : Text.cutAt? (· == '>') (c.path.toList ++ '|' :: c.description.toList ++ ['>']) =
      some (c.path.toList ++ '|' :: c.description.toList, []) := by
    refine Text.cutAt?_beq_eq_some_iff.2 ⟨rfl, ?_⟩
    simp [pathFree '>' (by decide), descriptionFree '>' (by decide)]
  have read : readPlaceholder (c.path.toList ++ '|' :: c.description.toList) =
      .ok (c.path.toList, c.description.toList) := by
    obtain ⟨d, rest, whole, hd⟩ := path.exists_cons written
    refine readPlaceholder_eq_ok_iff.2 ⟨?_, _, _, rfl, pathFree '|' (by decide), ?_,
      path.trimmed.symm, description.trimmed.symm⟩
    · simp [pathFree '<' (by decide), descriptionFree '<' (by decide)]
    · rw [whole]
      simp [Text.allBlank, hd]
  have nothing : placeholders [] = [] := placeholders_eq_nil_iff.2 (by decide)
  rw [placeholders_of_cut found closed, read, nothing]

theorem splitTitle_title {d : Draft} (word : ∀ c ∈ d.id.toList, Text.isBlank c = false)
    (colon : d.id.toList.getLast? ≠ some ':') (idWritten : d.id ≠ "") (name : IsTrimmedLine d.name)
    (written : d.name ≠ "") : splitTitle d.title = (d.id.toList, d.name.toList) := by
  obtain ⟨c, tail, whole⟩ := List.exists_cons_of_ne_nil (mt String.toList_eq_nil_iff.1 idWritten)
  have hc : Text.isBlank c = false := word c (whole ▸ List.mem_cons_self)
  have trimmed : Text.trim d.title = d.id.toList ++ ' ' :: '-' :: ' ' :: d.name.toList := by
    have kept := Text.trim_append hc (tail ++ [' ', '-', ' ']) name.trimmed
      (mt String.toList_eq_nil_iff.1 written)
    rw [Draft.title, Text.trim_blank_cons (by decide), whole]
    simpa using kept
  have cut : Text.cutAt? Text.isBlank (d.id.toList ++ ' ' :: '-' :: ' ' :: d.name.toList) =
      some (d.id.toList, '-' :: ' ' :: d.name.toList) :=
    Text.cutAt?_eq_some_iff.2 ⟨' ', by decide, rfl, word⟩
  have idKept : Text.dropEndWhile (· == ':') d.id.toList = d.id.toList := by
    refine Text.dropEndWhile_eq_self_iff.2 fun e he => beq_false_of_ne ?_
    rintro rfl
    exact colon he
  have nameKept : Text.trim ((Text.trimStart ('-' :: ' ' :: d.name.toList)).dropWhile isNameDash) =
      d.name.toList := by
    calc Text.trim ((Text.trimStart ('-' :: ' ' :: d.name.toList)).dropWhile isNameDash)
        = Text.trim (' ' :: d.name.toList) := rfl
      _ = Text.trim d.name.toList := Text.trim_blank_cons (by decide) _
      _ = d.name.toList := name.trimmed
  rw [splitTitle, trimmed, cut, Option.getD_some]
  dsimp only
  rw [idKept, nameKept]

/-! ## Lines that stay where they are written -/

theorem plainLine_bullet {s : List Char} (single : '\n' ∉ s)
    (ending : (bullet s).getLast? ≠ some '\r') : PlainLine (bullet s) := by
  refine .of_start (by decide) (by decide) (not_starts_fence (by decide) _) ?_ ending
  simpa using single

theorem plainLine_stepLine {s : String} (line : IsTrimmedLine s) (i : Nat) :
    PlainLine (stepLine i s) := by
  obtain ⟨c, digits, number⟩ := List.exists_cons_of_ne_nil (Text.toString_toList_ne_nil i)
  have all : ∀ d ∈ c :: digits, Text.isDigit d = true := fun d hd =>
    Text.isDigit_of_mem_toString (number ▸ hd)
  have other {m : Char} (hm : Text.isDigit m = false) : m ∉ c :: digits := by
    intro inside
    rw [all m inside] at hm
    cases hm
  have ending := line.ending (c :: digits ++ ['.', ' ']) (by rw [List.getLast?_append]; simp)
  rw [stepLine, number]
  refine .of_start (Text.isBlank_of_isDigit (all c List.mem_cons_self)) ?_
    (not_starts_fence ?_ _) ?_ (by simpa using ending)
  · rintro rfl
    exact other (by decide) List.mem_cons_self
  · rintro rfl
    exact other (by decide) List.mem_cons_self
  · have digit : '\n' ∉ c :: digits := other (by decide)
    simpa [line.single] using digit

theorem plainLine_prerequisite {p : String} (line : IsTrimmedLine p) :
    PlainLine (bullet p.toList) :=
  plainLine_bullet line.single (line.ending ['-', ' '] (by decide))

theorem plainLine_expectation {e : Expectation} (element : IsTrimmedLine e.element)
    (description : IsTrimmedLine e.description) : PlainLine e.line := by
  have glyph : '\n' ≠ e.marker.glyph := by cases e.marker <;> decide
  have ending := description.ending
    (bullet (e.marker.glyph :: ' ' :: '*' :: '*' :: e.element.toList ++ ['*', '*', ':', ' ']))
    (by rw [bullet, ← List.cons_append, ← List.cons_append, List.getLast?_append]; simp)
  refine plainLine_bullet ?_ ?_
  · simp [Expectation.text, element.single, description.single, glyph]
  · simpa [bullet, Expectation.text] using ending

theorem plainLine_capture {c : Capture} (path : IsTrimmedLine c.path)
    (description : IsTrimmedLine c.description) : PlainLine c.line := by
  have opening : '\n' ∉ placeholderOpening := by decide
  refine plainLine_bullet ?_ ?_
  · simp [opening, path.single, description.single]
  · rw [bullet, ← List.append_assoc, ← List.cons_append, ← List.cons_append, List.getLast?_concat]
    decide

theorem plainLine_word {u : String} (line : IsTrimmedLine u) (written : u ≠ "")
    (word : ∀ c ∈ u.toList, Text.isBlank c = false) (quote : u.toList.head? ≠ some '\x60') :
    PlainLine u.toList := by
  obtain ⟨c, rest, whole, hc⟩ := line.exists_cons written
  have ending := line.ending [] (by decide)
  have single := line.single
  rw [whole] at ending single word quote ⊢
  exact {
    single
    ending
    fence := isFence_cons hc (not_starts_fence (fun same => quote (congrArg some same)) rest)
    heading := Heading.ofLine?_of_no_blank word
    written := by simp [Text.allBlank, hc] }

theorem plainLine_result {r : String} (line : IsTrimmedLine r) (written : r ≠ "")
    (hash : ¬['#'] <+: r.toList) (fence : ¬"```".toList <+: r.toList) : PlainLine r.toList := by
  obtain ⟨c, rest, whole, hc⟩ := line.exists_cons written
  have ending := line.ending [] (by decide)
  have single := line.single
  rw [whole] at ending single hash fence ⊢
  refine .of_start hc ?_ fence single ending
  rintro rfl
  exact hash ⟨rest, rfl⟩

/-! ## Lines that open no placeholder -/

theorem not_opened_of_not_mem {s : List Char} (h : '<' ∉ s) : ¬placeholderOpening <:+: s :=
  fun opened => h (opened.subset (by decide))

theorem not_opened_append_cons {c : Char} (free : c ∉ placeholderOpening) {a b : List Char}
    (ha : ¬placeholderOpening <:+: a) (hb : ¬placeholderOpening <:+: b) :
    ¬placeholderOpening <:+: a ++ c :: b := by
  intro opened
  rcases Text.infix_of_infix_append_cons free opened with inside | inside
  · exact ha inside
  · exact hb inside

theorem placeholders_bullet {s : List Char} (h : ¬placeholderOpening <:+: s) :
    placeholders (bullet s) = [] := by
  have gap : ' ' ∉ placeholderOpening := by decide
  have mark : ¬placeholderOpening <:+: ['-'] := not_opened_of_not_mem (by decide)
  exact placeholders_eq_nil_iff.2 (not_opened_append_cons gap mark h)

theorem placeholders_stepLine {s : String} (h : ¬placeholderOpening <:+: s.toList) (i : Nat) :
    placeholders (stepLine i s) = [] := by
  have dot : '.' ∉ placeholderOpening := by decide
  have gap : ' ' ∉ placeholderOpening := by decide
  have number : ¬placeholderOpening <:+: (toString i).toList := by
    refine not_opened_of_not_mem fun inside => ?_
    exact absurd (Text.isDigit_of_mem_toString inside) (by decide)
  have nothing : ¬placeholderOpening <:+: [] := not_opened_of_not_mem (by decide)
  exact placeholders_eq_nil_iff.2
    (not_opened_append_cons dot number (not_opened_append_cons gap nothing h))

theorem placeholders_expectation {e : Expectation}
    (element : ¬placeholderOpening <:+: e.element.toList)
    (description : ¬placeholderOpening <:+: e.description.toList) : placeholders e.line = [] := by
  have star : '*' ∉ placeholderOpening := by decide
  have gap : ' ' ∉ placeholderOpening := by decide
  have front : ¬placeholderOpening <:+: [e.marker.glyph, ' ', '*'] :=
    not_opened_of_not_mem (by cases e.marker <;> decide)
  have colon : ¬placeholderOpening <:+: ['*', ':'] := not_opened_of_not_mem (by decide)
  exact placeholders_bullet (not_opened_append_cons star front
    (not_opened_append_cons star element (not_opened_append_cons gap colon description)))

/-! ## The title -/

theorem ofLine?_titleLine {d : Draft} (name : IsTrimmedLine d.name) (written : d.name ≠ "") :
    Heading.ofLine? d.titleLine = some (.testCase d.title) := by
  have hash : hashText? d.titleLine = some (Text.trim (testCaseLabel ++ d.title)) := rfl
  have trimmed : Text.trim (testCaseLabel ++ d.title) = testCaseLabel ++ d.title := by
    obtain ⟨c, label, whole, hc⟩ :
        ∃ c label, testCaseLabel = c :: label ∧ Text.isBlank c = false := ⟨_, _, rfl, by decide⟩
    have front : testCaseLabel ++ d.title =
        c :: (label ++ ' ' :: d.id.toList ++ [' ', '-', ' ']) ++ d.name.toList := by
      simp [whole, Draft.title]
    rw [front]
    exact Text.trim_append hc _ name.trimmed (mt String.toList_eq_nil_iff.1 written)
  rw [Heading.ofLine?, hash, trimmed, Option.bind_some, Heading.ofText?, Text.after?_append]

theorem placeholders_titleLine {d : Draft} (id : ¬placeholderOpening <:+: d.id.toList)
    (name : ¬placeholderOpening <:+: d.name.toList) : placeholders d.titleLine = [] := by
  have gap : ' ' ∉ placeholderOpening := by decide
  have label : ¬placeholderOpening <:+: '#' :: ' ' :: testCaseLabel :=
    not_opened_of_not_mem (by decide)
  have dash : ¬placeholderOpening <:+: ['-'] := not_opened_of_not_mem (by decide)
  exact placeholders_eq_nil_iff.2 (not_opened_append_cons gap label
    (not_opened_append_cons gap id (not_opened_append_cons gap dash name)))

theorem isTitleLine_titleLine {d : Draft} (id : IsTrimmedLine d.id) (name : IsTrimmedLine d.name)
    (written : d.name ≠ "") (idUnopened : ¬placeholderOpening <:+: d.id.toList)
    (unopened : ¬placeholderOpening <:+: d.name.toList) :
    Layout.IsTitleLine d.titleLine d.title where
  start := rfl
  single := by
    have label : '\n' ∉ testCaseLabel := by decide
    simp [Draft.titleLine, Draft.title, label, id.single, name.single]
  ending := by
    have kept := name.ending
      ('#' :: ' ' :: (testCaseLabel ++ ' ' :: d.id.toList) ++ [' ', '-', ' '])
      (by rw [List.getLast?_append]; simp)
    simpa [Draft.titleLine, Draft.title] using kept
  heading := ofLine?_titleLine name written
  bare := placeholders_titleLine idUnopened unopened

end Markup

end ScriptAudit
