import ScriptAudit.Proofs.Rule.Conformance
import ScriptAudit.Proofs.Text.Lowercase
import ScriptAudit.Proofs.Text.Words

/-!
# Punctuation at the end of a result

An expected result is compared with the steps in a normal form without dots and exclamation marks
at the end. They are taken off once the words have single spaces between them, so only those of the
last word go. Stops that stand apart from the text are a word of their own: they leave the space in
front of them, and a result that repeats a step is not seen as a repetition any more.

The blanks of a normal form are the gaps between the words. This count tells when what is put
behind a text is lost.
-/

namespace ScriptAudit

/-- The document with a text put behind the expected result of each test case. -/
def Document.appendResult (w : List Char) (d : Document) : Document :=
  { d with cases := d.cases.map fun c =>
      { c with expectedResult :=
        { c.expectedResult with text := c.expectedResult.text ++ String.ofList w } } }

namespace Rule

def isStop (c : Char) : Bool :=
  c == '.' || c == '!'

/-- What may stand behind a sentence. -/
def isTrailing (c : Char) : Bool :=
  Text.isBlank c || isStop c

/-- The words of the text with single spaces between them. -/
def spaced (s : List Char) : List Char :=
  [' '].intercalate (Text.words s)

/-- Behind the text, `w` makes no word besides those of the text. -/
def Absorbs (t w : List Char) : Prop :=
  (Text.words (t ++ w)).length ≤ max 1 (Text.words t).length

/-- Behind other words, the last word is made of stops. -/
def EndsApart (t : List Char) : Prop :=
  ∃ front u, front ≠ [] ∧ Text.words t = front ++ [u] ∧ ∀ c ∈ u, isStop c = true

theorem normalize_eq (s : List Char) :
    normalize s = Text.lower (Text.dropEndWhile isStop (spaced s)) :=
  rfl

/-! ## Characters -/

theorem isStop_iff {c : Char} :
    isStop c = true ↔ ∃ r ∈ Text.stopRanges, Text.InRange r c.toNat := by
  have same (d : Char) : c = d ↔ c.toNat = d.toNat := Char.toNat_inj.symm
  simp [isStop, Text.stopRanges, Text.InRange, same]
  omega

theorem isTrailing_iff {c : Char} :
    isTrailing c = true ↔ ∃ r ∈ Text.bareRanges, Text.InRange r c.toNat := by
  rw [isTrailing, Bool.or_eq_true, Text.isBlank_iff, isStop_iff, Text.bareRanges]
  simp [or_and_right, exists_or]

theorem isStop_of_isTrailing {c : Char} (trailing : isTrailing c = true)
    (dense : Text.isBlank c = false) : isStop c = true := by
  simpa [isTrailing, dense] using trailing

theorem isBlank_of_isStop {c : Char} (stop : isStop c = true) : Text.isBlank c = false := by
  rcases (Bool.or_eq_true _ _).mp stop with dot | mark
  · rw [eq_of_beq dot]
    decide
  · rw [eq_of_beq mark]
    decide

/-! ## Blanks of a normal form -/

theorem countP_isBlank_dropEndWhile (s : List Char) :
    (Text.dropEndWhile isStop s).countP Text.isBlank = s.countP Text.isBlank := by
  obtain ⟨tail, whole, stops, _⟩ := Text.exists_dropEndWhile_append isStop s
  have none : tail.countP Text.isBlank = 0 :=
    List.countP_eq_zero.2 fun c hc => by simp [isBlank_of_isStop (stops c hc)]
  conv => rhs; rw [whole, List.countP_append, none]
  rfl

theorem countP_isBlank_spaced (s : List Char) :
    (spaced s).countP Text.isBlank = (Text.words s).length - 1 :=
  Text.countP_isBlank_intercalate fun _ hw c hc => ((Text.of_mem_words hw).2 c hc).2

/-- A normal form has a blank between each two words of the text, and no other. -/
theorem countP_isBlank_normalize (s : List Char) :
    (normalize s).countP Text.isBlank = (Text.words s).length - 1 := by
  rw [normalize_eq, Text.lower, Text.countP_isBlank_lowerAfter, countP_isBlank_dropEndWhile,
    countP_isBlank_spaced]

/-! ## Stops behind a text -/

/-- Words of stops, put behind others, add characters at the end only. -/
theorem exists_tail_intercalate {vs : List (List Char)}
    (trailing : ∀ v ∈ vs, ∀ c ∈ v, isTrailing c = true) (ws : List (List Char)) :
    ∃ tail, [' '].intercalate (ws ++ vs) = [' '].intercalate ws ++ tail ∧
      ∀ c ∈ tail, isTrailing c = true := by
  induction vs generalizing ws with
  | nil => exact ⟨[], by simp, by simp⟩
  | cons v vs ih =>
    obtain ⟨own, others⟩ := List.forall_mem_cons.1 trailing
    obtain ⟨tail, shape, all⟩ := ih others (ws ++ [v])
    rw [List.append_assoc, List.singleton_append] at shape
    by_cases first : ws = []
    · refine ⟨v ++ tail, by rw [shape, first]; simp, fun c hc => ?_⟩
      exact (List.mem_append.1 hc).elim (own c) (all c)
    · refine ⟨' ' :: v ++ tail, by rw [shape, Text.intercalate_concat first]; simp, ?_⟩
      intro c hc
      rcases List.mem_append.1 hc with hc | hc
      · rcases List.mem_cons.1 hc with rfl | hc
        · decide
        · exact own c hc
      · exact all c hc

/-- Blanks and stops behind a text add such characters at the end, and change nothing before. -/
theorem exists_tail {w : List Char} (trailing : ∀ c ∈ w, isTrailing c = true) (t : List Char) :
    ∃ tail, spaced (t ++ w) = spaced t ++ tail ∧ ∀ c ∈ tail, isTrailing c = true := by
  obtain ⟨front, u, v, back, dense, of_w, before, behind, whole⟩ := Text.exists_words_append t w
  have of_words : ∀ word ∈ Text.words w, ∀ c ∈ word, isTrailing c = true :=
    fun word hword c hc => trailing c ((Text.of_mem_words hword).2 c hc).1
  rw [spaced, whole, spaced, before]
  by_cases closed : u = []
  · -- the words of `w` stay words
    have nothing : Text.words [] = [] := rfl
    rw [closed, List.nil_append, List.append_assoc, ← behind, nothing, List.append_nil]
    exact exists_tail_intercalate of_words front
  · -- the first piece of `w` goes on with the last word of `t`
    have joined : ∀ c ∈ u ++ v, Text.isBlank c = false := fun c hc =>
      (List.mem_append.1 hc).elim (dense c) fun hc => (of_w c hc).2
    obtain ⟨tail, shape, all⟩ := exists_tail_intercalate
      (fun word hword => of_words word (behind ▸ List.mem_append_right _ hword))
      (front ++ [u ++ v])
    rw [Text.words_of_dense dense, Text.words_of_dense joined, if_neg closed,
      if_neg (by simp [closed])]
    refine ⟨v ++ tail, by rw [shape, Text.intercalate_append_last, List.append_assoc], fun c hc => ?_⟩
    exact (List.mem_append.1 hc).elim (fun hc => trailing c (of_w c hc).1) (all c)

/-- The normal form forgets what is put behind a text exactly when that makes no further word. -/
theorem normalize_append_iff {w : List Char} (trailing : ∀ c ∈ w, isTrailing c = true)
    (t : List Char) : normalize (t ++ w) = normalize t ↔ Absorbs t w := by
  constructor
  · intro same
    have count := congrArg (List.countP Text.isBlank) same
    rw [countP_isBlank_normalize, countP_isBlank_normalize] at count
    rw [Absorbs]
    omega
  · intro absorbs
    obtain ⟨tail, shape, all⟩ := exists_tail trailing t
    have count := congrArg (List.countP Text.isBlank) shape
    rw [List.countP_append, countP_isBlank_spaced, countP_isBlank_spaced] at count
    rw [Absorbs] at absorbs
    have none : tail.countP Text.isBlank = 0 := by omega
    have stops : ∀ c ∈ tail, isStop c = true := fun c hc =>
      isStop_of_isTrailing (all c hc) (by simpa using List.countP_eq_zero.1 none c hc)
    rw [normalize_eq, shape, Text.dropEndWhile_append_of_pos stops, normalize_eq]

/-- Without the blanks and stops at its end, the normal form forgets whatever is behind a text. -/
theorem dropEndWhile_normalize (s : List Char) :
    Text.dropEndWhile isTrailing (normalize s) =
      Text.dropEndWhile isTrailing (Text.lower (spaced s)) := by
  obtain ⟨tail, whole, stops, _⟩ := Text.exists_dropEndWhile_append isStop (spaced s)
  have trailing : ∀ c ∈ tail, isTrailing c = true := fun c hc => by simp [isTrailing, stops c hc]
  have bare := fun c hc => isTrailing_iff.1 (trailing c hc)
  conv => rhs; rw [whole, Text.lower_append_of_bare bare, Text.dropEndWhile_append_of_pos trailing]
  rfl

theorem dropEndWhile_normalize_append {w : List Char} (trailing : ∀ c ∈ w, isTrailing c = true)
    (t : List Char) : Text.dropEndWhile isTrailing (normalize (t ++ w)) =
      Text.dropEndWhile isTrailing (normalize t) := by
  obtain ⟨tail, shape, all⟩ := exists_tail trailing t
  have bare := fun c hc => isTrailing_iff.1 (all c hc)
  rw [dropEndWhile_normalize, shape, Text.lower_append_of_bare bare,
    Text.dropEndWhile_append_of_pos all, dropEndWhile_normalize]

/-! ## Normal forms of normal forms -/

theorem isStop_of_lowers {c d : Char} (h : Text.Lowers c d) : isStop d = isStop c := by
  have stop : ∀ b ∈ Text.stopRanges, (Text.InRange b d.toNat ↔ Text.InRange b c.toNat) :=
    fun b hb => h.inRange_iff (List.mem_append_right _ hb)
  rw [Bool.eq_iff_iff, isStop_iff, isStop_iff]
  exact exists_congr fun b => and_congr_right (stop b)

/-- Words with single spaces between them and no stop at the end keep their normal form. -/
theorem normalize_lower_intercalate {ws : List (List Char)}
    (h : ∀ w ∈ ws, w ≠ [] ∧ ∀ c ∈ w, Text.isBlank c = false)
    (ending : ∀ c, ([' '].intercalate ws).getLast? = some c → isStop c = false) :
    normalize (Text.lower ([' '].intercalate ws)) = Text.lower ([' '].intercalate ws) := by
  have kept : spaced (Text.lower ([' '].intercalate ws)) = Text.lower ([' '].intercalate ws) := by
    rw [spaced, Text.words_lower_intercalate h, Text.lower_intercalate]
  have unstopped : Text.dropEndWhile isStop (Text.lower ([' '].intercalate ws)) =
      Text.lower ([' '].intercalate ws) := by
    refine Text.dropEndWhile_eq_self_iff.2 fun d last => ?_
    obtain ⟨c, last', stands⟩ := Text.getLast?_lowerAfter last
    rw [isStop_of_lowers stands, ending c last']
  rw [normalize_eq, kept, unstopped, Text.lower_lower]

theorem normalize_of_endsApart {t : List Char} {front : List (List Char)} {u : List Char}
    (others : front ≠ []) (shape : Text.words t = front ++ [u]) (stops : ∀ c ∈ u, isStop c = true) :
    normalize t = Text.lower ([' '].intercalate front) ++ [' '] := by
  have gone : Text.dropEndWhile isStop u = [] := Text.dropEndWhile_append_of_pos stops []
  have bare : ∀ c ∈ [' '], ∃ b ∈ Text.bareRanges, Text.InRange b c.toNat := by
    intro c hc
    rw [List.mem_singleton.1 hc]
    exact isTrailing_iff.1 (by decide)
  rw [normalize_eq, spaced, shape, Text.intercalate_concat others,
    Text.dropEndWhile_append_cons (by decide), gone, Text.lower_append_of_bare bare]

/-- A normal form is one of itself, unless stops stood apart at the end of the text. -/
theorem normalize_normalize_iff (t : List Char) :
    normalize (normalize t) = normalize t ↔ ¬EndsApart t := by
  have proper : ∀ w ∈ Text.words t, w ≠ [] ∧ ∀ c ∈ w, Text.isBlank c = false := fun w hw =>
    (Text.of_mem_words hw).imp_right fun own c hc => (own c hc).2
  constructor
  · rintro same ⟨front, u, others, shape, stops⟩
    have count := countP_isBlank_normalize (normalize t)
    rw [same, countP_isBlank_normalize, shape, normalize_of_endsApart others shape stops,
      Text.words_append_blank (by decide), Text.words_lower_intercalate] at count
    · have many := List.length_pos_iff.2 others
      have nothing : Text.words [] = [] := rfl
      simp only [nothing, List.length_append, List.length_map, List.length_singleton,
        List.length_nil] at count
      omega
    · exact fun w hw => proper w (shape ▸ List.mem_append_left _ hw)
  · intro within
    rcases List.eq_nil_or_concat (Text.words t) with nothing | ⟨front, u, shape⟩
    · rw [normalize_eq t, spaced, nothing]
      rfl
    rw [List.concat_eq_append] at shape
    rw [shape] at proper
    obtain ⟨tail, whole, stops, ending⟩ := Text.exists_dropEndWhile_append isStop u
    by_cases gone : Text.dropEndWhile isStop u = []
    · -- the only word is made of stops
      rw [gone, List.nil_append] at whole
      have single : front = [] := by
        by_contra others
        exact within ⟨front, u, others, shape, whole ▸ stops⟩
      have empty : normalize t = [] := by
        rw [normalize_eq, spaced, shape, single, List.nil_append, List.intercalate_singleton, gone]
        rfl
      rw [empty]
      rfl
    · -- the stops are taken off the last word, and something of it is left
      rw [normalize_eq t, spaced, shape, whole, Text.intercalate_append_last,
        Text.dropEndWhile_append_of_pos stops]
      have settled : ∀ c, ([' '].intercalate (front ++ [Text.dropEndWhile isStop u])).getLast? =
          some c → isStop c = false := by
        rwa [Text.getLast?_intercalate gone]
      rw [Text.dropEndWhile_eq_self_iff.2 settled]
      refine normalize_lower_intercalate (fun w hw => ?_) settled
      rcases List.mem_append.1 hw with hw | hw
      · exact proper w (List.mem_append_left _ hw)
      · obtain ⟨_, dense⟩ := proper u (by simp)
        rw [List.mem_singleton.1 hw]
        exact ⟨gone, fun c hc => dense c ((Text.dropEndWhile_front isStop u).subset hc)⟩

theorem endsApart_congr {s t : List Char} (same : normalize s = normalize t) :
    EndsApart s ↔ EndsApart t := by
  rw [← not_iff_not, ← normalize_normalize_iff, ← normalize_normalize_iff, same]

/-- A further word, made by blanks and stops, stands apart. -/
theorem endsApart_of_not_absorbs {t w : List Char} (trailing : ∀ c ∈ w, isTrailing c = true)
    (h : ¬Absorbs t w) : EndsApart (t ++ w) := by
  obtain ⟨front, u, v, back, dense, of_w, before, behind, whole⟩ := Text.exists_words_append t w
  have stops_v : ∀ c ∈ v, isStop c = true := fun c hc =>
    isStop_of_isTrailing (trailing c (of_w c hc).1) (of_w c hc).2
  have stops_back : ∀ word ∈ back, ∀ c ∈ word, isStop c = true := fun word hword c hc =>
    have ⟨mem, gap⟩ := (Text.of_mem_words (behind ▸ List.mem_append_right _ hword)).2 c hc
    isStop_of_isTrailing (trailing c mem) gap
  have joined : ∀ c ∈ u ++ v, Text.isBlank c = false := fun c hc =>
    (List.mem_append.1 hc).elim (dense c) fun hc => (of_w c hc).2
  rw [Absorbs, whole, before] at h
  rcases List.eq_nil_or_concat back with rfl | ⟨back', last, rfl⟩
  · -- the further word can only be `v`, where `t` ends with a blank
    rw [Text.words_of_dense dense, Text.words_of_dense joined] at h
    have closed : u = [] := by
      by_contra goes_on
      simp [goes_on] at h
    subst closed
    have written : v ≠ [] := by
      rintro rfl
      have upto := Nat.le_max_right 1 front.length
      simp [upto] at h
    refine ⟨front, v, ?_, ?_, stops_v⟩
    · rintro rfl
      simp [written] at h
    · rw [whole, Text.words_of_dense joined]
      simp [written]
  · rw [List.concat_eq_append] at whole stops_back h
    refine ⟨front ++ Text.words (u ++ v) ++ back', last, fun nothing => ?_, ?_, ?_⟩
    · rw [← List.append_assoc, nothing] at h
      simp at h
    · rw [whole, List.append_assoc]
      simp
    · exact stops_back last (by simp)

/-! ## Findings -/

variable {config : Config} {d : Document} {w : List Char}

theorem expectedResultNonempty_appendResult (trailing : ∀ c ∈ w, isTrailing c = true)
    (absorbs : ∀ c ∈ d.cases, Absorbs c.expectedResult.text.toList w) :
    expectedResultNonempty config (d.appendResult w) = expectedResultNonempty config d := by
  rw [expectedResultNonempty, perCase, Document.appendResult, perCase, List.filterMap_map]
  refine List.filterMap_congr fun c hc => ?_
  have same := (normalize_append_iff trailing _).2 (absorbs c hc)
  simp only [Function.comp_apply, String.toList_append, String.toList_ofList, same]

/-- Stops that stand apart behind a result hide what it repeats, unless they do so there too. -/
theorem expectedResultNonempty_appendResult_eq_nil (trailing : ∀ c ∈ w, isTrailing c = true)
    (apart : ∀ c ∈ d.cases, ¬Absorbs c.expectedResult.text.toList w ∧
      (∀ s ∈ c.steps, ¬EndsApart s.text.toList) ∧ ¬EndsApart (allSteps c.steps)) :
    expectedResultNonempty config (d.appendResult w) = [] := by
  refine expectedResultNonempty_eq_nil_iff.2 (List.forall_mem_map.2 fun c hc => ?_)
  obtain ⟨more, steps, joined⟩ := apart c hc
  have ending := endsApart_of_not_absorbs trailing more
  simp only [String.toList_append, String.toList_ofList]
  refine ⟨fun empty => ?_, fun s hs same => ?_, fun same => ?_⟩
  · have count := countP_isBlank_normalize (c.expectedResult.text.toList ++ w)
    rw [empty] at count
    rw [Absorbs] at more
    simp only [List.countP_nil] at count
    omega
  · exact steps s hs ((endsApart_congr same).2 ending)
  · exact joined ((endsApart_congr same).2 ending)

/-- Blanks and stops at the end of a result count for nothing as long as they make no further word.
Where they make one, no repetition is found. -/
theorem trailing_ignored_iff_absorbs
    (trailing : ∀ c ∈ w, Text.isBlank c = true ∨ c = '.' ∨ c = '!') :
    (∀ t, (normalize (t ++ w) = normalize t ↔ Absorbs t w) ∧
      Text.dropEndWhile isTrailing (normalize (t ++ w)) =
        Text.dropEndWhile isTrailing (normalize t)) ∧
    (∀ t, normalize (normalize t) = normalize t ↔ ¬EndsApart t) ∧
    ∀ (config : Config) (d : Document),
      ((∀ c ∈ d.cases, Absorbs c.expectedResult.text.toList w) →
        expectedResultNonempty config (d.appendResult w) = expectedResultNonempty config d) ∧
      ((∀ c ∈ d.cases, ¬Absorbs c.expectedResult.text.toList w ∧
          (∀ s ∈ c.steps, ¬EndsApart s.text.toList) ∧ ¬EndsApart (allSteps c.steps)) →
        expectedResultNonempty config (d.appendResult w) = []) := by
  have trailing : ∀ c ∈ w, isTrailing c = true := fun c hc => by
    simpa [isTrailing, isStop] using trailing c hc
  refine ⟨fun t => ⟨normalize_append_iff trailing t, dropEndWhile_normalize_append trailing t⟩,
    normalize_normalize_iff, fun config d => ⟨?_, ?_⟩⟩
  · exact expectedResultNonempty_appendResult trailing
  · exact expectedResultNonempty_appendResult_eq_nil trailing

end Rule

/-- One test case whose only step is to open a card, with a given result. -/
def Document.opening (result : String) : Document :=
  { (default : Document) with cases := [{ (default : TestCase) with
      steps := [⟨1, "Open the card", 5⟩]
      expectedResult := ⟨result, 8⟩ }] }

instance (t w : List Char) : Decidable (Rule.Absorbs t w) :=
  inferInstanceAs (Decidable (_ ≤ _))

theorem Rule.trailing_ignored_opening :
    expectedResultNonempty {} ((Document.opening "").appendResult [' ', '.']) =
      expectedResultNonempty {} (Document.opening "") ∧
    expectedResultNonempty {} ((Document.opening "Open the card").appendResult [' ', '.']) = [] := by
  have trailing : ∀ c ∈ [' ', '.'], Text.isBlank c = true ∨ c = '.' ∨ c = '!' :=
    List.forall_mem_cons.2 ⟨.inl (by decide), List.forall_mem_singleton.2 (.inr (.inl rfl))⟩
  obtain ⟨_, apart, finds⟩ := trailing_ignored_iff_absorbs trailing
  refine ⟨(finds {} _).1 ?_, (finds {} _).2 ?_⟩
  · decide +kernel
  · refine List.forall_mem_singleton.2 ⟨by decide +kernel, ?_, ?_⟩
    · exact List.forall_mem_singleton.2 ((apart _).1 (by decide +kernel))
    · exact (apart _).1 (by decide +kernel)

/-- A full stop behind a space hides that the result repeats the step. -/
theorem Rule.repetition_unseen :
    normalize ("Open the card".toList ++ " .".toList) ≠ normalize "Open the card".toList ∧
    normalize (normalize "Open the card .".toList) ≠ normalize "Open the card .".toList ∧
    expectedResultNonempty {} (Document.opening "Open the card") =
      [.onLine 8 "Expected Result repeats step 1 verbatim"] ∧
    expectedResultNonempty {} ((Document.opening "Open the card").appendResult " .".toList) = [] := by
  decide +kernel

end ScriptAudit
