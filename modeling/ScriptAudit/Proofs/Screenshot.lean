import Mathlib.Data.Option.Basic
import ScriptAudit.Proofs.Text.Search
import ScriptAudit.Screenshot

/-!
# How a screenshot path is written

The strict reader accepts the paths that are written from a feature, a test id, a step number and an
element, each in its own alphabet. Such a path has four segments, so the two readers that look at
one segment only find the feature and the file name in it.
-/

namespace ScriptAudit

open Text

/-! ## Alphabets -/

/-- The letters and the number that a test id is made of. -/
structure TestIdParts (s letters digits : List Char) : Prop where
  whole : s = letters ++ '-' :: digits
  some_letter : letters ≠ []
  capitals : ∀ c ∈ letters, c.isUpper = true
  enough : 3 ≤ digits.length
  numeric : ∀ c ∈ digits, isDigit c = true

theorem isTestId_iff {s : List Char} :
    isTestId s = true ↔ ∃ letters digits, TestIdParts s letters digits := by
  constructor
  · intro h
    simp only [isTestId] at h
    split at h
    · rename_i letters digits cut
      simp only [Bool.and_eq_true, Bool.not_eq_true', List.isEmpty_eq_false_iff,
        decide_eq_true_eq, List.all_eq_true] at h
      obtain ⟨⟨⟨some, capitals⟩, enough⟩, numeric⟩ := h
      obtain ⟨whole, _⟩ := cutAt?_beq_eq_some_iff.1 cut
      exact ⟨letters, digits, whole, some, capitals, enough, numeric⟩
    · cases h
  · rintro ⟨letters, digits, whole, some, capitals, enough, numeric⟩
    have free : '-' ∉ letters := fun hyphen => absurd (capitals '-' hyphen) (by decide)
    simp only [isTestId, cutAt?_beq_eq_some_iff.2 ⟨whole, free⟩, Bool.and_eq_true,
      Bool.not_eq_true', List.isEmpty_eq_false_iff, decide_eq_true_eq, List.all_eq_true]
    exact ⟨⟨⟨some, capitals⟩, enough⟩, numeric⟩

namespace Screenshot

/-- No part of a screenshot path can hold a character that another part or the path itself uses as
a mark, apart from the hyphen. -/
def isPlain (c : Char) : Bool :=
  c.isUpper || isLowerAlphanumeric c || c == '-'

theorem isPlain_of_isTestId {s : List Char} (h : isTestId s = true) :
    ∀ c ∈ s, isPlain c = true := by
  obtain ⟨letters, digits, whole, _, capitals, _, numeric⟩ := isTestId_iff.1 h
  intro c hc
  rw [whole, List.mem_append, List.mem_cons] at hc
  rcases hc with hc | rfl | hc
  · simp [isPlain, capitals c hc]
  · decide
  · simp [isPlain, isLowerAlphanumeric, numeric c hc]

theorem isPlain_of_isElementName {s : List Char} (h : isElementName s = true) :
    ∀ c ∈ s, isPlain c = true := by
  intro c hc
  have joined : ['-'].intercalate (s.splitOn '-') = s := List.intercalate_splitOn '-'
  rw [← joined] at hc
  rcases mem_intercalate hc with rfl | ⟨word, hword, hc⟩
  · decide
  · have own := List.all_eq_true.1 h word hword
    rw [Bool.and_eq_true, List.all_eq_true] at own
    simp [isPlain, own.2 c hc]

theorem isPlain_of_isFeatureName {s : List Char} (h : isFeatureName s = true) :
    ∀ c ∈ s, isPlain c = true ∨ c = '_' := by
  have plain {c : Char} (own : isLowerAlphanumeric c = true) : isPlain c = true := by
    simp [isPlain, own]
  intro c hc
  cases s with
  | nil => cases hc
  | cons first rest =>
    simp only [isFeatureName, Bool.and_eq_true, List.all_eq_true, Bool.or_eq_true,
      beq_iff_eq] at h
    rcases List.mem_cons.1 hc with rfl | hc
    · exact .inl (plain h.1)
    · rcases h.2 c hc with (own | rfl) | rfl
      · exact .inl (plain own)
      · exact .inr rfl
      · exact .inl (by decide)

theorem slash_free_of_isFeatureName {s : List Char} (h : isFeatureName s = true) : '/' ∉ s :=
  fun slash => absurd (isPlain_of_isFeatureName h '/' slash) (by decide)

/-! ## Paths -/

/-- The file name that a test id, the digits of a step number and an element make up. -/
def fileText (testId digits element : List Char) : List Char :=
  testId ++ '_' :: (digits ++ '-' :: (element ++ '.' :: "png".toList))

/-- The path is written from what `s` names, the step number with the given digits. -/
structure Written (s : Screenshot) (digits : List Char) (path : String) : Prop where
  whole : path.toList = "qa/".toList ++ (s.feature.toList ++ '/' ::
    ("screenshots/".toList ++ fileText s.testId.toList digits s.element.toList))
  feature : isFeatureName s.feature.toList = true
  testId : isTestId s.testId.toList = true
  enough : 2 ≤ digits.length
  step : decimalBelow? stepBound digits = some s.step
  element : isElementName s.element.toList = true

theorem parse?_eq_some_iff {path : String} {s : Screenshot} :
    parse? path = some s ↔ ∃ digits, s.Written digits path := by
  simp only [parse?, Option.bind_eq_bind, Option.bind_eq_some_iff]
  constructor
  · rintro ⟨rest₁, top, ⟨feature, rest₂⟩, cutFeature, rest₃, directory, ⟨testId, rest₄⟩, cutId,
      ⟨digits, rest₅⟩, cutDigits, ⟨element, ending⟩, cutElement, step, value, _, guarded, made⟩
    have shaped := (Option.guard_eq_some' _).1 guarded
    simp only [Bool.and_eq_true, decide_eq_true_eq, beq_iff_eq] at shaped
    obtain ⟨⟨⟨⟨hfeature, htestId⟩, enough⟩, helement⟩, rfl⟩ := shaped
    cases made
    dsimp only at directory cutDigits cutElement value
    refine ⟨digits, ?_, ?_, ?_, enough, value, ?_⟩
    · simp only [String.toList_ofList, fileText]
      rw [eq_append_of_after? top, (cutAt?_beq_eq_some_iff.1 cutFeature).1,
        eq_append_of_after? directory, (cutAt?_beq_eq_some_iff.1 cutId).1,
        (cutAt?_beq_eq_some_iff.1 cutDigits).1, (cutAt?_beq_eq_some_iff.1 cutElement).1]
    · rwa [String.toList_ofList]
    · rwa [String.toList_ofList]
    · rwa [String.toList_ofList]
  · rintro ⟨digits, whole, feature, testId, enough, step, element⟩
    have numeric := (decimalBelow?_eq_some_iff.1 step).2.1
    refine ⟨_, whole ▸ after?_append _ _, (s.feature.toList, _), cutAt?_beq_eq_some_iff.2
      ⟨rfl, slash_free_of_isFeatureName feature⟩, _, after?_append _ _, (s.testId.toList, _),
      cutAt?_beq_eq_some_iff.2 ⟨rfl, ?_⟩, (digits, _), cutAt?_beq_eq_some_iff.2 ⟨rfl, ?_⟩,
      (s.element.toList, "png".toList), cutAt?_beq_eq_some_iff.2 ⟨rfl, ?_⟩, s.step, step, (),
      ?_, ?_⟩
    · exact fun mark => absurd (isPlain_of_isTestId testId '_' mark) (by decide)
    · exact fun mark => absurd (numeric '-' mark) (by decide)
    · exact fun mark => absurd (isPlain_of_isElementName element '.' mark) (by decide)
    · simp [guard, feature, testId, enough, element]
    · simp

/-! ## One segment of a path -/

namespace Written

variable {s : Screenshot} {digits : List Char} {path : String} (written : s.Written digits path)
include written

theorem slash_free_fileText : '/' ∉ fileText s.testId.toList digits s.element.toList := by
  have numeric := (decimalBelow?_eq_some_iff.1 written.step).2.1
  intro slash
  simp only [fileText, List.mem_append, List.mem_cons] at slash
  rcases slash with own | mark | own | mark | own | mark | own
  · exact absurd (isPlain_of_isTestId written.testId '/' own) (by decide)
  · exact absurd mark (by decide)
  · exact absurd (numeric '/' own) (by decide)
  · exact absurd mark (by decide)
  · exact absurd (isPlain_of_isElementName written.element '/' own) (by decide)
  · exact absurd mark (by decide)
  · exact absurd own (by decide)

theorem quote_free : '\'' ∉ path.toList := by
  have numeric := (decimalBelow?_eq_some_iff.1 written.step).2.1
  have feature : '\'' ∉ s.feature.toList := fun quote =>
    absurd (isPlain_of_isFeatureName written.feature '\'' quote) (by decide)
  have testId : '\'' ∉ s.testId.toList := fun quote =>
    absurd (isPlain_of_isTestId written.testId '\'' quote) (by decide)
  have element : '\'' ∉ s.element.toList := fun quote =>
    absurd (isPlain_of_isElementName written.element '\'' quote) (by decide)
  have step : '\'' ∉ digits := fun quote => absurd (numeric '\'' quote) (by decide)
  rw [written.whole, fileText]
  simp [feature, testId, element, step]

theorem segments_eq : path.toList.splitOn '/' = ["qa".toList, s.feature.toList,
    "screenshots".toList, fileText s.testId.toList digits s.element.toList] := by
  have joined : path.toList = ['/'].intercalate ["qa".toList, s.feature.toList,
      "screenshots".toList, fileText s.testId.toList digits s.element.toList] := by
    rw [written.whole]
    simp [List.intercalate]
  rw [joined]
  refine List.splitOn_intercalate '/' (fun piece hpiece => ?_) (by simp)
  simp only [List.mem_cons, List.not_mem_nil, or_false] at hpiece
  rcases hpiece with rfl | rfl | rfl | rfl
  · decide
  · exact slash_free_of_isFeatureName written.feature
  · decide
  · exact written.slash_free_fileText

theorem featureSegment?_eq : featureSegment? path = some s.feature := by
  have named : s.feature.toList ≠ [] := by
    intro empty
    have feature := written.feature
    rw [empty] at feature
    cases feature
  simp [featureSegment?, written.segments_eq, named]

theorem fileName?_eq : fileName? path s.feature =
    some (String.ofList (fileText s.testId.toList digits s.element.toList)) := by
  simp [fileName?, written.segments_eq, fileText]

end Written

/-- The file name and the feature determine the path that leads to them. -/
theorem eq_append_of_fileName? {path feature name : String}
    (h : fileName? path feature = some name) :
    path = "qa/" ++ feature ++ "/screenshots/" ++ name := by
  simp only [fileName?] at h
  split at h
  · rename_i top owner directory file pieces
    split at h
    · rename_i own
      cases h
      simp only [Bool.and_eq_true, decide_eq_true_eq] at own
      obtain ⟨⟨⟨rfl, rfl⟩, rfl⟩, _⟩ := own
      have joined : ['/'].intercalate (path.toList.splitOn '/') = path.toList :=
        List.intercalate_splitOn '/'
      rw [pieces] at joined
      rw [← String.toList_inj, ← joined]
      simp [List.intercalate]
    · cases h
  · cases h

/-- A path into the screenshot directory of a feature names the file there. -/
theorem fileName?_append {feature name : String} (owner : '/' ∉ feature.toList)
    (file : '/' ∉ name.toList) (some : name ≠ "") :
    fileName? ("qa/" ++ feature ++ "/screenshots/" ++ name) feature = .some name := by
  have joined : ("qa/" ++ feature ++ "/screenshots/" ++ name).toList =
      ['/'].intercalate ["qa".toList, feature.toList, "screenshots".toList, name.toList] := by
    simp [List.intercalate]
  have pieces : ("qa/" ++ feature ++ "/screenshots/" ++ name).toList.splitOn '/' =
      ["qa".toList, feature.toList, "screenshots".toList, name.toList] := by
    rw [joined]
    refine List.splitOn_intercalate '/' (fun piece hpiece => ?_) (by simp)
    simp only [List.mem_cons, List.not_mem_nil, or_false] at hpiece
    rcases hpiece with rfl | rfl | rfl | rfl
    · decide
    · exact owner
    · decide
    · exact file
  have written : name.toList ≠ [] := fun empty => some (String.toList_eq_nil_iff.1 empty)
  rw [fileName?, pieces]
  dsimp only
  rw [if_pos (by simpa using written), String.ofList_toList]

end Screenshot

end ScriptAudit
