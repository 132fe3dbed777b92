import Mathlib
import ScriptAudit.Proofs.Rule.Conformance

/-!
# Which features have test ids

The two rules on ids bind the same letters, one to capitals and the other to the head that goes with
the feature. So a feature has ids exactly when its head is made of capitals. The head derived from
a name keeps the digits of the name, and then only a configured head helps.
-/

namespace ScriptAudit

theorem TestIdParts.takeWhile_eq {s letters digits : List Char} (h : TestIdParts s letters digits) :
    s.takeWhile (· != '-') = letters := by
  rw [h.whole]
  exact Text.takeWhile_bne_append (fun hyphen => absurd (h.capitals '-' hyphen) (by decide)) digits

/-! ## Heads -/

/-- Some id begins with the head. -/
def HeadsId (head : List Char) : Prop :=
  ∃ (id : String) (digits : List Char), TestIdParts id.toList head digits

theorem headsId_iff {head : List Char} :
    HeadsId head ↔ head ≠ [] ∧ ∀ c ∈ head, c.isUpper = true := by
  constructor
  · rintro ⟨_, _, parts⟩
    exact ⟨parts.some_letter, parts.capitals⟩
  · rintro ⟨some, capitals⟩
    refine ⟨String.ofList (head ++ "-001".toList), "001".toList, ?_, some, capitals, ?_, ?_⟩
    · rw [String.toList_ofList]
      rfl
    · decide
    · exact List.all_eq_true.1 (by decide)

theorem Text.isDigit_eq (c : Char) : Text.isDigit c = c.isDigit :=
  rfl

/-- Among letters and digits, it is the digits that have no capital. -/
theorem isUpper_toUpper_iff {c : Char} (h : c.isAlphanum = true) :
    c.toUpper.isUpper = true ↔ Text.isDigit c = false := by
  have apart : c.isDigit = true → c.isAlpha = false := by
    grind [Char.isAlpha, Char.isUpper, Char.isLower, Char.isDigit]
  rw [Char.isUpper_toUpper_eq_isAlpha, Text.isDigit_eq]
  rw [Char.isAlphanum, Bool.or_eq_true] at h
  constructor
  · intro letter
    cases digit : c.isDigit with
    | true => exact absurd letter (by simp [apart digit])
    | false => rfl
  · intro other
    simpa [other] using h

theorem isAlphanum_of_isDigit {c : Char} (h : Text.isDigit c = true) : c.isAlphanum = true := by
  rw [Text.isDigit_eq] at h
  rw [Char.isAlphanum, h, Bool.or_true]

theorem toUpper_of_isDigit {c : Char} (h : Text.isDigit c = true) : c.toUpper = c := by
  rw [Text.isDigit_eq] at h
  grind [Char.toUpper, Char.isDigit]

theorem isDigit_toUpper (c : Char) : Text.isDigit c.toUpper = Text.isDigit c := by
  rw [Text.isDigit_eq, Text.isDigit_eq]
  grind [Char.toUpper, Char.isDigit]

theorem isAlphanum_of_isLowerAlphanumeric {c : Char}
    (h : Screenshot.isLowerAlphanumeric c = true) : c.isAlphanum = true := by
  rw [Screenshot.isLowerAlphanumeric, Bool.or_eq_true] at h
  rw [Char.isAlphanum, Char.isAlpha, Bool.or_eq_true, Bool.or_eq_true]
  rcases h with lower | digit
  · exact Or.inl (Or.inr lower)
  · exact Or.inr digit

theorem Config.toList_idHead {config : Config} {feature : String}
    (unlisted : config.idHeads.lookup feature = none) : (config.idHead feature).toList =
      (feature.toList.filter Char.isAlphanum).map Char.toUpper := by
  rw [idHead, unlisted, String.toList_ofList]

/-- The head derived from the name of a feature keeps the digits of the name, and no other. -/
theorem Config.filter_isDigit_idHead {config : Config} {feature : String}
    (unlisted : config.idHeads.lookup feature = none) :
    (config.idHead feature).toList.filter Text.isDigit = feature.toList.filter Text.isDigit := by
  rw [toList_idHead unlisted, List.filter_map, List.filter_filter]
  have kept : ∀ c ∈ feature.toList,
      ((Text.isDigit ∘ Char.toUpper) c && c.isAlphanum) = Text.isDigit c := by
    intro c _
    rw [Function.comp_apply, isDigit_toUpper]
    cases digit : Text.isDigit c with
    | true => rw [isAlphanum_of_isDigit digit, Bool.and_true]
    | false => rw [Bool.false_and]
  have same : ∀ c ∈ feature.toList.filter Text.isDigit, c.toUpper = id c :=
    fun c hc => toUpper_of_isDigit (List.mem_filter.1 hc).2
  rw [List.filter_congr kept, List.map_congr_left same, List.map_id]

/-- The head derived from the name of a feature heads an id exactly when the name has no digit. -/
theorem Config.headsId_idHead_iff {config : Config} {feature : String}
    (plain : Screenshot.isFeatureName feature.toList = true)
    (unlisted : config.idHeads.lookup feature = none) :
    HeadsId (config.idHead feature).toList ↔ ∀ c ∈ feature.toList, Text.isDigit c = false := by
  have derived := toList_idHead unlisted
  have some : (config.idHead feature).toList ≠ [] := by
    cases named : feature.toList with
    | nil =>
      rw [named] at plain
      cases plain
    | cons c rest =>
      rw [named, Screenshot.isFeatureName, Bool.and_eq_true] at plain
      rw [derived, named, List.filter_cons_of_pos (isAlphanum_of_isLowerAlphanumeric plain.1)]
      exact List.cons_ne_nil _ _
  rw [headsId_iff, and_iff_right some, derived]
  simp only [List.forall_mem_map, List.mem_filter, and_imp]
  constructor
  · intro capitals c hc
    by_cases written : c.isAlphanum = true
    · exact (isUpper_toUpper_iff written).1 (capitals c hc written)
    · simp only [Char.isAlphanum, Bool.or_eq_true, not_or, Bool.not_eq_true] at written
      exact written.2
  · exact fun free c hc written => (isUpper_toUpper_iff written).2 (free c hc)

/-! ## Documents -/

namespace Document

variable {config : Config} {d : Document}

/-- No rule on ids reports anything about the document. -/
def IdsPass (config : Config) (d : Document) : Prop :=
  ∃ ds, RuleSet.stock.evaluate config d = some ds ∧
    ∀ x ∈ ds, ¬(x.ruleId = "id-format" ∨ x.ruleId = "id-prefix-matches-feature")

/-- A rule on ids reports something about the document. -/
def IdsReported (config : Config) (d : Document) : Prop :=
  ∃ ds, RuleSet.stock.evaluate config d = some ds ∧
    ∃ x ∈ ds, x.ruleId = "id-format" ∨ x.ruleId = "id-prefix-matches-feature"

theorem idsPass_or_idsReported : d.IdsPass config ∨ d.IdsReported config := by
  obtain ⟨ds, result, _⟩ := RuleSet.exists_evaluate_stock config d
  by_cases reported : ∃ x ∈ ds, x.ruleId = "id-format" ∨ x.ruleId = "id-prefix-matches-feature"
  · exact Or.inr ⟨ds, result, reported⟩
  · exact Or.inl ⟨ds, result, fun x hx own => reported ⟨x, hx, own⟩⟩

theorem idsPass_iff : d.IdsPass config ↔ ∀ c ∈ d.cases, ∃ digits,
    TestIdParts c.id.toList (config.idHead d.feature).toList digits := by
  have silent : d.IdsPass config ↔
      Rule.idFormat config d = [] ∧ Rule.idMatchesFeature config d = [] := by
    obtain ⟨ds, result, _⟩ := RuleSet.exists_evaluate_stock config d
    rw [IdsPass, result]
    simp only [Option.some.injEq, exists_eq_left']
    rw [RuleSet.silent_iff_of_evaluate result
      (Q := fun r => r.id = "id-format" ∨ r.id = "id-prefix-matches-feature") fun _ _ => Iff.rfl]
    simp [RuleSet.stock, Rule.total]
  rw [silent, Rule.idFormat_eq_nil_iff, Rule.idMatchesFeature_eq_nil_iff]
  constructor
  · rintro ⟨shaped, headed⟩ c hc
    obtain ⟨letters, digits, parts⟩ := shaped c hc
    rw [← headed c hc, parts.takeWhile_eq]
    exact ⟨digits, parts⟩
  · intro fit
    constructor
    · intro c hc
      exact ⟨_, fit c hc⟩
    · intro c hc
      obtain ⟨digits, parts⟩ := fit c hc
      exact parts.takeWhile_eq

/-- A document with a test case passes at best when its feature has ids. -/
theorem IdsPass.headsId (h : d.IdsPass config) (some : d.cases ≠ []) :
    HeadsId (config.idHead d.feature).toList := by
  obtain ⟨c, hc⟩ := List.exists_mem_of_ne_nil _ some
  exact ⟨c.id, idsPass_iff.1 h c hc⟩

end Document

namespace Config

variable {config : Config} {feature : String}

/-- Documents of the feature pass with this id, whatever else is in them. -/
def Admits (config : Config) (feature id : String) : Prop :=
  ∀ d : Document, d.feature = feature → (∀ c ∈ d.cases, c.id = id) → d.IdsPass config

theorem exists_admits_of_headsId (h : HeadsId (config.idHead feature).toList) :
    ∃ id, config.Admits feature id := by
  obtain ⟨id, digits, parts⟩ := h
  refine ⟨id, ?_⟩
  rintro d rfl same
  refine Document.idsPass_iff.2 fun c hc => ?_
  rw [same c hc]
  exact ⟨digits, parts⟩

/-- Take a feature that screenshot paths can name and that has no head of its own in the
configuration. If its name has no digit, there is an id with which all its documents pass both
rules on ids. If its name has a digit, its head keeps the digits of the name, and every document of
it that has a test case is reported by one of the two. -/
theorem admits_or_reported (config : Config) {feature : String}
    (plain : Screenshot.isFeatureName feature.toList = true)
    (unlisted : config.idHeads.lookup feature = none) :
    ((∀ c ∈ feature.toList, Text.isDigit c = false) → ∃ id, config.Admits feature id) ∧
      ((∃ c ∈ feature.toList, Text.isDigit c = true) →
        (config.idHead feature).toList.filter Text.isDigit = feature.toList.filter Text.isDigit ∧
        ∀ d : Document, d.feature = feature → d.cases ≠ [] → d.IdsReported config) := by
  have heads := headsId_idHead_iff plain unlisted
  constructor
  · exact fun free => exists_admits_of_headsId (heads.2 free)
  · rintro ⟨c, hc, digit⟩
    refine ⟨filter_isDigit_idHead unlisted, ?_⟩
    rintro d rfl some
    rcases Document.idsPass_or_idsReported with pass | reported
    · have free := heads.1 (pass.headsId some) c hc
      rw [digit] at free
      cases free
    · exact reported

theorem admits_or_reported_twoFactor :
    Screenshot.isFeatureName "two-factor".toList = true ∧
      ({} : Config).idHeads.lookup "two-factor" = none ∧
      ∃ id, ({} : Config).Admits "two-factor" id := by
  have plain : Screenshot.isFeatureName "two-factor".toList = true := by decide
  refine ⟨plain, rfl, (admits_or_reported {} plain rfl).1 fun c hc => ?_⟩
  have free : "two-factor".toList.all (!Text.isDigit ·) = true := by decide
  simpa using List.all_eq_true.1 free c hc

/-- Under the stock configuration no document of this feature passes, whatever its ids are. -/
theorem not_idsPass_2fa :
    Screenshot.isFeatureName "2fa".toList = true ∧ ({} : Config).idHeads.lookup "2fa" = none ∧
      ¬∃ d : Document, d.feature = "2fa" ∧ d.cases ≠ [] ∧ d.IdsPass {} := by
  have plain : Screenshot.isFeatureName "2fa".toList = true := by decide
  refine ⟨plain, rfl, ?_⟩
  rintro ⟨d, named, some, pass⟩
  have free := @headsId_idHead_iff {} "2fa" plain rfl
  have heads := pass.headsId some
  rw [named] at heads
  exact absurd (free.1 heads '2' (by decide)) (by decide)

end Config

end ScriptAudit
