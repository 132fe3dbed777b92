import ScriptAudit.Proofs.Rule
import ScriptAudit.Rule.Stock

/-!
# Where the stock rules find something

No stock rule crashes. Each of them reports a line that the document holds: the line of some part of
a test case or, for the rule on modes, any line of the text.
-/

namespace ScriptAudit

/-- The lines of the fields of a test case, in the order in which the fields have to stand. -/
def TestCase.fieldLines (c : TestCase) : List Nat :=
  c.line :: (c.prerequisites.map (·.line) ++ (c.setupScript.map (·.line)).toList ++
    (c.startingUrl.map (·.line)).toList ++ c.steps.map (·.line) ++
    c.expectedUiState.map (·.line) ++ [c.expectedResult.line])

/-- All lines that a test case refers to. -/
def TestCase.anchors (c : TestCase) : List Nat :=
  c.fieldLines ++ c.screenshots.map (·.line)

/-- The finding names a line that some part of a test case, or of the text, stands on. -/
def Finding.Placed (d : Document) (f : Finding) : Prop :=
  ∃ n, f.line = some n ∧ ((∃ c ∈ d.cases, n ∈ c.anchors) ∨ ∃ text, (n, text) ∈ d.lines)

namespace TestCase

variable (c : TestCase)

theorem line_mem_anchors : c.line ∈ c.anchors :=
  List.mem_append_left _ List.mem_cons_self

theorem result_mem_anchors : c.expectedResult.line ∈ c.anchors := by
  simp [anchors, fieldLines]

theorem url_mem_anchors {url : Passage} (h : c.startingUrl = some url) : url.line ∈ c.anchors := by
  simp [anchors, fieldLines, h]

theorem step_mem_anchors {s : Step} (h : s ∈ c.steps) : s.line ∈ c.anchors := by
  have mem := List.mem_map_of_mem (f := Step.line) h
  simp [anchors, fieldLines, mem]

theorem uiEntry_mem_anchors {e : UiEntry} (h : e ∈ c.expectedUiState) : e.line ∈ c.anchors := by
  have mem := List.mem_map_of_mem (f := UiEntry.line) h
  simp [anchors, fieldLines, mem]

theorem screenshot_mem_anchors {s : Placeholder} (h : s ∈ c.screenshots) :
    s.line ∈ c.anchors :=
  List.mem_append_right _ (List.mem_map_of_mem h)

end TestCase

namespace Rule

theorem filterMap_placeholders (judge : Placeholder → Option Finding) (d : Document) :
    d.placeholders.filterMap judge = perPlaceholder (fun _ => judge) d :=
  List.filterMap_flatMap

/-- The check lists findings at lines of the document only. -/
def PlacesFindings (check : Document → List Finding) : Prop :=
  ∀ d, ∀ f ∈ check d, f.Placed d

theorem perCase_places {judge : TestCase → Option Finding}
    (h : ∀ c f, judge c = some f → ∃ n ∈ c.anchors, f.line = some n) :
    PlacesFindings (perCase judge) := by
  intro d f hf
  obtain ⟨c, hc, found⟩ := List.mem_filterMap.1 hf
  obtain ⟨n, anchor, line⟩ := h c f found
  exact ⟨n, line, Or.inl ⟨c, hc, anchor⟩⟩

/-- A rule that has one thing to say of a test case says it at the heading. -/
theorem perCase_places_at_heading {judge : TestCase → Option Finding}
    (h : ∀ c f, judge c = some f → f.line = some c.line) : PlacesFindings (perCase judge) :=
  perCase_places fun c f found => ⟨c.line, c.line_mem_anchors, h c f found⟩

theorem perPlaceholder_places {judge : TestCase → Placeholder → Option Finding}
    (h : ∀ c s f, judge c s = some f → f.line = some s.line) :
    PlacesFindings (perPlaceholder judge) := by
  intro d f hf
  obtain ⟨c, hc, hf⟩ := List.mem_flatMap.1 hf
  obtain ⟨s, hs, found⟩ := List.mem_filterMap.1 hf
  exact ⟨s.line, h c s f found, Or.inl ⟨c, hc, c.screenshot_mem_anchors hs⟩⟩

variable (config : Config)

theorem idFormat_places : PlacesFindings (idFormat config) := by
  apply perCase_places_at_heading
  intro c f found
  split at found <;> cases found
  rfl

theorem idMatchesFeature_places : PlacesFindings (idMatchesFeature config) := by
  intro d
  refine perCase_places_at_heading (fun c f found => ?_) d
  split at found <;> cases found
  rfl

theorem nameNonempty_places : PlacesFindings (nameNonempty config) := by
  apply perCase_places_at_heading
  intro c f found
  split at found <;> cases found
  rfl

theorem prerequisitesNonempty_places : PlacesFindings (prerequisitesNonempty config) := by
  apply perCase_places_at_heading
  intro c f found
  split at found <;> cases found
  rfl

theorem startingUrlFormat_places : PlacesFindings (startingUrlFormat config) := by
  apply perCase_places
  intro c f found
  obtain ⟨url, hurl, found⟩ := Option.bind_eq_some_iff.1 found
  split at found <;> cases found
  exact ⟨url.line, c.url_mem_anchors hurl, rfl⟩

theorem stepsNonempty_places : PlacesFindings (stepsNonempty config) := by
  apply perCase_places_at_heading
  intro c f found
  split at found <;> cases found
  rfl

theorem stepNumbering_places : PlacesFindings (stepNumbering config) := by
  apply perCase_places
  intro c f found
  obtain ⟨⟨s, expected⟩, first, rfl⟩ := Option.map_eq_some_iff.1 found
  have hs := (List.of_mem_zip (List.mem_of_find?_eq_some first)).1
  exact ⟨s.line, c.step_mem_anchors hs, rfl⟩

theorem uiStateMarker_places : PlacesFindings (uiStateMarker config) := by
  intro d f hf
  obtain ⟨e, he, found⟩ := List.mem_filterMap.1 hf
  obtain ⟨c, hc, he⟩ := List.mem_flatMap.1 he
  split at found <;> cases found
  exact ⟨e.line, rfl, Or.inl ⟨c, hc, c.uiEntry_mem_anchors he⟩⟩

theorem uiStateNonempty_places : PlacesFindings (uiStateNonempty config) := by
  apply perCase_places_at_heading
  intro c f found
  split at found <;> cases found
  rfl

theorem expectedResultNonempty_places : PlacesFindings (expectedResultNonempty config) := by
  refine perCase_places fun c f found => ⟨_, c.result_mem_anchors, ?_⟩
  dsimp only at found
  split at found
  · cases found
    rfl
  · split at found
    · cases found
      rfl
    · split at found <;> cases found
      rfl

theorem screenshotPathShape_places : PlacesFindings (screenshotPathShape config) := by
  apply perPlaceholder_places
  intro c s f found
  split at found
  · cases found
    rfl
  · split at found <;> cases found
    rfl

theorem screenshotFeatureMatch_places : PlacesFindings (screenshotFeatureMatch config) := by
  intro d f hf
  obtain ⟨s, hs, found⟩ := List.mem_filterMap.1 hf
  obtain ⟨c, hc, hs⟩ := List.mem_flatMap.1 hs
  obtain ⟨feature, _, found⟩ := Option.bind_eq_some_iff.1 found
  split at found <;> cases found
  exact ⟨s.line, rfl, Or.inl ⟨c, hc, c.screenshot_mem_anchors hs⟩⟩

theorem screenshotStepExists_places : PlacesFindings (screenshotStepExists config) := by
  apply perPlaceholder_places
  intro c s f found
  obtain ⟨shot, _, found⟩ := Option.bind_eq_some_iff.1 found
  split at found <;> cases found
  rfl

theorem modeExclusivity_places : PlacesFindings (modeExclusivity config) := by
  intro d f hf
  simp only [modeExclusivity] at hf
  split at hf
  · cases hf
  · rename_i line word more hits
    rw [List.mem_singleton] at hf
    subst hf
    obtain ⟨⟨n, text⟩, hl, found⟩ := List.mem_filterMap.1
      (show (line, word) ∈ wordHits _ d.lines by rw [hits]; exact List.mem_cons_self)
    obtain ⟨w, _, same⟩ := Option.map_eq_some_iff.1 found
    cases same
    exact ⟨line, rfl, Or.inr ⟨text, hl⟩⟩

theorem singleScenario_places : PlacesFindings (singleScenario config) := by
  apply perCase_places_at_heading
  intro c f found
  dsimp only at found
  split at found <;> cases found
  rfl

/-- No stock rule crashes, and each of them finds at lines of the document only. -/
theorem stock_places {r : Rule} (hr : r ∈ RuleSet.stock.rules) :
    ∃ check : Config → Document → List Finding,
      (∀ config d, r.check config d = some (check config d)) ∧
        ∀ config, PlacesFindings (check config) := by
  have all : ∀ r ∈ RuleSet.stock.rules, ∃ check : Config → Document → List Finding,
      (∀ config d, r.check config d = some (check config d)) ∧
        ∀ config, PlacesFindings (check config) := by
    simp only [RuleSet.stock, List.forall_mem_cons, List.not_mem_nil, false_imp_iff, implies_true,
      and_true]
    exact ⟨⟨_, fun _ _ => rfl, idFormat_places⟩, ⟨_, fun _ _ => rfl, idMatchesFeature_places⟩,
      ⟨_, fun _ _ => rfl, nameNonempty_places⟩, ⟨_, fun _ _ => rfl, prerequisitesNonempty_places⟩,
      ⟨_, fun _ _ => rfl, startingUrlFormat_places⟩, ⟨_, fun _ _ => rfl, stepsNonempty_places⟩,
      ⟨_, fun _ _ => rfl, stepNumbering_places⟩, ⟨_, fun _ _ => rfl, uiStateMarker_places⟩,
      ⟨_, fun _ _ => rfl, uiStateNonempty_places⟩,
      ⟨_, fun _ _ => rfl, expectedResultNonempty_places⟩,
      ⟨_, fun _ _ => rfl, screenshotPathShape_places⟩,
      ⟨_, fun _ _ => rfl, screenshotFeatureMatch_places⟩,
      ⟨_, fun _ _ => rfl, screenshotStepExists_places⟩,
      ⟨_, fun _ _ => rfl, modeExclusivity_places⟩, ⟨_, fun _ _ => rfl, singleScenario_places⟩⟩
  exact all r hr

end Rule

theorem RuleSet.exists_evaluate_stock (config : Config) (d : Document) :
    ∃ ds, stock.evaluate config d = some ds ∧
      ∀ x ∈ ds, ∃ n, x.line = some n ∧
        ((∃ c ∈ d.cases, n ∈ c.anchors) ∨ ∃ text, (n, text) ∈ d.lines) := by
  have result : (stock.evaluate config d).isSome = true := by
    apply evaluate_isSome_iff.2
    intro r hr
    obtain ⟨check, total, _⟩ := Rule.stock_places hr
    rw [total]
    rfl
  obtain ⟨ds, found⟩ := Option.isSome_iff_exists.1 result
  refine ⟨ds, found, fun x hx => ?_⟩
  obtain ⟨r, hr, fs, run, f, hf, rfl⟩ := (mem_iff_of_evaluate found).1 hx
  obtain ⟨check, total, places⟩ := Rule.stock_places hr
  rw [total] at run
  cases run
  exact places config d f hf

end ScriptAudit
