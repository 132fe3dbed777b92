/-!
# Sections

The headings that structure a test case, in the order in which they have to stand.
-/

namespace ScriptAudit

inductive Section where
  | prerequisites
  | setupScripts
  | startingUrl
  | testSteps
  | expectedUiState
  | expectedResult
  | screenshots
deriving DecidableEq, Repr, Inhabited

namespace Section

/-- All sections in canonical order. -/
def all : List Section :=
  [prerequisites, setupScripts, startingUrl, testSteps, expectedUiState, expectedResult,
    screenshots]

def label : Section → String
  | prerequisites => "Prerequisites"
  | setupScripts => "Setup Scripts"
  | startingUrl => "Starting URL"
  | testSteps => "Test Steps"
  | expectedUiState => "Expected UI State"
  | expectedResult => "Expected Result"
  | screenshots => "Screenshots"

/-- The place in the canonical order, from 0. -/
def rank : Section → Nat
  | prerequisites => 0
  | setupScripts => 1
  | startingUrl => 2
  | testSteps => 3
  | expectedUiState => 4
  | expectedResult => 5
  | screenshots => 6

def isRequired : Section → Bool
  | prerequisites | testSteps | expectedUiState | expectedResult => true
  | setupScripts | startingUrl | screenshots => false

/-- Labels are matched exactly, capitals included. -/
def ofLabel? (s : String) : Option Section :=
  all.find? (·.label = s)

theorem mem_all (s : Section) : s ∈ all := by
  cases s <;> decide

theorem all_getElem?_rank (s : Section) : all[s.rank]? = some s := by
  cases s <;> rfl

theorem eq_of_rank_eq {s r : Section} (h : s.rank = r.rank) : s = r := by
  have found := all_getElem?_rank s
  rw [h, all_getElem?_rank] at found
  exact (Option.some.inj found).symm

theorem ofLabel?_label (s : Section) : ofLabel? s.label = some s := by
  cases s <;> decide

theorem eq_of_label_eq {s r : Section} (h : s.label = r.label) : s = r := by
  have found := ofLabel?_label s
  rw [h, ofLabel?_label] at found
  exact (Option.some.inj found).symm

theorem quote_not_mem_label (s : Section) : '\'' ∉ s.label.toList := by
  cases s <;> decide

end Section

end ScriptAudit
