import ScriptAudit.Rule
import ScriptAudit.Screenshot
import ScriptAudit.Text.Alphanumeric
import ScriptAudit.Text.Ascending
import ScriptAudit.Text.Lowercase

/-!
# The stock rules

Fifteen rules on the test cases of a document and on its text. Each check is a function of the
configuration and the document that lists its findings in document order; none of them crashes.
-/

namespace ScriptAudit

namespace Rule

/-- A finding for each test case that the function objects to. -/
def perCase (judge : TestCase → Option Finding) (d : Document) : List Finding :=
  d.cases.filterMap judge

/-- A finding for each placeholder, with its test case, that the function objects to. -/
def perPlaceholder (judge : TestCase → Placeholder → Option Finding) (d : Document) :
    List Finding :=
  d.cases.flatMap fun c => c.screenshots.filterMap (judge c)

/-! ## Ids and names -/

def idFormat (_ : Config) : Document → List Finding :=
  perCase fun c =>
    if isTestId c.id.toList then none
    else some (.onLine c.line
      ("test case id '" ++ c.id ++ "' does not match UPPER-### (e.g. ACL-001)"))

/-- The part of an id before its first hyphen, or all of it. -/
def idHead (id : String) : String :=
  match Text.cutAt? (· == '-') id.toList with
  | some (head, _) => String.ofList head
  | none => id

def idMatchesFeature (config : Config) (d : Document) : List Finding :=
  let expected := config.idHead d.feature
  d.cases.filterMap fun c =>
    if idHead c.id = expected then none
    else some (.onLine c.line
      ("test case id prefix '" ++ idHead c.id ++ "' does not match feature '" ++ d.feature ++
        "' (expected '" ++ expected ++ "')"))

def nameNonempty (_ : Config) : Document → List Finding :=
  perCase fun c =>
    if Text.allBlank c.name.toList then
      some (.onLine c.line ("test case '" ++ c.id ++ "' has no name"))
    else none

/-! ## Prerequisites, URL and steps -/

def prerequisitesNonempty (_ : Config) : Document → List Finding :=
  perCase fun c =>
    if c.prerequisites.isEmpty then some (.onLine c.line "no prerequisites listed") else none

def isUsableUrl (url : String) : Bool :=
  ["http://", "https://", "/"].any fun start => start.toList.isPrefixOf url.toList

def startingUrlFormat (_ : Config) : Document → List Finding :=
  perCase fun c => c.startingUrl.bind fun url =>
    if isUsableUrl url.text then none
    else some (.onLine url.line
      ("starting URL '" ++ url.text ++ "' is neither absolute (http/https) nor root-relative"))

def stepsNonempty (_ : Config) : Document → List Finding :=
  perCase fun c =>
    if c.steps.isEmpty then some (.onLine c.line "Test Steps section lists no numbered steps")
    else none

/-- The first step that does not have the number of its place. -/
def misnumbered? (steps : List Step) : Option (Step × Nat) :=
  (steps.zip (List.range' 1 steps.length)).find? fun (s, expected) => s.number != expected

def stepNumbering (_ : Config) : Document → List Finding :=
  perCase fun c => (misnumbered? c.steps).map fun (s, expected) =>
    .onLine s.line ("step numbered " ++ toString s.number ++ ", expected " ++ toString expected)

/-! ## UI state and result -/

def uiStateMarker (config : Config) (d : Document) : List Finding :=
  let glyphs := "present (" ++ " ".intercalate config.markers.present ++ ") or absent (" ++
    " ".intercalate config.markers.absent ++ ")"
  (d.cases.flatMap (·.expectedUiState)).filterMap fun e =>
    if e.marker.isSome then none
    else some (.onLine e.line
      ("Expected UI State line '" ++ e.element ++ "' does not start with a " ++ glyphs ++
        " marker"))

def uiStateNonempty (_ : Config) : Document → List Finding :=
  perCase fun c =>
    if c.expectedUiState.isEmpty then
      some (.onLine c.line "Expected UI State section has no entries")
    else none

/-- Lower-case text with single spaces and without dots and exclamation marks at its end. -/
def normalize (s : List Char) : List Char :=
  Text.lower (Text.dropEndWhile (fun c => c == '.' || c == '!') ([' '].intercalate (Text.words s)))

def allSteps (steps : List Step) : List Char :=
  [' '].intercalate (steps.map (·.text.toList))

def expectedResultNonempty (_ : Config) : Document → List Finding :=
  perCase fun c =>
    let line := c.expectedResult.line
    let result := normalize c.expectedResult.text.toList
    if result.isEmpty then some (.onLine line "Expected Result is empty")
    else
      match c.steps.find? fun s => normalize s.text.toList = result with
      | some s =>
        some (.onLine line ("Expected Result repeats step " ++ toString s.number ++ " verbatim"))
      | none =>
        if result = normalize (allSteps c.steps) then
          some (.onLine line "Expected Result repeats the test steps verbatim")
        else none

/-! ## Screenshots -/

def screenshotPathShape (_ : Config) : Document → List Finding :=
  perPlaceholder fun c shot =>
    match Screenshot.parse? shot.path with
    | none => some (.onLine shot.line
        ("screenshot path '" ++ shot.path ++
          "' does not match qa/<feature>/screenshots/<id>_<step>-<element>.png"))
    | some s =>
      if s.testId = c.id then none
      else some (.onLine shot.line
        ("screenshot path '" ++ shot.path ++ "' names test '" ++ s.testId ++
          "' but the test case id is '" ++ c.id ++ "'"))

def screenshotFeatureMatch (_ : Config) (d : Document) : List Finding :=
  d.placeholders.filterMap fun shot =>
    (Screenshot.featureSegment? shot.path).bind fun feature =>
      if feature = d.feature then none
      else some (.onLine shot.line
        ("screenshot path '" ++ shot.path ++ "' belongs to feature '" ++ feature ++
          "' but the document is in feature '" ++ d.feature ++ "' (" ++ feature ++ " != " ++
          d.feature ++ ")"))

def screenshotStepExists (_ : Config) : Document → List Finding :=
  perPlaceholder fun c shot => (Screenshot.parse? shot.path).bind fun s =>
    if c.steps.any (·.number = s.step) then none
    else some (.onLine shot.line
      ("screenshot '" ++ shot.path ++ "' refers to step " ++ toString s.step ++
        ", which does not exist"))

/-! ## The whole text -/

def modeWords (config : Config) : Mode → List String
  | .mock => config.modes.mock
  | .full => config.modes.full

/-- Each line that holds one of the words, with the first of them in the list. -/
def wordHits (words : List (List Char)) (lines : List (Nat × List Char)) :
    List (Nat × List Char) :=
  lines.filterMap fun (n, text) =>
    (words.find? fun w => Text.occursIn w (Text.lower text)).map fun w => (n, w)

def modeExclusivity (config : Config) (d : Document) : List Finding :=
  let other := d.mode.opposite
  match wordHits ((modeWords config other).map fun w => Text.lower w.toList) d.lines with
  | [] => []
  | (line, word) :: more =>
    [.onLine line (d.mode.label ++ " document contains " ++ other.label ++ "-mode marker '" ++
      String.ofList word ++ "'" ++
      if more.isEmpty then "" else " (and " ++ toString more.length ++ " more line(s))")]

/-- The first keyword that a word is, in the singular or with one `s` behind it. -/
def role? (keywords : List (List Char)) (word : List Char) : Option (List Char) :=
  let singular := if word.getLast? = some 's' then word.dropLast else word
  keywords.find? fun k => k = word || k = singular

/-- The roles that a test case mentions in its name, prerequisites and steps, each once and in
ascending order. -/
def rolesOf (keywords : List (List Char)) (c : TestCase) : List String :=
  let texts := c.name :: c.prerequisites.map (·.text) ++ c.steps.map (·.text)
  let words := texts.flatMap fun s => Text.runs (fun ch => !Text.isAlphanumeric ch) s.toList
  Text.ascending (words.filterMap fun w => (role? keywords (Text.lower w)).map String.ofList)

def singleScenario (config : Config) : Document → List Finding :=
  let keywords := config.roles.keywords.map fun k => Text.lower k.toList
  perCase fun c =>
    let roles := rolesOf keywords c
    if config.roles.threshold ≤ roles.length then
      some (.onLine c.line ("mentions " ++ toString roles.length ++ " distinct roles (" ++
        ", ".intercalate roles ++ "); a document should describe one scenario"))
    else none

/-- A rule whose check cannot crash. -/
def total (id : String) (severity : Severity) (summary : String)
    (check : Config → Document → List Finding) : Rule :=
  { id, severity, summary, check := fun config d => some (check config d) }

end Rule

namespace RuleSet

open Rule

/-- All stock rules with their stock severities, in evaluation order. -/
def stock : RuleSet where
  rules := [
    total "id-format" .error "test case id matches UPPER-###" idFormat,
    total "id-prefix-matches-feature" .error "test case id prefix equals the feature code"
      idMatchesFeature,
    total "name-nonempty" .warning "test case heading carries a name after the id" nameNonempty,
    total "prerequisites-nonempty" .warning "at least one prerequisite is listed"
      prerequisitesNonempty,
    total "starting-url-format" .warning "starting URL is absolute or root-relative"
      startingUrlFormat,
    total "steps-nonempty" .error "at least one test step" stepsNonempty,
    total "step-numbering" .warning "steps are numbered 1..n without gaps" stepNumbering,
    total "ui-state-marker" .error
      "every Expected UI State line starts with a present/absent marker" uiStateMarker,
    total "ui-state-nonempty" .warning "at least one Expected UI State entry" uiStateNonempty,
    total "expected-result-nonempty" .warning
      "expected result is present and does not repeat the steps" expectedResultNonempty,
    total "screenshot-path-shape" .error
      "placeholder path is qa/<feature>/screenshots/<id>_<step>-<element>.png"
      screenshotPathShape,
    total "screenshot-feature-match" .error
      "placeholder feature segment equals the document feature" screenshotFeatureMatch,
    total "screenshot-step-exists" .warning
      "placeholder step number refers to an existing step" screenshotStepExists,
    total "mode-exclusivity" .error "body carries no marker of the opposite mode"
      modeExclusivity,
    total "single-scenario-heuristic" .warning
      "prerequisites and steps do not mix several roles" singleScenario]

end RuleSet

end ScriptAudit
