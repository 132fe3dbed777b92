import ScriptAudit.Diagnostic
import ScriptAudit.Feature
import ScriptAudit.Text.Ascending
import ScriptAudit.Text.Lowercase

/-!
# Consistency of a feature

What the documents of one feature and its screenshots say about each other: ids declared twice,
documents placed or declared against their mode, screenshots referred to but missing, and
screenshots that nothing refers to. The last is reported only when every document of the feature
could be read, since one that could not may hold the reference.
-/

namespace ScriptAudit

namespace Consistency

def diagnostic (severity : Severity) (ruleId file : String) (line : Option Nat)
    (message : String) : Diagnostic :=
  { file, line, ruleId, severity, message, kind := .consistencyError }

/-! ## Ids -/

/-- Where an id is declared: the file and the line of the test case. -/
abbrev Owner := String × Nat

def ownerLe (a b : Owner) : Bool :=
  a.1 < b.1 || (a.1 = b.1 && a.2 ≤ b.2)

/-- Every declaration of an id, in the order of file and line. -/
def owners (documents : List Document) (id : String) : List Owner :=
  sortBy ownerLe (documents.flatMap fun d =>
    (d.cases.filter (·.id = id)).map fun c => (d.file, c.line))

def declaredIds (documents : List Document) : List String :=
  Text.ascending (documents.flatMap fun d => d.cases.map (·.id))

def duplicateIds (documents : List Document) : List Diagnostic :=
  (declaredIds documents).filterMap fun id =>
    match owners documents id with
    | first :: second :: rest =>
      let all := first :: second :: rest
      some (diagnostic .error "duplicate-id" first.1 (some first.2)
        ("test case id '" ++ id ++ "' is declared by " ++ toString all.length ++ " documents: " ++
          ", ".intercalate (all.map (·.1))))
    | _ => none

/-! ## Modes -/

/-- The mode that a directory name pins on what it holds. -/
def directoryMode? (name : String) : Option (String × Mode) :=
  let lowered := String.ofList (Text.lower name.toList)
  if lowered = "mock" || lowered = "mocks" then some (lowered, .mock)
  else if lowered = "full" || lowered = "live" then some (lowered, .full)
  else none

/-- The nearest of the two enclosing directories that pins another mode than the document's. -/
def misplacement? (d : Document) : Option (String × Mode) :=
  (d.path.enclosing.filterMap fun dir => dir.fileName?.bind directoryMode?).find?
    fun (_, mode) => mode != d.mode

def placementFault (d : Document) : List Diagnostic :=
  (misplacement? d).toList.map fun (name, mode) =>
    diagnostic .error "mode-placement" d.file none
      (d.mode.label ++ " document is placed under a '" ++ name ++ "' directory, which holds " ++
        mode.label ++ " documents")

/-- A letter read without regard to case; the long s and the Kelvin sign are cases of `s` and
`k`. -/
def foldCase (c : Char) : Char :=
  if c = '\u017F' then 's' else if c = '\u212A' then 'k' else c.toLower

/-- What follows a word, read without regard to case. -/
def afterWord? (word s : List Char) : Option (List Char) :=
  if (s.take word.length).map foldCase = word then some (s.drop word.length) else none

/-- What follows the label of a mode declaration. -/
def afterModeLabel? (s : List Char) : Option (List Char) :=
  (afterWord? "mode".toList s).or
    ((afterWord? "services".toList s).or (afterWord? "service".toList s))

/-- The word that a text starting with `Mode:` or `Services:` declares. -/
def declaredWord? (s : List Char) : Option (List Char) := do
  match Text.trimStart (← afterModeLabel? s) with
  | ':' :: rest =>
    let word := (Text.trimStart rest).takeWhile fun c => (foldCase c).isLower
    if word.isEmpty then none else some word
  | _ => none

def wordMode? (word : List Char) : Option Mode :=
  let lowered := String.ofList (Text.lower word)
  if ["mock", "mocks", "mocked", "simulated"].contains lowered then some .mock
  else if ["full", "live", "real"].contains lowered then some .full
  else none

def declaredMode? (p : Passage) : Option Mode :=
  (declaredWord? p.text.toList).bind wordMode?

/-- The first prerequisite that declares a mode, when it is not the document's. -/
def declarationFault (d : Document) (c : TestCase) : Option Diagnostic :=
  (c.prerequisites.findSome? fun p => (declaredMode? p).map fun mode => (p, mode)).bind
    fun (p, mode) =>
      if mode = d.mode then none
      else some (diagnostic .error "mode-placement" d.file (some p.line)
        ("file name declares " ++ d.mode.label ++ " mode but prerequisites declare " ++
          mode.label ++ " services ('" ++ p.text ++ "')"))

def modeFaults (d : Document) : List Diagnostic :=
  placementFault d ++ d.cases.filterMap (declarationFault d)

/-! ## Screenshots -/

def missingScreenshots (f : Feature) (documents : List Document) : List Diagnostic :=
  documents.flatMap fun d => d.placeholders.filterMap fun p =>
    (f.reference? p).bind fun name =>
      if f.screenshots.contains name then none
      else some (diagnostic .warning "screenshot-missing" d.file (some p.line)
        ("screenshot '" ++ p.path ++ "' not found in " ++ f.screenshotDirectory.display))

def referenced (f : Feature) (documents : List Document) : List String :=
  documents.flatMap fun d => d.placeholders.filterMap f.reference?

def orphanedScreenshots (f : Feature) (documents : List Document) : List Diagnostic :=
  (f.screenshots.filter fun name => !(referenced f documents).contains name).map fun name =>
    diagnostic .info "screenshot-orphan" (f.screenshotDirectory.join name).display none
      "screenshot is not referenced by any placeholder"

end Consistency

/-- Checks a feature against those of its documents that could be read. -/
def Feature.check (f : Feature) (documents : List Document) : List Diagnostic :=
  Consistency.duplicateIds documents ++ documents.flatMap Consistency.modeFaults ++
    Consistency.missingScreenshots f documents ++
    if documents.length = f.documents.length then Consistency.orphanedScreenshots f documents
    else []

end ScriptAudit
