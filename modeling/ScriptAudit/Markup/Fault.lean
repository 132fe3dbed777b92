import ScriptAudit.Diagnostic
import ScriptAudit.Markup.Placeholder
import ScriptAudit.Section

/-!
# Structural faults

What can be wrong with the structure of a document, the rule that each fault is reported under and
its wording.
-/

namespace ScriptAudit.Markup

inductive Fault where
  | noModeInFileName
  | noTestCase
  | repeatedTestCase
  | contentBeforeTestCase
  | strayContent
  | repeatedSection (s : Section)
  | sectionOutOfOrder (s : Section)
  /-- Holds the nearest earlier section that was opened, if one was, and where it ends. -/
  | missingSection (s : Section) (previous : Option Section) (line : Nat)
  | openFence
  | placeholder (fault : PlaceholderFault)
  | severalUrls
  | textBeforeSteps
deriving DecidableEq, Repr

namespace Fault

def ruleId : Fault → String
  | noModeInFileName => "filename-mode"
  | noTestCase => "missing-test-case"
  | repeatedTestCase => "multiple-test-cases"
  | contentBeforeTestCase => "content-before-heading"
  | strayContent => "stray-content"
  | repeatedSection _ | sectionOutOfOrder _ => "section-order"
  | missingSection .. => "missing-section"
  | openFence => "unclosed-fence"
  | placeholder _ => "placeholder-syntax"
  | severalUrls => "starting-url"
  | textBeforeSteps => "step-syntax"

def message : Fault → String
  | noModeInFileName => "file name must end in .mock.md or .full.md"
  | noTestCase => "no 'Test Case:' heading found"
  | repeatedTestCase => "multiple test cases per file; a document holds exactly one test case"
  | contentBeforeTestCase => "content before the 'Test Case:' heading"
  | strayContent => "text between the Test Case heading and the first section"
  | repeatedSection s => "section '" ++ s.label ++ "' repeated"
  | sectionOutOfOrder s => "section '" ++ s.label ++ "' out of order"
  | missingSection s previous line =>
    "missing required section '" ++ s.label ++ "' (expected after '" ++
      (previous.map Section.label).getD "Test Case" ++ "', which ends at line " ++ toString line ++
      ")"
  | openFence => "code fence is never closed; the rest of the file is swallowed by it"
  | placeholder .unclosed => "unbalanced screenshot placeholder: missing closing '>'"
  | placeholder .nested => "unbalanced screenshot placeholder: '<' inside placeholder"
  | placeholder (.noSeparator inner) =>
    "screenshot placeholder '" ++ String.ofList inner ++ "' is missing the '|' separator"
  | placeholder .emptyPath => "screenshot placeholder has an empty path"
  | severalUrls => "Starting URL must be a single line"
  | textBeforeSteps => "text before the first numbered step"

def diagnostic (file : String) (line : Option Nat) (f : Fault) : Diagnostic :=
  .malformed file line f.ruleId f.message

end Fault

end ScriptAudit.Markup
