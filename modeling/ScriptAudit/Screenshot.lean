import ScriptAudit.Text.Cut
import ScriptAudit.Text.Decimal

/-!
# Screenshot references

A well-formed reference is `qa/<feature>/screenshots/<test id>_<step>-<element>.png`. `parse?`
accepts exactly that; `featureSegment?` and `fileName?` read one segment of a path that need not
have the whole shape.
-/

namespace ScriptAudit

/-- What a well-formed screenshot path names. -/
structure Screenshot where
  feature : String
  testId : String
  step : Nat
  element : String
deriving DecidableEq, Repr

/-- Step numbers are 32-bit. -/
def stepBound : Nat := Nat.pow 2 32

/-- Capitals, a hyphen and at least three digits. -/
def isTestId (s : List Char) : Bool :=
  match Text.cutAt? (· == '-') s with
  | some (letters, digits) =>
    !letters.isEmpty && letters.all Char.isUpper && 3 ≤ digits.length && digits.all Text.isDigit
  | none => false

namespace Screenshot

def isLowerAlphanumeric (c : Char) : Bool :=
  c.isLower || Text.isDigit c

def isFeatureName : List Char → Bool
  | [] => false
  | c :: rest =>
    isLowerAlphanumeric c && rest.all fun c => isLowerAlphanumeric c || c == '_' || c == '-'

/-- Lower-case words joined by single hyphens. -/
def isElementName (s : List Char) : Bool :=
  (s.splitOn '-').all fun word => !word.isEmpty && word.all isLowerAlphanumeric

def parse? (path : String) : Option Screenshot := do
  let rest ← Text.after? "qa/".toList path.toList
  let (feature, rest) ← Text.cutAt? (· == '/') rest
  let rest ← Text.after? "screenshots/".toList rest
  let (testId, rest) ← Text.cutAt? (· == '_') rest
  let (digits, rest) ← Text.cutAt? (· == '-') rest
  let (element, ending) ← Text.cutAt? (· == '.') rest
  let step ← Text.decimalBelow? stepBound digits
  guard (isFeatureName feature && isTestId testId && 2 ≤ digits.length && isElementName element &&
    ending == "png".toList)
  return { feature := String.ofList feature, testId := String.ofList testId, step,
           element := String.ofList element }

/-- The segment behind `qa/` in any path that starts so. -/
def featureSegment? (path : String) : Option String :=
  match path.toList.splitOn '/' with
  | top :: feature :: _ =>
    if top = "qa".toList && !feature.isEmpty then some (String.ofList feature) else none
  | _ => none

/-- The file that a path names directly in the screenshot directory of `feature`. -/
def fileName? (path feature : String) : Option String :=
  match path.toList.splitOn '/' with
  | [top, owner, directory, name] =>
    if top = "qa".toList && owner = feature.toList && directory = "screenshots".toList &&
        !name.isEmpty then
      some (String.ofList name)
    else none
  | _ => none

end Screenshot

end ScriptAudit
