import ScriptAudit.Document
import ScriptAudit.Screenshot

/-!
# Features

A feature is a directory that directly holds documents. Its screenshots are the names of the PNG
files in the `screenshots` directory inside it, each once and in ascending order.
-/

namespace ScriptAudit

structure Feature where
  directory : Path
  name : String
  documents : List Path
  screenshots : List String
deriving DecidableEq, Repr, Inhabited

namespace Feature

def screenshotDirectory (f : Feature) : Path :=
  f.directory.join "screenshots"

/-- The screenshot that a placeholder refers to, when it points into this feature. -/
def reference? (f : Feature) (p : Placeholder) : Option String :=
  Screenshot.fileName? p.path f.name

end Feature

end ScriptAudit
