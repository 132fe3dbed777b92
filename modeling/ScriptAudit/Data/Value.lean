/-!
# Plain data

What a data file holds before anything is known about its meaning. Numbers that are not integers
are told apart from integers and otherwise not looked at.
-/

namespace ScriptAudit.Data

inductive Value where
  | null
  | bool (b : Bool)
  | int (n : Int)
  | real
  | text (s : String)
  | list (items : List Value)
  | table (entries : List (String × Value))
deriving Repr, Inhabited

end ScriptAudit.Data
