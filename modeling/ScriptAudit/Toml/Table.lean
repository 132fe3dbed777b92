import ScriptAudit.Data.Value

/-!
# Building TOML tables

Tables come to be in four ways: by a header, implied by a longer header, by a dotted key, and as an
element of an array of tables. Who may add to a table later depends on how it came to be: a header
may complete an implied table, dotted keys may add to a dotted one, and nothing is defined twice.
-/

namespace ScriptAudit.Toml

/-- How a table came to be. -/
inductive Origin where
  | defined
  | implied
  | dotted
deriving DecidableEq, Repr

inductive Item where
  | value (v : Data.Value)
  | table (origin : Origin) (entries : List (String × Item))
  | tables (elements : List (List (String × Item)))
deriving Inhabited

abbrev Entries := List (String × Item)

/-- Gives a key an item, in its place or at the end. -/
def put (key : String) (item : Item) : Entries → Entries
  | [] => [(key, item)]
  | (k, old) :: rest => if k = key then (k, item) :: rest else (k, old) :: put key item rest

/-- Changes the table at the end of a path. Tables missing on the way are made, dotted or implied;
an array of tables stands for its last element. Dotted keys do not pass through tables that a
header defined. -/
def descend (dotted : Bool) (change : Origin → Entries → Option Entries) :
    List String → Origin → Entries → Option Entries
  | [], origin, entries => change origin entries
  | key :: path, _, entries =>
    match entries.lookup key with
    | none =>
      let origin := if dotted then .dotted else .implied
      (descend dotted change path origin []).map fun inner =>
        put key (.table origin inner) entries
    | some (.value _) => none
    | some (.tables elements) =>
      (descend dotted change path .defined (elements.getLast?.getD [])).map fun inner =>
        put key (.tables (elements.dropLast ++ [inner])) entries
    | some (.table origin inner) =>
      if dotted && origin = .defined then none
      else (descend dotted change path origin inner).map fun inner =>
        put key (.table origin inner) entries

/-- Gives a dotted key its value. The table that takes it has to be dotted exactly when the key has
more than one part, and must not hold the last part yet. -/
def assign (key : List String) (v : Data.Value) (entries : Entries) : Option Entries :=
  match key.getLast? with
  | none => none
  | some last =>
    descend true (fun origin inner =>
      if (origin == .dotted) == key.dropLast.isEmpty then none
      else if (inner.lookup last).isSome then none
      else some (put last (.value v) inner)) key.dropLast .defined entries

/-- Defines the table of a header. -/
def define (key : List String) (root : Entries) : Option Entries :=
  match key.getLast? with
  | none => none
  | some last =>
    descend false (fun _ inner =>
      match inner.lookup last with
      | none => some (put last (.table .defined []) inner)
      | some (.table .implied own) => some (put last (.table .defined own) inner)
      | some _ => none) key.dropLast .defined root

/-- Adds an element to the array of tables of a header. -/
def extend (key : List String) (root : Entries) : Option Entries :=
  match key.getLast? with
  | none => none
  | some last =>
    descend false (fun _ inner =>
      match inner.lookup last with
      | none => some (put last (.tables [[]]) inner)
      | some (.tables elements) => some (put last (.tables (elements ++ [[]])) inner)
      | some _ => none) key.dropLast .defined root

/-- Changes the table that the last header opened. -/
def within (change : Entries → Option Entries) : List String → Entries → Option Entries
  | [], entries => change entries
  | key :: path, entries =>
    match entries.lookup key with
    | some (.table origin inner) =>
      (within change path inner).map fun inner => put key (.table origin inner) entries
    | some (.tables elements) =>
      (within change path (elements.getLast?.getD [])).map fun inner =>
        put key (.tables (elements.dropLast ++ [inner])) entries
    | _ => none

mutual

def Item.toValue : Item → Data.Value
  | .value v => v
  | .table _ entries => .table (entriesToValues entries)
  | .tables elements => .list (elementsToValues elements)

def entriesToValues : List (String × Item) → List (String × Data.Value)
  | [] => []
  | (key, item) :: rest => (key, item.toValue) :: entriesToValues rest

def elementsToValues : List (List (String × Item)) → List Data.Value
  | [] => []
  | entries :: rest => .table (entriesToValues entries) :: elementsToValues rest

end

end ScriptAudit.Toml
