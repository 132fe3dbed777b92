import ScriptAudit.Tree

/-!
# Editing file trees

Setting and removing the node at a position, and the writes that a caller makes by path. Each edit
keeps directories in order and their names possible, which is what a `Tree` has to prove; a position
with a name that no entry can have is not set.
-/

namespace ScriptAudit

namespace Node

/-- Puts a node under a name into ascending entries, in place of what had the name. -/
def setEntry (name : String) (node : Node) : List (String × Node) → List (String × Node)
  | [] => [(name, node)]
  | (other, old) :: rest =>
    if name < other then (name, node) :: (other, old) :: rest
    else if name = other then (name, node) :: rest
    else (other, old) :: setEntry name node rest

def removeEntry (name : String) (entries : List (String × Node)) : List (String × Node) :=
  entries.filter (·.1 != name)

/-- Puts a node at a position; what is on the way and is no directory becomes an empty one. -/
def set : Node → Position → Node → Node
  | _, [], node => node
  | n, name :: rest, node =>
    directory (setEntry name (set ((n.entries.lookup name).getD empty) rest node) n.entries)

/-- Removes the node at a position below the top. -/
def remove : Node → Position → Node
  | n, [] => n
  | n, [name] => directory (removeEntry name n.entries)
  | n, name :: rest =>
    match n.entries.lookup name with
    | some child => directory (setEntry name (remove child rest) n.entries)
    | none => n

theorem mem_setEntry {name : String} {node : Node} {es : List (String × Node)} {e : String × Node}
    (h : e ∈ setEntry name node es) : e = (name, node) ∨ e ∈ es := by
  induction es with
  | nil => exact Or.inl (by simpa [setEntry] using h)
  | cons head rest ih =>
    unfold setEntry at h
    split at h
    · rcases List.mem_cons.1 h with rfl | h
      · exact Or.inl rfl
      · exact Or.inr h
    · split at h
      · rcases List.mem_cons.1 h with rfl | h
        · exact Or.inl rfl
        · exact Or.inr (List.mem_cons_of_mem _ h)
      · rcases List.mem_cons.1 h with rfl | h
        · exact Or.inr List.mem_cons_self
        · exact (ih h).imp_right (List.mem_cons_of_mem _)

theorem wellFormedEntries_setEntry {name : String} {node : Node}
    (named : isEntryName name = true) (hn : node.WellFormed) {es : List (String × Node)}
    (h : WellFormedEntries es) : WellFormedEntries (setEntry name node es) := by
  induction es with
  | nil => exact ⟨named, hn, by simp, trivial⟩
  | cons head rest ih =>
    obtain ⟨other, old⟩ := head
    obtain ⟨hother, hold, hlt, hrest⟩ := h
    unfold setEntry
    split
    · rename_i before
      refine ⟨named, hn, fun e he => ?_, hother, hold, hlt, hrest⟩
      rcases List.mem_cons.1 he with rfl | he
      · exact before
      · exact String.lt_trans before (hlt e he)
    · split
      · rename_i same
        exact ⟨named, hn, fun e he => same ▸ hlt e he, hrest⟩
      · rename_i before same
        refine ⟨hother, hold, fun e he => ?_, ih hrest⟩
        rcases mem_setEntry he with rfl | he
        · exact String.not_le.1 fun le => same (String.le_antisymm le (String.not_lt.1 before))
        · exact hlt e he

theorem wellFormedEntries_filter {p : String × Node → Bool} {es : List (String × Node)}
    (h : WellFormedEntries es) : WellFormedEntries (es.filter p) := by
  induction es with
  | nil => exact trivial
  | cons head rest ih =>
    obtain ⟨named, hold, hlt, hrest⟩ := h
    rw [List.filter_cons]
    split
    · exact ⟨named, hold, fun e he => hlt e (List.mem_filter.1 he).1, ih hrest⟩
    · exact ih hrest

theorem wellFormed_set {node n : Node} (hn : node.WellFormed) (h : n.WellFormed)
    {pos : Position} (named : pos.all isEntryName = true) : (set n pos node).WellFormed := by
  induction pos generalizing n with
  | nil => exact hn
  | cons name rest ih =>
    obtain ⟨hname, hrest⟩ := Bool.and_eq_true_iff.1 named
    refine wellFormedEntries_setEntry hname (ih ?_ hrest) h.entries
    cases found : n.entries.lookup name with
    | none => exact trivial
    | some child => exact (h.entries.lookup found).2

theorem wellFormed_remove {n : Node} (h : n.WellFormed) (pos : Position) :
    (remove n pos).WellFormed := by
  induction pos generalizing n with
  | nil => exact h
  | cons name rest ih =>
    cases rest with
    | nil => exact wellFormedEntries_filter h.entries
    | cons second rest =>
      unfold remove
      split
      · rename_i child found
        obtain ⟨named, hchild⟩ := h.entries.lookup found
        exact wellFormedEntries_setEntry named (ih hchild) h.entries
      · exact h

end Node

namespace Tree

/-- The tree changed at a position; one that cannot be stays as it is. -/
def set (t : Tree) (pos : Position) (node : Node) (h : node.WellFormed) : Tree :=
  if named : pos.all isEntryName = true then
    { t with top := t.top.set pos node, wellFormed := Node.wellFormed_set h t.wellFormed named }
  else t

/-- The tree with one empty working directory in it. -/
def empty (workDir : Position) : Tree :=
  Tree.set { top := Node.empty, workDir, wellFormed := trivial } workDir Node.empty trivial

def remove (t : Tree) (pos : Position) : Tree :=
  { t with top := t.top.remove pos, wellFormed := Node.wellFormed_remove t.wellFormed pos }

/-- The position at which a new node goes for a path: `follow` says where a link leads, and what
does not exist is taken by name. -/
def placeFrom (top : Node) (follow : Position → String → Path → Position) (pos : Position)
    (segments : List (List Char)) : Position :=
  segments.foldl (fun pos segment =>
    if Path.isVoid segment then pos
    else if segment = ['.', '.'] then pos.dropLast
    else
      let name := String.ofList segment
      match (top.at? pos).bind fun n => n.entries.lookup name with
      | some (.link target) => follow pos name target
      | _ => pos ++ [name]) pos

/-- Follows at most `links` links, also those that lead to nothing yet. -/
def placeWithin (top : Node) : Nat → Position → List (List Char) → Position
  | 0 => placeFrom top fun pos name _ => pos ++ [name]
  | links + 1 => placeFrom top fun pos _ target =>
      placeWithin top links (startOf target pos) target.segments

def place (t : Tree) (p : Path) : Position :=
  placeWithin t.top linkLimit (startOf p t.workDir) p.segments

/-- The place of the entry that a path names, a link not followed. -/
def entryPlace (t : Tree) (p : Path) : Position :=
  match p.fileName? with
  | some name => t.place p.directory ++ [name]
  | none => t.place p

def write (t : Tree) (p : Path) (content : Content) : Tree :=
  t.set (t.place p) (.file content) trivial

def makeDirectory (t : Tree) (p : Path) : Tree :=
  let pos := t.place p
  match t.top.at? pos with
  | some (.directory _) => t
  | _ => t.set pos Node.empty trivial

def makeLink (t : Tree) (p target : Path) : Tree :=
  t.set (t.entryPlace p) (.link target) trivial

def delete (t : Tree) (p : Path) : Tree :=
  t.remove (t.entryPlace p)

end Tree

end ScriptAudit
