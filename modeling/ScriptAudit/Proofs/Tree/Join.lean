import ScriptAudit.Proofs.Tree

/-!
# Names appended to a path

A path with a name appended has that name, lies in the directory that the path leads to, and leads
to the entry of that name. Without links, whether it leads anywhere, and where, depends only on
where the path leads and not on how it is written.
-/

namespace ScriptAudit

namespace Path

theorem getLast?_parts {p : Path} {front : List (List Char)} {s : List Char} {part : Part}
    (split : p.segments = front ++ [s]) (some : front ≠ []) (denotes : innerPart? s = .some part) :
    p.parts.getLast? = .some part := by
  obtain ⟨first, rest, rfl⟩ := List.exists_cons_of_ne_nil some
  rw [List.cons_append] at split
  obtain ⟨head, parts_eq, _⟩ := exists_parts_eq split
  rw [parts_eq, List.filterMap_append, List.filterMap_cons_some denotes, List.filterMap_nil,
    ← List.append_assoc, List.getLast?_concat]

theorem fileName?_join {p : Path} (some : p.text ≠ "") {name : String}
    (named : isEntryName name = true) : (p.join name).fileName? = .some name := by
  obtain ⟨front, nonempty, _, joined⟩ := segments_join some
  have denotes := Tree.innerPart?_of_isEntryName named
  rw [fileName?, getLast?_parts (joined named) nonempty denotes]

theorem filter_of_void {pieces : List (List Char)} (void : ∀ s ∈ pieces, isVoid s = true) :
    pieces.filter (!isVoid ·) = [] :=
  List.filter_eq_nil_iff.2 fun s hs => by simp [void s hs]

theorem steps_join {p : Path} (some : p.text ≠ "") {name : String}
    (named : isEntryName name = true) : (p.join name).steps = p.steps ++ [name.toList] := by
  obtain ⟨front, _, before, joined⟩ := segments_join some
  have kept : isVoid name.toList = false := by
    simp only [isEntryName, Bool.and_eq_true, Bool.not_eq_true'] at named
    exact named.1.1.1.1
  have own : [name.toList].filter (!isVoid ·) = [name.toList] := by simp [kept]
  simp only [steps]
  rw [joined named, List.filter_append, own]
  rcases before with same | same
  · rw [same]
  · have nothing : [[]].filter (!isVoid ·) = [] := by simp [isVoid]
    rw [same, List.filter_append, nothing, List.append_nil]

/-- The directory of a file is the path without the name of the file. -/
theorem FiledUnder.steps_eq {p : Path} {name : String} {front gap own after : List (List Char)}
    (filed : p.FiledUnder name front gap own after) :
    p.steps = p.directory.steps ++ [name.toList] := by
  have gapVoid := filter_of_void fun s hs => filed.void s (List.mem_append_left _ hs)
  have ownVoid := filter_of_void fun s hs =>
    filed.void s (List.mem_append_right _ (List.mem_append_left _ hs))
  have afterVoid := filter_of_void fun s hs =>
    filed.void s (List.mem_append_right _ (List.mem_append_right _ hs))
  simp only [steps]
  rw [filed.segments_eq, filed.directory_eq, List.filter_append, List.filter_append,
    List.filter_append, gapVoid, ownVoid, List.filter_cons_of_pos (by simp [filed.kept]), afterVoid,
    List.append_nil, List.nil_append]

/-- Several names appended, one after the other. -/
def joins (p : Path) (names : List String) : Path :=
  names.foldl join p

theorem joins_append (p : Path) (front back : List String) :
    p.joins (front ++ back) = (p.joins front).joins back :=
  List.foldl_append

theorem joins_ne_empty {p : Path} (some : p.text ≠ "") {names : List String}
    (named : ∀ name ∈ names, isEntryName name = true) : (p.joins names).text ≠ "" := by
  induction names generalizing p with
  | nil => exact some
  | cons name rest ih =>
    obtain ⟨own, named⟩ := List.forall_mem_cons.1 named
    exact ih (join_ne_empty some own) named

theorem fileName?_joins {p : Path} (some : p.text ≠ "") {front : List String} {name : String}
    (named : ∀ s ∈ front ++ [name], isEntryName s = true) :
    (p.joins (front ++ [name])).fileName? = .some name := by
  obtain ⟨before, own⟩ := List.forall_mem_append.1 named
  rw [joins_append]
  exact fileName?_join (joins_ne_empty some before) (own name (List.mem_singleton_self _))

end Path

namespace Tree

variable {t : Tree} {p q : Path} {pos : Position}

theorem ne_empty_of_locate (h : t.locate p = .ok pos) : p.text ≠ "" :=
  (locate_eq_ok_iff.1 h).2.1

/-- Names that no link is behind lead on from where the path leads. -/
theorem locate_joins (h : t.locate p = .ok pos) {names : List String} {n m : Node}
    (here : t.top.at? pos = some n) (found : n.at? names = some m)
    (plain : ∀ target, m ≠ .link target) : t.locate (p.joins names) = .ok (pos ++ names) := by
  induction names generalizing p pos n with
  | nil => rwa [List.append_nil]
  | cons name rest ih =>
    obtain ⟨es, child, rfl, entry, found⟩ := Node.at?_cons_eq_some_iff.1 found
    have onward := Node.ne_link_of_at? found plain
    obtain ⟨next, there⟩ := locate_join h here (Node.mem_of_lookup entry) onward
    have further : t.locate ((p.join name).joins rest) = .ok (pos ++ [name] ++ rest) :=
      ih next there found
    rwa [List.append_assoc] at further

/-- The directory of a path with a name appended is where the path leads. -/
theorem locate_directory_join (h : t.locate p = .ok pos) {name : String}
    (named : isEntryName name = true) {x : Position} (found : t.locate (p.join name) = .ok x) :
    t.locate (p.join name).directory = .ok pos := by
  have some := ne_empty_of_locate h
  have fileName := Path.fileName?_join some named
  obtain ⟨y, _, _, dir, _⟩ := walks_from_directory fileName found
  obtain ⟨_, _, _, _, filed⟩ := Path.exists_filedUnder fileName
  have steps : (p.join name).directory.steps = p.steps := by
    have whole := filed.steps_eq
    rw [Path.steps_join some named] at whole
    exact (List.append_inj_left' whole rfl).symm
  have absolute : (p.join name).directory.isAbsolute = p.isAbsolute := by
    rw [filed.isAbsolute_eq, Path.isAbsolute_join some named]
  rw [dir, eq_of_steps_eq dir h absolute steps]

/-! ## Without links -/

theorem walkWithin_nil (top : Node) (links : Nat) (pos : Position) :
    walkWithin top links pos [] = .ok pos := by
  cases links <;> rfl

/-- Without links a walk turns from segment to segment and never starts anew. -/
theorem walkWithin_cons {top : Node} (linkFree : top.LinkFree) (links : Nat) (pos : Position)
    (s : List Char) (rest : List (List Char)) :
    walkWithin top links pos (s :: rest) =
      match turn top pos s with
      | .ok (.to x) => walkWithin top links x rest
      | .ok (.along _) => .error .tooManyLinks
      | .error e => .error e := by
  have never : ∀ target, turn top pos s ≠ .ok (.along target) := fun _ => turn_ne_along linkFree
  cases links with
  | zero | succ links =>
    rw [walkWithin, walk_cons]
    cases way : turn top pos s with
    | error e => rfl
    | ok way' =>
      cases way' with
      | along target => exact absurd way (never target)
      | _ => rfl

theorem walkWithin_append {top : Node} (linkFree : top.LinkFree) (links : Nat) (pos : Position)
    (front back : List (List Char)) :
    walkWithin top links pos (front ++ back) =
      (walkWithin top links pos front).bind fun x => walkWithin top links x back := by
  induction front generalizing pos with
  | nil =>
    rw [walkWithin_nil]
    rfl
  | cons s front ih =>
    rw [List.cons_append, walkWithin_cons linkFree, walkWithin_cons linkFree]
    cases turn top pos s with
    | error e => rfl
    | ok way =>
      cases way with
      | along target => rfl
      | _ => exact ih _

/-- A name appended is looked up where the path leads, and found or not found there. -/
theorem locate_join_eq (linkFree : t.top.LinkFree) (h : t.locate p = .ok pos) {name : String}
    (named : isEntryName name = true) :
    t.locate (p.join name) = walkWithin t.top linkLimit pos [name.toList] := by
  obtain ⟨nul, some, walks⟩ := locate_eq_ok_iff.1 h
  obtain ⟨front, _, before, joined⟩ := Path.segments_join some
  have toFront : walkWithin t.top linkLimit (startOf p t.workDir) front = .ok pos := by
    have whole := walkWithin_eq_ok_iff.2 walks
    rcases before with same | same
    · rwa [same] at whole
    · rw [same] at walks
      obtain ⟨y, left, first, last⟩ := walks.split
      have stayed := last.eq_of_voids (by simp [Path.isVoid])
      rw [stayed]
      exact walkWithin_eq_ok_iff.2 first
  have absolute : startOf (p.join name) t.workDir = startOf p t.workDir := by
    rw [startOf, startOf, Path.isAbsolute_join some named]
  have nulJoin := Path.nul_not_mem_join some named nul
  have someJoin := Path.join_ne_empty some named
  rw [locate, if_neg (by simpa using nulJoin), if_neg someJoin, absolute,
    joined named, walkWithin_append linkFree, toFront]
  rfl

/-- The node at the end of a walk. -/
def nodeAt (t : Tree) (pos : Position) : Except PathError Node :=
  match t.top.at? pos with
  | some n => .ok n
  | none => .error .notFound

/-- A path that is not too long is looked up where it leads. -/
theorem find_eq (short : isTooLong p = false) : t.find p = (t.locate p).bind t.nodeAt := by
  simp only [find]
  split
  · rename_i nul
    rw [locate, if_pos nul]
    rfl
  · rw [short]
    rfl

/-- What the system finds at a path stands where the path leads. -/
theorem find_eq_ok_iff {n : Node} : t.find p = .ok n ↔
    isTooLong p = false ∧ ∃ pos, t.locate p = .ok pos ∧ t.top.at? pos = some n := by
  constructor
  · intro h
    refine ⟨?_, locate_of_find h⟩
    simp only [find] at h
    split at h
    · cases h
    · split at h
      · cases h
      · rename_i short
        exact Bool.eq_false_iff.2 short
  · rintro ⟨short, pos, located, here⟩
    rw [find_eq short, located]
    simp only [Except.bind, nodeAt, here]

theorem readText_eq_ok_iff {s : String} : t.readText p = .ok s ↔
    t.find p = .ok (.file (.text s)) := by
  rw [readText]
  cases t.find p with
  | error e => simp [bind, Except.bind]
  | ok n =>
    cases n with
    | file content => cases content <;> simp [bind, Except.bind]
    | directory es => simp [bind, Except.bind]
    | link target => simp [bind, Except.bind]

theorem list_eq_ok_iff {names : List String} : t.list p = .ok names ↔
    ∃ es, t.find p = .ok (.directory es) ∧ names = es.map (·.1) := by
  rw [list]
  cases t.find p with
  | error e => simp [bind, Except.bind]
  | ok n => cases n <;> simp [bind, Except.bind, eq_comm]

theorem isEntryName_of_mem_list {names : List String} (listed : t.list p = .ok names)
    {name : String} (hname : name ∈ names) : isEntryName name = true := by
  obtain ⟨es, found, rfl⟩ := list_eq_ok_iff.1 listed
  obtain ⟨_, pos, _, here⟩ := find_eq_ok_iff.1 found
  obtain ⟨e, he, rfl⟩ := List.mem_map.1 hname
  have inOrder : Node.WellFormedEntries es := (t.wellFormed.at? here).1
  exact (inOrder.of_mem (n := e.2) he).1

/-- Paths that lead to one place stay together when a name is appended, if the system takes both. -/
theorem find_join_eq (linkFree : t.top.LinkFree) (hp : t.locate p = .ok pos)
    (hq : t.locate q = .ok pos) {name : String} (named : isEntryName name = true)
    (shortP : isTooLong (p.join name) = false) (shortQ : isTooLong (q.join name) = false) :
    t.find (p.join name) = t.find (q.join name) := by
  rw [find_eq shortP, find_eq shortQ, locate_join_eq linkFree hp named,
    locate_join_eq linkFree hq named]

end Tree

end ScriptAudit
