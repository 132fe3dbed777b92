import ScriptAudit.Proofs.Path

/-!
# Resolving paths

A walk along segments as a relation, one step for each segment. What a path resolves to depends on
its parts only; a name appended to it leads to the entry of that name; and the directory of a path
that leads somewhere leads somewhere, too: without links, to where the file stands.
-/

namespace ScriptAudit

namespace Node

theorem at?_append (n : Node) (front back : List String) :
    n.at? (front ++ back) = (n.at? front).bind (·.at? back) := by
  induction front generalizing n with
  | nil => rfl
  | cons name front ih =>
    rw [List.cons_append, at?, at?]
    cases n.entries.lookup name with
    | none => rfl
    | some child => exact ih child

theorem at?_singleton (n : Node) (name : String) : n.at? [name] = n.entries.lookup name := by
  rw [at?]
  cases n.entries.lookup name <;> rfl

/-- What names lead to stands at the entry that the first one names, or below it. -/
theorem at?_cons_eq_some_iff {n m : Node} {name : String} {rest : List String} :
    n.at? (name :: rest) = some m ↔
      ∃ es child, n = .directory es ∧ es.lookup name = some child ∧ child.at? rest = some m := by
  constructor
  · intro found
    rw [at?] at found
    cases n with
    | file _ => cases found
    | link _ => cases found
    | directory es =>
      cases entry : es.lookup name with
      | none =>
        rw [entries, entry] at found
        cases found
      | some child =>
        rw [entries, entry] at found
        exact ⟨es, child, rfl, entry, found⟩
  · rintro ⟨es, child, rfl, entry, found⟩
    rw [at?, entries, entry]
    exact found

/-- There is nothing behind a link. -/
theorem ne_link_of_at? {n m : Node} {pos : List String} (found : n.at? pos = some m)
    (plain : ∀ target, m ≠ .link target) (target : Path) : n ≠ .link target := by
  rintro rfl
  cases pos with
  | nil =>
    cases found
    exact plain target rfl
  | cons _ _ => cases found

/-- What stands at a name is an entry of the directory in front of it. -/
theorem exists_lookup_of_at? {n m : Node} {pos : List String} {name : String}
    (found : n.at? (pos ++ [name]) = some m) :
    ∃ es, n.at? pos = some (.directory es) ∧ es.lookup name = some m := by
  rw [at?_append] at found
  obtain ⟨dir, here, entry⟩ := Option.bind_eq_some_iff.1 found
  rw [at?_singleton] at entry
  cases dir with
  | directory es => exact ⟨es, here, entry⟩
  | file _ => cases entry
  | link _ => cases entry

/-- What stands at a position of a tree in order is in order, and the position is made of names. -/
theorem WellFormed.at? {n : Node} (h : n.WellFormed) {pos : Position} {m : Node}
    (found : n.at? pos = some m) : m.WellFormed ∧ ∀ name ∈ pos, isEntryName name = true := by
  induction pos generalizing n with
  | nil =>
    cases found
    exact ⟨h, by simp⟩
  | cons name pos ih =>
    obtain ⟨es, child, rfl, entry, found⟩ := at?_cons_eq_some_iff.1 found
    obtain ⟨named, ordered⟩ := h.entries.lookup entry
    obtain ⟨hm, names⟩ := ih ordered found
    exact ⟨hm, List.forall_mem_cons.2 ⟨named, names⟩⟩

theorem WellFormedEntries.pairwise {es : List (String × Node)} (h : WellFormedEntries es) :
    (es.map (·.1)).Pairwise (· < ·) := by
  induction es with
  | nil => exact .nil
  | cons head rest ih =>
    obtain ⟨_, _, below, hrest⟩ := h
    exact List.pairwise_cons.2 ⟨List.forall_mem_map.2 below, ih hrest⟩

theorem WellFormedEntries.pairwise_ne {es : List (String × Node)} (h : WellFormedEntries es) :
    es.Pairwise fun e f => e.1 ≠ f.1 :=
  (List.pairwise_map.1 h.pairwise).imp String.ne_of_lt

mutual

/-- No symbolic link stands anywhere in the tree. -/
def LinkFree : Node → Prop
  | directory es => LinkFreeEntries es
  | file _ => True
  | link _ => False

def LinkFreeEntries : List (String × Node) → Prop
  | [] => True
  | (_, node) :: rest => node.LinkFree ∧ LinkFreeEntries rest

end

theorem mem_of_lookup {es : List (String × Node)} {name : String} {n : Node}
    (found : es.lookup name = some n) : (name, n) ∈ es := by
  obtain ⟨before, after, rfl, _⟩ := List.lookup_eq_some_iff.1 found
  exact List.mem_append_right _ List.mem_cons_self

theorem LinkFreeEntries.of_mem {es : List (String × Node)} (h : LinkFreeEntries es)
    {name : String} {n : Node} (found : (name, n) ∈ es) : n.LinkFree := by
  induction es with
  | nil => cases found
  | cons head rest ih =>
    rcases List.mem_cons.1 found with rfl | found
    · exact h.1
    · exact ih h.2 found

theorem LinkFree.at? {n : Node} (h : n.LinkFree) {pos : Position} {m : Node}
    (found : n.at? pos = some m) : m.LinkFree := by
  induction pos generalizing n with
  | nil =>
    cases found
    exact h
  | cons name pos ih =>
    obtain ⟨es, child, rfl, entry, found⟩ := at?_cons_eq_some_iff.1 found
    exact ih (LinkFreeEntries.of_mem h (mem_of_lookup entry)) found

end Node

namespace Tree

/-! ## Walks -/

/-- Where one segment leads: to a position, or along a link. -/
inductive Turn where
  | to (pos : Position)
  | along (target : Path)

def turn (top : Node) (pos : Position) (segment : List Char) : Except PathError Turn :=
  match top.at? pos with
  | some (.directory es) =>
    if Path.isVoid segment then .ok (.to pos)
    else if segment = ['.', '.'] then .ok (.to pos.dropLast)
    else if nameLimit < (String.ofList segment).utf8ByteSize then .error .nameTooLong
    else
      match es.lookup (String.ofList segment) with
      | none => .error .notFound
      | some (.link target) => .ok (.along target)
      | some _ => .ok (.to (pos ++ [String.ofList segment]))
  | _ => .error .notDirectory

theorem walk_cons (top : Node)
    (follow : Position → Path → List (List Char) → Except PathError Position) (pos : Position)
    (segment : List Char) (rest : List (List Char)) :
    walk top follow pos (segment :: rest) =
      match turn top pos segment with
      | .error e => .error e
      | .ok (.to p) => walk top follow p rest
      | .ok (.along target) => follow pos target rest := by
  rw [walk, turn]
  cases top.at? pos with
  | none => rfl
  | some n =>
    cases n with
    | file _ => rfl
    | link _ => rfl
    | directory es =>
      dsimp only
      split
      · rfl
      · split
        · rfl
        · split
          · rfl
          · cases es.lookup (String.ofList segment) with
            | none => rfl
            | some n => cases n <;> rfl

/-- A walk that ends, with what it may still follow of links. -/
inductive Walks (top : Node) : Nat → Position → List (List Char) → Position → Prop
  | done (links : Nat) (pos : Position) : Walks top links pos [] pos
  | step {links : Nat} {pos p x : Position} {s : List Char} {rest : List (List Char)}
    (turned : turn top pos s = .ok (.to p)) (further : Walks top links p rest x) :
    Walks top links pos (s :: rest) x
  | follow {links : Nat} {pos x : Position} {target : Path} {s : List Char}
    {rest : List (List Char)} (turned : turn top pos s = .ok (.along target))
    (further : Walks top links (startOf target pos) (target.segments ++ rest) x) :
    Walks top (links + 1) pos (s :: rest) x

theorem walkWithin_eq_ok_iff {top : Node} {links : Nat} {pos x : Position}
    {segments : List (List Char)} :
    walkWithin top links pos segments = .ok x ↔ Walks top links pos segments x := by
  constructor
  · intro h
    induction links generalizing pos segments with
    | zero =>
      rw [walkWithin] at h
      induction segments generalizing pos with
      | nil =>
        cases h
        exact .done 0 _
      | cons s rest ih =>
        rw [walk_cons] at h
        split at h
        · cases h
        · rename_i turned
          exact .step turned (ih h)
        · cases h
    | succ links outer =>
      rw [walkWithin] at h
      induction segments generalizing pos with
      | nil =>
        cases h
        exact .done _ _
      | cons s rest ih =>
        rw [walk_cons] at h
        split at h
        · cases h
        · rename_i turned
          exact .step turned (ih h)
        · rename_i turned
          exact .follow turned (outer h)
  · intro h
    induction h with
    | done links pos => cases links <;> rfl
    | @step links pos p x s rest turned _ ih =>
      cases links <;> rw [walkWithin, walk_cons, turned] <;> exact ih
    | follow turned _ ih =>
      rw [walkWithin, walk_cons, turned]
      exact ih

/-! ## Turns -/

section Turns

variable {top : Node} {pos : Position} {s : List Char}

theorem exists_directory_of_turn {way : Turn} (h : turn top pos s = .ok way) :
    ∃ es, top.at? pos = some (.directory es) := by
  simp only [turn] at h
  split at h
  · rename_i es found
    exact ⟨es, found⟩
  · cases h

theorem turn_of_isVoid (void : Path.isVoid s = true) {es : List (String × Node)}
    (here : top.at? pos = some (.directory es)) : turn top pos s = .ok (.to pos) := by
  rw [turn, here]
  dsimp only
  rw [if_pos void]

theorem eq_of_turn_of_isVoid (void : Path.isVoid s = true) {way : Turn}
    (h : turn top pos s = .ok way) : way = .to pos := by
  obtain ⟨es, here⟩ := exists_directory_of_turn h
  rw [turn_of_isVoid void here] at h
  cases h
  rfl

/-- A name leads to the entry of that name, unless that is a link. -/
theorem turn_of_lookup {name : String} (named : isEntryName name = true)
    {es : List (String × Node)} (here : top.at? pos = some (.directory es)) {n : Node}
    (found : es.lookup name = some n) (plain : ∀ target, n ≠ .link target) :
    turn top pos name.toList = .ok (.to (pos ++ [name])) := by
  simp only [isEntryName, Bool.and_eq_true, Bool.not_eq_true', bne_iff_ne, ne_eq,
    decide_eq_true_eq] at named
  obtain ⟨⟨⟨⟨kept, down⟩, _⟩, _⟩, short⟩ := named
  rw [turn, here]
  dsimp only
  rw [if_neg (by simp [kept]), if_neg down, String.ofList_toList, if_neg (Nat.not_lt.2 short),
    found]
  cases n with
  | file _ => rfl
  | directory _ => rfl
  | link target => exact absurd rfl (plain target)

theorem exists_lookup_of_turn {p : Position} (kept : Path.isVoid s = false)
    (down : s ≠ ['.', '.']) (h : turn top pos s = .ok (.to p)) :
    p = pos ++ [String.ofList s] ∧ ∃ n, top.at? p = some n ∧ ∀ target, n ≠ .link target := by
  obtain ⟨es, here⟩ := exists_directory_of_turn h
  rw [turn, here] at h
  dsimp only at h
  rw [if_neg (by simp [kept]), if_neg down] at h
  split at h
  · cases h
  · split at h
    · cases h
    · cases h
    · rename_i n plain found
      cases h
      refine ⟨rfl, n, ?_, fun target same => plain target (by rw [same])⟩
      rw [Node.at?_append, here, Option.bind_some, Node.at?_singleton]
      exact found

theorem exists_of_turn_to {p : Position} (h : turn top pos s = .ok (.to p)) :
    ∃ n, top.at? p = some n ∧ ∀ target, n ≠ .link target := by
  obtain ⟨es, here⟩ := exists_directory_of_turn h
  cases void : Path.isVoid s with
  | true =>
    cases eq_of_turn_of_isVoid void h
    exact ⟨_, here, fun _ same => by cases same⟩
  | false =>
    by_cases up : s = ['.', '.']
    · rw [turn, here] at h
      dsimp only at h
      rw [if_neg (by simp [void]), if_pos up] at h
      cases h
      rcases List.eq_nil_or_concat pos with rfl | ⟨front, name, rfl⟩
      · exact ⟨_, here, fun _ same => by cases same⟩
      · rw [List.concat_eq_append, Node.at?_append] at here
        obtain ⟨n, found, below⟩ := Option.bind_eq_some_iff.1 here
        refine ⟨n, by rwa [List.concat_eq_append, List.dropLast_concat], ?_⟩
        -- nothing is below a link
        rintro target rfl
        cases below
    · exact (exists_lookup_of_turn void up h).2

end Turns

namespace Walks

variable {top : Node} {links : Nat} {pos x : Position} {a b : List (List Char)}

/-- Segments that denote nothing may be left out. -/
theorem thins (walks : Walks top links pos a x) (h : Path.Thins a b) : Walks top links pos b x := by
  induction walks generalizing b with
  | done links pos =>
    cases h
    exact .done links pos
  | step turned further ih =>
    cases h with
    | keep s rest => exact .step turned (ih rest)
    | drop void rest =>
      cases eq_of_turn_of_isVoid void turned
      exact ih rest
  | follow turned further ih =>
    cases h with
    | keep s rest => exact .follow turned (ih (rest.append_left _))
    | drop void rest => cases eq_of_turn_of_isVoid void turned

/-- A walk along two pieces is two walks, of which the second has the links left to follow. -/
theorem split (walks : Walks top links pos (a ++ b) x) :
    ∃ y left, Walks top links pos a y ∧ Walks top left y b x := by
  generalize whole : a ++ b = segments at walks
  induction walks generalizing a with
  | done links pos =>
    obtain ⟨rfl, rfl⟩ := List.append_eq_nil_iff.1 whole
    exact ⟨pos, links, .done links pos, .done links pos⟩
  | @step links pos p x s rest turned further ih =>
    cases a with
    | nil =>
      rw [List.nil_append] at whole
      exact ⟨pos, links, .done links pos, whole ▸ .step turned further⟩
    | cons r a =>
      cases whole
      obtain ⟨y, left, toFront, beyond⟩ := ih rfl
      exact ⟨y, left, .step turned toFront, beyond⟩
  | @follow links pos x target s rest turned further ih =>
    cases a with
    | nil =>
      rw [List.nil_append] at whole
      exact ⟨pos, links + 1, .done _ pos, whole ▸ .follow turned further⟩
    | cons r a =>
      cases whole
      obtain ⟨y, left, toFront, beyond⟩ := ih (List.append_assoc _ _ _)
      exact ⟨y, left, .follow turned toFront, beyond⟩

/-- Goes on with segments that need no link. -/
theorem append {y : Position} (walks : Walks top links pos a y)
    (further : ∀ links, Walks top links y b x) : Walks top links pos (a ++ b) x := by
  induction walks with
  | done links pos => exact further links
  | step turned _ ih => exact .step turned (ih further)
  | follow turned _ ih =>
    have rejoined := ih further
    rw [List.append_assoc] at rejoined
    exact .follow turned rejoined

/-- Every segment is a step from something to something, and never to a link. -/
theorem exists_at? (walks : Walks top links pos a x) (some : a ≠ []) :
    ∃ n, top.at? x = .some n ∧ ∀ target, n ≠ .link target := by
  induction walks with
  | done links pos => exact absurd rfl some
  | @step links pos p x s rest turned further ih =>
    by_cases last : rest = []
    · subst last
      cases further
      exact exists_of_turn_to turned
    · exact ih last
  | @follow links pos x target s rest turned further ih =>
    have written : target.segments ++ rest ≠ [] := by simp [Path.segments_ne_nil]
    exact ih written

/-- A walk that goes on stands in a directory. -/
theorem exists_directory {s : List Char} (walks : Walks top links pos (s :: a) x) :
    ∃ es, top.at? pos = some (.directory es) := by
  cases walks with
  | step turned _ => exact exists_directory_of_turn turned
  | follow turned _ => exact exists_directory_of_turn turned

theorem unique {y : Position} (hx : Walks top links pos a x) (hy : Walks top links pos a y) :
    x = y := by
  have found := walkWithin_eq_ok_iff.2 hx
  rw [walkWithin_eq_ok_iff.2 hy] at found
  cases found
  rfl

/-- Segments that denote nothing lead nowhere. -/
theorem of_voids (void : ∀ s ∈ a, Path.isVoid s = true) {es : List (String × Node)}
    (here : top.at? pos = .some (.directory es)) (links : Nat) : Walks top links pos a pos := by
  induction a with
  | nil => exact .done links pos
  | cons s a ih =>
    obtain ⟨first, void⟩ := List.forall_mem_cons.1 void
    exact .step (turn_of_isVoid first here) (ih void)

theorem eq_of_voids (void : ∀ s ∈ a, Path.isVoid s = true) (walks : Walks top links pos a x) :
    x = pos := by
  have thinned := walks.thins (b := []) (by simpa using Path.Thins.drop_front void .nil)
  cases thinned
  rfl

end Walks

/-! ## Where a path leads -/

theorem locate_eq_ok_iff {t : Tree} {p : Path} {pos : Position} :
    t.locate p = .ok pos ↔ '\x00' ∉ p.text.toList ∧ p.text ≠ "" ∧
      Walks t.top linkLimit (startOf p t.workDir) p.segments pos := by
  rw [locate, ← walkWithin_eq_ok_iff]
  by_cases nul : '\x00' ∈ p.text.toList
  · simp [nul]
  · by_cases empty : p.text = ""
    · simp [empty]
    · simp [nul, empty]

theorem exists_at?_of_locate {t : Tree} {p : Path} {pos : Position}
    (h : t.locate p = .ok pos) : ∃ n, t.top.at? pos = some n ∧ ∀ target, n ≠ .link target :=
  (locate_eq_ok_iff.1 h).2.2.exists_at? p.segments_ne_nil

theorem locate_of_find {t : Tree} {p : Path} {n : Node} (h : t.find p = .ok n) :
    ∃ pos, t.locate p = .ok pos ∧ t.top.at? pos = some n := by
  simp only [find] at h
  split at h
  · cases h
  · split at h
    · cases h
    · cases located : t.locate p with
      | error e =>
        rw [located] at h
        cases h
      | ok pos =>
        rw [located] at h
        simp only [bind, Except.bind] at h
        split at h
        · rename_i here
          cases h
          exact ⟨pos, rfl, here⟩
        · cases h

theorem pairwise_list {t : Tree} {p : Path} {names : List String} (h : t.list p = .ok names) :
    names.Pairwise (· < ·) := by
  simp only [list] at h
  cases found : t.find p with
  | error e =>
    rw [found] at h
    cases h
  | ok n =>
    rw [found] at h
    obtain ⟨pos, _, here⟩ := locate_of_find found
    cases n with
    | directory es =>
      cases h
      have inOrder : Node.WellFormedEntries es := (t.wellFormed.at? here).1
      exact inOrder.pairwise
    | file _ => cases h
    | link _ => cases h

/-- Where a path leads is decided by where it starts and by the segments that denote something. -/
theorem eq_of_steps_eq {t : Tree} {p q : Path} {a b : Position} (hp : t.locate p = .ok a)
    (hq : t.locate q = .ok b) (start : p.isAbsolute = q.isAbsolute) (same : p.steps = q.steps) :
    a = b := by
  obtain ⟨_, _, walksP⟩ := locate_eq_ok_iff.1 hp
  obtain ⟨_, _, walksQ⟩ := locate_eq_ok_iff.1 hq
  have stepsP : Walks t.top linkLimit (startOf p t.workDir) p.steps a :=
    walksP.thins (Path.Thins.filter _)
  have stepsQ : Walks t.top linkLimit (startOf q t.workDir) q.steps b :=
    walksQ.thins (Path.Thins.filter _)
  rw [startOf, start, same] at stepsP
  exact stepsP.unique stepsQ

/-- Spellings with the same parts that lead somewhere lead to the same place. -/
theorem eq_of_parts_eq {t : Tree} {p q : Path} {a b : Position} (hp : t.locate p = .ok a)
    (hq : t.locate q = .ok b) (same : p.parts = q.parts) : a = b :=
  eq_of_steps_eq hp hq (Path.isAbsolute_eq_of_parts_eq same) (Path.steps_eq_of_parts_eq same)

/-- A name appended to the path of a directory leads to the entry of that name. -/
theorem locate_join {t : Tree} {p : Path} {pos : Position} (h : t.locate p = .ok pos)
    {es : List (String × Node)} (here : t.top.at? pos = some (.directory es)) {name : String}
    {n : Node} (entry : (name, n) ∈ es) (plain : ∀ target, n ≠ .link target) :
    t.locate (p.join name) = .ok (pos ++ [name]) ∧ t.top.at? (pos ++ [name]) = some n := by
  obtain ⟨nul, some, walks⟩ := locate_eq_ok_iff.1 h
  have inOrder : Node.WellFormedEntries es := (t.wellFormed.at? here).1
  have named := (inOrder.of_mem entry).1
  have found := inOrder.lookup_of_mem entry
  have last : ∀ links, Walks t.top links pos [name.toList] (pos ++ [name]) := fun links =>
    .step (turn_of_lookup named here found plain) (.done links _)
  constructor
  · refine locate_eq_ok_iff.2 ⟨Path.nul_not_mem_join some named nul,
      Path.join_ne_empty some named, ?_⟩
    rw [startOf, Path.isAbsolute_join some named]
    exact (walks.append last).thins (Path.thins_join some named)
  · rw [Node.at?_append, here, Option.bind_some, Node.at?_singleton]
    exact found

/-- The directory of a path that leads somewhere leads to where the last name is looked up. -/
theorem walks_from_directory {t : Tree} {p : Path} {name : String} (named : p.fileName? = some name)
    {pos : Position} (h : t.locate p = .ok pos) :
    ∃ front left after, t.locate p.directory = .ok front ∧
      (∀ s ∈ after, Path.isVoid s = true) ∧ Path.isVoid name.toList = false ∧
      name.toList ≠ ['.', '.'] ∧ Walks t.top left front (name.toList :: after) pos := by
  obtain ⟨nul, _, walks⟩ := locate_eq_ok_iff.1 h
  obtain ⟨front, gap, gap', after, whole, own, void, kept, down, absolute⟩ :=
    Path.exists_filedUnder named
  rw [whole] at walks
  obtain ⟨y, _, toFront, beyond⟩ := walks.split
  obtain ⟨z, left, overGap, ending⟩ := beyond.split
  have same := overGap.eq_of_voids fun s hs => void s (List.mem_append_left _ hs)
  rw [← same] at toFront
  obtain ⟨es, here⟩ := ending.exists_directory
  refine ⟨z, left, after, locate_eq_ok_iff.2 ⟨Path.nul_not_mem_directory named nul,
    p.directory_ne_empty, ?_⟩, fun s hs => ?_, kept, down, ending⟩
  · rw [startOf, absolute, own]
    refine toFront.append fun links => Walks.of_voids (fun s hs => ?_) here links
    exact void s (List.mem_append_right _ (List.mem_append_left _ hs))
  · exact void s (List.mem_append_right _ (List.mem_append_right _ hs))

/-! ## Canonical paths -/

theorem segments_path {pos : Position} (named : ∀ name ∈ pos, isEntryName name = true)
    (some : pos ≠ []) : pos.path.segments = [] :: pos.map String.toList := by
  have clean : ∀ s ∈ pos.map String.toList, '/' ∉ s := by
    intro s hs
    obtain ⟨name, hname, rfl⟩ := List.mem_map.1 hs
    exact (Path.not_mem_of_isEntryName (named name hname)).2.1
  rw [Path.segments, Position.path, String.toList_ofList, List.splitOn_cons_eq_if_modifyHead,
    if_pos (by simp), List.splitOn_intercalate '/' clean (by simpa using some)]

theorem innerPart?_of_isEntryName {name : String} (named : isEntryName name = true) :
    Path.innerPart? name.toList = some (.name name) := by
  simp only [isEntryName, Bool.and_eq_true, Bool.not_eq_true', bne_iff_ne, ne_eq] at named
  obtain ⟨⟨⟨⟨kept, down⟩, _⟩, _⟩, _⟩ := named
  rw [Path.innerPart?, if_neg (by simp [kept]), if_neg down, String.ofList_toList]

theorem parts_path {pos : Position} (named : ∀ name ∈ pos, isEntryName name = true) :
    pos.path.parts = .root :: pos.map .name := by
  cases pos with
  | nil => rfl
  | cons first rest =>
    have inner : ∀ names : List String, (∀ name ∈ names, isEntryName name = true) →
        (names.map String.toList).filterMap Path.innerPart? = names.map .name := by
      intro names named
      induction names with
      | nil => rfl
      | cons name names ih =>
        obtain ⟨hname, hnames⟩ := List.forall_mem_cons.1 named
        rw [List.map_cons, List.filterMap_cons_some (innerPart?_of_isEntryName hname), ih hnames]
        rfl
    rw [Path.parts, segments_path named (List.cons_ne_nil _ _), ← inner _ named]
    rfl

theorem resolved_of_locate {t : Tree} {p : Path} {pos : Position} (h : t.locate p = .ok pos) :
    t.resolved p = pos.path := by
  rw [resolved, h]

theorem parts_resolved {t : Tree} {p : Path} {pos : Position} (h : t.locate p = .ok pos) :
    (t.resolved p).parts = .root :: pos.map .name := by
  obtain ⟨n, found, _⟩ := exists_at?_of_locate h
  rw [resolved_of_locate h]
  exact parts_path (t.wellFormed.at? found).2

/-- Paths that lead somewhere resolve to the same parts when they lead to the same place. -/
theorem parts_resolved_eq_iff {t : Tree} {p q : Path} {a b : Position} (hp : t.locate p = .ok a)
    (hq : t.locate q = .ok b) : (t.resolved p).parts = (t.resolved q).parts ↔ a = b := by
  rw [parts_resolved hp, parts_resolved hq, List.cons_inj_right]
  have inj : Function.Injective Path.Part.name := fun s r h => by cases h; rfl
  exact List.map_inj_right fun s r h => inj h

/-- Names that no link is behind are walked one by one. -/
theorem walks_names {top : Node} {pos names : Position} {n m : Node} (ordered : n.WellFormed)
    (here : top.at? pos = some n) (found : n.at? names = some m)
    (plain : ∀ target, m ≠ .link target) (links : Nat) :
    Walks top links pos (names.map String.toList) (pos ++ names) := by
  induction names generalizing pos n with
  | nil =>
    rw [List.append_nil]
    exact .done links pos
  | cons name rest ih =>
    obtain ⟨es, child, rfl, entry, found⟩ := Node.at?_cons_eq_some_iff.1 found
    obtain ⟨named, inOrder⟩ := ordered.entries.lookup entry
    have onward := Node.ne_link_of_at? found plain
    have there : top.at? (pos ++ [name]) = some child := by
      rw [Node.at?_append, here, Option.bind_some, Node.at?_singleton]
      exact entry
    rw [List.append_cons]
    exact .step (turn_of_lookup named here entry onward) (ih inOrder there found)

/-- A path that is spelled like the canonical one of a position, and leads somewhere, leads there. -/
theorem eq_of_parts_eq_path {t : Tree} {p : Path} {x pos : Position} (h : t.locate p = .ok x)
    {n : Node} (here : t.top.at? pos = some n) (plain : ∀ target, n ≠ .link target)
    (same : p.parts = .root :: pos.map .name) : x = pos := by
  have absolute : p.isAbsolute = true := (Path.isAbsolute_iff p).2 (by rw [same]; rfl)
  have steps : p.steps = pos.map String.toList := by
    rw [Path.steps_eq, same, List.filterMap_cons_none rfl, List.filterMap_map]
    exact congrFun List.filterMap_eq_map pos
  have walks : Walks t.top linkLimit [] p.steps x := by
    have whole := (locate_eq_ok_iff.1 h).2.2.thins (Path.Thins.filter _)
    rwa [startOf, if_pos absolute] at whole
  rw [steps] at walks
  exact walks.unique (walks_names t.wellFormed rfl here plain linkLimit)

/-! ## Without links -/

theorem turn_ne_along {top : Node} (linkFree : top.LinkFree) {pos : Position} {s : List Char}
    {target : Path} : turn top pos s ≠ .ok (.along target) := by
  intro h
  obtain ⟨es, here⟩ := exists_directory_of_turn h
  have entries : Node.LinkFreeEntries es := linkFree.at? here
  rw [turn, here] at h
  dsimp only at h
  split at h
  · cases h
  · split at h
    · cases h
    · split at h
      · cases h
      · split at h
        · cases h
        · rename_i found
          cases h
          exact entries.of_mem (Node.mem_of_lookup found)
        · cases h

/-- Without links the directory of a file leads to where the file is an entry. -/
theorem locate_directory {t : Tree} (linkFree : t.top.LinkFree) {p : Path} {name : String}
    (named : p.fileName? = some name) {pos : Position} (h : t.locate p = .ok pos) :
    ∃ front, t.locate p.directory = .ok front ∧ pos = front ++ [name] := by
  obtain ⟨front, left, after, found, void, kept, down, ending⟩ := walks_from_directory named h
  refine ⟨front, found, ?_⟩
  cases ending with
  | follow turned _ => exact absurd turned (turn_ne_along linkFree)
  | step turned further =>
    obtain ⟨rfl, _⟩ := exists_lookup_of_turn kept down turned
    rw [further.eq_of_voids void, String.ofList_toList]

end Tree

end ScriptAudit
