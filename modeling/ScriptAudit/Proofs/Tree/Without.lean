import ScriptAudit.Proofs.Tree.Join

/-!
# Trees without some of their files

A tree from which files have been taken away. Directories and links stay, so every path leads where
it led before unless it led to a file that is gone, and then it leads nowhere.
-/

namespace ScriptAudit

namespace Node

mutual

/-- A node that stands at a position, without the files below it that are gone. -/
def without (gone : Position → Bool) (pos : Position) : Node → Node
  | directory es => directory (withoutIn gone pos es)
  | file content => file content
  | link target => link target

def withoutIn (gone : Position → Bool) (pos : Position) :
    List (String × Node) → List (String × Node)
  | [] => []
  | (name, node) :: rest =>
    if node.isFile && gone (pos ++ [name]) then withoutIn gone pos rest
    else (name, node.without gone (pos ++ [name])) :: withoutIn gone pos rest

end

variable {gone : Position → Bool}

theorem isDirectory_without (n : Node) (pos : Position) :
    (n.without gone pos).isDirectory = n.isDirectory := by
  cases n <;> simp only [without, isDirectory]

theorem exists_of_mem_withoutIn {pos : Position} {es : List (String × Node)} {e : String × Node}
    (h : e ∈ withoutIn gone pos es) : ∃ f ∈ es, f.1 = e.1 := by
  induction es with
  | nil =>
    rw [withoutIn] at h
    cases h
  | cons head rest ih =>
    obtain ⟨name, node⟩ := head
    have later (h : e ∈ withoutIn gone pos rest) : ∃ f ∈ (name, node) :: rest, f.1 = e.1 := by
      obtain ⟨f, hf, same⟩ := ih h
      exact ⟨f, List.mem_cons_of_mem _ hf, same⟩
    rw [withoutIn] at h
    split at h
    · exact later h
    · rcases List.mem_cons.1 h with rfl | h
      · exact ⟨_, List.mem_cons_self, rfl⟩
      · exact later h

mutual

theorem wellFormed_without (n : Node) (h : n.WellFormed) (pos : Position) :
    (n.without gone pos).WellFormed := by
  cases n with
  | file content => exact h
  | link target => exact h
  | directory es => exact wellFormedEntries_withoutIn es h pos

theorem wellFormedEntries_withoutIn (es : List (String × Node)) (h : WellFormedEntries es)
    (pos : Position) : WellFormedEntries (withoutIn gone pos es) := by
  cases es with
  | nil => exact h
  | cons head rest =>
    obtain ⟨name, node⟩ := head
    obtain ⟨named, ordered, below, others⟩ := h
    have kept := wellFormedEntries_withoutIn rest others pos
    rw [withoutIn]
    split
    · exact kept
    · refine ⟨named, wellFormed_without node ordered _, fun e he => ?_, kept⟩
      obtain ⟨f, hf, same⟩ := exists_of_mem_withoutIn he
      exact same ▸ below f hf

end

/-- What becomes of the node at a position. -/
def kept (gone : Position → Bool) (pos : Position) (n : Node) : Option Node :=
  if n.isFile && gone pos then none else some (n.without gone pos)

theorem lookup_withoutIn {es : List (String × Node)} (h : WellFormedEntries es) (pos : Position)
    (name : String) :
    (withoutIn gone pos es).lookup name = (es.lookup name).bind (kept gone (pos ++ [name])) := by
  induction es with
  | nil => rfl
  | cons head rest ih =>
    obtain ⟨other, node⟩ := head
    obtain ⟨_, _, below, others⟩ := h
    rw [withoutIn, List.lookup_cons]
    by_cases same : name = other
    · subst same
      have absent : rest.lookup name = none := by
        refine List.lookup_eq_none_iff.2 fun e he => bne_iff_ne.2 fun same => ?_
        exact String.lt_irrefl name (same ▸ below e he)
      rw [beq_self_eq_true]
      dsimp only [Option.bind_some]
      rw [kept]
      split
      · rw [ih others, absent]
        rfl
      · exact List.lookup_cons_self
    · rw [beq_false_of_ne same]
      dsimp only
      split
      · exact ih others
      · rw [List.lookup_cons, beq_false_of_ne same]
        exact ih others

/-- Below a node that stays, every node has its place unless it is a file that is gone. -/
theorem at?_without {n : Node} (h : n.WellFormed) {pos : Position}
    (stays : (n.isFile && gone pos) = false) (names : Position) :
    (n.without gone pos).at? names = (n.at? names).bind (kept gone (pos ++ names)) := by
  induction names generalizing n pos with
  | nil =>
    rw [at?, at?, List.append_nil, Option.bind_some, kept, if_neg (by simp [stays])]
  | cons name rest ih =>
    have found : (n.without gone pos).entries.lookup name =
        (n.entries.lookup name).bind (kept gone (pos ++ [name])) := by
      cases n with
      | file content => rfl
      | link target => rfl
      | directory es =>
        rw [without]
        exact lookup_withoutIn h pos name
    rw [at?, at?, found]
    cases entry : n.entries.lookup name with
    | none => rfl
    | some child =>
      rw [Option.bind_some, List.append_cons pos name rest]
      cases lost : child.isFile && gone (pos ++ [name]) with
      | false =>
        have ordered : child.WellFormed := (h.entries.lookup entry).2
        rw [kept, lost]
        exact ih ordered lost
      | true =>
        have nothing : child.kept gone (pos ++ [name]) = none := by
          rw [kept, lost]
          rfl
        rw [nothing]
        -- the child is a file, so the names end here or lead to nothing
        cases rest with
        | nil =>
          rw [List.append_nil]
          exact nothing.symm
        | cons next rest =>
          cases child with
          | file content => rfl
          | directory es => cases lost
          | link target => cases lost

theorem at?_without_of_stays {n : Node} (h : n.WellFormed) {pos : Position} {m : Node}
    (here : n.at? pos = some m) (stays : (m.isFile && gone pos) = false) :
    (n.without gone []).at? pos = some (m.without gone pos) := by
  have top : (n.isFile && gone []) = false := by
    cases n with
    | directory es => rfl
    | link target => rfl
    | file content =>
      cases pos with
      | nil =>
        cases here
        exact stays
      | cons name rest => cases here
  rw [at?_without h top, here, List.nil_append, Option.bind_some, kept, if_neg (by simp [stays])]

/-- Directories stay, and there are no others. -/
theorem at?_without_eq_directory_iff {n : Node} (h : n.WellFormed) {pos : Position}
    {es : List (String × Node)} : (n.without gone []).at? pos = some (directory es) ↔
      ∃ old, n.at? pos = some (directory old) ∧ es = withoutIn gone pos old := by
  constructor
  · intro there
    have top : (n.isFile && gone []) = false := by
      cases n with
      | directory es => rfl
      | link target => rfl
      | file content => cases pos <;> cases there
    rw [at?_without h top, List.nil_append] at there
    obtain ⟨m, found, rest⟩ := Option.bind_eq_some_iff.1 there
    rw [kept] at rest
    split at rest
    · cases rest
    · cases m <;> cases rest
      exact ⟨_, found, rfl⟩
  · rintro ⟨old, found, rfl⟩
    exact at?_without_of_stays h found rfl

end Node

namespace Tree

variable {t : Tree} {gone : Position → Bool}

/-- The tree without the files at some positions. -/
def without (t : Tree) (gone : Position → Bool) : Tree where
  top := t.top.without gone []
  workDir := t.workDir
  wellFormed := Node.wellFormed_without t.top t.wellFormed []

/-- A file at this position is gone. -/
def Loses (top : Node) (gone : Position → Bool) (pos : Position) : Prop :=
  gone pos = true ∧ ∃ content, top.at? pos = some (.file content)

theorem loses_iff {top n : Node} {pos : Position} (here : top.at? pos = some n) :
    Loses top gone pos ↔ (n.isFile && gone pos) = true := by
  rw [Loses, here]
  cases n <;> simp [Node.isFile]

theorem exists_parent {top : Node} {pos : Position} {es : List (String × Node)}
    (here : top.at? pos = some (.directory es)) :
    ∃ above, top.at? pos.dropLast = some (.directory above) := by
  rcases List.eq_nil_or_concat pos with rfl | ⟨front, name, rfl⟩
  · exact ⟨es, here⟩
  · rw [List.concat_eq_append] at here
    obtain ⟨above, there, _⟩ := Node.exists_lookup_of_at? here
    rw [List.concat_eq_append, List.dropLast_concat]
    exact ⟨above, there⟩

theorem turn_without {top : Node} (h : top.WellFormed) {pos : Position} {s : List Char}
    {way : Turn} : turn (top.without gone []) pos s = .ok way ↔
      turn top pos s = .ok way ∧ ∀ p, way = .to p → ¬Loses top gone p := by
  suffices common : ∀ es, top.at? pos = some (.directory es) →
      (turn (top.without gone []) pos s = .ok way ↔
        turn top pos s = .ok way ∧ ∀ p, way = .to p → ¬Loses top gone p) by
    constructor
    · intro turned
      obtain ⟨_, here⟩ := exists_directory_of_turn turned
      obtain ⟨es, there, _⟩ := (Node.at?_without_eq_directory_iff h).1 here
      exact (common es there).1 turned
    · rintro ⟨turned, stays⟩
      obtain ⟨es, there⟩ := exists_directory_of_turn turned
      exact (common es there).2 ⟨turned, stays⟩
  intro es there
  have here : (top.without gone []).at? pos = some (.directory (Node.withoutIn gone pos es)) :=
    (Node.at?_without_eq_directory_iff h).2 ⟨es, there, rfl⟩
  have stands {p : Position} {es : List (String × Node)} (at_eq : top.at? p = some (.directory es)) :
      (Except.ok (Turn.to p) : Except PathError Turn) = .ok way ↔
        (Except.ok (Turn.to p) : Except PathError Turn) = .ok way ∧
          ∀ q, way = .to q → ¬Loses top gone q := by
    refine (and_iff_left_of_imp ?_).symm
    rintro same q rfl ⟨_, content, file⟩
    cases same
    rw [at_eq] at file
    cases file
  rw [turn, turn, here, there]
  dsimp only
  by_cases void : Path.isVoid s = true
  · rw [if_pos void, if_pos void]
    exact stands there
  · rw [if_neg void, if_neg void]
    by_cases up : s = ['.', '.']
    · rw [if_pos up, if_pos up]
      obtain ⟨above, parent⟩ := exists_parent there
      exact stands parent
    · rw [if_neg up, if_neg up]
      split
      · simp
      · have entry := Node.at?_append top pos [String.ofList s]
        rw [there, Option.bind_some, Node.at?_singleton] at entry
        rw [Node.lookup_withoutIn (h.at? there).1]
        cases found : es.lookup (String.ofList s) with
        | none => simp
        | some n =>
          cases n with
          | directory below =>
            exact stands (entry.trans found)
          | link target =>
            refine (and_iff_left_of_imp ?_).symm
            rintro same p rfl
            cases same
          | file content =>
            have stood : top.at? (pos ++ [String.ofList s]) = some (.file content) :=
              entry.trans found
            rw [Option.bind_some, Node.kept]
            cases gone_eq : gone (pos ++ [String.ofList s]) with
            | true =>
              refine iff_of_false (fun same => by cases same) ?_
              rintro ⟨same, stays⟩
              cases same
              exact stays _ rfl ⟨gone_eq, content, stood⟩
            | false =>
              refine (and_iff_left_of_imp ?_).symm
              rintro same p rfl ⟨lost, _⟩
              cases same
              rw [gone_eq] at lost
              cases lost

theorem walks_without {top : Node} (h : top.WellFormed) {links : Nat} {pos x : Position}
    {segments : List (List Char)} : Walks (top.without gone []) links pos segments x ↔
      Walks top links pos segments x ∧ (segments ≠ [] → ¬Loses top gone x) := by
  constructor
  · intro walks
    induction walks with
    | done links pos => exact ⟨.done links pos, fun some => absurd rfl some⟩
    | @step links pos p x s rest turned further ih =>
      obtain ⟨turned, stays⟩ := (turn_without h).1 turned
      refine ⟨.step turned ih.1, fun _ => ?_⟩
      by_cases last : rest = []
      · subst last
        cases further
        exact stays _ rfl
      · exact ih.2 last
    | @follow links pos x target s rest turned further ih =>
      have written : target.segments ++ rest ≠ [] := by simp [Path.segments_ne_nil]
      exact ⟨.follow ((turn_without h).1 turned).1 ih.1, fun _ => ih.2 written⟩
  · rintro ⟨walks, stays⟩
    induction walks with
    | done links pos => exact .done links pos
    | @step links pos p x s rest turned further ih =>
      have onward : ¬Loses top gone p := by
        rintro ⟨lost, content, file⟩
        -- nothing is behind a file
        cases rest with
        | nil =>
          cases further
          exact stays (by simp) ⟨lost, content, file⟩
        | cons next rest =>
          obtain ⟨es, here⟩ := further.exists_directory
          rw [file] at here
          cases here
      refine .step ((turn_without h).2 ⟨turned, ?_⟩) (ih fun _ => stays (by simp))
      rintro q same
      cases same
      exact onward
    | @follow links pos x target s rest turned further ih =>
      refine .follow ((turn_without h).2 ⟨turned, fun p same => by cases same⟩) ?_
      exact ih fun _ => stays (by simp)

/-- Paths lead where they did, except to files that are gone. -/
theorem locate_without {p : Path} {x : Position} :
    (t.without gone).locate p = .ok x ↔ t.locate p = .ok x ∧ ¬Loses t.top gone x := by
  rw [locate_eq_ok_iff, locate_eq_ok_iff, without, walks_without t.wellFormed,
    imp_iff_right p.segments_ne_nil]
  simp only [and_assoc]

/-! ## What is read -/

section Stays

variable {p : Path} {x : Position} (located : t.locate p = .ok x) (stays : ¬Loses t.top gone x)
include located stays

theorem find_without :
    (t.without gone).find p = (t.find p).map (·.without gone x) := by
  have left : (t.without gone).locate p = .ok x := locate_without.2 ⟨located, stays⟩
  obtain ⟨n, here, _⟩ := exists_at?_of_locate located
  have there : (t.without gone).top.at? x = some (n.without gone x) := by
    refine Node.at?_without_of_stays t.wellFormed here (Bool.eq_false_iff.2 fun lost => ?_)
    exact stays ((loses_iff here).2 lost)
  simp only [find, left, located]
  split
  · rfl
  · split
    · rfl
    · simp only [bind, Except.bind, there, here, Except.map]

theorem readText_without : (t.without gone).readText p = t.readText p := by
  rw [readText, readText, find_without located stays]
  cases t.find p with
  | error e => rfl
  | ok n =>
    cases n with
    | file content => rfl
    | link target => rfl
    | directory es => rfl

theorem resolved_without : (t.without gone).resolved p = t.resolved p := by
  rw [resolved_of_locate located, resolved_of_locate (locate_without.2 ⟨located, stays⟩)]

end Stays

/-- The directory of a path that leads somewhere leads to a directory. -/
theorem exists_directory_of_locate {p : Path} {name : String} (named : p.fileName? = some name)
    {x : Position} (located : t.locate p = .ok x) :
    ∃ front es, t.locate p.directory = .ok front ∧ t.top.at? front = some (.directory es) := by
  obtain ⟨front, _, _, found, _, _, _, beyond⟩ := walks_from_directory named located
  obtain ⟨es, here⟩ := beyond.exists_directory
  exact ⟨front, es, found, here⟩

theorem featureOf_without {p : Path} {name : String} (named : p.fileName? = some name)
    {x : Position} (located : t.locate p = .ok x) : (t.without gone).featureOf p = t.featureOf p := by
  obtain ⟨front, es, found, here⟩ := exists_directory_of_locate named located
  have stays : ¬Loses t.top gone front := fun lost => Bool.noConfusion ((loses_iff here).1 lost)
  rw [featureOf, featureOf, resolved_without found stays]

end Tree

end ScriptAudit
