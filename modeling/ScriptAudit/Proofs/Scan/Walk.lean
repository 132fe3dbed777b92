import ScriptAudit.Proofs.Scan
import ScriptAudit.Proofs.Tree.Join

/-!
# Where a scan goes

From its root a scan comes to every node that names lead to, as long as it passes over none of the
entries on the way. A path may be too long for the system to take it; a scan that meets no such path
finds every document that it comes to.
-/

namespace ScriptAudit

namespace Node

/-- The node that a walk comes to along these names, when it passes over none of the entries. -/
def along? (config : ScanConfig) (n : Node) : List String → Option Node
  | [] => some n
  | name :: rest =>
    match n.entries.lookup name with
    | some child =>
      if config.skips name child.isDirectory then none else child.along? config rest
    | none => none

section Along

variable {config : ScanConfig} {n m : Node}

theorem along?_cons {name : String} {rest : List String} :
    n.along? config (name :: rest) = some m ↔ ∃ child, n.entries.lookup name = some child ∧
      config.skips name child.isDirectory = false ∧ child.along? config rest = some m := by
  rw [along?]
  cases n.entries.lookup name with
  | none => simp
  | some child => cases skipped : config.skips name child.isDirectory <;> simp [skipped]

theorem along?_append {front back : List String} :
    n.along? config (front ++ back) = (n.along? config front).bind (·.along? config back) := by
  induction front generalizing n with
  | nil => rfl
  | cons name front ih =>
    rw [List.cons_append, along?, along?]
    cases n.entries.lookup name with
    | none => rfl
    | some child =>
      dsimp only
      split
      · rfl
      · exact ih

theorem at?_of_along? {names : List String} (h : n.along? config names = some m) :
    n.at? names = some m := by
  induction names generalizing n with
  | nil => exact h
  | cons name rest ih =>
    obtain ⟨child, found, _, further⟩ := along?_cons.1 h
    rw [Node.at?, found]
    exact ih further

end Along

end Node

namespace Scan

/-! ## The walk below a node -/

theorem mem_walkIn_iff {config : ScanConfig} {p : Path} {es : List (String × Node)} {m : Met} :
    m ∈ walkIn config p es ↔ ∃ e ∈ es, config.skips e.1 e.2.isDirectory = false ∧
      m ∈ walkBelow config (p.join e.1) e.2 := by
  induction es with
  | nil => simp [walkIn]
  | cons e es ih =>
    obtain ⟨name, node⟩ := e
    rw [walkIn, List.mem_append, ih]
    cases skipped : config.skips name node.isDirectory <;> simp [skipped]

mutual

/-- A walk meets a file only along names that it does not pass over. -/
theorem exists_along?_of_mem_walkBelow {config : ScanConfig} (n : Node) (inOrder : n.WellFormed)
    {p q : Path} (h : .file q ∈ walkBelow config p n) : ∃ names content,
      n.along? config names = some (.file content) ∧ q = p.joins names := by
  cases n with
  | file content =>
    rw [walkBelow, List.mem_singleton] at h
    cases h
    exact ⟨[], content, rfl, rfl⟩
  | link target =>
    rw [walkBelow] at h
    cases h
  | directory es =>
    rw [walkBelow] at h
    split at h
    · rw [List.mem_singleton] at h
      cases h
    · obtain ⟨name, node, found, kept, names, content, there, rfl⟩ :=
        exists_along?_of_mem_walkIn es inOrder h
      refine ⟨name :: names, content, Node.along?_cons.2 ⟨node, ?_, kept, there⟩, rfl⟩
      exact Node.WellFormedEntries.lookup_of_mem inOrder found

theorem exists_along?_of_mem_walkIn {config : ScanConfig} (es : List (String × Node))
    (inOrder : Node.WellFormedEntries es) {p q : Path} (h : .file q ∈ walkIn config p es) :
    ∃ name node, (name, node) ∈ es ∧ config.skips name node.isDirectory = false ∧
      ∃ names content, node.along? config names = some (.file content) ∧
        q = (p.join name).joins names := by
  cases es with
  | nil =>
    rw [walkIn] at h
    cases h
  | cons e rest =>
    obtain ⟨name, node⟩ := e
    obtain ⟨_, ordered, _, others⟩ := inOrder
    rw [walkIn] at h
    rcases List.mem_append.1 h with first | later
    · split at first
      · cases first
      · rename_i kept
        obtain ⟨names, content, there, rfl⟩ := exists_along?_of_mem_walkBelow node ordered first
        exact ⟨name, node, List.mem_cons_self, Bool.eq_false_iff.2 kept, names, content, there, rfl⟩
    · obtain ⟨name', node', found, rest⟩ := exists_along?_of_mem_walkIn rest others later
      exact ⟨name', node', List.mem_cons_of_mem _ found, rest⟩

end

/-- A walk that lists all directories meets every file that it comes to. -/
theorem mem_walkBelow_of_along? {config : ScanConfig} {n : Node} {p : Path}
    (listed : ∀ q, .unlisted q ∉ walkBelow config p n) {names : List String} {content : Content}
    (there : n.along? config names = some (.file content)) :
    .file (p.joins names) ∈ walkBelow config p n := by
  induction names generalizing n p with
  | nil =>
    cases there
    rw [walkBelow]
    exact List.mem_singleton_self _
  | cons name rest ih =>
    obtain ⟨child, found, kept, further⟩ := Node.along?_cons.1 there
    cases n with
    | file _ => cases found
    | link _ => cases found
    | directory es =>
      rw [walkBelow] at listed ⊢
      split at listed
      · exact absurd (List.mem_singleton_self _) (listed p)
      · rename_i short
        have entry : (name, child) ∈ es := Node.mem_of_lookup found
        rw [if_neg short, mem_walkIn_iff]
        refine ⟨(name, child), entry, kept, ih (fun q hq => listed q ?_) further⟩
        exact mem_walkIn_iff.2 ⟨(name, child), entry, kept, hq⟩

end Scan

namespace Tree

variable {t : Tree} {config : ScanConfig} {root : Path} {start : Position}

/-! ## From a root -/

/-- What the scan of a root meets; a root that is a file meets itself. -/
def met (t : Tree) (config : ScanConfig) (root : Path) : List Scan.Met :=
  match t.find root with
  | .ok (.directory entries) => Scan.walkIn config root entries
  | .ok _ => [.file root]
  | .error _ => []

theorem documents_scan : (t.scan config root).documents =
    ((t.met config root).filterMap (·.file?)).filterMap (Scan.describe? t config) := by
  simp only [scan, met]
  cases t.find root with
  | error e => rfl
  | ok n =>
    cases n with
    | directory entries => rfl
    | file content => exact Scan.toList_describe? t config root
    | link target => exact Scan.toList_describe? t config root

theorem mem_documents_scan_iff {d : Descriptor} :
    d ∈ (t.scan config root).documents ↔
      ∃ q, .file q ∈ t.met config root ∧ Scan.describe? t config q = some d := by
  rw [documents_scan, List.mem_filterMap]
  constructor
  · rintro ⟨q, hq, described⟩
    obtain ⟨m, hm, file⟩ := List.mem_filterMap.1 hq
    cases m with
    | unlisted p => cases file
    | file p =>
      cases file
      exact ⟨_, hm, described⟩
  · rintro ⟨q, hq, described⟩
    exact ⟨q, List.mem_filterMap.2 ⟨_, hq, rfl⟩, described⟩

theorem met_eq {n : Node} (short : isTooLong root = false) (located : t.locate root = .ok start)
    (here : t.top.at? start = some n) : t.met config root = Scan.walkBelow config root n := by
  obtain ⟨_, same, plain⟩ := exists_at?_of_locate located
  rw [here] at same
  cases same
  rw [met, find_eq_ok_iff.2 ⟨short, start, located, here⟩]
  cases n with
  | file content => rw [Scan.walkBelow]
  | directory es => rw [Scan.walkBelow, if_neg (by simp [short])]
  | link target => exact absurd rfl (plain target)

theorem exists_of_mem_met {m : Scan.Met} (h : m ∈ t.met config root) :
    ∃ start n, isTooLong root = false ∧ t.locate root = .ok start ∧
      t.top.at? start = some n ∧ m ∈ Scan.walkBelow config root n := by
  have found : ∃ n, t.find root = .ok n := by
    rw [met] at h
    cases result : t.find root with
    | error e =>
      rw [result] at h
      cases h
    | ok n => exact ⟨n, rfl⟩
  obtain ⟨n, found⟩ := found
  obtain ⟨short, start, located, here⟩ := find_eq_ok_iff.1 found
  exact ⟨start, n, short, located, here, met_eq short located here ▸ h⟩

/-! ## Paths that fit -/

/-- No path that the scan of a root hands to the system is too long for it. -/
structure Fits (t : Tree) (config : ScanConfig) (root : Path) : Prop where
  short : isTooLong root = false
  listed : ∀ m ∈ t.met config root, m.problem? = none
  screenshots : ∀ f ∈ (t.scan config root).features, isTooLong f.screenshotDirectory = false ∧
    ∀ name ∈ (t.list f.screenshotDirectory).toOption.getD [],
      isTooLong (f.screenshotDirectory.join name) = false

/-- From the root a scan comes to the directory at a position. -/
def Visits (t : Tree) (config : ScanConfig) (root : Path) (pos : Position) : Prop :=
  ∃ start n inner es, t.locate root = .ok start ∧ t.top.at? start = some n ∧
    n.along? config inner = some (.directory es) ∧ pos = start ++ inner

/-- What the scan of a root finds are files that it comes to, of accepted names. -/
theorem exists_along?_of_mem_documents {d : Descriptor} (hd : d ∈ (t.scan config root).documents) :
    ∃ start n names content, t.locate root = .ok start ∧ t.top.at? start = some n ∧
      n.along? config names = some (.file content) ∧ d.path = root.joins names ∧
      t.locate d.path = .ok (start ++ names) ∧
      ∃ name, d.path.fileName? = some name ∧ config.accepts name = true := by
  obtain ⟨q, hq, described⟩ := mem_documents_scan_iff.1 hd
  obtain ⟨start, n, _, located, here, below⟩ := exists_of_mem_met hq
  obtain ⟨names, content, there, rfl⟩ :=
    Scan.exists_along?_of_mem_walkBelow n (t.wellFormed.at? here).1 below
  obtain ⟨name, named, accepted⟩ := Option.bind_eq_some_iff.1 described
  split at accepted
  · rename_i suits
    cases accepted
    refine ⟨start, n, names, content, located, here, there, rfl, ?_, name, named, suits⟩
    exact locate_joins located here (Node.at?_of_along? there) fun _ same => by cases same
  · cases accepted

/-- A scan that meets no path too long finds every file of an accepted name below the directories
that it comes to. -/
theorem exists_mem_documents_of_visits (fits : t.Fits config root) {pos : Position}
    (visits : t.Visits config root pos) {n : Node} (here : t.top.at? pos = some n)
    {front : List String} {name : String} {content : Content}
    (there : n.along? config (front ++ [name]) = some (.file content))
    (accepted : config.accepts name = true) :
    ∃ d ∈ (t.scan config root).documents, ∃ p, t.locate p = .ok (pos ++ front) ∧
      d.path = p.join name ∧ t.locate d.path = .ok (pos ++ (front ++ [name])) := by
  obtain ⟨start, m, inner, es, located, atStart, toward, rfl⟩ := visits
  have same : n = .directory es := by
    rw [Node.at?_append, atStart, Option.bind_some, Node.at?_of_along? toward] at here
    exact (Option.some.inj here).symm
  have whole : m.along? config (inner ++ (front ++ [name])) = some (.file content) := by
    rw [Node.along?_append, toward, Option.bind_some, ← same]
    exact there
  have listed : ∀ q, .unlisted q ∉ Scan.walkBelow config root m := by
    intro q hq
    rw [← met_eq fits.short located atStart] at hq
    cases fits.listed _ hq
  have met : .file (root.joins (inner ++ (front ++ [name]))) ∈ t.met config root := by
    rw [met_eq fits.short located atStart]
    exact Scan.mem_walkBelow_of_along? listed whole
  have path_eq : root.joins (inner ++ (front ++ [name])) =
      (root.joins (inner ++ front)).join name := by
    rw [← List.append_assoc, Path.joins_append]
    rfl
  obtain ⟨dir, toDir, last⟩ : ∃ dir, m.along? config (inner ++ front) = some dir ∧
      dir.along? config [name] = some (.file content) := by
    rw [← List.append_assoc, Node.along?_append] at whole
    exact Option.bind_eq_some_iff.1 whole
  have locatedDir : t.locate (root.joins (inner ++ front)) = .ok (start ++ (inner ++ front)) := by
    refine locate_joins located atStart (Node.at?_of_along? toDir) fun target same => ?_
    obtain ⟨_, found, _⟩ := Node.along?_cons.1 last
    rw [same] at found
    cases found
  have locatedFile := locate_joins located atStart (Node.at?_of_along? whole)
    fun _ same => by cases same
  have named : isEntryName name = true := by
    have found : t.top.at? (start ++ (inner ++ (front ++ [name]))) = some (.file content) := by
      rw [Node.at?_append, atStart]
      exact Node.at?_of_along? whole
    exact (t.wellFormed.at? found).2 name (by simp)
  have described : Scan.describe? t config ((root.joins (inner ++ front)).join name) =
      some { path := (root.joins (inner ++ front)).join name
             feature := t.featureOf ((root.joins (inner ++ front)).join name)
             mode := Mode.ofFileName? name } := by
    rw [Scan.describe?, Path.fileName?_join (ne_empty_of_locate locatedDir) named, Option.bind_some,
      if_pos accepted]
  rw [path_eq] at met locatedFile
  refine ⟨_, mem_documents_scan_iff.2 ⟨_, met, described⟩, root.joins (inner ++ front), ?_, rfl, ?_⟩
  · rw [locatedDir, List.append_assoc]
  · rw [locatedFile, List.append_assoc]

end Tree

end ScriptAudit
