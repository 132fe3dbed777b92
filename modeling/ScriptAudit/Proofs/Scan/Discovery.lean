import ScriptAudit.Proofs.Scan.Walk
import ScriptAudit.Proofs.Tree.Descendants

/-!
# Which documents a scan discovers

A scan does not enter what it passes over. It comes to the same files as a walk of everything that
keeps the files with no hidden and no excluded name on the way to them: to pass over an entry on
the walk, and to look at whole paths after it, is one thing. So the documents of a scan are told by
the names that lead to them.
-/

namespace ScriptAudit

namespace ScanConfig

/-- What documents are called. -/
def Titles (config : ScanConfig) (name : String) : Prop :=
  (∃ stem, name = stem ++ ".mock.md") ∨ (∃ stem, name = stem ++ ".full.md") ∨
    config.includeUnsuffixed = true ∧ (∃ stem, name = stem ++ ".md") ∧
      name.toList.map Char.toLower ≠ "readme.md".toList

/-- The names lead from the root of a scan to a document. -/
structure Finds (config : ScanConfig) (root : Node) (names : List String) : Prop where
  file : ∃ content, root.at? names = some (.file content)
  titled : ∃ name, names.getLast? = some name ∧ config.Titles name
  shown : ∀ name ∈ names, name.toList.head? ≠ some '.'
  entered : ∀ name ∈ names.dropLast, name ∉ config.exclude

theorem Finds.exists_concat {config : ScanConfig} {root : Node} {names : List String}
    (finds : config.Finds root names) : ∃ front name content, names = front ++ [name] ∧
      root.at? (front ++ [name]) = some (.file content) := by
  obtain ⟨content, there⟩ := finds.file
  obtain ⟨name, last, _⟩ := finds.titled
  obtain ⟨front, rfl⟩ := List.getLast?_eq_some_iff.1 last
  exact ⟨front, name, content, rfl, there⟩

theorem accepts_iff {config : ScanConfig} {name : String} :
    config.accepts name = true ↔ config.Titles name := by
  have ends (tail : String) :
      Text.endsWith tail.toList name.toList = true ↔ ∃ stem, name = stem ++ tail := by
    rw [Text.endsWith_iff]
    constructor
    · rintro ⟨front, whole⟩
      refine ⟨String.ofList front, ?_⟩
      rw [← String.toList_inj, String.toList_append, String.toList_ofList, whole]
    · rintro ⟨stem, rfl⟩
      exact ⟨stem.toList, String.toList_append.symm⟩
  rw [accepts, isUnsuffixed, Mode.ofFileName?, Titles, Bool.or_eq_true, List.find?_isSome,
    ← or_assoc]
  refine or_congr ?_ ?_
  · simp [Mode.all, Mode.fileEnding, ends]
  · simp only [Bool.and_eq_true, ends, bne_iff_ne]

end ScanConfig

namespace Scan

variable {config : ScanConfig}

/-! ## Files below a root -/

/-- Whether a file is left when everything is walked. -/
def keeps (config : ScanConfig) (e : List String × Node) : Bool :=
  e.2.isFile && e.1.all (fun name => name.toList.head? ≠ some '.') &&
    e.1.dropLast.all fun name => !config.exclude.contains name

theorem keeps_singleton (name : String) (node : Node) :
    keeps config ([name], node) = (node.isFile && !config.skips name node.isDirectory) := by
  cases node <;> simp [keeps, ScanConfig.skips, Node.isFile, Node.isDirectory]

/-- An entry further down is kept where its directory is not passed over. -/
theorem keeps_cons {name : String} {inner : List String} (deeper : inner ≠ []) (m : Node) :
    keeps config (name :: inner, m) = (!config.skips name true && keeps config (inner, m)) := by
  rw [Bool.eq_iff_iff]
  simp only [keeps, ScanConfig.skips, List.dropLast_cons_of_ne_nil deeper, List.all_cons,
    Bool.and_eq_true, Bool.not_eq_true', Bool.or_eq_false_iff, Bool.true_and, decide_eq_true_eq,
    decide_eq_false_iff_not]
  grind

/-- Below a directory that is passed over nothing is kept, and else what is kept in it. -/
theorem filter_keeps_map_cons (name : String) (n : Node) :
    (n.descendants.map fun e => (name :: e.1, e.2)).filter (keeps config) =
      if config.skips name true then []
      else (n.descendants.filter (keeps config)).map fun e => (name :: e.1, e.2) := by
  have kept : ∀ e ∈ n.descendants, keeps config (name :: e.1, e.2) =
      (!config.skips name true && keeps config e) :=
    fun e he => keeps_cons (Node.ne_nil_of_mem_descendants he) e.2
  rw [List.filter_map]
  cases skipped : config.skips name true with
  | true =>
    rw [if_pos rfl, List.map_eq_nil_iff, List.filter_eq_nil_iff]
    intro e he
    simp [kept e he, skipped]
  | false =>
    rw [if_neg (by simp)]
    refine congrArg _ (List.filter_congr fun e he => ?_)
    simp [kept e he, skipped]

mutual

/-- The walk below a node meets the files that a walk of everything keeps. -/
theorem files_walkBelow (config : ScanConfig) (n : Node) {p : Path}
    (short : n.isDirectory = true → Tree.isTooLong p = false)
    (readable : ∀ e ∈ n.descendants, e.2.isDirectory = true →
      Tree.isTooLong (p.joins e.1) = false) :
    (walkBelow config p n).filterMap Met.file? = if n.isFile then [p] else
      (n.descendants.filter (keeps config)).map fun e => p.joins e.1 := by
  cases n with
  | file content =>
    rw [walkBelow]
    rfl
  | link target =>
    rw [walkBelow]
    rfl
  | directory es =>
    rw [walkBelow, if_neg (by simp [short rfl])]
    exact files_walkIn config es readable

theorem files_walkIn (config : ScanConfig) (es : List (String × Node)) {p : Path}
    (readable : ∀ e ∈ Node.descendantsIn es, e.2.isDirectory = true →
      Tree.isTooLong (p.joins e.1) = false) :
    (walkIn config p es).filterMap Met.file? =
      ((Node.descendantsIn es).filter (keeps config)).map fun e => p.joins e.1 := by
  cases es with
  | nil =>
    rw [walkIn]
    rfl
  | cons head rest =>
    obtain ⟨name, node⟩ := head
    rw [Node.descendantsIn] at readable ⊢
    obtain ⟨own, others⟩ := List.forall_mem_append.1 readable
    obtain ⟨first, inner⟩ := List.forall_mem_cons.1 own
    have below := files_walkBelow config node (p := p.join name) first
      fun e he => inner _ (List.mem_map_of_mem he)
    rw [walkIn, List.filterMap_append, files_walkIn config rest others, List.filter_append,
      List.map_append, List.filter_cons, keeps_singleton, filter_keeps_map_cons]
    refine congrArg (· ++ _) ?_
    -- a file is kept at its own name, a directory for what is below it
    cases node with
    | file content =>
      cases skipped : config.skips name false with
      | true => simp [Node.isDirectory, Node.isFile, Node.descendants, skipped]
      | false =>
        simp [Node.isDirectory, Node.isFile, Node.descendants, skipped, below, Path.joins]
    | link target => simp [Node.isFile, Node.descendants, walkBelow]
    | directory es =>
      cases skipped : config.skips name true with
      | true => simp [Node.isDirectory, Node.isFile, skipped]
      | false =>
        simp [Node.isDirectory, Node.isFile, skipped, below, Path.joins]

end

/-! ## Documents -/

/-- The names that lead from the root of a scan to its documents, in the order of the walk. -/
def places (config : ScanConfig) (root : Node) : List (List String) :=
  ((root.descendants.filter (keeps config)).map (·.1)).filter fun names =>
    names.getLast?.any config.accepts

theorem places_sublist (root : Node) :
    (places config root).Sublist (root.descendants.map (·.1)) :=
  List.filter_sublist.trans (List.filter_sublist.map _)

theorem pairwise_places {root : Node} (ordered : root.WellFormed) :
    (places config root).Pairwise (· < ·) :=
  (Node.pairwise_descendants root ordered).sublist (places_sublist root)

theorem keeps_iff {names : List String} {m : Node} :
    keeps config (names, m) = true ↔ (∃ content, m = .file content) ∧
      (∀ name ∈ names, name.toList.head? ≠ some '.') ∧
      ∀ name ∈ names.dropLast, name ∉ config.exclude := by
  have file : m.isFile = true ↔ ∃ content, m = .file content := by
    cases m <;> simp [Node.isFile]
  simp only [keeps, Bool.and_eq_true, file, and_assoc, List.all_eq_true, decide_eq_true_eq,
    Bool.not_eq_true', List.contains_eq_mem, decide_eq_false_iff_not]

theorem mem_places_iff {root : Node} (ordered : root.WellFormed) {names : List String} :
    names ∈ places config root ↔ config.Finds root names := by
  have titled : names.getLast?.any config.accepts = true ↔
      ∃ name, names.getLast? = some name ∧ config.Titles name := by
    simp only [Option.any_eq_true, ScanConfig.accepts_iff]
  rw [places, List.mem_filter, titled]
  constructor
  · rintro ⟨kept, accepted⟩
    obtain ⟨⟨names, m⟩, hm, rfl⟩ := List.mem_map.1 kept
    obtain ⟨walked, kept⟩ := List.mem_filter.1 hm
    obtain ⟨⟨content, rfl⟩, shown, entered⟩ := keeps_iff.1 kept
    obtain ⟨_, there⟩ := (Node.mem_descendants_iff ordered).1 walked
    exact ⟨⟨content, there⟩, accepted, shown, entered⟩
  · rintro ⟨⟨content, there⟩, ⟨name, last, title⟩, shown, entered⟩
    have some : names ≠ [] := by
      rintro rfl
      cases last
    refine ⟨List.mem_map.2 ⟨(names, .file content), List.mem_filter.2 ⟨?_, ?_⟩, rfl⟩, name, last,
      title⟩
    · exact (Node.mem_descendants_iff ordered).2 ⟨some, there⟩
    · exact keeps_iff.2 ⟨⟨content, rfl⟩, shown, entered⟩

end Scan

namespace Tree

variable {t : Tree} {config : ScanConfig} {root : Path} {es : List (String × Node)}

/-- The document that names lead to from the root of a scan. -/
def documentAt (t : Tree) (root : Path) (names : List String) : Descriptor where
  path := root.joins names
  feature := t.featureOf (root.joins names)
  mode := names.getLast?.bind Mode.ofFileName?

@[simp]
theorem documentAt_path (names : List String) : (t.documentAt root names).path = root.joins names :=
  rfl

@[simp]
theorem documentAt_feature (names : List String) :
    (t.documentAt root names).feature = t.featureOf (root.joins names) := by
  dsimp only [documentAt]

theorem describe?_joins {start : Position} (located : t.locate root = .ok start)
    (ordered : (Node.directory es).WellFormed) {names : List String} {m : Node}
    (walked : (names, m) ∈ (Node.directory es).descendants) :
    Scan.describe? t config (root.joins names) =
      if names.getLast?.any config.accepts then some (t.documentAt root names) else none := by
  obtain ⟨some, there⟩ := (Node.mem_descendants_iff ordered).1 walked
  have named := (ordered.at? there).2
  obtain ⟨front, name, rfl⟩ := List.eq_nil_or_concat names |>.resolve_left some
  rw [List.concat_eq_append] at named ⊢
  rw [Scan.describe?, Path.fileName?_joins (ne_empty_of_locate located) named, documentAt,
    List.getLast?_concat]
  rfl

/-- The documents that the scan of a readable directory discovers, in the order of the walk. -/
theorem documents_scan_eq (found : t.find root = .ok (.directory es))
    (readable : ∀ e ∈ (Node.directory es).descendants, e.2.isDirectory = true →
      isTooLong (root.joins e.1) = false) :
    (t.scan config root).documents =
      (Scan.places config (.directory es)).map (t.documentAt root) := by
  obtain ⟨start, located, here⟩ := locate_of_find found
  have ordered : (Node.directory es).WellFormed := (t.wellFormed.at? here).1
  have met : t.met config root = Scan.walkIn config root es := by
    rw [Tree.met, found]
  have described : (Scan.places config (.directory es)).map (t.documentAt root) =
      ((Node.directory es).descendants.filter (Scan.keeps config)).filterMap fun e =>
        if e.1.getLast?.any config.accepts then some (t.documentAt root e.1) else none := by
    rw [Scan.places, List.filter_map, List.map_map, ← List.filterMap_eq_map, List.filterMap_filter]
    rfl
  rw [documents_scan, met, Scan.files_walkIn config es readable, List.filterMap_map, described]
  refine List.filterMap_congr fun e he => ?_
  exact describe?_joins located ordered (List.mem_filter.1 he).1

end Tree

end ScriptAudit
