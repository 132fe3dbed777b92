import ScriptAudit.Proofs.Gather
import ScriptAudit.Proofs.Scan.Walk
import ScriptAudit.Proofs.Tree.Without

/-!
# Scanning a tree without some of its files

The documents found are those that were found before, in the same spellings, without those that are
gone. A root that led to a file that is gone finds nothing, and no root that is left is taken for
it.
-/

namespace ScriptAudit

/-- A path that led to a file that is gone. -/
def Tree.lost (t : Tree) (gone : Position → Bool) (p : Path) : Bool :=
  match t.locate p with
  | .ok x => gone x
  | .error _ => false

theorem Tree.lost_of_locate {t : Tree} {gone : Position → Bool} {p : Path} {x : Position}
    (located : t.locate p = .ok x) : t.lost gone p = gone x := by
  rw [lost, located]

namespace Scan

variable {t : Tree} {gone : Position → Bool}

/-! ## The walk below a node -/

mutual

theorem files_walkBelow_without (config : ScanConfig) (node : Node) {p : Path} {pos : Position}
    (h : t.locate p = .ok pos) (here : t.top.at? pos = some node)
    (stays : (node.isFile && gone pos) = false) :
    (walkBelow config p (node.without gone pos)).filterMap Met.file? =
      ((walkBelow config p node).filterMap Met.file?).filter fun q => !t.lost gone q := by
  cases node with
  | link target => rfl
  | file content =>
    have kept : t.lost gone p = false := (Tree.lost_of_locate h).trans stays
    simp [Node.without, walkBelow, Met.file?, kept]
  | directory es =>
    rw [Node.without, walkBelow, walkBelow]
    split
    · rfl
    · exact files_walkIn_without config es h here fun e he => he

theorem files_walkIn_without (config : ScanConfig) (es : List (String × Node)) {p : Path}
    {pos : Position} (h : t.locate p = .ok pos) {all : List (String × Node)}
    (here : t.top.at? pos = some (.directory all)) (among : ∀ e ∈ es, e ∈ all) :
    (walkIn config p (Node.withoutIn gone pos es)).filterMap Met.file? =
      ((walkIn config p es).filterMap Met.file?).filter fun q => !t.lost gone q := by
  cases es with
  | nil => rfl
  | cons head rest =>
    obtain ⟨name, node⟩ := head
    have others := files_walkIn_without config rest h here fun e he =>
      among e (List.mem_cons_of_mem _ he)
    have entry : (name, node) ∈ all := among _ List.mem_cons_self
    rw [Node.withoutIn, walkIn, List.filterMap_append, List.filter_append]
    cases gone_eq : node.isFile && gone (pos ++ [name]) with
    | true =>
      -- of a file that is gone, nothing is met
      cases node with
      | directory es => cases gone_eq
      | link target => cases gone_eq
      | file content =>
        have found := (Tree.locate_join h here entry fun _ same => by cases same).1
        have lost : t.lost gone (p.join name) = true := (Tree.lost_of_locate found).trans gone_eq
        have nothing : ((if config.skips name (Node.file content).isDirectory then []
            else walkBelow config (p.join name) (.file content)).filterMap Met.file?).filter
              (fun q => !t.lost gone q) = [] := by
          split
          · rfl
          · simp [walkBelow, Met.file?, lost]
        rw [nothing, List.nil_append]
        exact others
    | false =>
      have first : ((if config.skips name node.isDirectory then []
          else walkBelow config (p.join name) (node.without gone (pos ++ [name]))).filterMap
            Met.file?) = ((if config.skips name node.isDirectory then []
          else walkBelow config (p.join name) node).filterMap Met.file?).filter
            fun q => !t.lost gone q := by
        split
        · rfl
        · by_cases plain : ∀ target, node ≠ .link target
          · obtain ⟨found, there⟩ := Tree.locate_join h here entry plain
            exact files_walkBelow_without config node found there gone_eq
          · cases node with
            | link target => rfl
            | file content => exact absurd (fun _ same => by cases same) plain
            | directory es => exact absurd (fun _ same => by cases same) plain
      rw [if_neg (by simp), walkIn, Node.isDirectory_without, List.filterMap_append, first, others]

end

/-- Which files are documents is decided by their names alone. -/
theorem map_path_filterMap_describe? (t : Tree) (config : ScanConfig) (ps : List Path) :
    (ps.filterMap (describe? t config)).map (·.path) =
      ps.filter fun p => p.fileName?.any config.accepts := by
  induction ps with
  | nil => rfl
  | cons p ps ih =>
    rw [List.filter_cons]
    cases named : p.fileName? with
    | none =>
      rw [List.filterMap_cons_none (by rw [describe?, named]; rfl), ih]
      rfl
    | some name =>
      cases accepted : config.accepts name with
      | false =>
        rw [List.filterMap_cons_none (by simp [describe?, named, accepted]), ih]
        simp [accepted]
      | true =>
        have described : describe? t config p =
            some ⟨p, t.featureOf p, Mode.ofFileName? name⟩ := by
          simp [describe?, named, accepted]
        rw [List.filterMap_cons_some described, List.map_cons, ih]
        simp [accepted]

end Scan

namespace Tree

variable {t : Tree} {gone : Position → Bool}

theorem files_met_without (config : ScanConfig) (root : Path) :
    ((t.without gone).met config root).filterMap Scan.Met.file? =
      ((t.met config root).filterMap Scan.Met.file?).filter fun q => !t.lost gone q := by
  have nowhere {u : Tree} (h : ∀ x, isTooLong root = false → u.locate root ≠ .ok x) :
      u.met config root = [] := by
    refine List.eq_nil_iff_forall_not_mem.2 fun m hm => ?_
    obtain ⟨x, _, short, located, _⟩ := exists_of_mem_met hm
    exact h x short located
  by_cases found : isTooLong root = false ∧ ∃ x, t.locate root = .ok x
  · obtain ⟨short, x, located⟩ := found
    obtain ⟨n, here, _⟩ := exists_at?_of_locate located
    rw [met_eq short located here]
    cases gone_eq : n.isFile && gone x with
    | true =>
      cases n with
      | directory es => cases gone_eq
      | link target => cases gone_eq
      | file content =>
        have lost : t.lost gone root = true := (lost_of_locate located).trans gone_eq
        rw [nowhere fun y _ found => ?_]
        · simp [Scan.walkBelow, Scan.Met.file?, lost]
        · obtain ⟨there, stays⟩ := locate_without.1 found
          rw [located] at there
          cases there
          exact stays ⟨gone_eq, content, here⟩
    | false =>
      have stays : ¬Loses t.top gone x := fun lost =>
        Bool.eq_false_iff.1 gone_eq ((loses_iff here).1 lost)
      have there := Node.at?_without_of_stays t.wellFormed here gone_eq
      rw [met_eq short (locate_without.2 ⟨located, stays⟩) there]
      exact Scan.files_walkBelow_without config n located here gone_eq
  · rw [nowhere fun x short located => found ⟨short, x, located⟩,
      nowhere fun x short located => found ⟨short, x, (locate_without.1 located).1⟩]
    rfl

/-- The paths of the documents that the scan of a root finds. -/
def found (t : Tree) (config : ScanConfig) (root : Path) : List Path :=
  (t.scan config root).documents.map (·.path)

theorem exists_locate_of_mem_found {config : ScanConfig} {root p : Path}
    (hp : p ∈ t.found config root) :
    (∃ x, t.locate root = .ok x) ∧ ∃ x, t.locate p = .ok x := by
  obtain ⟨d, hd, rfl⟩ := List.mem_map.1 hp
  obtain ⟨x, _, _, _, located, _, _, _, there, _⟩ := exists_along?_of_mem_documents hd
  exact ⟨⟨x, located⟩, _, there⟩

theorem found_without (config : ScanConfig) (root : Path) :
    (t.without gone).found config root = (t.found config root).filter fun p => !t.lost gone p := by
  simp only [found, documents_scan]
  rw [Scan.map_path_filterMap_describe?, Scan.map_path_filterMap_describe?, files_met_without,
    List.filter_comm]

/-! ## Several roots -/

/-- What still leads somewhere has the key that it had. -/
theorem keyOf_without {p : Path} {x : Position} (left : (t.without gone).locate p = .ok x) :
    (t.without gone).keyOf p = t.keyOf p := by
  obtain ⟨located, stays⟩ := locate_without.1 left
  rw [keyOf, keyOf, resolved_without located stays]

/-- What leads nowhere is known by its spelling. -/
theorem keyOf_of_nowhere {p : Path} (nowhere : ∀ x, t.locate p ≠ .ok x) :
    t.keyOf p = p.parts := by
  rw [keyOf, resolved]
  cases found : t.locate p with
  | ok x => exact absurd found (nowhere x)
  | error e => rfl

/-- A root that still leads somewhere is told apart from the others as before. -/
theorem keyOf_without_eq_iff {p q : Path} {x : Position}
    (left : (t.without gone).locate q = .ok x) :
    (t.without gone).keyOf q = (t.without gone).keyOf p ↔ t.keyOf q = t.keyOf p := by
  obtain ⟨located, stays⟩ := locate_without.1 left
  obtain ⟨n, here, plain⟩ := exists_at?_of_locate located
  by_cases other : ∃ y, t.locate p = .ok y
  · obtain ⟨y, other⟩ := other
    by_cases lost : Loses t.top gone y
    · have apart : y ≠ x := by
        rintro rfl
        exact stays lost
      have spelled : (t.without gone).keyOf p = p.parts := by
        refine keyOf_of_nowhere fun z found => ?_
        obtain ⟨there, kept⟩ := locate_without.1 found
        rw [other] at there
        cases there
        exact kept lost
      -- its spelling cannot be that of a path to another place
      have differs : (t.without gone).keyOf q ≠ (t.without gone).keyOf p := by
        intro same
        rw [keyOf_without left, spelled, keyOf, parts_resolved located] at same
        exact apart (eq_of_parts_eq_path other here plain same.symm)
      exact iff_of_false differs fun same => apart ((keyOf_eq_iff located other).1 same).symm
    · rw [keyOf_without left, keyOf_without (locate_without.2 ⟨other, lost⟩)]
  · have before : t.keyOf p = p.parts := keyOf_of_nowhere fun y found => other ⟨y, found⟩
    have after : (t.without gone).keyOf p = p.parts :=
      keyOf_of_nowhere fun y found => other ⟨y, (locate_without.1 found).1⟩
    rw [keyOf_without left, before, after]

end Tree

namespace Run

variable {t : Tree} {gone : Position → Bool} {config : ScanConfig}

theorem documentsOf_eq (t : Tree) (config : ScanConfig) (roots : List Path) :
    documentsOf t (scansOf t config roots) =
      firstOf t.keyOf ((firstOf t.keyOf roots).flatMap (t.found config)) := by
  rw [documentsOf, scansOf, List.flatMap_map]
  rfl

/-- Roots that find something are the same before and after. -/
theorem flatMap_found_without (roots : List Path) :
    (firstOf (t.without gone).keyOf roots).flatMap ((t.without gone).found config) =
      ((firstOf t.keyOf roots).flatMap (t.found config)).filter fun p => !t.lost gone p := by
  let finds (root : Path) : Bool := !((t.without gone).found config root).isEmpty
  have keys : (firstOf (t.without gone).keyOf roots).filter finds =
      (firstOf t.keyOf roots).filter finds := by
    refine filter_firstOf_congr fun p _ q _ some => ?_
    obtain ⟨d, hd⟩ : ∃ d, d ∈ (t.without gone).found config q := by
      refine List.exists_mem_of_ne_nil _ fun none => ?_
      simp only [finds, none] at some
      cases some
    obtain ⟨⟨x, left⟩, _⟩ := Tree.exists_locate_of_mem_found hd
    exact Tree.keyOf_without_eq_iff left
  have silent (rs : List Path) : (rs.filter finds).flatMap ((t.without gone).found config) =
      rs.flatMap ((t.without gone).found config) := by
    induction rs with
    | nil => rfl
    | cons root rs ih =>
      rw [List.filter_cons, List.flatMap_cons, ← ih]
      cases none : ((t.without gone).found config root).isEmpty with
      | true => rw [if_neg (by simp [finds, none]), List.isEmpty_iff.1 none, List.nil_append]
      | false => rw [if_pos (by simp [finds, none]), List.flatMap_cons]
  rw [← silent, keys, silent, List.filter_flatMap]
  exact List.flatMap_congr fun root _ => Tree.found_without config root

/-- The documents found are those found before, without those that are gone. -/
theorem documentsOf_without (roots : List Path) :
    documentsOf (t.without gone) (scansOf (t.without gone) config roots) =
      (documentsOf t (scansOf t config roots)).filter fun p => !t.lost gone p := by
  have located : ∀ p ∈ (firstOf t.keyOf roots).flatMap (t.found config),
      ∃ x, t.locate p = .ok x := by
    intro p hp
    obtain ⟨root, _, hp⟩ := List.mem_flatMap.1 hp
    exact (Tree.exists_locate_of_mem_found hp).2
  rw [documentsOf_eq, documentsOf_eq, flatMap_found_without, ← firstOf_filter]
  · refine firstOf_congr fun p hp => ?_
    rw [← flatMap_found_without] at hp
    obtain ⟨root, _, hp⟩ := List.mem_flatMap.1 hp
    obtain ⟨_, x, left⟩ := Tree.exists_locate_of_mem_found hp
    exact Tree.keyOf_without left
  · intro p hp q hq same
    obtain ⟨x, thereP⟩ := located p hp
    obtain ⟨y, thereQ⟩ := located q hq
    rw [Tree.lost_of_locate thereP, Tree.lost_of_locate thereQ,
      (Tree.keyOf_eq_iff thereP thereQ).1 same]

end Run

end ScriptAudit
