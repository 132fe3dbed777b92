import ScriptAudit.Proofs.Distinct
import ScriptAudit.Proofs.Text.Ascending
import ScriptAudit.Proofs.Tree
import ScriptAudit.Scan

/-!
# What a scan finds

Every document that a scan finds leads to a file, and no two of them to the same one. Each lies in
the directory of one feature of the scan, which holds just the documents of that directory.
-/

namespace ScriptAudit

namespace Scan

/-- The paths lead to places below a position, each to another one. -/
structure Apart (t : Tree) (pos : Position) (ps : List Path) : Prop where
  below : ∀ p ∈ ps, ∃ inner, t.locate p = .ok (pos ++ inner)
  distinct : ps.Pairwise fun p q => t.locate p ≠ t.locate q

mutual

theorem apart_walkBelow {t : Tree} (config : ScanConfig) (node : Node) {p : Path}
    {pos : Position} (h : t.locate p = .ok pos) (here : t.top.at? pos = some node) :
    Apart t pos ((walkBelow config p node).filterMap Met.file?) := by
  cases node with
  | file content =>
    have single : (walkBelow config p (.file content)).filterMap Met.file? = [p] := by
      rw [walkBelow]
      rfl
    rw [single]
    refine ⟨fun q hq => ⟨[], ?_⟩, List.pairwise_singleton _ _⟩
    rw [List.mem_singleton.1 hq, h, List.append_nil]
  | link target =>
    rw [walkBelow]
    exact ⟨by simp, .nil⟩
  | directory es =>
    rw [walkBelow]
    split
    · exact ⟨by simp [Met.file?], .nil⟩
    · have inOrder : Node.WellFormedEntries es := (t.wellFormed.at? here).1
      obtain ⟨below, distinct⟩ := apart_walkIn config es h here (fun e he => he) inOrder.pairwise_ne
      refine ⟨fun q hq => ?_, distinct⟩
      obtain ⟨e, _, inner, found⟩ := below q hq
      exact ⟨_, found⟩

theorem apart_walkIn {t : Tree} (config : ScanConfig) (es : List (String × Node)) {p : Path}
    {pos : Position} (h : t.locate p = .ok pos) {all : List (String × Node)}
    (here : t.top.at? pos = some (.directory all)) (among : ∀ e ∈ es, e ∈ all)
    (names : es.Pairwise fun e f => e.1 ≠ f.1) :
    (∀ q ∈ (walkIn config p es).filterMap Met.file?,
      ∃ e ∈ es, ∃ inner, t.locate q = .ok (pos ++ e.1 :: inner)) ∧
    ((walkIn config p es).filterMap Met.file?).Pairwise fun q r => t.locate q ≠ t.locate r := by
  cases es with
  | nil =>
    rw [walkIn]
    exact ⟨by simp, .nil⟩
  | cons head rest =>
    obtain ⟨name, node⟩ := head
    obtain ⟨other, names⟩ := List.pairwise_cons.1 names
    obtain ⟨below, distinct⟩ := apart_walkIn config rest h here
      (fun e he => among e (List.mem_cons_of_mem _ he)) names
    have first : Apart t (pos ++ [name]) ((if config.skips name node.isDirectory then []
        else walkBelow config (p.join name) node).filterMap Met.file?) := by
      split
      · exact ⟨by simp, .nil⟩
      · by_cases plain : ∀ target, node ≠ .link target
        · obtain ⟨found, at_eq⟩ := Tree.locate_join h here (among _ List.mem_cons_self) plain
          exact apart_walkBelow config node found at_eq
        · cases node with
          | link target =>
            rw [walkBelow]
            exact ⟨by simp, .nil⟩
          | file _ => exact absurd (fun _ same => by cases same) plain
          | directory _ => exact absurd (fun _ same => by cases same) plain
    have inFirst : ∀ q ∈ (if config.skips name node.isDirectory then []
        else walkBelow config (p.join name) node).filterMap Met.file?,
        ∃ inner, t.locate q = .ok (pos ++ name :: inner) := by
      intro q hq
      obtain ⟨inner, found⟩ := first.below q hq
      exact ⟨inner, by rw [found, List.append_assoc, List.singleton_append]⟩
    rw [walkIn, List.filterMap_append]
    constructor
    · intro q hq
      rcases List.mem_append.1 hq with hq | hq
      · obtain ⟨inner, found⟩ := inFirst q hq
        exact ⟨_, List.mem_cons_self, inner, found⟩
      · obtain ⟨e, he, inner, found⟩ := below q hq
        exact ⟨e, List.mem_cons_of_mem _ he, inner, found⟩
    · refine List.pairwise_append.2 ⟨first.distinct, distinct, fun q hq r hr same => ?_⟩
      -- under different entries the positions differ in the name of the entry
      obtain ⟨inner, foundQ⟩ := inFirst q hq
      obtain ⟨e, he, inner', foundR⟩ := below r hr
      rw [foundQ, foundR, Except.ok.injEq, List.append_cancel_left_eq, List.cons.injEq] at same
      exact other e he same.1

end

/-! ## Scans -/

theorem of_describe? {t : Tree} {config : ScanConfig} {p : Path} {d : Descriptor}
    (h : describe? t config p = some d) :
    d.path = p ∧ d.feature = t.featureOf p ∧ ∃ name, p.fileName? = some name := by
  obtain ⟨name, named, found⟩ := Option.bind_eq_some_iff.1 h
  split at found
  · cases found
    exact ⟨rfl, by dsimp only, name, named⟩
  · cases found

theorem toList_describe? (t : Tree) (config : ScanConfig) (p : Path) :
    (describe? t config p).toList = [p].filterMap (describe? t config) := by
  cases described : describe? t config p <;> simp [described]

/-- What is true of the scan of any path. -/
structure Regular (t : Tree) (s : Scan) : Prop where
  located : ∀ d ∈ s.documents, ∃ pos, t.locate d.path = .ok pos
  named : ∀ d ∈ s.documents, ∃ name, d.path.fileName? = some name
  owned : ∀ d ∈ s.documents, d.feature = t.featureOf d.path
  distinct : s.documents.Pairwise fun d e => t.locate d.path ≠ t.locate e.path
  features_eq : s.features = (directories s.documents).map fun dir =>
    (featureAt t s.documents dir).1
  unreadable : ∀ d ∈ s.problems, ∃ file message, d = .unreadable file message

theorem unreadable_of_featureAt {t : Tree} {documents : List Descriptor} {dir : Path}
    {d : Diagnostic} (h : (featureAt t documents dir).2 = some d) :
    ∃ file message, d = .unreadable file message := by
  simp only [featureAt] at h
  split at h
  · cases h
  · cases h
    exact ⟨_, _, rfl⟩

/-- Described files that lead to different places make a regular scan. -/
theorem regular_ofDocuments {t : Tree} (config : ScanConfig) {ps : List Path}
    (located : ∀ p ∈ ps, ∃ pos, t.locate p = .ok pos)
    (distinct : ps.Pairwise fun p q => t.locate p ≠ t.locate q) :
    Regular t (ofDocuments t (ps.filterMap (describe? t config))) := by
  constructor
  · intro d hd
    obtain ⟨p, hp, described⟩ := List.mem_filterMap.1 hd
    obtain ⟨rfl, _⟩ := of_describe? described
    exact located _ hp
  · intro d hd
    obtain ⟨p, _, described⟩ := List.mem_filterMap.1 hd
    obtain ⟨rfl, _, named⟩ := of_describe? described
    exact named
  · intro d hd
    obtain ⟨p, _, described⟩ := List.mem_filterMap.1 hd
    obtain ⟨rfl, owned, _⟩ := of_describe? described
    exact owned
  · refine List.pairwise_filterMap.2 (distinct.imp fun apart d hd e he => ?_)
    rw [(of_describe? hd).1, (of_describe? he).1]
    exact apart
  · rw [ofDocuments, List.map_map]
    rfl
  · intro d hd
    obtain ⟨found, hfound, problem⟩ := List.mem_filterMap.1 hd
    obtain ⟨dir, _, rfl⟩ := List.mem_map.1 hfound
    exact unreadable_of_featureAt problem

theorem regular_scan (t : Tree) (config : ScanConfig) (root : Path) :
    Regular t (t.scan config root) := by
  simp only [Tree.scan]
  split
  · constructor
    · simp
    · simp
    · simp
    · exact .nil
    · rfl
    · intro d hd
      rw [List.mem_singleton] at hd
      exact ⟨_, _, hd⟩
  · rename_i entries found
    obtain ⟨pos, located, here⟩ := Tree.locate_of_find found
    have inOrder : Node.WellFormedEntries entries := (t.wellFormed.at? here).1
    obtain ⟨below, distinct⟩ :=
      apart_walkIn config entries located here (fun e he => he) inOrder.pairwise_ne
    have somewhere : ∀ q ∈ (walkIn config root entries).filterMap Met.file?,
        ∃ pos, t.locate q = .ok pos := by
      intro q hq
      obtain ⟨e, _, inner, at_eq⟩ := below q hq
      exact ⟨_, at_eq⟩
    have regular := regular_ofDocuments config somewhere distinct
    refine ⟨regular.located, regular.named, regular.owned, regular.distinct, regular.features_eq,
      fun d hd => ?_⟩
    rcases List.mem_append.1 hd with hd | hd
    · obtain ⟨m, _, problem⟩ := List.mem_filterMap.1 hd
      cases m with
      | file p => cases problem
      | unlisted p =>
        cases problem
        exact ⟨_, _, rfl⟩
    · exact regular.unreadable d hd
  · rename_i n _ found
    obtain ⟨pos, located, _⟩ := Tree.locate_of_find found
    rw [toList_describe?]
    refine regular_ofDocuments config (fun p hp => ?_) (List.pairwise_singleton _ _)
    rw [List.mem_singleton.1 hp]
    exact ⟨pos, located⟩

/-! ## Features -/

theorem directories_eq (documents : List Descriptor) :
    directories documents =
      sortBy Path.le (firstOf Path.parts (documents.map fun d => d.path.directory)) := by
  have collected := foldl_firstOf Path.parts [] (documents.map fun d => d.path.directory)
  rw [List.foldl_map, List.nil_append] at collected
  exact congrArg (sortBy Path.le) collected

theorem featureAt_fst (t : Tree) (documents : List Descriptor) (dir : Path) :
    (featureAt t documents dir).1 =
      { directory := dir
        name := ((documents.filter fun d =>
          d.path.directory.parts = dir.parts).head?.map (·.feature)).getD ""
        documents := (documents.filter fun d => d.path.directory.parts = dir.parts).map (·.path)
        screenshots := ((screenshots t (dir.join "screenshots")).toOption).getD [] } := by
  simp only [featureAt, Feature.screenshotDirectory]
  cases screenshots t (dir.join "screenshots") <;> rfl

theorem pairwise_screenshots {t : Tree} {dir : Path} {names : List String}
    (h : screenshots t dir = .ok names) : names.Pairwise (· < ·) := by
  simp only [screenshots] at h
  split at h
  · rename_i all listed
    cases h
    exact (Tree.pairwise_list listed).filter _
  · cases h
    exact .nil
  · cases h

namespace Regular

variable {t : Tree} {s : Scan} (regular : Regular t s)
include regular

theorem of_mem_features {f : Feature} (hf : f ∈ s.features) :
    (∃ d ∈ s.documents, d.path.directory = f.directory) ∧
      f.documents = (s.documents.filter fun d =>
        d.path.directory.parts = f.directory.parts).map (·.path) ∧
      f.screenshots.Pairwise (· < ·) := by
  rw [regular.features_eq] at hf
  obtain ⟨dir, hdir, rfl⟩ := List.mem_map.1 hf
  rw [featureAt_fst]
  refine ⟨?_, rfl, ?_⟩
  · rw [directories_eq, mem_sortBy] at hdir
    exact List.mem_map.1 (mem_of_mem_firstOf hdir)
  · cases found : screenshots t (dir.join "screenshots") with
    | error e => exact .nil
    | ok names => exact pairwise_screenshots found

theorem screenshots_eq {f : Feature} (hf : f ∈ s.features) :
    f.screenshots = ((screenshots t f.screenshotDirectory).toOption).getD [] := by
  rw [regular.features_eq] at hf
  obtain ⟨dir, _, rfl⟩ := List.mem_map.1 hf
  rw [featureAt_fst]
  rfl

theorem exists_feature {d : Descriptor} (hd : d ∈ s.documents) :
    ∃ f ∈ s.features, f.directory.parts = d.path.directory.parts := by
  have own : d.path.directory ∈ s.documents.map fun d => d.path.directory :=
    List.mem_map_of_mem hd
  obtain ⟨dir, hdir, same⟩ :
      ∃ dir ∈ firstOf Path.parts (s.documents.map fun d => d.path.directory),
        dir.parts = d.path.directory.parts := exists_mem_firstOf own
  refine ⟨(featureAt t s.documents dir).1, ?_, by rw [featureAt_fst]; exact same⟩
  rw [regular.features_eq, directories_eq]
  exact List.mem_map_of_mem (mem_sortBy.2 hdir)

/-- No two features are of one directory. -/
theorem pairwise_features :
    s.features.Pairwise fun f g => f.directory.parts ≠ g.directory.parts := by
  rw [regular.features_eq, directories_eq, List.pairwise_map]
  simp only [featureAt_fst]
  exact (sortBy_perm _ _).symm.pairwise (pairwise_firstOf _) Ne.symm

/-- The features have every document among them, each once. -/
theorem flatMap_documents_perm :
    (s.features.flatMap (·.documents)).Perm (s.documents.map (·.path)) := by
  have different : (s.features.map (·.directory.parts)).Nodup :=
    List.pairwise_map.2 regular.pairwise_features
  have covered : ∀ d ∈ s.documents,
      d.path.directory.parts ∈ s.features.map (·.directory.parts) := by
    intro d hd
    obtain ⟨f, hf, same⟩ := regular.exists_feature hd
    exact same ▸ List.mem_map_of_mem hf
  have grouped := (flatMap_filter_key_perm different covered).map (·.path)
  rw [List.flatMap_map, List.map_flatMap] at grouped
  rwa [List.flatMap_congr fun f hf => (regular.of_mem_features hf).2.1]

/-- A feature has its name from a document that lies in its directory. -/
theorem exists_name_eq {f : Feature} (hf : f ∈ s.features) : ∃ d ∈ s.documents,
    d.path.directory.parts = f.directory.parts ∧ f.name = t.featureOf d.path := by
  obtain ⟨⟨e, he, at_eq⟩, _⟩ := regular.of_mem_features hf
  rw [regular.features_eq] at hf
  obtain ⟨dir, _, rfl⟩ := List.mem_map.1 hf
  rw [featureAt_fst] at at_eq ⊢
  cases own : s.documents.filter fun d => d.path.directory.parts = dir.parts with
  | nil =>
    have inside : e.path.directory.parts = dir.parts := by rw [at_eq]
    exact absurd (decide_eq_true inside) (List.filter_eq_nil_iff.1 own e he)
  | cons d rest =>
    have hd : d ∈ s.documents.filter fun d => d.path.directory.parts = dir.parts := by
      rw [own]
      exact List.mem_cons_self
    obtain ⟨hd, parts⟩ := List.mem_filter.1 hd
    exact ⟨d, hd, of_decide_eq_true parts, regular.owned d hd⟩

end Regular

end Scan

end ScriptAudit
