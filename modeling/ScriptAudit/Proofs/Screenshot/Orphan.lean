import ScriptAudit.Proofs.Handing
import ScriptAudit.Proofs.Scan.Listing
import ScriptAudit.Proofs.Screenshot

/-!
# Screenshots reported as orphans

The check of a feature looks for references to a screenshot in the documents that it was handed, and
it makes sure that all of these could be read. A document in the directory of the feature that still
refers to a screenshot reported as an orphan was not found there: no scan came to the directory, or
the document has a hidden name.
-/

namespace ScriptAudit

/-- Documents read from one text have the same placeholders, whatever they are called. -/
theorem Document.placeholders_eq_of_read {p q : Path} {f g : String} {markers : Markers}
    {source : String} {d e : Document} (hd : read p f markers source = .ok d)
    (he : read q g markers source = .ok e) : d.placeholders = e.placeholders := by
  obtain ⟨_, o, _, outlined, _, rfl⟩ := read_eq_ok_iff.1 hd
  obtain ⟨_, o', _, outlined', _, rfl⟩ := read_eq_ok_iff.1 he
  rw [outlined] at outlined'
  cases outlined'
  rfl

namespace Run

section Reading

variable {t : Tree} {config : Config} {rules : RuleSet}

theorem exists_read_of_check {p : Path} {d : Document}
    (h : (check t config rules p).document = some d) : ∃ source, t.readText p = .ok source ∧
      Document.read p (t.featureOf p) config.markers source = .ok d := by
  simp only [check, checkDocument] at h
  split at h
  · cases h
  · rename_i source found
    split at h
    · cases h
    · rename_i e read
      refine ⟨source, found, ?_⟩
      cases judged : rules.evaluate config e with
      | none =>
        rw [judged] at h
        cases h
      | some ds =>
        rw [judged] at h
        cases h
        exact read

/-- Spellings of one file that are read have the same placeholders. -/
theorem placeholders_eq_of_check {p q : Path} {pos : Position} (hp : t.locate p = .ok pos)
    (hq : t.locate q = .ok pos) {d e : Document} (hd : (check t config rules p).document = some d)
    (he : (check t config rules q).document = some e) : d.placeholders = e.placeholders := by
  obtain ⟨source, foundP, readP⟩ := exists_read_of_check hd
  obtain ⟨source', foundQ, readQ⟩ := exists_read_of_check he
  obtain ⟨_, a, atP, hereP⟩ := Tree.find_eq_ok_iff.1 (Tree.readText_eq_ok_iff.1 foundP)
  obtain ⟨_, b, atQ, hereQ⟩ := Tree.find_eq_ok_iff.1 (Tree.readText_eq_ok_iff.1 foundQ)
  rw [hp] at atP
  rw [hq] at atQ
  cases atP
  cases atQ
  rw [hereP] at hereQ
  cases hereQ
  exact Document.placeholders_eq_of_read readP readQ

end Reading

/-- The check of the feature reports this screenshot: it could read every document that it was
handed, and none of them refers to it. -/
structure Orphaned (t : Tree) (config : Config) (rules : RuleSet) (f : Feature) (shot : String) :
    Prop where
  listed : shot ∈ f.screenshots
  read : ∀ p ∈ f.documents, ((check t config rules p).document).isSome = true
  unreferenced : ∀ d ∈ readDocuments t config rules f, ∀ p ∈ d.placeholders,
    f.reference? p ≠ some shot

/-- The document of this name in the directory of the feature can be read, and one of its
placeholders has the path of the screenshot. -/
def RefersTo (t : Tree) (config : Config) (rules : RuleSet) (f : Feature) (name shot : String) :
    Prop :=
  ∃ d, (check t config rules (f.directory.join name)).document = some d ∧
    ∃ p ∈ d.placeholders, p.path = "qa/" ++ f.name ++ "/screenshots/" ++ shot

section Handed

variable {t : Tree} {config : Config} {rules : RuleSet} {scans : List Scan} {f : Feature}
  {shot : String}

theorem mem_filter_check_orphan_iff {x : Diagnostic} :
    x ∈ (f.check (readDocuments t config rules f)).filter (·.ruleId = "screenshot-orphan") ↔
      ∃ shot, Orphaned t config rules f shot ∧ x = Consistency.orphan f shot := by
  have whole : (readDocuments t config rules f).length = f.documents.length ↔
      ∀ p ∈ f.documents, ((check t config rules p).document).isSome = true :=
    List.filterMap_length_eq_length
  rw [Feature.filter_check_orphan]
  split
  · rename_i all
    rw [Consistency.mem_orphanedScreenshots_iff]
    constructor
    · rintro ⟨shot, listed, unreferenced, rfl⟩
      exact ⟨shot, ⟨listed, whole.1 all, unreferenced⟩, rfl⟩
    · rintro ⟨shot, orphaned, rfl⟩
      exact ⟨shot, orphaned.listed, orphaned.unreferenced, rfl⟩
  · rename_i some
    constructor
    · intro hx
      cases hx
    · rintro ⟨_, orphaned, _⟩
      exact absurd (whole.2 orphaned.read) some

variable (regular : ∀ s ∈ scans, Scan.Regular t s) (hf : f ∈ handed t scans)
include regular hf

theorem exists_locate_of_mem_handed : ∃ dir, t.locate f.directory = .ok dir ∧
    f.name = ((t.resolved f.directory).fileName?).getD "" := by
  obtain ⟨first, hfirst, rfl⟩ := List.mem_map.1 hf
  obtain ⟨⟨p, hp, dir⟩, name⟩ :=
    exists_document_of_mem_features regular (mem_of_mem_firstOf hfirst)
  obtain ⟨s, hs, d, hd, rfl⟩ := mem_documents_iff.1 hp
  obtain ⟨pos, found⟩ := exists_locate_directory regular hs hd
  rw [dir] at found
  exact ⟨pos, found, name⟩

/-- A path to a screenshot of the feature refers to it. -/
theorem reference?_of_mem_handed {p : Placeholder} (listed : shot ∈ f.screenshots)
    (path : p.path = "qa/" ++ f.name ++ "/screenshots/" ++ shot) :
    f.reference? p = some shot := by
  obtain ⟨_, _, name⟩ := exists_locate_of_mem_handed regular hf
  have owner : '/' ∉ f.name.toList := by
    rw [name]
    cases named : (t.resolved f.directory).fileName? with
    | none => decide
    | some s => exact Path.slash_not_mem_of_fileName? named
  have entry : isEntryName shot = true := by
    obtain ⟨first, _, rfl⟩ := List.mem_map.1 hf
    obtain ⟨g, hg, shown⟩ := List.mem_flatMap.1 (Text.mem_ascending.1 listed)
    obtain ⟨s, hs, hg⟩ := List.mem_flatMap.1 (List.mem_filter.1 hg).1
    rw [(regular s hs).screenshots_eq hg] at shown
    exact Scan.isEntryName_of_mem_screenshots shown
  obtain ⟨written, file, _⟩ := Path.not_mem_of_isEntryName entry
  rw [Feature.reference?, path]
  exact Screenshot.fileName?_append owner file fun empty => written (by rw [empty]; rfl)

/-- A document that refers to an orphan was not found in the directory of the feature. -/
theorem Orphaned.not_found (orphaned : Orphaned t config rules f shot) {dir : Position}
    (located : t.locate f.directory = .ok dir) {name : String} {content : Content}
    (here : t.top.at? (dir ++ [name]) = some (.file content))
    (refers : RefersTo t config rules f name shot) {s : Scan} (hs : s ∈ scans) {d : Descriptor}
    (hd : d ∈ s.documents) (found : t.locate d.path = .ok (dir ++ [name])) :
    t.keyOf d.path.directory ≠ t.keyOf f.directory := by
  intro inside
  obtain ⟨e, read, p, hp, path⟩ := refers
  obtain ⟨q, hq, same⟩ : ∃ q ∈ documentsOf t scans, t.keyOf q = t.keyOf d.path :=
    exists_mem_firstOf (mem_documents_iff.2 ⟨s, hs, d, hd, rfl⟩)
  have handedOver : q ∈ f.documents :=
    (mem_documents_iff_of_mem_handed regular hf).2 ⟨hq, s, hs, d, hd, same.symm, inside⟩
  obtain ⟨e', read'⟩ := Option.isSome_iff_exists.1 (orphaned.read q handedOver)
  -- the spelling seen first and the one in the directory are read from one file
  have foundQ : t.locate q = .ok (dir ++ [name]) := by
    obtain ⟨x, atQ⟩ := located_of_mem_documentsOf regular hq
    rw [atQ, (Tree.keyOf_eq_iff atQ found).1 same]
  have foundJoin : t.locate (f.directory.join name) = .ok (dir ++ [name]) := by
    obtain ⟨es, atDir, entry⟩ := Node.exists_lookup_of_at? here
    exact (Tree.locate_join located atDir (Node.mem_of_lookup entry) fun _ same => by
      cases same).1
  have placeholders := placeholders_eq_of_check foundQ foundJoin read' read
  refine orphaned.unreferenced e' (List.mem_filterMap.2 ⟨q, handedOver, read'⟩) p ?_ ?_
  · rw [placeholders]
    exact hp
  · exact reference?_of_mem_handed regular hf orphaned.listed path

end Handed

/-- So every scan that comes to the directory, and whose paths fit, passes it over as hidden. -/
theorem Orphaned.hidden {t : Tree} {config : Config} {rules : RuleSet} {roots : List Path}
    {f : Feature} {shot : String} (hf : f ∈ handed t (scansOf t config.scan roots))
    (orphaned : Orphaned t config rules f shot) {dir : Position}
    (located : t.locate f.directory = .ok dir) {name : String} {content : Content}
    (here : t.top.at? (dir ++ [name]) = some (.file content))
    (refers : RefersTo t config rules f name shot) {root : Path}
    (scanned : root ∈ firstOf t.keyOf roots) (fits : t.Fits config.scan root)
    (visits : t.Visits config.scan root dir) : name.toList.head? = some '.' := by
  by_contra visible
  have regular := regular_scansOf t config.scan roots
  have named : isEntryName name = true := (t.wellFormed.at? here).2 name (by simp)
  have accepted : config.scan.accepts name = true := by
    obtain ⟨e, read, _⟩ := refers
    obtain ⟨_, _, parsed⟩ := exists_read_of_check read
    obtain ⟨mode, _, declared, _⟩ := Document.read_eq_ok_iff.1 parsed
    rw [Path.fileName?_join (Tree.ne_empty_of_locate located) named, Option.bind_some] at declared
    simp [ScanConfig.accepts, declared]
  obtain ⟨es, atDir, entry⟩ := Node.exists_lookup_of_at? here
  have there : (Node.directory es).along? config.scan ([] ++ [name]) = some (.file content) := by
    refine Node.along?_cons.2 ⟨_, entry, ?_, rfl⟩
    simp [ScanConfig.skips, visible, Node.isDirectory]
  obtain ⟨d, hd, p, inDir, path_eq, found⟩ :=
    Tree.exists_mem_documents_of_visits fits visits atDir there accepted
  rw [List.append_nil] at inDir
  rw [List.nil_append] at found
  refine orphaned.not_found regular hf located here refers (List.mem_map_of_mem scanned) hd found ?_
  rw [path_eq] at found ⊢
  exact (Tree.keyOf_eq_iff (Tree.locate_directory_join inDir named found) located).2 rfl

/-- What a run under the stock rules, however they are configured, reports as orphans are the
screenshots that no document handed to the check of their feature refers to, once all of these could
be read. A readable document that lies in the directory of the feature and refers to such a
screenshot was not found there by any scan: of the scans that come to the directory it is hidden
from each whose paths fit. -/
theorem run_orphans {t : Tree} {config : Config} {rules : RuleSet} {roots : List Path}
    (configured : RuleSet.stock.configure config.rules = .ok rules)
    (proceeds : Proceeds t config roots) :
    ∃ r, t.run config rules roots = .ok r ∧
      (∀ x, (x ∈ r.diagnostics ∧ x.ruleId = "screenshot-orphan") ↔
        ∃ f ∈ handed t (scansOf t config.scan roots), ∃ shot,
          Orphaned t config rules f shot ∧ x = Consistency.orphan f shot) ∧
      ∀ f ∈ handed t (scansOf t config.scan roots), ∀ shot, Orphaned t config rules f shot →
        ∃ dir, t.locate f.directory = .ok dir ∧ ∀ name content,
          t.top.at? (dir ++ [name]) = some (.file content) → RefersTo t config rules f name shot →
            (∀ s ∈ scansOf t config.scan roots, ∀ d ∈ s.documents,
              t.locate d.path = .ok (dir ++ [name]) →
                t.keyOf d.path.directory ≠ t.keyOf f.directory) ∧
            ∀ root ∈ firstOf t.keyOf roots, t.Fits config.scan root →
              t.Visits config.scan root dir → name.toList.head? = some '.' := by
  have separate : rules.Separate := RuleSet.separate_stock.configure configured
  have regular := regular_scansOf t config.scan roots
  refine ⟨_, run_eq_queueReport separate proceeds, fun x => ?_, fun f hf shot orphaned => ?_⟩
  · have reported : x ∈ (queueReport t config rules roots).diagnostics.filter
        (·.ruleId = "screenshot-orphan") ↔ _ :=
      (filter_queueReport_perm configured (by decide)).mem_iff
    rw [List.mem_filter, decide_eq_true_iff] at reported
    rw [reported, List.mem_flatMap]
    simp only [mem_filter_check_orphan_iff]
  · obtain ⟨dir, located, _⟩ := exists_locate_of_mem_handed regular hf
    refine ⟨dir, located, fun name content here refers => ⟨fun s hs d hd found => ?_,
      fun root scanned fits visits => ?_⟩⟩
    · exact orphaned.not_found regular hf located here refers hs hd found
    · exact orphaned.hidden hf located here refers scanned fits visits

/-- Two documents of one feature, the second of which refers to its screenshot. -/
def neighbours : Tree where
  top := .directory [("a", .directory [
    ("screenshots", .directory [("s.png", .file (.text ""))]),
    ("x.mock.md", .file (.text ("# Test Case: A\n# Prerequisites\n# Test Steps\n" ++
      "# Expected UI State\n# Expected Result"))),
    ("y.mock.md", .file (.text ("# Test Case: B\n# Prerequisites\n# Test Steps\n" ++
      "# Expected UI State\n# Expected Result\n<screenshot:qa/a/screenshots/s.png|S>")))])]
  workDir := []
  wellFormed := by
    refine ⟨by decide, ⟨by decide, ⟨by decide, trivial, by simp, trivial⟩, fun e he => ?_,
      by decide, trivial, fun e he => ?_, by decide, trivial, by simp, trivial⟩, by simp, trivial⟩
    · rcases List.mem_cons.1 he with rfl | he
      · rw [String.lt_iff]
        decide
      · rw [List.mem_singleton.1 he, String.lt_iff]
        decide
    · rw [List.mem_singleton.1 he, String.lt_iff]
      decide

/-- The feature that the first document is in. -/
def neighbourFeature : Feature := ⟨⟨"a"⟩, "a", [⟨"a/x.mock.md"⟩], ["s.png"]⟩

theorem handed_neighbours :
    handed neighbours (scansOf neighbours {} [⟨"a/x.mock.md"⟩]) = [neighbourFeature] := by
  decide +kernel

theorem orphaned_neighbours : Orphaned neighbours {} RuleSet.stock neighbourFeature "s.png" := by
  constructor
  · decide
  · decide +kernel
  · decide +kernel

theorem refersTo_neighbours :
    RefersTo neighbours {} RuleSet.stock neighbourFeature "y.mock.md" "s.png" := by
  have read : ((check neighbours {} RuleSet.stock ⟨"a/y.mock.md"⟩).document.map (·.placeholders)) =
      some [⟨"qa/a/screenshots/s.png", "S", 6⟩] := by
    decide +kernel
  obtain ⟨d, found, placeholders⟩ := Option.map_eq_some_iff.1 read
  exact ⟨d, found, _, placeholders ▸ List.mem_singleton_self _, by decide⟩

/-- Nothing scans the second document when only the first is asked for. -/
theorem run_orphans_neighbours :
    RuleSet.stock.configure {} = .ok RuleSet.stock ∧ Proceeds neighbours {} [⟨"a/x.mock.md"⟩] ∧
    ∃ r, neighbours.run {} RuleSet.stock [⟨"a/x.mock.md"⟩] = .ok r ∧
      Consistency.orphan neighbourFeature "s.png" ∈ r.diagnostics ∧
      ∀ s ∈ scansOf neighbours {} [⟨"a/x.mock.md"⟩], ∀ d ∈ s.documents,
        neighbours.locate d.path = .ok ["a", "y.mock.md"] →
          neighbours.keyOf d.path.directory ≠ neighbours.keyOf ⟨"a"⟩ := by
  have configured : RuleSet.stock.configure {} = .ok RuleSet.stock := rfl
  have proceeds : Proceeds neighbours {} [⟨"a/x.mock.md"⟩] :=
    proceeds_of_jobs (by decide) (by decide)
  obtain ⟨r, ran, reported, beyond⟩ :=
    @run_orphans neighbours {} _ [⟨"a/x.mock.md"⟩] configured proceeds
  have own : neighbourFeature ∈ handed neighbours (scansOf neighbours {} [⟨"a/x.mock.md"⟩]) := by
    rw [handed_neighbours]
    exact List.mem_singleton_self _
  obtain ⟨dir, located, unfound⟩ := beyond neighbourFeature own "s.png" orphaned_neighbours
  have same : dir = ["a"] := by
    have leads : neighbours.locate neighbourFeature.directory = .ok ["a"] := by rfl
    rw [leads] at located
    cases located
    rfl
  subst same
  exact ⟨configured, proceeds, r, ran, ((reported _).2 ⟨_, own, _, orphaned_neighbours, rfl⟩).1,
    (unfound "y.mock.md" _ rfl refersTo_neighbours).1⟩

/-- The screenshot is reported although a document that lies beside refers to it. -/
theorem run_orphans_referenced :
    (∃ r, neighbours.run {} RuleSet.stock [⟨"a/x.mock.md"⟩] = .ok r ∧
      Consistency.orphan neighbourFeature "s.png" ∈ r.diagnostics) ∧
    (∃ content, neighbours.top.at? (["a"] ++ ["y.mock.md"]) = some (.file content)) ∧
    RefersTo neighbours {} RuleSet.stock neighbourFeature "y.mock.md" "s.png" := by
  have configured : RuleSet.stock.configure {} = .ok RuleSet.stock := rfl
  have proceeds : Proceeds neighbours {} [⟨"a/x.mock.md"⟩] :=
    proceeds_of_jobs (by decide) (by decide)
  refine ⟨⟨_, run_eq_queueReport RuleSet.separate_stock proceeds, ?_⟩, ⟨_, rfl⟩,
    refersTo_neighbours⟩
  have reported : Consistency.orphan neighbourFeature "s.png" ∈
      (queueReport neighbours {} RuleSet.stock [⟨"a/x.mock.md"⟩]).diagnostics.filter
        (·.ruleId = "screenshot-orphan") := by
    rw [(filter_queueReport_perm configured (by decide)).mem_iff, handed_neighbours,
      List.flatMap_singleton]
    exact mem_filter_check_orphan_iff.2 ⟨_, orphaned_neighbours, rfl⟩
  exact (List.mem_filter.1 reported).1

end Run

end ScriptAudit
