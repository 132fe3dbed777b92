import Mathlib.Data.List.Perm.Basic
import ScriptAudit.Proofs.Check
import ScriptAudit.Proofs.Consistency
import ScriptAudit.Proofs.Run

/-!
# What a report holds

A feature holds every document of which some spelling lies in its directory. Where all spellings of
a document lie in directories that resolve to one place, as they do in a tree without links, that is
one feature for each document, and a feature that several scans met holds all documents found in its
directory. Nothing that the roots lead to is left out of the report or counted twice.
-/

namespace ScriptAudit

/-- Without links, files at one place have one directory. -/
theorem Tree.keyOf_directory_eq {t : Tree} (linkFree : t.top.LinkFree) {p q : Path} {m n : String}
    (namedP : p.fileName? = some m) (namedQ : q.fileName? = some n) {pos : Position}
    (hp : t.locate p = .ok pos) (hq : t.locate q = .ok pos) :
    t.keyOf p.directory = t.keyOf q.directory := by
  obtain ⟨front, dirP, rfl⟩ := locate_directory linkFree namedP hp
  obtain ⟨front', dirQ, same⟩ := locate_directory linkFree namedQ hq
  exact (keyOf_eq_iff dirP dirQ).2 (List.append_inj_left' same rfl)

namespace Run

/-- The documents found whose directory resolves to that of the feature, with the screenshots that
any scan found there. -/
def whole (t : Tree) (scans : List Scan) (f : Feature) : Feature :=
  { f with
    documents := (documentsOf t scans).filter fun p => t.keyOf p.directory = t.keyOf f.directory
    screenshots := Text.ascending (((scans.flatMap (·.features)).filter fun g =>
      t.keyOf g.directory = t.keyOf f.directory).flatMap (·.screenshots)) }

/-- All spellings in which the document was found lie in the directory of this one. -/
def Homed (t : Tree) (scans : List Scan) (p : Path) : Prop :=
  ∀ q ∈ scans.flatMap fun s => s.documents.map (·.path), t.keyOf q = t.keyOf p →
    t.keyOf q.directory = t.keyOf p.directory

instance (t : Tree) (scans : List Scan) (p : Path) : Decidable (Homed t scans p) :=
  inferInstanceAs (Decidable (∀ q ∈ scans.flatMap fun s => s.documents.map (·.path),
    t.keyOf q = t.keyOf p → t.keyOf q.directory = t.keyOf p.directory))

section Whole

variable {t : Tree} {scans : List Scan} (regular : ∀ s ∈ scans, Scan.Regular t s)

theorem spelling?_of_mem {p : Path} (hp : p ∈ documentsOf t scans) :
    spelling? t (documentsOf t scans) p = some p :=
  find?_of_pairwise (pairwise_firstOf _) hp

/-- The spelling seen first stands for every other. -/
theorem spelling?_of_keyOf_eq {p q : Path} (hp : p ∈ documentsOf t scans)
    (same : t.keyOf q = t.keyOf p) : spelling? t (documentsOf t scans) q = some p := by
  rw [spelling?, same]
  exact spelling?_of_mem hp

include regular

theorem exists_locate_directory {s : Scan} (hs : s ∈ scans) {d : Descriptor}
    (hd : d ∈ s.documents) : ∃ pos, t.locate d.path.directory = .ok pos := by
  obtain ⟨pos, found⟩ := (regular s hs).located d hd
  obtain ⟨name, named⟩ := (regular s hs).named d hd
  obtain ⟨front, _, _, dir, _⟩ := Tree.walks_from_directory named found
  exact ⟨front, dir⟩

/-- Within a scan, directories with the same parts are one. -/
theorem keyOf_directory_of_mem {s : Scan} (hs : s ∈ scans) {f : Feature} (hf : f ∈ s.features)
    {d : Descriptor} (hd : d ∈ s.documents) (same : d.path.directory.parts = f.directory.parts) :
    t.keyOf d.path.directory = t.keyOf f.directory := by
  obtain ⟨⟨e, he, dir⟩, _⟩ := (regular s hs).of_mem_features hf
  have found := exists_locate_directory regular hs he
  rw [dir] at found
  exact Tree.keyOf_eq_of_parts_eq (exists_locate_directory regular hs hd) found same

/-- The directory of a feature is that of a document found, and gives the feature its name. -/
theorem exists_document_of_mem_features {f : Feature} (hf : f ∈ scans.flatMap (·.features)) :
    (∃ p ∈ scans.flatMap fun s => s.documents.map (·.path), p.directory = f.directory) ∧
      f.name = ((t.resolved f.directory).fileName?).getD "" := by
  obtain ⟨s, hs, hf⟩ := List.mem_flatMap.1 hf
  obtain ⟨⟨e, he, dir⟩, _⟩ := (regular s hs).of_mem_features hf
  obtain ⟨d, hd, parts, name⟩ := (regular s hs).exists_name_eq hf
  obtain ⟨x, dirD⟩ := exists_locate_directory regular hs hd
  obtain ⟨y, dirE⟩ := exists_locate_directory regular hs he
  refine ⟨⟨_, mem_documents_iff.2 ⟨s, hs, e, he, rfl⟩, dir⟩, ?_⟩
  rw [← dir] at parts ⊢
  obtain rfl := Tree.eq_of_parts_eq dirD dirE parts
  rw [name, Tree.featureOf, Tree.resolved_of_locate dirD, Tree.resolved_of_locate dirE]

/-- A feature holds a document, in the spelling seen first, just when some spelling of it was found
in the directory of the feature. -/
theorem mem_joined_documents_iff {f : Feature} {p : Path} :
    p ∈ (joined t (documentsOf t scans) (scans.flatMap (·.features)) f).documents ↔
      p ∈ documentsOf t scans ∧ ∃ s ∈ scans, ∃ d ∈ s.documents,
        t.keyOf d.path = t.keyOf p ∧ t.keyOf d.path.directory = t.keyOf f.directory := by
  have known : ∀ p ∈ ((scans.flatMap (·.features)).filter fun g =>
      t.keyOf g.directory = t.keyOf f.directory).flatMap fun g =>
        g.documents.filterMap (spelling? t (documentsOf t scans)), p ∈ documentsOf t scans := by
    intro p hp
    obtain ⟨_, _, spelled⟩ := List.mem_flatMap.1 hp
    obtain ⟨_, _, found⟩ := List.mem_filterMap.1 spelled
    exact (keyOf_of_spelling? found).1
  have distinct := pairwise_documentsOf regular
  simp only [joined]
  rw [mem_firstOf_iff fun a ha b hb same =>
    eq_of_pairwise distinct (known a ha) (known b hb) same]
  constructor
  · intro hp
    refine ⟨known p hp, ?_⟩
    obtain ⟨g, hg, spelled⟩ := List.mem_flatMap.1 hp
    obtain ⟨hg, key⟩ := List.mem_filter.1 hg
    obtain ⟨q, hq, found⟩ := List.mem_filterMap.1 spelled
    obtain ⟨s, hs, hg⟩ := List.mem_flatMap.1 hg
    rw [((regular s hs).of_mem_features hg).2.1] at hq
    obtain ⟨d, hd, rfl⟩ := List.mem_map.1 hq
    obtain ⟨hd, parts⟩ := List.mem_filter.1 hd
    refine ⟨s, hs, d, hd, (keyOf_of_spelling? found).2.symm, ?_⟩
    exact (keyOf_directory_of_mem regular hs hg hd (of_decide_eq_true parts)).trans
      (of_decide_eq_true key)
  · rintro ⟨hp, s, hs, d, hd, spelled, key⟩
    obtain ⟨g, hg, dir⟩ := (regular s hs).exists_feature hd
    have inside : d.path ∈ g.documents := by
      rw [((regular s hs).of_mem_features hg).2.1]
      exact List.mem_map_of_mem (List.mem_filter.2 ⟨hd, decide_eq_true dir.symm⟩)
    have sameKey : t.keyOf g.directory = t.keyOf f.directory :=
      (keyOf_directory_of_mem regular hs hg hd dir.symm).symm.trans key
    refine List.mem_flatMap.2 ⟨g, ?_,
      List.mem_filterMap.2 ⟨d.path, inside, spelling?_of_keyOf_eq hp spelled⟩⟩
    exact List.mem_filter.2 ⟨List.mem_flatMap.2 ⟨s, hs, hg⟩, decide_eq_true sameKey⟩

/-- A document with one directory belongs to the features of that directory. -/
theorem Homed.mem_joined_documents_iff {f : Feature} {p : Path} (hp : p ∈ documentsOf t scans)
    (homed : Homed t scans p) :
    p ∈ (joined t (documentsOf t scans) (scans.flatMap (·.features)) f).documents ↔
      t.keyOf p.directory = t.keyOf f.directory := by
  rw [Run.mem_joined_documents_iff regular, and_iff_right hp]
  constructor
  · rintro ⟨s, hs, d, hd, spelled, key⟩
    exact (homed d.path (mem_documents_iff.2 ⟨s, hs, d, hd, rfl⟩) spelled).symm.trans key
  · intro key
    obtain ⟨s, hs, d, hd, rfl⟩ := mem_documents_iff.1 (mem_of_mem_firstOf hp)
    exact ⟨s, hs, d, hd, rfl, key⟩

/-- What a feature comes to hold is all that was found in its directory. -/
theorem joined_documents_perm (homed : ∀ p ∈ documentsOf t scans, Homed t scans p) (f : Feature) :
    (joined t (documentsOf t scans) (scans.flatMap (·.features)) f).documents.Perm
      (whole t scans f).documents := by
  have first : (joined t (documentsOf t scans) (scans.flatMap (·.features)) f).documents.Nodup :=
    nodup_firstOf _
  have second : (whole t scans f).documents.Nodup :=
    (nodup_firstOf _).filter _
  apply (List.perm_ext_iff_of_nodup first second).2
  intro p
  rw [whole, List.mem_filter, decide_eq_true_iff]
  constructor
  · intro hp
    have known := ((mem_joined_documents_iff regular).1 hp).1
    exact ⟨known, ((homed p known).mem_joined_documents_iff regular known).1 hp⟩
  · rintro ⟨hp, key⟩
    exact ((homed p hp).mem_joined_documents_iff regular hp).2 key

/-- Without links the directory is where the document stands. -/
theorem homed_of_linkFree (linkFree : t.top.LinkFree) {p : Path} (hp : p ∈ documentsOf t scans) :
    Homed t scans p := by
  intro q hq same
  obtain ⟨s, hs, d, hd, rfl⟩ := mem_documents_iff.1 hq
  obtain ⟨r, hr, e, he, rfl⟩ := mem_documents_iff.1 (mem_of_mem_firstOf hp)
  obtain ⟨a, ha⟩ := (regular s hs).located d hd
  obtain ⟨b, hb⟩ := (regular r hr).located e he
  obtain ⟨m, namedD⟩ := (regular s hs).named d hd
  obtain ⟨n, namedE⟩ := (regular r hr).named e he
  rw [(Tree.keyOf_eq_iff ha hb).1 same] at ha
  exact Tree.keyOf_directory_eq linkFree namedD namedE ha hb

end Whole

/-! ## Reports -/

section Report

variable {t : Tree} {config : Config} {rules : RuleSet} {roots : List Path}

/-- Every problem once, what checking yields of every document once, and what it yields of every
feature once. -/
def accounted (t : Tree) (config : Config) (rules : RuleSet) (roots : List Path) :
    List Diagnostic :=
  let scans := scansOf t config.scan roots
  problemsOf scans ++ (documentsOf t scans).flatMap (fun p => (check t config rules p).diagnostics) ++
    ((featuresOf t scans).map (whole t scans)).flatMap fun f =>
      f.check (readDocuments t config rules f)

/-- What the checks of the features report, as often as there are features. -/
theorem judged_perm_of_homed
    (homed : ∀ p ∈ documentsOf t (scansOf t config.scan roots),
      Homed t (scansOf t config.scan roots) p) :
    ((sortBy (fun a b => Path.le a.1 b.1) (gather t config.scan roots).features).flatMap fun f =>
        f.2.check (readDocuments t config rules f.2)).Perm
      (((featuresOf t (scansOf t config.scan roots)).map
        (whole t (scansOf t config.scan roots))).flatMap fun f =>
          f.check (readDocuments t config rules f)) := by
  refine ((sortBy_perm _ _).flatMap_right _).trans ?_
  rw [(gathersRoots_gather t config.scan roots).scans.features, List.flatMap_map, List.flatMap_map]
  apply List.Perm.flatMap_left _
  intro f _
  have regular := regular_scansOf t config.scan roots
  have own := joined_documents_perm regular homed f
  exact Feature.check_perm own.length_eq.symm (own.filterMap _)

theorem pushed_perm_accounted_of_homed
    (homed : ∀ p ∈ documentsOf t (scansOf t config.scan roots),
      Homed t (scansOf t config.scan roots) p) :
    (pushed t config rules roots (queue (gather t config.scan roots))).Perm
      (accounted t config rules roots) := by
  simp only [pushed, accounted]
  rw [(gathersRoots_gather t config.scan roots).scans.problems]
  exact (((queue_perm t config.scan roots).flatMap_right _).append_left _).append
    (judged_perm_of_homed homed)

theorem pushed_perm_accounted (linkFree : t.top.LinkFree) :
    (pushed t config rules roots (queue (gather t config.scan roots))).Perm
      (accounted t config rules roots) :=
  pushed_perm_accounted_of_homed fun _ hp =>
    homed_of_linkFree (regular_scansOf t config.scan roots) linkFree hp

end Report

/-- In a tree without links a run under the stock rules, however they are configured, reports every
problem, document and feature that the roots lead to, and each of them once. It ends without a
report only when more documents may be checked at once than there can be permits, or when there are
documents and none may be checked. -/
theorem run_accounts {t : Tree} {config : Config} {rules : RuleSet} {roots : List Path}
    (linkFree : t.top.LinkFree)
    (configured : RuleSet.stock.configure config.rules = .ok rules) :
    (permitLimit < config.jobs.getD 1 → t.run config rules roots = .error .tooManyPermits) ∧
    (config.jobs = some 0 → documentsOf t (scansOf t config.scan roots) ≠ [] →
      t.run config rules roots = .error .starved) ∧
    (Proceeds t config roots → ∃ r, t.run config rules roots = .ok r ∧
      r.diagnostics = Diagnostic.sort (accounted t config rules roots) ∧
      r.documents = (documentsOf t (scansOf t config.scan roots)).length ∧
      r.features = (featuresOf t (scansOf t config.scan roots)).length) ∧
    ∀ p, checkDocument t config rules p = some (check t config rules p) ∧
      ∃! ending, (check t config rules p).Ends ending := by
  have separate : rules.Separate := RuleSet.separate_stock.configure configured
  obtain ⟨_, documents, features⟩ := (gathersRoots_gather t config.scan roots).scans
  refine ⟨run_eq_error_iff.2, fun none found => run_eq_starved_iff.2 ⟨none, found⟩,
    fun proceeds => ?_, checkDocument_eq configured⟩
  refine ⟨_, run_eq_queueReport separate proceeds, ?_, ?_, ?_⟩
  · exact sort_pushed separate (pushed_perm_accounted linkFree)
  · rw [queueReport, Report.ofDiagnostics, documents]
    exact List.length_map _
  · rw [queueReport, Report.ofDiagnostics, features]
    exact List.length_map _

/-- Three roots, two of them spellings of one place, lead to two documents of one feature. -/
theorem run_accounts_brokenPair :
    brokenPair.top.LinkFree ∧ RuleSet.stock.configure {} = .ok RuleSet.stock ∧
    ∃ r, brokenPair.run {} RuleSet.stock [⟨"login"⟩, ⟨"/"⟩, ⟨"./login/../login"⟩] = .ok r ∧
      r.diagnostics = Diagnostic.sort
        (accounted brokenPair {} RuleSet.stock [⟨"login"⟩, ⟨"/"⟩, ⟨"./login/../login"⟩]) ∧
      r.documents = 2 ∧ r.features = 1 := by
  have linkFree : brokenPair.top.LinkFree := by
    simp [brokenPair, Node.LinkFree, Node.LinkFreeEntries]
  have configured : RuleSet.stock.configure {} = .ok RuleSet.stock := rfl
  have all := @run_accounts brokenPair {} _ [⟨"login"⟩, ⟨"/"⟩, ⟨"./login/../login"⟩] linkFree
    configured
  obtain ⟨r, ran, diagnostics, documents, features⟩ :=
    all.2.2.1 (proceeds_of_jobs (by decide) (by decide))
  refine ⟨linkFree, configured, r, ran, diagnostics, ?_, ?_⟩
  · rw [documents]
    decide +kernel
  · rw [features]
    decide +kernel

end Run

end ScriptAudit
