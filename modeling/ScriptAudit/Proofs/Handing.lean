import Mathlib.Data.List.Nodup
import ScriptAudit.Proofs.Accounting

/-!
# Which feature checks a document

The check of a feature is handed the documents of which some spelling was found in its directory.
Links can put spellings of one file into several directories, and then several checks get it and
each reports what it finds in it. A document goes to one check just when its spellings have one
directory, and where that is so for all of them, what the checks report of a document is reported
once.
-/

namespace ScriptAudit

theorem Tree.featureOf_eq_of_keyOf_eq {t : Tree} {p q : Path}
    (hp : ∃ a, t.locate p.directory = .ok a) (hq : ∃ b, t.locate q.directory = .ok b)
    (same : t.keyOf p.directory = t.keyOf q.directory) : t.featureOf p = t.featureOf q := by
  obtain ⟨a, hp⟩ := hp
  obtain ⟨b, hq⟩ := hq
  rw [featureOf, featureOf, resolved_of_locate hp, resolved_of_locate hq,
    (keyOf_eq_iff hp hq).1 same]

namespace Run

/-- The document read has the path it was read at, and belongs to the feature that this is in. -/
theorem of_check {t : Tree} {config : Config} {rules : RuleSet} {p : Path} {d : Document}
    (h : (check t config rules p).document = some d) :
    d.path = p ∧ d.feature = t.featureOf p := by
  have outcome := comesTo_check t config rules p
  generalize check t config rules p = c at h outcome
  cases outcome with
  | unreadable _ => cases h
  | malformed _ _ => cases h
  | crashed _ _ _ => cases h
  | judged _ read _ =>
    cases h
    obtain ⟨_, _, _, _, _, made⟩ := Document.read_eq_ok_iff.1 read
    constructor <;> rw [made]

/-- The features that a run checks, each with the documents that its check is handed. -/
def handed (t : Tree) (scans : List Scan) : List Feature :=
  (featuresOf t scans).map (joined t (documentsOf t scans) (scans.flatMap (·.features)))

theorem map_features_gather (t : Tree) (config : ScanConfig) (roots : List Path) :
    (gather t config roots).features.map (·.2) = handed t (scansOf t config roots) := by
  rw [(gathersRoots_gather t config roots).scans.features, List.map_map]
  rfl

/-- The feature of the directory that a path is in. -/
def home? (t : Tree) (scans : List Scan) (p : Path) : Option Feature :=
  (handed t scans).find? fun f => t.keyOf f.directory = t.keyOf p.directory

section Handed

variable {t : Tree} {scans : List Scan}

theorem pairwise_handed :
    (handed t scans).Pairwise fun f g => t.keyOf f.directory ≠ t.keyOf g.directory :=
  List.pairwise_map.2 (pairwise_firstOf _)

variable (regular : ∀ s ∈ scans, Scan.Regular t s)
include regular

/-- Wherever a document was found, there is a feature. -/
theorem exists_handed {s : Scan} (hs : s ∈ scans) {d : Descriptor} (hd : d ∈ s.documents) :
    ∃ f ∈ handed t scans, t.keyOf f.directory = t.keyOf d.path.directory := by
  obtain ⟨g, hg, dir⟩ := (regular s hs).exists_feature hd
  have met : g ∈ scans.flatMap (·.features) := List.mem_flatMap.2 ⟨s, hs, hg⟩
  obtain ⟨f, hf, same⟩ : ∃ f ∈ featuresOf t scans, t.keyOf f.directory = t.keyOf g.directory :=
    exists_mem_firstOf met
  refine ⟨_, List.mem_map_of_mem hf, ?_⟩
  exact same.trans (keyOf_directory_of_mem regular hs hg hd dir.symm).symm

theorem mem_documents_iff_of_mem_handed {f : Feature} (hf : f ∈ handed t scans) {p : Path} :
    p ∈ f.documents ↔ p ∈ documentsOf t scans ∧ ∃ s ∈ scans, ∃ d ∈ s.documents,
      t.keyOf d.path = t.keyOf p ∧ t.keyOf d.path.directory = t.keyOf f.directory := by
  obtain ⟨first, _, rfl⟩ := List.mem_map.1 hf
  exact mem_joined_documents_iff regular

/-- No feature is handed nothing. -/
theorem exists_mem_documents_of_mem_handed {f : Feature} (hf : f ∈ handed t scans) :
    ∃ p ∈ f.documents, p ∈ documentsOf t scans := by
  obtain ⟨first, hfirst, rfl⟩ := List.mem_map.1 hf
  obtain ⟨s, hs, own⟩ := List.mem_flatMap.1 (mem_of_mem_firstOf hfirst)
  obtain ⟨⟨d, hd, dir⟩, _⟩ := (regular s hs).of_mem_features own
  obtain ⟨p, hp, same⟩ : ∃ p ∈ documentsOf t scans, t.keyOf p = t.keyOf d.path :=
    exists_mem_firstOf (mem_documents_iff.2 ⟨s, hs, d, hd, rfl⟩)
  refine ⟨p, (mem_documents_iff_of_mem_handed regular hf).2 ⟨hp, s, hs, d, hd, same.symm, ?_⟩, hp⟩
  rw [dir]
  rfl

section Document

variable {p : Path} (hp : p ∈ documentsOf t scans)
include hp

/-- The feature of the directory that a document lies in is handed it. -/
theorem exists_own_handed : ∃ f ∈ handed t scans, p ∈ f.documents ∧
    t.keyOf f.directory = t.keyOf p.directory := by
  obtain ⟨s, hs, d, hd, rfl⟩ := mem_documents_iff.1 (mem_of_mem_firstOf hp)
  obtain ⟨f, hf, same⟩ := exists_handed regular hs hd
  refine ⟨f, hf, ?_, same⟩
  exact (mem_documents_iff_of_mem_handed regular hf).2 ⟨hp, s, hs, d, hd, rfl, same.symm⟩

theorem name_eq_of_mem_handed {f : Feature} (hf : f ∈ handed t scans)
    (same : t.keyOf f.directory = t.keyOf p.directory) : f.name = t.featureOf p := by
  obtain ⟨first, hfirst, rfl⟩ := List.mem_map.1 hf
  obtain ⟨s, hs, own⟩ := List.mem_flatMap.1 (mem_of_mem_firstOf hfirst)
  obtain ⟨d, hd, dir, name⟩ := (regular s hs).exists_name_eq own
  obtain ⟨r, hr, e, he, rfl⟩ := mem_documents_iff.1 (mem_of_mem_firstOf hp)
  refine name.trans (Tree.featureOf_eq_of_keyOf_eq (exists_locate_directory regular hs hd)
    (exists_locate_directory regular hr he) ?_)
  exact (keyOf_directory_of_mem regular hs own hd dir).trans same

theorem Homed.mem_documents_iff_of_mem_handed (homed : Homed t scans p) {f : Feature}
    (hf : f ∈ handed t scans) : p ∈ f.documents ↔ t.keyOf p.directory = t.keyOf f.directory := by
  obtain ⟨first, _, rfl⟩ := List.mem_map.1 hf
  exact homed.mem_joined_documents_iff regular hp

/-- A document is handed to one check just when all its spellings have one directory. -/
theorem existsUnique_handed_iff :
    (∃! f, f ∈ handed t scans ∧ p ∈ f.documents) ↔ Homed t scans p := by
  obtain ⟨own, hown, inOwn, same⟩ := exists_own_handed regular hp
  constructor
  · rintro ⟨f, _, only⟩ q hq spelled
    obtain ⟨s, hs, d, hd, rfl⟩ := mem_documents_iff.1 hq
    obtain ⟨g, hg, there⟩ := exists_handed regular hs hd
    have inside := (mem_documents_iff_of_mem_handed regular hg).2
      ⟨hp, s, hs, d, hd, spelled, there.symm⟩
    -- the feature of the other spelling has to be the document's own
    have one : g = own := (only g ⟨hg, inside⟩).trans (only own ⟨hown, inOwn⟩).symm
    rw [← there, one, same]
  · intro homed
    refine ⟨own, ⟨hown, inOwn⟩, ?_⟩
    rintro f ⟨hf, inside⟩
    refine eq_of_pairwise pairwise_handed hf hown ?_
    rw [same]
    exact ((homed.mem_documents_iff_of_mem_handed regular hp hf).1 inside).symm

end Document

/-! ## Every document once -/

section Homed

variable (homed : ∀ p ∈ documentsOf t scans, Homed t scans p)
include homed

theorem of_mem_documents {f : Feature} (hf : f ∈ handed t scans) {p : Path}
    (hp : p ∈ f.documents) :
    p ∈ documentsOf t scans ∧ t.keyOf p.directory = t.keyOf f.directory := by
  have known := ((mem_documents_iff_of_mem_handed regular hf).1 hp).1
  exact ⟨known, ((homed p known).mem_documents_iff_of_mem_handed regular known hf).1 hp⟩

theorem home?_eq_of_mem_documents {f : Feature} (hf : f ∈ handed t scans) {p : Path}
    (hp : p ∈ f.documents) : home? t scans p = some f := by
  rw [home?, (of_mem_documents regular homed hf hp).2]
  exact find?_of_pairwise pairwise_handed hf

/-- The lists handed to the checks, put together, are the documents, each once. -/
theorem flatMap_documents_handed_perm :
    ((handed t scans).flatMap (·.documents)).Perm (documentsOf t scans) := by
  have each : ∀ f ∈ handed t scans, f.documents.Nodup := by
    intro f hf
    obtain ⟨first, _, rfl⟩ := List.mem_map.1 hf
    exact nodup_firstOf _
  have between : (handed t scans).Pairwise fun f g => f.documents.Disjoint g.documents := by
    refine pairwise_handed.imp_of_mem fun hf hg apart p inF inG => apart ?_
    exact (of_mem_documents regular homed hf inF).2.symm.trans
      (of_mem_documents regular homed hg inG).2
  have whole : ((handed t scans).flatMap (·.documents)).Nodup := by
    rw [List.nodup_flatMap]
    exact ⟨each, between⟩
  have found : (documentsOf t scans).Nodup := nodup_firstOf _
  refine (List.perm_ext_iff_of_nodup whole found).2 fun p => ?_
  constructor
  · intro hp
    obtain ⟨f, hf, inside⟩ := List.mem_flatMap.1 hp
    exact (of_mem_documents regular homed hf inside).1
  · intro hp
    obtain ⟨f, hf, inside, _⟩ := exists_own_handed regular hp
    exact List.mem_flatMap.2 ⟨f, hf, inside⟩

/-- A block for each document of each feature is a block for each document. -/
theorem flatMap_handed_perm {α : Type} (block : Feature → Path → List α) :
    ((handed t scans).flatMap fun f => f.documents.flatMap (block f)).Perm
      ((documentsOf t scans).flatMap fun p => (home? t scans p).toList.flatMap (block · p)) := by
  have own : ((handed t scans).flatMap fun f => f.documents.flatMap (block f)) =
      (handed t scans).flatMap fun f => f.documents.flatMap fun p =>
        (home? t scans p).toList.flatMap (block · p) := by
    refine List.flatMap_congr fun f hf => List.flatMap_congr fun p hp => ?_
    rw [home?_eq_of_mem_documents regular homed hf hp, Option.toList_some, List.flatMap_singleton]
  rw [own, ← List.flatMap_assoc]
  exact (flatMap_documents_handed_perm regular homed).flatMap_right _

end Homed

end Handed

/-! ## What the checks report -/

/-- The ids that the checks of features report under. -/
def featureIds : List String :=
  ["duplicate-id", "mode-placement", "screenshot-missing", "screenshot-orphan"]

theorem kind_eq_of_graded {rules : RuleSet} (separate : rules.Separate) {x : Diagnostic}
    (graded : x.Graded rules) (own : x.ruleId ∈ featureIds) : x.kind = .consistencyError := by
  have reserved : ∀ id ∈ featureIds, id ∈ Markup.Fault.ruleIds ++ driverIds := by decide
  have free := separate.get?_eq_none (reserved _ own)
  rw [Diagnostic.Graded, gradeOf, free] at graded
  simp only [featureIds, List.mem_cons, List.not_mem_nil, or_false] at own
  rcases own with id | id | id | id <;> rw [id] at graded <;> exact congrArg Prod.snd graded

section Report

variable {t : Tree} {config : Config} {rules : RuleSet} {roots : List Path}
  (configured : RuleSet.stock.configure config.rules = .ok rules)
include configured

theorem kind_ne_of_mem_check {p : Path} {x : Diagnostic}
    (hx : x ∈ (check t config rules p).diagnostics) : x.kind ≠ .consistencyError := by
  intro kind
  obtain ⟨_, ending, ends, _⟩ := @checkDocument_eq t config _ _ configured p
  cases ending with
  | unreadable =>
    obtain ⟨_, d, single, io⟩ := ends
    rw [single, List.mem_singleton] at hx
    rw [hx, io] at kind
    cases kind
  | malformed =>
    rw [ends.2.2 x hx] at kind
    cases kind
  | judged =>
    rw [ends.2 x hx] at kind
    cases kind

/-- What is reported under one of these ids is what the checks of the features report. -/
theorem filter_queueReport_perm {id : String} (own : id ∈ featureIds) :
    ((queueReport t config rules roots).diagnostics.filter (·.ruleId = id)).Perm
      ((handed t (scansOf t config.scan roots)).flatMap fun f =>
        (f.check (readDocuments t config rules f)).filter (·.ruleId = id)) := by
  have separate : rules.Separate := RuleSet.separate_stock.configure configured
  -- the grade of such an id is that of a consistency error, which nothing else reports
  have none {ds : List Diagnostic} (graded : ∀ x ∈ ds, x.Graded rules)
      (kind : ∀ x ∈ ds, x.kind ≠ .consistencyError) : ds.filter (·.ruleId = id) = [] := by
    refine List.filter_eq_nil_iff.2 fun x hx same => kind x hx ?_
    exact kind_eq_of_graded separate (graded x hx) (of_decide_eq_true same ▸ own)
  have problems : (gather t config.scan roots).problems.filter (·.ruleId = id) = [] := by
    refine none (fun x hx => ?_) fun x hx => ?_
    · obtain ⟨_, _, rfl⟩ := exists_of_mem_problems hx
      exact Diagnostic.graded_unreadable separate _ _
    · obtain ⟨_, _, rfl⟩ := exists_of_mem_problems hx
      exact fun kind => by cases kind
  have checked (ps : List Path) :
      (ps.flatMap fun p => (check t config rules p).diagnostics).filter (·.ruleId = id) = [] := by
    refine none (fun x hx => ?_) fun x hx => ?_
    · obtain ⟨p, _, hx⟩ := List.mem_flatMap.1 hx
      exact Diagnostic.graded_of_mem_check separate hx
    · obtain ⟨p, _, hx⟩ := List.mem_flatMap.1 hx
      exact kind_ne_of_mem_check configured hx
  refine ((Diagnostic.sort_perm _).filter _).trans ?_
  rw [pushed, List.filter_append, List.filter_append, problems, checked, List.nil_append,
    List.nil_append, List.filter_flatMap, ← map_features_gather, List.flatMap_map]
  exact (sortBy_perm _ _).flatMap_right _

end Report

/-- The features that a run counts and checks: each is handed some document, and each document found
is handed to the feature that it belongs to. -/
structure HandsOver (t : Tree) (config : Config) (rules : RuleSet) (roots : List Path)
    (r : Report) : Prop where
  count : r.features = (handed t (scansOf t config.scan roots)).length
  reported : ∀ id ∈ featureIds, (r.diagnostics.filter (·.ruleId = id)).Perm
    ((handed t (scansOf t config.scan roots)).flatMap fun f =>
      (f.check (readDocuments t config rules f)).filter (·.ruleId = id))
  nonempty : ∀ f ∈ handed t (scansOf t config.scan roots),
    ∃ p ∈ f.documents, p ∈ documentsOf t (scansOf t config.scan roots)
  own : ∀ p ∈ documentsOf t (scansOf t config.scan roots),
    ∃ f ∈ handed t (scansOf t config.scan roots), p ∈ f.documents ∧
      ∀ d, (check t config rules p).document = some d → f.name = d.feature

/-- Every document is handed to one check, under the name of its feature, and what is reported of
it there is in the report once. All of the report is accounted for as in a tree without links. -/
structure HandsOnce (t : Tree) (config : Config) (rules : RuleSet) (roots : List Path)
    (r : Report) : Prop where
  documents : ((handed t (scansOf t config.scan roots)).flatMap (·.documents)).Perm
    (documentsOf t (scansOf t config.scan roots))
  names : ∀ f ∈ handed t (scansOf t config.scan roots),
    ∀ d ∈ readDocuments t config rules f, f.name = d.feature
  modes : (r.diagnostics.filter (·.ruleId = "mode-placement")).Perm
    ((documentsOf t (scansOf t config.scan roots)).flatMap fun p =>
      (check t config rules p).document.toList.flatMap Consistency.modeFaults)
  missing : (r.diagnostics.filter (·.ruleId = "screenshot-missing")).Perm
    ((documentsOf t (scansOf t config.scan roots)).flatMap fun p =>
      (home? t (scansOf t config.scan roots) p).toList.flatMap fun f =>
        Consistency.missingScreenshots f (check t config rules p).document.toList)
  duplicates : (r.diagnostics.filter (·.ruleId = "duplicate-id")).Perm
    ((handed t (scansOf t config.scan roots)).flatMap fun f =>
      Consistency.duplicateIds (readDocuments t config rules f))
  total : r.diagnostics = Diagnostic.sort (accounted t config rules roots)

section Once

variable {t : Tree} {config : Config} {rules : RuleSet} {roots : List Path}

theorem readDocuments_eq (f : Feature) : readDocuments t config rules f =
    f.documents.flatMap fun p => (check t config rules p).document.toList := by
  rw [readDocuments, List.filterMap_eq_flatMap_toList]

variable (configured : RuleSet.stock.configure config.rules = .ok rules)
include configured

theorem handsOver_queueReport :
    HandsOver t config rules roots (queueReport t config rules roots) := by
  have regular := regular_scansOf t config.scan roots
  constructor
  · rw [queueReport, Report.ofDiagnostics, ← map_features_gather, List.length_map]
  · exact fun id own => filter_queueReport_perm configured own
  · exact fun f hf => exists_mem_documents_of_mem_handed regular hf
  · intro p hp
    obtain ⟨f, hf, inside, same⟩ := exists_own_handed regular hp
    refine ⟨f, hf, inside, fun d read => ?_⟩
    rw [(of_check read).2]
    exact name_eq_of_mem_handed regular hp hf same

theorem handsOnce_queueReport
    (homed : ∀ p ∈ documentsOf t (scansOf t config.scan roots),
      Homed t (scansOf t config.scan roots) p) :
    HandsOnce t config rules roots (queueReport t config rules roots) := by
  have regular := regular_scansOf t config.scan roots
  have whole := flatMap_documents_handed_perm regular homed
  constructor
  · exact whole
  · intro f hf d hd
    obtain ⟨p, hp, read⟩ := List.mem_filterMap.1 hd
    obtain ⟨known, same⟩ := of_mem_documents regular homed hf hp
    rw [(of_check read).2]
    exact name_eq_of_mem_handed regular known hf same.symm
  · refine (filter_queueReport_perm configured (by decide)).trans ?_
    simp only [Feature.filter_check_mode, readDocuments_eq, List.flatMap_assoc]
    rw [← List.flatMap_assoc]
    exact whole.flatMap_right _
  · refine (filter_queueReport_perm configured (by decide)).trans ?_
    simp only [Feature.filter_check_missing, readDocuments_eq, Consistency.missingScreenshots,
      List.flatMap_assoc]
    exact flatMap_handed_perm regular homed _
  · refine (filter_queueReport_perm configured (by decide)).trans ?_
    simp only [Feature.filter_check_duplicate]
    exact .refl _
  · exact sort_pushed (RuleSet.separate_stock.configure configured)
      (pushed_perm_accounted_of_homed homed)

end Once

/-- A run under the stock rules, however they are configured, hands every document that it found to
the check of the feature that the document belongs to, and counts no feature that is handed nothing.
It hands the document to no other check just when all spellings that were found of it have one
directory. Where that holds of every document, each is checked once and reported once. -/
theorem run_hands_over {t : Tree} {config : Config} {rules : RuleSet} {roots : List Path}
    (configured : RuleSet.stock.configure config.rules = .ok rules)
    (proceeds : Proceeds t config roots) :
    ∃ r, t.run config rules roots = .ok r ∧ HandsOver t config rules roots r ∧
      (∀ p ∈ documentsOf t (scansOf t config.scan roots),
        (∃! f, f ∈ handed t (scansOf t config.scan roots) ∧ p ∈ f.documents) ↔
          Homed t (scansOf t config.scan roots) p) ∧
      ((∀ p ∈ documentsOf t (scansOf t config.scan roots),
          Homed t (scansOf t config.scan roots) p) → HandsOnce t config rules roots r) := by
  have separate : rules.Separate := RuleSet.separate_stock.configure configured
  refine ⟨_, run_eq_queueReport separate proceeds, handsOver_queueReport configured, fun p hp => ?_,
    handsOnce_queueReport configured⟩
  exact existsUnique_handed_iff (fun _ hs => regular_of_mem_scansOf hs) hp

/-- One document, a link to its directory, and a link to itself from another directory. -/
def linked : Tree where
  top := .directory [
    ("a", .directory [("x.mock.md", .file (.text ("# Test Case: A\n# Prerequisites\n" ++
      "Mode: full\n# Test Steps\n# Expected UI State\n# Expected Result")))]),
    ("b", .link ⟨"a"⟩),
    ("c", .directory [("x.mock.md", .link ⟨"../a/x.mock.md"⟩)])]
  workDir := []
  wellFormed := by
    refine ⟨by decide, ⟨by decide, trivial, by simp, trivial⟩, fun e he => ?_, by decide, trivial,
      fun e he => ?_, by decide, ⟨by decide, trivial, by simp, trivial⟩, by simp, trivial⟩
    · rcases List.mem_cons.1 he with rfl | he
      · decide
      · rw [List.mem_singleton.1 he]
        decide
    · rw [List.mem_singleton.1 he]
      decide

/-- Through the link to its directory the document stays in one feature. -/
theorem run_hands_over_linked :
    RuleSet.stock.configure {} = .ok RuleSet.stock ∧ Proceeds linked {} [⟨"b/x.mock.md"⟩, ⟨"a"⟩] ∧
    ∃ r, linked.run {} RuleSet.stock [⟨"b/x.mock.md"⟩, ⟨"a"⟩] = .ok r ∧
      HandsOnce linked {} RuleSet.stock [⟨"b/x.mock.md"⟩, ⟨"a"⟩] r := by
  have configured : RuleSet.stock.configure {} = .ok RuleSet.stock := rfl
  have proceeds : Proceeds linked {} [⟨"b/x.mock.md"⟩, ⟨"a"⟩] :=
    proceeds_of_jobs (by decide) (by decide)
  refine ⟨configured, proceeds, ?_⟩
  obtain ⟨r, ran, _, _, once⟩ := @run_hands_over linked {} _ [⟨"b/x.mock.md"⟩, ⟨"a"⟩] configured
    proceeds
  have found : ((scansOf linked {} [⟨"b/x.mock.md"⟩, ⟨"a"⟩]).flatMap fun s =>
      s.documents.map (·.path)) = [⟨"b/x.mock.md"⟩, ⟨"a/x.mock.md"⟩] := by
    decide +kernel
  refine ⟨r, ran, once ?_⟩
  simp only [documentsOf, Homed, found]
  decide +kernel

/-- Through the link to itself it is in two, and its fault is reported twice. -/
theorem run_hands_over_twice :
    (∃ p ∈ documentsOf linked (scansOf linked {} [⟨"c/x.mock.md"⟩, ⟨"a"⟩]),
      ¬∃! f, f ∈ handed linked (scansOf linked {} [⟨"c/x.mock.md"⟩, ⟨"a"⟩]) ∧ p ∈ f.documents) ∧
    ∃ r, linked.run {} RuleSet.stock [⟨"c/x.mock.md"⟩, ⟨"a"⟩] = .ok r ∧
      r.documents = 1 ∧ r.features = 2 ∧
      (r.diagnostics.filter (·.ruleId = "mode-placement")).length = 2 := by
  have configured : RuleSet.stock.configure {} = .ok RuleSet.stock := rfl
  have document : documentsOf linked (scansOf linked {} [⟨"c/x.mock.md"⟩, ⟨"a"⟩]) =
      [⟨"c/x.mock.md"⟩] := by
    decide +kernel
  have features : handed linked (scansOf linked {} [⟨"c/x.mock.md"⟩, ⟨"a"⟩]) =
      [⟨⟨"c"⟩, "c", [⟨"c/x.mock.md"⟩], []⟩, ⟨⟨"a"⟩, "a", [⟨"c/x.mock.md"⟩], []⟩] := by
    decide +kernel
  refine ⟨⟨⟨"c/x.mock.md"⟩, by simp [document], ?_⟩, _,
    run_eq_queueReport RuleSet.separate_stock (proceeds_of_jobs (by decide) (by decide)),
    ?_, ?_, ?_⟩
  · rw [features]
    rintro ⟨f, _, only⟩
    have first := only ⟨⟨"c"⟩, "c", [⟨"c/x.mock.md"⟩], []⟩ (by simp)
    have second := only ⟨⟨"a"⟩, "a", [⟨"c/x.mock.md"⟩], []⟩ (by simp)
    exact absurd (first.trans second.symm) (by decide)
  · have gathered : (gather linked {} [⟨"c/x.mock.md"⟩, ⟨"a"⟩]).documents = _ :=
      (gathersRoots_gather linked {} [⟨"c/x.mock.md"⟩, ⟨"a"⟩]).scans.documents
    rw [queueReport, Report.ofDiagnostics, gathered, List.length_map, document]
    rfl
  · have count : (queueReport linked {} RuleSet.stock [⟨"c/x.mock.md"⟩, ⟨"a"⟩]).features =
        (handed linked (scansOf linked {} [⟨"c/x.mock.md"⟩, ⟨"a"⟩])).length :=
      (handsOver_queueReport configured).count
    rw [count, features]
    rfl
  · have reported : ((queueReport linked {} RuleSet.stock
        [⟨"c/x.mock.md"⟩, ⟨"a"⟩]).diagnostics.filter (·.ruleId = "mode-placement")).Perm _ :=
      filter_queueReport_perm configured (by decide)
    rw [reported.length_eq, features]
    decide +kernel

end Run

end ScriptAudit
