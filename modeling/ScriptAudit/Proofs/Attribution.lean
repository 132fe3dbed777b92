import ScriptAudit.Proofs.Consistency.DuplicateId
import ScriptAudit.Proofs.Handing
import ScriptAudit.Proofs.Path.Display
import ScriptAudit.Proofs.Report.Arrangement
import ScriptAudit.Proofs.Scan.Walk

/-!
# Which document a diagnostic is about

A diagnostic has the path of its document as it is shown. Two documents whose paths are shown alike
thus share a group of the report, and an id that both declare is reported with one of these paths
twice. This happens to no two documents when neither a root nor a name in the tree has a backslash.
-/

namespace ScriptAudit

/-! ## Characters of a path -/

namespace Path

theorem mem_text_join {p : Path} {name : String} {c : Char} (hc : c ∈ (p.join name).text.toList) :
    c = '/' ∨ c ∈ p.text.toList ∨ c ∈ name.toList := by
  rw [join] at hc
  split at hc
  · exact .inr (.inr hc)
  · split at hc
    · rw [String.toList_append] at hc
      exact .inr (List.mem_append.1 hc)
    · rw [String.toList_append, String.toList_append] at hc
      rcases List.mem_append.1 hc with hc | hc
      · rcases List.mem_append.1 hc with hc | hc
        · exact .inr (.inl hc)
        · exact .inl (List.mem_singleton.1 hc)
      · exact .inr (.inr hc)

theorem mem_text_joins {p : Path} {names : List String} {c : Char}
    (hc : c ∈ (p.joins names).text.toList) :
    c = '/' ∨ c ∈ p.text.toList ∨ ∃ name ∈ names, c ∈ name.toList := by
  induction names generalizing p with
  | nil => exact .inr (.inl hc)
  | cons name rest ih =>
    rcases ih hc with slash | own | ⟨later, hlater, there⟩
    · exact .inl slash
    · exact (mem_text_join own).imp_right (.imp_right fun here => ⟨name, List.mem_cons_self, here⟩)
    · exact .inr (.inr ⟨later, List.mem_cons_of_mem _ hlater, there⟩)

end Path

/-- The character is in the name of an entry. -/
def Tree.Spells (t : Tree) (c : Char) : Prop :=
  ∃ pos name n, t.top.at? (pos ++ [name]) = some n ∧ c ∈ name.toList

/-- A document is found at a path made of its root and of names in the tree. -/
theorem Tree.mem_text_of_mem_documents {t : Tree} {config : ScanConfig} {root : Path}
    {d : Descriptor} (hd : d ∈ (t.scan config root).documents) {c : Char}
    (hc : c ∈ d.path.text.toList) : c = '/' ∨ c ∈ root.text.toList ∨ t.Spells c := by
  obtain ⟨start, n, names, content, _, here, there, path, _⟩ := exists_along?_of_mem_documents hd
  rw [path] at hc
  refine (Path.mem_text_joins hc).imp_right (.imp_right ?_)
  rintro ⟨name, hname, inside⟩
  obtain ⟨before, after, rfl⟩ := List.append_of_mem hname
  have whole : t.top.at? (start ++ before ++ [name] ++ after) = some (.file content) := by
    rw [List.append_assoc, List.append_assoc, Node.at?_append, here]
    exact Node.at?_of_along? there
  rw [Node.at?_append] at whole
  obtain ⟨entry, found, _⟩ := Option.bind_eq_some_iff.1 whole
  exact ⟨_, name, entry, found, inside⟩

/-- Missing screenshots are reported document by document. -/
theorem Consistency.exists_mem_missingScreenshots_iff {f : Feature} {documents : List Document}
    {x : Diagnostic} : (∃ d ∈ documents, x ∈ missingScreenshots f [d]) ↔
      x ∈ missingScreenshots f documents := by
  simp only [mem_missingScreenshots_iff, List.mem_singleton, exists_eq_left]

namespace Run

/-! ## Diagnostics of a document -/

/-- What is reported of a document: of its text, and of its modes and screenshots where it is
handed to a check. -/
inductive Concerns (t : Tree) (config : Config) (rules : RuleSet) (roots : List Path) (p : Path)
    (x : Diagnostic) : Prop where
  | checked (found : x ∈ (check t config rules p).diagnostics)
  | judged {f : Feature} {d : Document} (hf : f ∈ handed t (scansOf t config.scan roots))
      (inside : p ∈ f.documents) (read : (check t config rules p).document = some d)
      (found : x ∈ Consistency.modeFaults d ++ Consistency.missingScreenshots f [d])

variable {t : Tree} {config : Config} {rules : RuleSet} {roots : List Path}

theorem file_of_mem_check {p : Path} {x : Diagnostic}
    (hx : x ∈ (check t config rules p).diagnostics) : x.file = p.display := by
  have outcome := comesTo_check t config rules p
  generalize check t config rules p = c at outcome hx
  cases outcome with
  | unreadable _ =>
    rw [List.mem_singleton.1 hx]
    rfl
  | malformed _ refused =>
    obtain ⟨_, _, rfl⟩ := (Document.read_eq_error refused).2 x hx
    rfl
  | judged _ read evaluated =>
    obtain ⟨_, _, _, _, _, _, rfl⟩ := (RuleSet.mem_iff_of_evaluate evaluated).1 hx
    obtain ⟨_, _, _, _, _, rfl⟩ := Document.read_eq_ok_iff.1 read
    rfl
  | crashed _ _ _ => rw [List.mem_singleton.1 hx]

theorem Concerns.file {p : Path} {x : Diagnostic} (concerns : Concerns t config rules roots p x) :
    x.file = p.display := by
  cases concerns with
  | checked found => exact file_of_mem_check found
  | judged _ _ read found =>
    rw [← (of_check read).1]
    rcases List.mem_append.1 found with mode | missing
    · obtain ⟨_, _, rfl⟩ := Consistency.exists_of_mem_modeFaults mode
      rfl
    · obtain ⟨_, hd, _, _, _, _, _, rfl⟩ := Consistency.mem_missingScreenshots_iff.1 missing
      rw [List.mem_singleton.1 hd]
      rfl

/-! ## The whole report -/

theorem MayReport.exists_arranges {permits : Nat} {r : Report}
    (h : MayReport t config rules roots permits r) :
    ∃ finished, finished.Perm (documentsOf t (scansOf t config.scan roots)) ∧
      r.Arranges (pushed t config rules roots finished) := by
  obtain ⟨finished, joined, done, order, rfl⟩ := h
  refine ⟨finished, done.perm.trans (queue_perm t config.scan roots), ?_⟩
  rw [report_eq, collected_eq (order.trans done.perm)]
  exact Report.arranges_ofDiagnostics _ _ _

theorem mem_readDocuments_iff {f : Feature} {d : Document} :
    d ∈ readDocuments t config rules f ↔
      ∃ p ∈ f.documents, (check t config rules p).document = some d :=
  List.mem_filterMap

/-- Besides what concerns a document there are ids declared twice and unused screenshots. -/
theorem mem_featureCheck_iff {f : Feature} {x : Diagnostic} :
    x ∈ f.check (readDocuments t config rules f) ↔
      (∃ p ∈ f.documents, ∃ d, (check t config rules p).document = some d ∧
        x ∈ Consistency.modeFaults d ++ Consistency.missingScreenshots f [d]) ∨
      x ∈ Consistency.duplicateIds (readDocuments t config rules f) ∨
        (readDocuments t config rules f).length = f.documents.length ∧
          x ∈ Consistency.orphanedScreenshots f (readDocuments t config rules f) := by
  have read (q : Document → Prop) : (∃ d ∈ readDocuments t config rules f, q d) ↔
      ∃ p ∈ f.documents, ∃ d, (check t config rules p).document = some d ∧ q d := by
    simp only [mem_readDocuments_iff]
    tauto
  rw [← read fun d => x ∈ Consistency.modeFaults d ++ Consistency.missingScreenshots f [d],
    Feature.check]
  simp only [List.mem_append, List.mem_flatMap, and_or_left, exists_or,
    Consistency.exists_mem_missingScreenshots_iff, List.mem_ite_nil_right]
  rw [@or_assoc (x ∈ Consistency.duplicateIds _), @or_comm (x ∈ Consistency.duplicateIds _),
    or_assoc]

/-- A report consists of problems of scans, of what concerns the documents found, and of the ids
declared twice and the unused screenshots of the features. -/
theorem MayReport.mem_diagnostics_iff {permits : Nat} {r : Report}
    (h : MayReport t config rules roots permits r) {x : Diagnostic} : x ∈ r.diagnostics ↔
      x ∈ problemsOf (scansOf t config.scan roots) ∨
      (∃ p ∈ documentsOf t (scansOf t config.scan roots), Concerns t config rules roots p x) ∨
      ∃ f ∈ handed t (scansOf t config.scan roots),
        x ∈ Consistency.duplicateIds (readDocuments t config rules f) ∨
          (readDocuments t config rules f).length = f.documents.length ∧
            x ∈ Consistency.orphanedScreenshots f (readDocuments t config rules f) := by
  obtain ⟨finished, perm, arranges⟩ := h.exists_arranges
  have regular := regular_scansOf t config.scan roots
  have features : x ∈ (sortBy (fun a b => Path.le a.1 b.1)
      (gather t config.scan roots).features).flatMap (fun f =>
        f.2.check (readDocuments t config rules f.2)) ↔
      ∃ f ∈ handed t (scansOf t config.scan roots),
        x ∈ f.check (readDocuments t config rules f) := by
    rw [((sortBy_perm _ _).flatMap_right _).mem_iff, ← map_features_gather]
    simp only [List.mem_flatMap, List.mem_map, exists_exists_and_eq_and]
  rw [arranges.perm.mem_iff, pushed, List.mem_append, List.mem_append, features, List.mem_flatMap,
    (gathersRoots_gather t config.scan roots).scans.problems, or_assoc]
  refine or_congr_right ?_
  constructor
  · rintro (⟨p, hp, found⟩ | ⟨f, hf, found⟩)
    · exact .inl ⟨p, perm.mem_iff.1 hp, .checked found⟩
    · rcases mem_featureCheck_iff.1 found with ⟨p, hp, d, read, found⟩ | beside
      · have known := ((mem_documents_iff_of_mem_handed regular hf).1 hp).1
        exact .inl ⟨p, known, .judged hf hp read found⟩
      · exact .inr ⟨f, hf, beside⟩
  · rintro (⟨p, hp, concerns⟩ | ⟨f, hf, beside⟩)
    · cases concerns with
      | checked found => exact .inl ⟨p, perm.mem_iff.2 hp, found⟩
      | judged hf inside read found =>
        exact .inr ⟨_, hf, mem_featureCheck_iff.2 (.inl ⟨p, inside, _, read, found⟩)⟩
    · exact .inr ⟨f, hf, mem_featureCheck_iff.2 (.inr beside)⟩

/-- The group of a file has all diagnostics of it and no others. -/
theorem MayReport.exists_group {permits : Nat} {r : Report}
    (h : MayReport t config rules roots permits r) {x : Diagnostic} (hx : x ∈ r.diagnostics) :
    ∃ g ∈ r.byFile, x ∈ g.2 ∧ ∀ y ∈ r.diagnostics, y ∈ g.2 ↔ y.file = x.file := by
  obtain ⟨_, _, arranges⟩ := h.exists_arranges
  rw [← arranges.whole, List.mem_flatMap] at hx
  obtain ⟨g, hg, hx⟩ := hx
  have all := (arranges.groups g hg).2
  refine ⟨g, hg, hx, fun y hy => ?_⟩
  rw [all, List.mem_filter, decide_eq_true_iff] at hx ⊢
  rw [hx.2]
  exact and_iff_right hy

/-! ## Documents that are shown alike -/

theorem backslash_of_mem_documentsOf {p : Path}
    (hp : p ∈ documentsOf t (scansOf t config.scan roots)) (written : '\\' ∈ p.text.toList) :
    (∃ root ∈ roots, '\\' ∈ root.text.toList) ∨ t.Spells '\\' := by
  obtain ⟨s, hs, d, hd, rfl⟩ := mem_documents_iff.1 (mem_of_mem_firstOf hp)
  obtain ⟨root, hroot, rfl⟩ := List.mem_map.1 hs
  rcases Tree.mem_text_of_mem_documents hd written with slash | own | spelled
  · cases slash
  · exact .inl ⟨root, mem_of_mem_firstOf hroot, own⟩
  · exact .inr spelled

/-- What a report says of documents tells them apart as far as their paths are shown apart. -/
structure TellsApart (t : Tree) (config : Config) (rules : RuleSet) (roots : List Path)
    (r : Report) : Prop where
  diagnostics : ∀ x, x ∈ r.diagnostics ↔
    x ∈ problemsOf (scansOf t config.scan roots) ∨
    (∃ p ∈ documentsOf t (scansOf t config.scan roots), Concerns t config rules roots p x) ∨
    ∃ f ∈ handed t (scansOf t config.scan roots),
      x ∈ Consistency.duplicateIds (readDocuments t config rules f) ∨
        (readDocuments t config rules f).length = f.documents.length ∧
          x ∈ Consistency.orphanedScreenshots f (readDocuments t config rules f)
  files : ∀ p x, Concerns t config rules roots p x → x.file = p.display
  shown : ∀ p ∈ documentsOf t (scansOf t config.scan roots),
    ∀ q ∈ documentsOf t (scansOf t config.scan roots), p.display = q.display ↔ p.Alike q
  groups : ∀ p ∈ documentsOf t (scansOf t config.scan roots),
    ∀ q ∈ documentsOf t (scansOf t config.scan roots),
      (∃ g ∈ r.byFile, (∃ x ∈ g.2, Concerns t config rules roots p x) ∧
          ∃ y ∈ g.2, Concerns t config rules roots q y) ↔
        p.Alike q ∧ (∃ x, Concerns t config rules roots p x) ∧
          ∃ y, Concerns t config rules roots q y
  duplicates : ∀ f ∈ handed t (scansOf t config.scan roots),
    ∀ x ∈ Consistency.duplicateIds (readDocuments t config rules f),
      ∃ id, Consistency.DuplicateReport (readDocuments t config rules f) id x ∧
        ∀ e ∈ Consistency.declaring (readDocuments t config rules f) id,
          e.1.path ∈ documentsOf t (scansOf t config.scan roots) ∧
            ∀ e' ∈ Consistency.declaring (readDocuments t config rules f) id,
              e.1.file = e'.1.file ↔ e.1.path.Alike e'.1.path
  apart : ∀ p ∈ documentsOf t (scansOf t config.scan roots),
    ∀ q ∈ documentsOf t (scansOf t config.scan roots), p ≠ q → p.display = q.display →
      (∃ root ∈ roots, '\\' ∈ root.text.toList) ∨ t.Spells '\\'

/-- Two documents are mixed up exactly when their paths differ in slashes and backslashes only, and
for this a root or a name in the tree has to have a backslash. -/
theorem tellsApart_of_mayReport {permits : Nat} {r : Report}
    (h : MayReport t config rules roots permits r) : TellsApart t config rules roots r where
  diagnostics _ := h.mem_diagnostics_iff
  files _ _ concerns := concerns.file
  shown _ _ _ _ := Path.display_eq_iff
  groups p hp q hq := by
    constructor
    · rintro ⟨g, hg, ⟨x, hx, own⟩, y, hy, other⟩
      have one := (Report.of_mem_groups hg).2
      refine ⟨Path.display_eq_iff.1 ?_, ⟨x, own⟩, y, other⟩
      rw [← own.file, ← other.file, one x hx, one y hy]
    · rintro ⟨alike, ⟨x, own⟩, y, other⟩
      have hx := h.mem_diagnostics_iff.2 (.inr (.inl ⟨p, hp, own⟩))
      have hy := h.mem_diagnostics_iff.2 (.inr (.inl ⟨q, hq, other⟩))
      obtain ⟨g, hg, inside, all⟩ := h.exists_group hx
      refine ⟨g, hg, ⟨x, inside, own⟩, y, (all y hy).2 ?_, other⟩
      rw [own.file, other.file, Path.display_eq_iff.2 alike]
  duplicates f hf x hx := by
    have regular := regular_scansOf t config.scan roots
    obtain ⟨id, report⟩ := Consistency.exists_duplicateReport hx
    refine ⟨id, report, fun e he => ⟨?_, fun e' _ => Path.display_eq_iff⟩⟩
    obtain ⟨p, hp, read⟩ := mem_readDocuments_iff.1 (Consistency.mem_of_mem_declaring he)
    rw [(of_check read).1]
    exact ((mem_documents_iff_of_mem_handed regular hf).1 hp).1
  apart p hp q hq different same := by
    rcases (Path.display_eq_iff.1 same).backslash_mem different with written | written
    · exact backslash_of_mem_documentsOf hp written
    · exact backslash_of_mem_documentsOf hq written

/-- A document in a directory, and one beside the directory whose name is shown as a path into
it. -/
def twins : Tree where
  top := .directory [("a", .directory [("x.mock.md", .file (.text ""))]),
    ("a\\x.mock.md", .file (.text ""))]
  workDir := []
  wellFormed := by
    refine ⟨by decide, ⟨by decide, trivial, by simp, trivial⟩, fun e he => ?_, by decide, trivial,
      by simp, trivial⟩
    rw [List.mem_singleton.1 he]
    decide

theorem proceeds_twins : Proceeds twins {} [⟨"."⟩] := proceeds_of_jobs (by decide) (by decide)

theorem tellsApart_twins : ∃ r, twins.run {} RuleSet.stock [⟨"."⟩] = .ok r ∧
    MayReport twins {} RuleSet.stock [⟨"."⟩] 1 r ∧
    TellsApart twins {} RuleSet.stock [⟨"."⟩] r := by
  have ran : twins.run {} RuleSet.stock [⟨"."⟩] = .ok _ := run_eq_report proceeds_twins
  have may := mayReport_of_run Nat.one_pos ran
  exact ⟨_, ran, may, tellsApart_of_mayReport may⟩

/-- The fault of each is reported under the name of the first. -/
theorem run_mixes_up_twins :
    documentsOf twins (scansOf twins {} [⟨"."⟩]) = [⟨"./a/x.mock.md"⟩, ⟨"./a\\x.mock.md"⟩] ∧
    ∃ r x, twins.run {} RuleSet.stock [⟨"."⟩] = .ok r ∧
      (check twins {} RuleSet.stock ⟨"./a/x.mock.md"⟩).diagnostics = [x] ∧
      (check twins {} RuleSet.stock ⟨"./a\\x.mock.md"⟩).diagnostics = [x] ∧
      r.byFile = [("./a/x.mock.md", [x, x])] := by
  refine ⟨by decide +kernel, _, ⟨"./a/x.mock.md", none, "missing-test-case", .error,
    "no 'Test Case:' heading found", .parseError⟩, run_eq_report proceeds_twins,
    ?_, ?_, ?_⟩
  · decide +kernel
  · decide +kernel
  · decide +kernel

end Run

end ScriptAudit
