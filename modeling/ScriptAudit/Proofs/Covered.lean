import ScriptAudit.Proofs.Accounting
import ScriptAudit.Proofs.Scan.Listing

/-!
# Roots that others cover

A root covers another when its scan comes to the directory that the other leads to, or finds the
document. In a tree without links everything that the other finds is then found already, whatever
spelling it has: scanning it too changes neither the documents nor the features of a report. What
it can add are diagnostics of screenshot directories that cannot be listed. These are told apart by
their spelling and not by the place that they resolve to, so each spelling is reported.
-/

namespace ScriptAudit

namespace Run

/-- The scan of the first root comes to the directory that the second leads to, or finds the
document, and no path on its way was too long for the system. -/
structure CoveredBy (t : Tree) (config : ScanConfig) (root r : Path) : Prop where
  fits : t.Fits config root
  leads : ∃ pos, t.locate r = .ok pos ∧
    (t.Visits config root pos ∨ ∃ d ∈ (t.scan config root).documents, t.locate d.path = .ok pos)

/-- One of the roots that a run scans covers another root. -/
def Covered (t : Tree) (config : ScanConfig) (roots : List Path) (r : Path) : Prop :=
  ∃ root ∈ firstOf t.keyOf roots, CoveredBy t config root r

/-- The problems that a root brings to those of the roots before it. -/
def newProblems (t : Tree) (config : ScanConfig) (roots : List Path) (r : Path) :
    List Diagnostic :=
  (problemsOf (scansOf t config (roots ++ [r]))).filter
    (· ∉ problemsOf (scansOf t config roots))

/-- Both diagnostics say of one place that its screenshots cannot be listed, and why. -/
def Respells (t : Tree) (x y : Diagnostic) : Prop :=
  ∃ (f g : Feature) (e : PathError), t.keyOf f.directory = t.keyOf g.directory ∧
    x = Scan.unlistable f e ∧ y = Scan.unlistable g e

/-! ## One root and another -/

namespace CoveredBy

variable {t : Tree} {config : ScanConfig} {root r : Path} (covered : CoveredBy t config root r)
include covered

/-- What the second root finds the first has found. -/
theorem exists_document {e : Descriptor} (he : e ∈ (t.scan config r).documents) :
    ∃ d ∈ (t.scan config root).documents, ∃ pos,
      t.locate d.path = .ok pos ∧ t.locate e.path = .ok pos := by
  obtain ⟨pos, n, names, content, leads, here, there, path_eq, located, last, named, accepted⟩ :=
    Tree.exists_along?_of_mem_documents he
  obtain ⟨same, leads', met⟩ := covered.leads
  rw [leads] at leads'
  cases leads'
  rcases met with visits | ⟨d, hd, found⟩
  · -- below a directory some name leads to the file, and it is an accepted one
    rcases List.eq_nil_or_concat names with rfl | ⟨front, name, rfl⟩
    · cases there
      obtain ⟨start, m, inner, es, _, atStart, toward, rfl⟩ := visits
      rw [Node.at?_append, atStart, Option.bind_some, Node.at?_of_along? toward] at here
      cases here
    · rw [List.concat_eq_append] at there path_eq located
      have found : t.top.at? (pos ++ (front ++ [name])) = some (.file content) := by
        rw [Node.at?_append, here]
        exact Node.at?_of_along? there
      have entries : ∀ s ∈ front ++ [name], isEntryName s = true := fun s hs =>
        (t.wellFormed.at? found).2 s (List.mem_append_right _ hs)
      have own : e.path.fileName? = some name := by
        rw [path_eq]
        exact Path.fileName?_joins (Tree.ne_empty_of_locate leads) entries
      rw [own] at named
      cases named
      obtain ⟨d, hd, _, _, _, foundD⟩ :=
        Tree.exists_mem_documents_of_visits covered.fits visits here there accepted
      exact ⟨d, hd, _, foundD, located⟩
  · -- a file has nothing below it
    obtain ⟨start, m, inner, content', _, atStart, toFile, _, locatedD, _⟩ :=
      Tree.exists_along?_of_mem_documents hd
    rw [found] at locatedD
    cases locatedD
    rw [Node.at?_append, atStart, Option.bind_some, Node.at?_of_along? toFile] at here
    cases here
    cases names with
    | nil => exact ⟨d, hd, _, found, by rwa [List.append_nil] at located⟩
    | cons name rest =>
      obtain ⟨_, none, _⟩ := Node.along?_cons.1 there
      cases none

/-- A feature that the second root finds is in a directory where the first has found one. -/
theorem exists_feature (linkFree : t.top.LinkFree) {f : Feature}
    (hf : f ∈ (t.scan config r).features) : ∃ g ∈ (t.scan config root).features, ∃ pos,
      t.locate g.directory = .ok pos ∧ t.locate f.directory = .ok pos := by
  have first := Scan.regular_scan t config root
  have second := Scan.regular_scan t config r
  obtain ⟨⟨e, he, dir⟩, _⟩ := second.of_mem_features hf
  obtain ⟨d, hd, pos, foundD, foundE⟩ := covered.exists_document he
  obtain ⟨m, namedD⟩ := first.named d hd
  obtain ⟨n, namedE⟩ := second.named e he
  obtain ⟨front, dirD, rfl⟩ := Tree.locate_directory linkFree namedD foundD
  obtain ⟨front', dirE, same⟩ := Tree.locate_directory linkFree namedE foundE
  obtain ⟨g, hg, parts⟩ := first.exists_feature hd
  obtain ⟨⟨d', hd', dir'⟩, _⟩ := first.of_mem_features hg
  obtain ⟨m', namedD'⟩ := first.named d' hd'
  obtain ⟨pos', foundD'⟩ := first.located d' hd'
  obtain ⟨at', foundG, _⟩ := Tree.locate_directory linkFree namedD' foundD'
  rw [dir'] at foundG
  refine ⟨g, hg, front, ?_, ?_⟩
  · rw [foundG, Tree.eq_of_parts_eq foundG dirD parts]
  · rw [← dir, dirE, List.append_inj_left' same rfl]

/-- All its screenshots have been seen there, too. -/
theorem screenshots_subset (linkFree : t.top.LinkFree) {f : Feature}
    (hf : f ∈ (t.scan config r).features) : ∃ g ∈ (t.scan config root).features,
      t.keyOf g.directory = t.keyOf f.directory ∧ ∀ name ∈ f.screenshots, name ∈ g.screenshots := by
  obtain ⟨g, hg, pos, foundG, foundF⟩ := covered.exists_feature linkFree hf
  obtain ⟨short, entries⟩ := covered.fits.screenshots g hg
  refine ⟨g, hg, (Tree.keyOf_eq_iff foundG foundF).2 rfl, ?_⟩
  rw [(Scan.regular_scan t config root).screenshots_eq hg,
    (Scan.regular_scan t config r).screenshots_eq hf]
  exact Scan.screenshots_subset linkFree foundG foundF short entries

/-- What the second root has problems with, if its paths fit, the first has problems with. -/
theorem exists_respelled (linkFree : t.top.LinkFree) (fits : t.Fits config r) {x : Diagnostic}
    (hx : x ∈ (t.scan config r).problems) :
    ∃ y ∈ (t.scan config root).problems, Respells t x y := by
  rcases Scan.mem_problems_iff.1 hx with ⟨e, failed, _⟩ | ⟨m, hm, problem⟩ | ⟨f, hf, e, failed, rfl⟩
  · obtain ⟨pos, leads, _⟩ := covered.leads
    obtain ⟨n, here, _⟩ := Tree.exists_at?_of_locate leads
    rw [Tree.find_eq_ok_iff.2 ⟨fits.short, pos, leads, here⟩] at failed
    cases failed
  · rw [fits.listed m hm] at problem
    cases problem
  · obtain ⟨g, hg, pos, foundG, foundF⟩ := covered.exists_feature linkFree hf
    have failedG : Scan.screenshots t g.screenshotDirectory = .error e :=
      Scan.screenshots_eq_error linkFree foundG foundF (covered.fits.screenshots g hg).1
        (fits.screenshots f hf).1 failed
    refine ⟨Scan.unlistable g e, Scan.mem_problems_iff.2 (Or.inr (Or.inr ⟨g, hg, e, failedG, rfl⟩)),
      f, g, e, ?_, rfl, rfl⟩
    exact (Tree.keyOf_eq_iff foundF foundG).2 rfl

end CoveredBy

/-! ## One more root -/

section Append

variable {t : Tree} {config : ScanConfig} {roots : List Path} {r : Path}

theorem problemsOf_append : problemsOf (scansOf t config (roots ++ [r])) =
    problemsOf (scansOf t config roots) ++ newProblems t config roots r := by
  have known : (problemsOf (scansOf t config roots)).filter
      (· ∉ problemsOf (scansOf t config roots)) = [] :=
    List.filter_eq_nil_iff.2 fun x hx => by simpa using hx
  obtain ⟨more, split⟩ : ∃ more, problemsOf (scansOf t config (roots ++ [r])) =
      problemsOf (scansOf t config roots) ++ more := by
    rcases scansOf_append t config roots r with same | one
    · exact ⟨[], by rw [same, List.append_nil]⟩
    · rw [one, problemsOf, List.flatMap_append]
      exact exists_firstOf_append _ _
  have distinct : (problemsOf (scansOf t config (roots ++ [r]))).Nodup := nodup_firstOf _
  have unknown : more.filter (· ∉ problemsOf (scansOf t config roots)) = more := by
    refine List.filter_eq_self.2 fun x hx => decide_eq_true fun found => ?_
    rw [split, List.nodup_append] at distinct
    exact distinct.2.2 x found x hx rfl
  rw [newProblems, split, List.filter_append, known, unknown, List.nil_append]

theorem mem_problems_of_mem_newProblems {x : Diagnostic} (hx : x ∈ newProblems t config roots r) :
    x ∈ (t.scan config r).problems := by
  obtain ⟨later, unknown⟩ := List.mem_filter.1 hx
  have new := of_decide_eq_true unknown
  rcases scansOf_append t config roots r with same | one
  · rw [same] at later
    exact absurd later new
  · rw [mem_problemsOf_iff (regular_scansOf t config _)] at later new
    obtain ⟨s, hs, found⟩ := later
    rw [one] at hs
    rcases List.mem_append.1 hs with hs | hs
    · exact absurd ⟨s, hs, found⟩ new
    · rwa [List.mem_singleton.1 hs] at found

variable (covered : Covered t config roots r)
include covered

theorem documentsOf_append : documentsOf t (scansOf t config (roots ++ [r])) =
    documentsOf t (scansOf t config roots) := by
  rcases scansOf_append t config roots r with same | one
  · rw [same]
  · obtain ⟨root, hroot, covers⟩ := covered
    rw [one, documentsOf, List.flatMap_append, List.flatMap_singleton]
    refine firstOf_append_of_known fun p hp => ?_
    obtain ⟨e, he, rfl⟩ := List.mem_map.1 hp
    obtain ⟨d, hd, pos, foundD, foundE⟩ := covers.exists_document he
    refine ⟨d.path, mem_documents_iff.2 ⟨_, List.mem_map_of_mem hroot, d, hd, rfl⟩, ?_⟩
    exact (Tree.keyOf_eq_iff foundD foundE).2 rfl

variable (linkFree : t.top.LinkFree)
include linkFree

theorem featuresOf_append : featuresOf t (scansOf t config (roots ++ [r])) =
    featuresOf t (scansOf t config roots) := by
  rcases scansOf_append t config roots r with same | one
  · rw [same]
  · obtain ⟨root, hroot, covers⟩ := covered
    rw [one, featuresOf, List.flatMap_append, List.flatMap_singleton]
    refine firstOf_append_of_known fun f hf => ?_
    obtain ⟨g, hg, same, _⟩ := covers.screenshots_subset linkFree hf
    exact ⟨g, List.mem_flatMap.2 ⟨_, List.mem_map_of_mem hroot, hg⟩, same⟩

theorem whole_append (f : Feature) : whole t (scansOf t config (roots ++ [r])) f =
    whole t (scansOf t config roots) f := by
  rw [whole, documentsOf_append covered, whole]
  congr 1
  refine Text.ascending_congr fun name => ?_
  simp only [List.mem_flatMap, List.mem_filter, decide_eq_true_eq]
  rcases scansOf_append t config roots r with same | one
  · rw [same]
  · obtain ⟨root, hroot, covers⟩ := covered
    rw [one]
    constructor
    · rintro ⟨g, ⟨⟨s, hs, hg⟩, same⟩, shown⟩
      rcases List.mem_append.1 hs with hs | hs
      · exact ⟨g, ⟨⟨s, hs, hg⟩, same⟩, shown⟩
      · rw [List.mem_singleton.1 hs] at hg
        obtain ⟨g', hg', there, subset⟩ := covers.screenshots_subset linkFree hg
        exact ⟨g', ⟨⟨_, List.mem_map_of_mem hroot, hg'⟩, there.trans same⟩, subset name shown⟩
    · rintro ⟨g, ⟨⟨s, hs, hg⟩, same⟩, shown⟩
      exact ⟨g, ⟨⟨s, List.mem_append_left _ hs, hg⟩, same⟩, shown⟩

end Append

/-! ## Reports -/

theorem Proceeds.append {t : Tree} {config : Config} {roots : List Path} {r : Path}
    (h : Proceeds t config roots) (covered : Covered t config.scan roots r) :
    Proceeds t config (roots ++ [r]) := by
  constructor
  · exact h.possible
  · rw [documentsOf_append covered]
    exact h.served

section Report

variable {t : Tree} {config : Config} {rules : RuleSet} {roots : List Path} {r : Path}
  (linkFree : t.top.LinkFree) (covered : Covered t config.scan roots r)
include linkFree covered

theorem accounted_append_perm : (accounted t config rules (roots ++ [r])).Perm
    (accounted t config rules roots ++ newProblems t config.scan roots r) := by
  have features : ((featuresOf t (scansOf t config.scan (roots ++ [r]))).map
      (whole t (scansOf t config.scan (roots ++ [r])))) =
      (featuresOf t (scansOf t config.scan roots)).map (whole t (scansOf t config.scan roots)) := by
    rw [featuresOf_append covered linkFree]
    exact List.map_congr_left fun f _ => whole_append covered linkFree f
  simp only [accounted]
  rw [features, documentsOf_append covered, problemsOf_append, List.append_assoc, List.append_assoc,
    List.append_assoc, List.append_assoc]
  refine List.Perm.append_left _ (List.perm_append_comm.trans ?_)
  rw [List.append_assoc]

theorem diagnostics_queueReport_append (separate : rules.Separate) :
    (queueReport t config rules (roots ++ [r])).diagnostics =
      Diagnostic.sort ((queueReport t config rules roots).diagnostics ++
        newProblems t config.scan roots r) := by
  have before : (accounted t config rules roots).Perm
      (queueReport t config rules roots).diagnostics :=
    (pushed_perm_accounted linkFree).symm.trans (Diagnostic.sort_perm _).symm
  refine sort_pushed separate ((pushed_perm_accounted linkFree).trans ?_)
  exact (accounted_append_perm linkFree covered).trans (before.append_right _)

theorem queueReport_append_eq_iff (separate : rules.Separate) :
    queueReport t config rules (roots ++ [r]) = queueReport t config rules roots ↔
      newProblems t config.scan roots r = [] := by
  have diagnostics := diagnostics_queueReport_append linkFree covered separate
  constructor
  · intro same
    rw [same] at diagnostics
    have longer := congrArg List.length diagnostics
    rw [(Diagnostic.sort_perm _).length_eq, List.length_append] at longer
    exact List.length_eq_zero_iff.1 (by omega)
  · intro none
    rw [none, List.append_nil] at diagnostics
    refine Report.eq_of (diagnostics.trans (sortBy_of_pairwise (Report.sorted _))) ?_ ?_
    · rw [documents_queueReport, documents_queueReport, documentsOf_append covered]
    · rw [features_queueReport, features_queueReport, featuresOf_append covered linkFree]

end Report

/-- In a tree without links a root that another covers adds no document and no feature to a run
under the stock rules, however they are configured. All it can add are problems that its scan has
and that are spelled in a new way; if its paths fit, too, each of them is a problem already
reported, under another spelling. The report stays as it is just when there is none. -/
theorem run_covered {t : Tree} {config : Config} {rules : RuleSet} {roots : List Path} {r : Path}
    (linkFree : t.top.LinkFree) (configured : RuleSet.stock.configure config.rules = .ok rules)
    (proceeds : Proceeds t config roots) (covered : Covered t config.scan roots r) :
    ∃ before after, t.run config rules roots = .ok before ∧
      t.run config rules (roots ++ [r]) = .ok after ∧
      after.documents = before.documents ∧ after.features = before.features ∧
      after.diagnostics =
        Diagnostic.sort (before.diagnostics ++ newProblems t config.scan roots r) ∧
      (after = before ↔ newProblems t config.scan roots r = []) ∧
      (∀ x ∈ newProblems t config.scan roots r, x ∈ (t.scan config.scan r).problems) ∧
      (t.Fits config.scan r → ∀ x ∈ newProblems t config.scan roots r,
        ∃ y ∈ before.diagnostics, Respells t x y) := by
  have separate : rules.Separate := RuleSet.separate_stock.configure configured
  refine ⟨_, _, run_eq_queueReport separate proceeds,
    run_eq_queueReport separate (proceeds.append covered), ?_, ?_,
    diagnostics_queueReport_append linkFree covered separate,
    queueReport_append_eq_iff linkFree covered separate,
    fun x hx => mem_problems_of_mem_newProblems hx, fun fits x hx => ?_⟩
  · rw [documents_queueReport, documents_queueReport, documentsOf_append covered]
  · rw [features_queueReport, features_queueReport, featuresOf_append covered linkFree]
  · obtain ⟨root, hroot, covers⟩ := covered
    obtain ⟨y, hy, respells⟩ :=
      covers.exists_respelled linkFree fits (mem_problems_of_mem_newProblems hx)
    refine ⟨y, (Diagnostic.sort_perm _).mem_iff.2 ?_, respells⟩
    refine (pushed_perm_accounted linkFree).mem_iff.2 (List.mem_append_left _ ?_)
    refine List.mem_append_left _ ((mem_problemsOf_iff (regular_scansOf t config.scan roots)).2 ?_)
    exact ⟨_, List.mem_map_of_mem hroot, hy⟩

/-- A feature with a file where its screenshots should be. -/
def unlisted : Tree where
  top := .directory [("a", .directory [("screenshots", .file (.text "")),
    ("x.mock.md", .file (.text ""))])]
  workDir := []
  wellFormed := by
    refine ⟨by decide, ⟨by decide, trivial, fun e he => ?_, by decide, trivial, by simp, trivial⟩,
      by simp, trivial⟩
    rw [List.mem_singleton.1 he, String.lt_iff]
    decide

/-- The directory covers the document in any spelling. -/
theorem covered_unlisted : Covered unlisted {} [⟨"a"⟩] ⟨"./a/x.mock.md"⟩ := by
  have found : (unlisted.scan {} ⟨"a"⟩).documents = [⟨⟨"a/x.mock.md"⟩, "a", some .mock⟩] := by
    decide +kernel
  refine ⟨⟨"a"⟩, List.mem_singleton_self _,
    ⟨by decide +kernel, by decide +kernel, by decide +kernel⟩, ["a", "x.mock.md"], by rfl,
    Or.inr ?_⟩
  rw [found]
  exact ⟨_, List.mem_singleton_self _, by rfl⟩

theorem run_covered_unlisted :
    unlisted.top.LinkFree ∧ RuleSet.stock.configure {} = .ok RuleSet.stock ∧
    Proceeds unlisted {} [⟨"a"⟩] ∧ Covered unlisted {} [⟨"a"⟩] ⟨"./a/x.mock.md"⟩ ∧
    ∃ before after, unlisted.run {} RuleSet.stock [⟨"a"⟩] = .ok before ∧
      unlisted.run {} RuleSet.stock ([⟨"a"⟩] ++ [⟨"./a/x.mock.md"⟩]) = .ok after ∧
      after.documents = before.documents ∧ after.features = before.features ∧
      ∀ x ∈ newProblems unlisted {} [⟨"a"⟩] ⟨"./a/x.mock.md"⟩,
        ∃ y ∈ before.diagnostics, Respells unlisted x y := by
  have linkFree : unlisted.top.LinkFree := by
    simp [unlisted, Node.LinkFree, Node.LinkFreeEntries]
  have configured : RuleSet.stock.configure {} = .ok RuleSet.stock := rfl
  have proceeds : Proceeds unlisted {} [⟨"a"⟩] := proceeds_of_jobs (by decide) (by decide)
  have fits : unlisted.Fits {} ⟨"./a/x.mock.md"⟩ :=
    ⟨by decide +kernel, by decide +kernel, by decide +kernel⟩
  obtain ⟨before, after, first, second, documents, features, _, _, _, respelled⟩ :=
    @run_covered unlisted {} _ [⟨"a"⟩] ⟨"./a/x.mock.md"⟩ linkFree configured proceeds
      covered_unlisted
  exact ⟨linkFree, configured, proceeds, covered_unlisted, before, after, first, second, documents,
    features, respelled fits⟩

/-- In another spelling it brings the screenshots that cannot be listed once more. -/
theorem run_covered_respelled :
    unlisted.top.LinkFree ∧ Covered unlisted {} [⟨"a"⟩] ⟨"./a/x.mock.md"⟩ ∧
    ∃ before after, unlisted.run {} RuleSet.stock [⟨"a"⟩] = .ok before ∧
      unlisted.run {} RuleSet.stock [⟨"a"⟩, ⟨"./a/x.mock.md"⟩] = .ok after ∧
      (before.diagnostics.filter (·.ruleId = "io-error")).map (·.file) = ["a/screenshots"] ∧
      (after.diagnostics.filter (·.ruleId = "io-error")).map (·.file) =
        ["./a/screenshots", "a/screenshots"] ∧
      after ≠ before := by
  have linkFree : unlisted.top.LinkFree := by
    simp [unlisted, Node.LinkFree, Node.LinkFreeEntries]
  obtain ⟨before, ran, once⟩ : ∃ before, unlisted.run {} RuleSet.stock [⟨"a"⟩] = .ok before ∧
      (before.diagnostics.filter (·.ruleId = "io-error")).map (·.file) = ["a/screenshots"] :=
    ⟨_, rfl, by decide +kernel⟩
  obtain ⟨after, ranAgain, twice⟩ :
      ∃ after, unlisted.run {} RuleSet.stock [⟨"a"⟩, ⟨"./a/x.mock.md"⟩] = .ok after ∧
        (after.diagnostics.filter (·.ruleId = "io-error")).map (·.file) =
          ["./a/screenshots", "a/screenshots"] :=
    ⟨_, rfl, by decide +kernel⟩
  refine ⟨linkFree, covered_unlisted, before, after, ran, ranAgain, once, twice, ?_⟩
  rintro rfl
  rw [once] at twice
  exact absurd twice (by decide)

end Run

end ScriptAudit
