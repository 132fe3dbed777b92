import ScriptAudit.Proofs.Scan.Walk

/-!
# Listing screenshots

What the screenshot directory of a feature holds depends on where the directory of the feature is
and not on how it is written, as long as the paths are not too long. What poses a problem to a scan
is its root, a directory whose path is too long, or a screenshot directory that cannot be listed.
-/

namespace ScriptAudit

namespace Scan

section Places

variable {t : Tree} (linkFree : t.top.LinkFree) {p q : Path} {pos : Position}
  (hp : t.locate p = .ok pos) (hq : t.locate q = .ok pos)
include linkFree hp hq

theorem isFile_join {name : String} (named : isEntryName name = true)
    (short : Tree.isTooLong (p.join name) = false) (file : t.isFile (q.join name) = true) :
    t.isFile (p.join name) = true := by
  have found : ∃ n, t.find (q.join name) = .ok n := by
    simp only [Tree.isFile] at file
    split at file
    · rename_i n found
      exact ⟨n, found⟩
    · cases file
  obtain ⟨n, found⟩ := found
  have same := Tree.find_join_eq linkFree hp hq named short (Tree.find_eq_ok_iff.1 found).1
  rwa [Tree.isFile, same]

theorem list_join {name : String} (named : isEntryName name = true)
    (shortP : Tree.isTooLong (p.join name) = false)
    (shortQ : Tree.isTooLong (q.join name) = false) :
    t.list (p.join name) = t.list (q.join name) := by
  rw [Tree.list, Tree.list, Tree.find_join_eq linkFree hp hq named shortP shortQ]

/-- The screenshots seen through one spelling are seen through any that is not too long. -/
theorem screenshots_subset (short : Tree.isTooLong (p.join "screenshots") = false)
    (entries : ∀ name ∈ (t.list (p.join "screenshots")).toOption.getD [],
      Tree.isTooLong ((p.join "screenshots").join name) = false) :
    ∀ name ∈ (screenshots t (q.join "screenshots")).toOption.getD [],
      name ∈ (screenshots t (p.join "screenshots")).toOption.getD [] := by
  have own : isEntryName "screenshots" = true := by decide
  intro name hname
  cases listed : t.list (q.join "screenshots") with
  | error e =>
    rw [screenshots, listed] at hname
    cases e <;> cases hname
  | ok names =>
    rw [screenshots, listed] at hname
    obtain ⟨among, kept⟩ := List.mem_filter.1 hname
    rw [Bool.and_eq_true] at kept
    obtain ⟨es, found, _⟩ := Tree.list_eq_ok_iff.1 listed
    obtain ⟨shortQ, inside, locatedQ, _⟩ := Tree.find_eq_ok_iff.1 found
    have locatedP : t.locate (p.join "screenshots") = .ok inside := by
      rw [← locatedQ, Tree.locate_join_eq linkFree hp own, Tree.locate_join_eq linkFree hq own]
    have listedP := (list_join linkFree hp hq own short shortQ).trans listed
    have named := Tree.isEntryName_of_mem_list listed among
    rw [listedP] at entries
    have file := isFile_join linkFree locatedP locatedQ named (entries name among) kept.1
    rw [screenshots, listedP]
    refine List.mem_filter.2 ⟨among, ?_⟩
    rw [Bool.and_eq_true]
    exact ⟨file, kept.2⟩

/-- A screenshot directory that cannot be listed cannot be listed under another spelling either. -/
theorem screenshots_eq_error (shortP : Tree.isTooLong (p.join "screenshots") = false)
    (shortQ : Tree.isTooLong (q.join "screenshots") = false) {e : PathError}
    (failed : screenshots t (q.join "screenshots") = .error e) :
    screenshots t (p.join "screenshots") = .error e := by
  have own : isEntryName "screenshots" = true := by decide
  have same := list_join linkFree hp hq own shortP shortQ
  simp only [screenshots] at failed ⊢
  rw [same]
  split at failed
  · cases failed
  · cases failed
  · cases failed
    rfl

end Places

theorem isEntryName_of_mem_screenshots {t : Tree} {dir : Path} {name : String}
    (h : name ∈ (screenshots t dir).toOption.getD []) : isEntryName name = true := by
  cases listed : t.list dir with
  | error e =>
    rw [screenshots, listed] at h
    cases e <;> cases h
  | ok names =>
    rw [screenshots, listed] at h
    exact Tree.isEntryName_of_mem_list listed (List.mem_filter.1 h).1

/-! ## Problems -/

/-- What a scan reports of a feature whose screenshots cannot be listed. -/
def unlistable (f : Feature) (e : PathError) : Diagnostic :=
  .unreadable f.screenshotDirectory.display ("cannot list screenshots: " ++ e.message)

variable {t : Tree}

theorem featureAt_snd_eq_some_iff {documents : List Descriptor} {dir : Path} {x : Diagnostic} :
    (featureAt t documents dir).2 = some x ↔
      ∃ e, screenshots t (featureAt t documents dir).1.screenshotDirectory = .error e ∧
        x = unlistable (featureAt t documents dir).1 e := by
  rw [Feature.screenshotDirectory, featureAt_fst]
  simp only [featureAt, Feature.screenshotDirectory]
  cases listed : screenshots t (dir.join "screenshots") with
  | ok names => simp
  | error e => simp [unlistable, Feature.screenshotDirectory, eq_comm]

/-- A scan has problems with its root, with directories too long to be listed, and with features. -/
theorem mem_problems_iff {config : ScanConfig} {root : Path} {x : Diagnostic} :
    x ∈ (t.scan config root).problems ↔
      (∃ e, t.find root = .error e ∧
        x = .unreadable root.display ("cannot read path: " ++ e.message)) ∨
      (∃ m ∈ t.met config root, m.problem? = some x) ∨
      ∃ f ∈ (t.scan config root).features, ∃ e,
        screenshots t f.screenshotDirectory = .error e ∧ x = unlistable f e := by
  have ofFeatures (documents : List Descriptor) :
      x ∈ (ofDocuments t documents).problems ↔ ∃ f ∈ (ofDocuments t documents).features, ∃ e,
        screenshots t f.screenshotDirectory = .error e ∧ x = unlistable f e := by
    constructor
    · intro hx
      obtain ⟨found, hfound, problem⟩ := List.mem_filterMap.1 hx
      obtain ⟨dir, hdir, rfl⟩ := List.mem_map.1 hfound
      exact ⟨_, List.mem_map_of_mem hfound, featureAt_snd_eq_some_iff.1 problem⟩
    · rintro ⟨f, hf, failed⟩
      obtain ⟨found, hfound, rfl⟩ := List.mem_map.1 hf
      obtain ⟨dir, hdir, rfl⟩ := List.mem_map.1 hfound
      exact List.mem_filterMap.2 ⟨_, hfound, featureAt_snd_eq_some_iff.2 failed⟩
  simp only [Tree.scan, Tree.met]
  cases t.find root with
  | error e => simp
  | ok n =>
    cases n with
    | directory entries => simp [ofFeatures]
    | file content => simp [ofFeatures, Met.problem?]
    | link target => simp [ofFeatures, Met.problem?]

end Scan

end ScriptAudit
