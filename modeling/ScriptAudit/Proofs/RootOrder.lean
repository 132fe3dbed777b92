import ScriptAudit.Proofs.Accounting
import ScriptAudit.Proofs.Scan.Walk
import ScriptAudit.Proofs.Tree.Plain

/-!
# Roots in another order

The spelling seen first is the one reported, so in general the order of the roots decides how files
are spelled. Under plain roots in a tree without links every file has one spelling: then the roots
may come in any order, whatever the rules are. What ties in the report order and does not belong to
one document is equal, and the documents are checked in path order.
-/

namespace ScriptAudit

/-- Plain paths resolve to different ones, whether they lead anywhere or not. -/
theorem Tree.eq_of_keyOf_eq {t : Tree} (linkFree : t.top.LinkFree) {p q : Path}
    (plainP : p.IsPlain) (plainQ : q.IsPlain) (same : t.keyOf p = t.keyOf q) : p = q := by
  have apart {p q : Path} (plain : q.IsPlain) {a : Position} (hp : t.locate p = .ok a)
      {e : PathError} (hq : t.locate q = .error e) : t.keyOf p ≠ t.keyOf q := by
    intro same
    have fromRoot : q.parts.head? = some .root := by
      rw [keyOf, keyOf, parts_resolved hp, resolved, hq] at same
      rw [← same]
      rfl
    have absolute := (Path.isAbsolute_iff q).2 fromRoot
    rw [plain.isAbsolute_eq] at absolute
    cases absolute
  cases hp : t.locate p with
  | ok a =>
    cases hq : t.locate q with
    | ok b =>
      obtain rfl := (keyOf_eq_iff hp hq).1 same
      exact eq_of_locate_eq linkFree plainP plainQ hp hq
    | error e => exact absurd same (apart plainQ hp hq)
  | error e =>
    cases hq : t.locate q with
    | ok b => exact absurd same.symm (apart plainP hq hp)
    | error e =>
      rw [keyOf, keyOf, resolved, resolved, hp, hq] at same
      exact plainP.eq_of_parts_eq plainQ same

namespace Run

/-! ## One spelling for each file -/

/-- No two of the spellings found lead to one place, and neither do the directories of two. -/
structure SpelledOnce (t : Tree) (scans : List Scan) : Prop where
  documents : ∀ p ∈ scans.flatMap fun s => s.documents.map (·.path),
    ∀ q ∈ scans.flatMap fun s => s.documents.map (·.path), t.keyOf p = t.keyOf q → p = q
  directories : ∀ p ∈ scans.flatMap fun s => s.documents.map (·.path),
    ∀ q ∈ scans.flatMap fun s => s.documents.map (·.path),
      t.keyOf p.directory = t.keyOf q.directory → p.directory = q.directory

section Plain

variable {t : Tree} {config : ScanConfig} {roots : List Path} (linkFree : t.top.LinkFree)
  (plain : ∀ root ∈ roots, root.IsPlain)
include plain

/-- Under plain roots only plain paths are found. -/
theorem isPlain_of_mem_documents {p : Path}
    (hp : p ∈ (scansOf t config roots).flatMap fun s => s.documents.map (·.path)) : p.IsPlain := by
  obtain ⟨s, hs, d, hd, rfl⟩ := mem_documents_iff.1 hp
  obtain ⟨root, hroot, rfl⟩ := List.mem_map.1 hs
  obtain ⟨start, n, names, content, _, here, there, path_eq, _⟩ :=
    Tree.exists_along?_of_mem_documents hd
  have found : t.top.at? (start ++ names) = some (.file content) := by
    rw [Node.at?_append, here]
    exact Node.at?_of_along? there
  rw [path_eq]
  refine (plain root (mem_of_mem_firstOf hroot)).joins fun name hname => ?_
  exact (t.wellFormed.at? found).2 name (List.mem_append_right _ hname)

include linkFree

theorem spelledOnce_scansOf : SpelledOnce t (scansOf t config roots) := by
  have regular := regular_scansOf t config roots
  constructor
  · intro p hp q hq same
    exact Tree.eq_of_keyOf_eq linkFree (isPlain_of_mem_documents plain hp)
      (isPlain_of_mem_documents plain hq) same
  · intro p hp q hq same
    have plainP := isPlain_of_mem_documents plain hp
    have plainQ := isPlain_of_mem_documents plain hq
    obtain ⟨s, hs, d, hd, rfl⟩ := mem_documents_iff.1 hp
    obtain ⟨r, hr, e, he, rfl⟩ := mem_documents_iff.1 hq
    obtain ⟨m, namedD⟩ := (regular s hs).named d hd
    obtain ⟨n, namedE⟩ := (regular r hr).named e he
    obtain ⟨a, foundD⟩ := (regular s hs).located d hd
    obtain ⟨b, foundE⟩ := (regular r hr).located e he
    obtain ⟨x, dirD⟩ := exists_locate_directory regular hs hd
    obtain ⟨y, dirE⟩ := exists_locate_directory regular hr he
    obtain rfl := (Tree.keyOf_eq_iff dirD dirE).1 same
    exact Tree.directory_eq_of_locate_eq linkFree plainP plainQ namedD namedE foundD foundE dirD
      dirE

/-- The same places are scanned, whatever the order. -/
theorem scansOf_perm {roots' : List Path} (perm : roots.Perm roots') :
    (scansOf t config roots).Perm (scansOf t config roots') :=
  (firstOf_perm perm fun p hp q hq same =>
    Tree.eq_of_keyOf_eq linkFree (plain p hp) (plain q hq) same).map _

end Plain

/-! ## What is found, in another order -/

/-- All that the scans found in a directory. -/
def featureIn (t : Tree) (scans : List Scan) (dir : Path) : Feature :=
  whole t scans
    { directory := dir, name := ((t.resolved dir).fileName?).getD "", documents := [],
      screenshots := [] }

section Perm

variable {t : Tree} {xs ys : List Scan} (regular : ∀ s ∈ xs, Scan.Regular t s)

theorem problemsOf_perm (regular : ∀ s ∈ xs, Scan.Regular t s) (perm : xs.Perm ys) :
    (problemsOf xs).Perm (problemsOf ys) :=
  firstOf_perm (perm.flatMap_right _) fun _ ha _ hb => eq_of_mem_problems regular ha hb

theorem documentsOf_perm (once : SpelledOnce t xs) (perm : xs.Perm ys) :
    (documentsOf t xs).Perm (documentsOf t ys) :=
  firstOf_perm (perm.flatMap_right _) once.documents

include regular

theorem whole_eq_featureIn {f : Feature} (hf : f ∈ xs.flatMap (·.features)) :
    whole t xs f = featureIn t xs f.directory := by
  simp only [whole, featureIn, (exists_document_of_mem_features regular hf).2]

theorem map_directory_featuresOf_perm (once : SpelledOnce t xs) (perm : xs.Perm ys) :
    ((featuresOf t xs).map (·.directory)).Perm ((featuresOf t ys).map (·.directory)) := by
  simp only [featuresOf]
  rw [map_firstOf t.keyOf, map_firstOf t.keyOf]
  refine firstOf_perm ((perm.flatMap_right _).map _) fun p hp q hq same => ?_
  obtain ⟨f, hf, rfl⟩ := List.mem_map.1 hp
  obtain ⟨g, hg, rfl⟩ := List.mem_map.1 hq
  obtain ⟨⟨d, hd, dirD⟩, _⟩ := exists_document_of_mem_features regular hf
  obtain ⟨⟨e, he, dirE⟩, _⟩ := exists_document_of_mem_features regular hg
  rw [← dirD, ← dirE] at same ⊢
  exact once.directories d hd e he same

/-- Of the features, too, there are the same, with the same documents and screenshots. -/
theorem checked_featuresOf_perm (once : SpelledOnce t xs) (perm : xs.Perm ys) (config : Config)
    (rules : RuleSet) :
    (((featuresOf t xs).map (whole t xs)).flatMap fun f =>
        f.check (readDocuments t config rules f)).Perm
      (((featuresOf t ys).map (whole t ys)).flatMap fun f =>
        f.check (readDocuments t config rules f)) := by
  have regularYs : ∀ s ∈ ys, Scan.Regular t s := fun s hs => regular s (perm.mem_iff.2 hs)
  have inDirectories (scans : List Scan) (regular : ∀ s ∈ scans, Scan.Regular t s) :
      (featuresOf t scans).map (whole t scans) =
        ((featuresOf t scans).map (·.directory)).map (featureIn t scans) := by
    rw [List.map_map]
    exact List.map_congr_left fun f hf => whole_eq_featureIn regular (mem_of_mem_firstOf hf)
  rw [inDirectories xs regular, inDirectories ys regularYs, List.flatMap_map (featureIn t xs),
    List.flatMap_map (featureIn t ys)]
  refine ((map_directory_featuresOf_perm regular once perm).flatMap_right _).trans ?_
  refine List.Perm.flatMap_left _ fun dir _ => ?_
  have documents : (featureIn t xs dir).documents.Perm (featureIn t ys dir).documents :=
    (documentsOf_perm once perm).filter _
  have screenshots : (featureIn t xs dir).screenshots = (featureIn t ys dir).screenshots := by
    refine Text.ascending_congr fun name => ?_
    exact (((perm.flatMap_right _).filter _).flatMap_right _).mem_iff
  have same : featureIn t ys dir =
      { featureIn t xs dir with documents := (featureIn t ys dir).documents } := by
    dsimp only
    rw [screenshots]
    rfl
  rw [same]
  exact Feature.check_perm documents.length_eq.symm (documents.filterMap _)

end Perm

/-! ## Reports -/

section Report

variable {t : Tree} {config : Config} {rules : RuleSet} {roots roots' : List Path}
  (linkFree : t.top.LinkFree) (plain : ∀ root ∈ roots, root.IsPlain) (perm : roots.Perm roots')
include linkFree plain perm

theorem queue_eq_of_perm :
    queue (gather t config.scan roots) = queue (gather t config.scan roots') := by
  have once : SpelledOnce t (scansOf t config.scan roots) := spelledOnce_scansOf linkFree plain
  have documents : ((gather t config.scan roots).documents.map (·.2)).Perm
      ((gather t config.scan roots').documents.map (·.2)) := by
    have own := documentsOf_perm once (scansOf_perm linkFree plain perm)
    exact ((sortBy_perm _ _).symm.trans (queue_perm t config.scan roots)).trans
      (own.trans ((queue_perm t config.scan roots').symm.trans (sortBy_perm _ _)))
  refine sortBy_eq_of_perm Path.le_trans Path.le_total documents fun p hp q hq hpq hqp => ?_
  have found {p : Path} (hp : p ∈ (gather t config.scan roots).documents.map (·.2)) :
      p.IsPlain := by
    have queued : p ∈ queue (gather t config.scan roots) := mem_sortBy.2 hp
    exact isPlain_of_mem_documents plain (mem_of_mem_firstOf (mem_queue_iff.1 queued))
  exact (found hp).eq_of_parts_eq (found hq) (Path.parts_eq_of_le hpq hqp)

theorem length_documents_gather_of_perm : (gather t config.scan roots).documents.length =
    (gather t config.scan roots').documents.length := by
  rw [length_documents_gather, length_documents_gather]
  exact (documentsOf_perm (spelledOnce_scansOf linkFree plain)
    (scansOf_perm linkFree plain perm)).length_eq

/-- What the checks of the features report is rearranged only. -/
theorem judged_perm_of_perm (config : Config) (rules : RuleSet) :
    ((sortBy (fun a b => Path.le a.1 b.1) (gather t config.scan roots).features).flatMap fun f =>
        f.2.check (readDocuments t config rules f.2)).Perm
      ((sortBy (fun a b => Path.le a.1 b.1) (gather t config.scan roots').features).flatMap fun f =>
        f.2.check (readDocuments t config rules f.2)) := by
  have regular := regular_scansOf t config.scan
  have homed (roots : List Path) : ∀ p ∈ documentsOf t (scansOf t config.scan roots),
      Homed t (scansOf t config.scan roots) p :=
    fun _ hp => homed_of_linkFree (regular roots) linkFree hp
  have once : SpelledOnce t (scansOf t config.scan roots) := spelledOnce_scansOf linkFree plain
  refine (judged_perm_of_homed (homed roots)).trans ?_
  refine .trans ?_ (judged_perm_of_homed (homed roots')).symm
  exact checked_featuresOf_perm (regular roots) once (scansOf_perm linkFree plain perm) config rules

/-- What the documents come to stands between the problems of the scans and what the checks of the
features report. Both are rearranged only, and their ties are equal under any rules. -/
theorem sort_pushed_eq_of_perm (finished : List Path) :
    Diagnostic.sort (pushed t config rules roots finished) =
      Diagnostic.sort (pushed t config rules roots' finished) := by
  have regular := regular_scansOf t config.scan roots
  have problems := problemsOf_perm regular (scansOf_perm linkFree plain perm)
  have unreadable : ∀ x ∈ problemsOf (scansOf t config.scan roots),
      x.Graded RuleSet.stock := by
    intro x hx
    obtain ⟨s, hs, hx⟩ := (mem_problemsOf_iff regular).1 hx
    obtain ⟨_, _, rfl⟩ := (regular s hs).unreadable x hx
    exact Diagnostic.graded_unreadable RuleSet.separate_stock _ _
  have sorted := sortBy_eq_of_perm Diagnostic.le_trans Diagnostic.le_total
    (judged_perm_of_perm linkFree plain perm config rules) fun a ha b hb => by
      obtain ⟨_, _, ha⟩ := List.mem_flatMap.1 ha
      obtain ⟨_, _, hb⟩ := List.mem_flatMap.1 hb
      exact (Diagnostic.graded_of_mem_featureCheck RuleSet.separate_stock ha).eq_of_le
        (Diagnostic.graded_of_mem_featureCheck RuleSet.separate_stock hb)
  simp only [pushed, Diagnostic.sort]
  rw [(gathersRoots_gather t config.scan roots).scans.problems,
    (gathersRoots_gather t config.scan roots').scans.problems, List.append_assoc, List.append_assoc,
    sortBy_append_of_perm Diagnostic.le_trans Diagnostic.le_total problems fun a ha b hb =>
      (unreadable a ha).eq_of_le (unreadable b hb),
    sortBy_append, sortBy_append, sorted, ← sortBy_append, ← sortBy_append]

/-- The reports are the same, whatever orders the documents finish in and are collected in. -/
theorem report_eq_of_perm (finished : List Path) {collects : List Path}
    (order : collects.Perm (queue (gather t config.scan roots))) :
    report (gather t config.scan roots) (finished.map (check t config rules))
        (collects.map (check t config rules)) =
      report (gather t config.scan roots') (finished.map (check t config rules))
        (collects.map (check t config rules)) := by
  have queued : queue (gather t config.scan roots) = queue (gather t config.scan roots') :=
    queue_eq_of_perm linkFree plain perm
  have once : SpelledOnce t (scansOf t config.scan roots) := spelledOnce_scansOf linkFree plain
  have scans : (scansOf t config.scan roots).Perm (scansOf t config.scan roots') :=
    scansOf_perm linkFree plain perm
  have regular := regular_scansOf t config.scan roots
  rw [report_eq, report_eq, collected_eq order, collected_eq (queued ▸ order)]
  refine Report.eq_of (sort_pushed_eq_of_perm linkFree plain perm finished) ?_ ?_
  · exact length_documents_gather_of_perm linkFree plain perm
  · change (gather t config.scan roots).features.length =
      (gather t config.scan roots').features.length
    rw [length_features_gather, length_features_gather, ← List.length_map (·.directory),
      (map_directory_featuresOf_perm regular once scans).length_eq, List.length_map]

end Report

/-- In a tree without links, roots that are plain paths may come in any order, under any rules: the
run ends in the same way, with one and the same report if it is worked off in the order of its
queue, and with the same reports if documents finish in other orders. -/
theorem run_eq_of_perm {t : Tree} {config : Config} {rules : RuleSet} {roots roots' : List Path}
    (linkFree : t.top.LinkFree) (plain : ∀ root ∈ roots, root.IsPlain)
    (perm : roots.Perm roots') :
    t.run config rules roots = t.run config rules roots' ∧
    ∀ permits r, MayReport t config rules roots permits r ↔
      MayReport t config rules roots' permits r := by
  have queued : queue (gather t config.scan roots) = queue (gather t config.scan roots') :=
    queue_eq_of_perm linkFree plain perm
  constructor
  · simp only [Tree.run]
    rw [length_documents_gather_of_perm linkFree plain perm,
      report_eq_of_perm linkFree plain perm _ (.refl _), queued]
  · intro permits r
    simp only [MayReport]
    rw [← queued]
    constructor
    · rintro ⟨finished, joined, done, order, rfl⟩
      exact ⟨finished, joined, done, order,
        report_eq_of_perm linkFree plain perm finished (order.trans done.perm)⟩
    · rintro ⟨finished, joined, done, order, rfl⟩
      exact ⟨finished, joined, done, order,
        (report_eq_of_perm linkFree plain perm finished (order.trans done.perm)).symm⟩

/-- A file, its directory twice, and a path that leads nowhere. -/
theorem run_eq_of_perm_brokenPair :
    brokenPair.top.LinkFree ∧
    (∀ root ∈ [⟨"login/b.full.md"⟩, ⟨"login"⟩, ⟨"gone/login"⟩, ⟨"login"⟩], Path.IsPlain root) ∧
    ([⟨"login/b.full.md"⟩, ⟨"login"⟩, ⟨"gone/login"⟩, ⟨"login"⟩] : List Path).Perm
      [⟨"login"⟩, ⟨"gone/login"⟩, ⟨"login"⟩, ⟨"login/b.full.md"⟩] ∧
    ∃ r, brokenPair.run {} RuleSet.stock
        [⟨"login/b.full.md"⟩, ⟨"login"⟩, ⟨"gone/login"⟩, ⟨"login"⟩] = .ok r ∧
      brokenPair.run {} RuleSet.stock
        [⟨"login"⟩, ⟨"gone/login"⟩, ⟨"login"⟩, ⟨"login/b.full.md"⟩] = .ok r := by
  have linkFree : brokenPair.top.LinkFree := by
    simp [brokenPair, Node.LinkFree, Node.LinkFreeEntries]
  have plain : ∀ root ∈ [⟨"login/b.full.md"⟩, ⟨"login"⟩, ⟨"gone/login"⟩, ⟨"login"⟩],
      Path.IsPlain root := by
    decide
  have perm : ([⟨"login/b.full.md"⟩, ⟨"login"⟩, ⟨"gone/login"⟩, ⟨"login"⟩] : List Path).Perm
      [⟨"login"⟩, ⟨"gone/login"⟩, ⟨"login"⟩, ⟨"login/b.full.md"⟩] := by
    decide
  obtain ⟨same, _⟩ := @run_eq_of_perm brokenPair {} RuleSet.stock _ _ linkFree plain perm
  exact ⟨linkFree, plain, perm, _, rfl, same ▸ rfl⟩

end Run

end ScriptAudit
