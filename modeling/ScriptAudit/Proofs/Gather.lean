import Mathlib.Data.List.Basic
import Mathlib.Data.List.Induction
import ScriptAudit.Proofs.Scan
import ScriptAudit.Run

/-!
# What is gathered from the roots

Scanning root after root collects problems, documents and features side by side, and each of the
three comes to a list that can be said at once: the first occurrences among what all scans found.
A feature that several scans met has the documents and screenshots of all of them.
-/

namespace ScriptAudit

/-- What paths are told apart by: the parts of what they resolve to. -/
def Tree.keyOf (t : Tree) (p : Path) : List Path.Part :=
  (t.resolved p).parts

theorem Tree.keyOf_eq_iff {t : Tree} {p q : Path} {a b : Position} (hp : t.locate p = .ok a)
    (hq : t.locate q = .ok b) : t.keyOf p = t.keyOf q ↔ a = b :=
  parts_resolved_eq_iff hp hq

/-- Spellings with the same parts have the same key, if they lead somewhere. -/
theorem Tree.keyOf_eq_of_parts_eq {t : Tree} {p q : Path} (hp : ∃ a, t.locate p = .ok a)
    (hq : ∃ b, t.locate q = .ok b) (same : p.parts = q.parts) : t.keyOf p = t.keyOf q := by
  obtain ⟨a, hp⟩ := hp
  obtain ⟨b, hq⟩ := hq
  exact (keyOf_eq_iff hp hq).2 (eq_of_parts_eq hp hq same)

namespace Run

/-! ## What all scans found -/

section Found

variable (t : Tree) (scans : List Scan)

def problemsOf : List Diagnostic :=
  firstOf (fun d => (d.file, d.message)) (scans.flatMap (·.problems))

/-- Each document in the spelling seen first. -/
def documentsOf : List Path :=
  firstOf t.keyOf (scans.flatMap fun s => s.documents.map (·.path))

/-- Each feature as it was seen first. -/
def featuresOf : List Feature :=
  firstOf (fun f => t.keyOf f.directory) (scans.flatMap (·.features))

end Found

/-- The spelling of a document among those seen first. -/
def spelling? (t : Tree) (documents : List Path) (p : Path) : Option Path :=
  documents.find? fun q => t.keyOf q = t.keyOf p

/-- A feature with the documents and screenshots of all features of its directory. -/
def joined (t : Tree) (documents : List Path) (features : List Feature) (f : Feature) : Feature :=
  let own := features.filter fun g => t.keyOf g.directory = t.keyOf f.directory
  { f with
    documents := firstOf Path.parts
      (own.flatMap fun g => g.documents.filterMap (spelling? t documents))
    screenshots := Text.ascending (own.flatMap (·.screenshots)) }

/-- Roots that resolve to one place are scanned once. -/
def scansOf (t : Tree) (config : ScanConfig) (roots : List Path) : List Scan :=
  (firstOf t.keyOf roots).map (t.scan config)

/-- What has been gathered from the scans. -/
structure Gathers (t : Tree) (scans : List Scan) (g : Gathered) : Prop where
  problems : g.problems = problemsOf scans
  documents : g.documents = (documentsOf t scans).map fun p => (t.resolved p, p)
  features : g.features = (featuresOf t scans).map fun f =>
    (t.resolved f.directory, joined t (documentsOf t scans) (scans.flatMap (·.features)) f)

/-! ## Documents -/

section Documents

variable {t : Tree}

theorem lookup_documents (documents : List Path) (p : Path) :
    lookup (t.resolved p) (documents.map fun q => (t.resolved q, q)) =
      spelling? t documents p := by
  have second : (Prod.snd ∘ fun q : Path => (t.resolved q, q)) = id := rfl
  rw [lookup, List.find?_map, Option.map_map, second, Option.map_id]
  rfl

theorem isSome_spelling?_iff {documents : List Path} {p : Path} :
    (spelling? t documents p).isSome = true ↔ ∃ q ∈ documents, t.keyOf q = t.keyOf p := by
  rw [spelling?, List.find?_isSome]
  simp

theorem keyOf_of_spelling? {documents : List Path} {p q : Path}
    (h : spelling? t documents p = some q) : q ∈ documents ∧ t.keyOf q = t.keyOf p :=
  ⟨List.mem_of_find?_eq_some h, by simpa using List.find?_some h⟩

theorem spelling?_append {documents : List Path} {p : Path}
    (known : (spelling? t documents p).isSome = true) (more : List Path) :
    spelling? t (documents ++ more) p = spelling? t documents p := by
  obtain ⟨q, found⟩ := Option.isSome_iff_exists.1 known
  simp only [spelling?] at found ⊢
  rw [List.find?_append, found, Option.some_or]

theorem foldl_addDocument {g : Gathered} (ps : List Path)
    (h : g.documents = (firstOf t.keyOf ps).map fun p => (t.resolved p, p))
    (ds : List Descriptor) :
    ds.foldl (Gathered.addDocument t) g =
      { g with documents := (firstOf t.keyOf (ps ++ ds.map (·.path))).map fun p =>
          (t.resolved p, p) } := by
  induction ds generalizing g ps with
  | nil =>
    rw [List.map_nil, List.append_nil, ← h]
    rfl
  | cons d ds ih =>
    have step : g.addDocument t d =
        { g with documents := (firstOf t.keyOf (ps ++ [d.path])).map fun p =>
            (t.resolved p, p) } := by
      simp only [Gathered.addDocument]
      rw [h, lookup_documents, firstOf_append_singleton]
      cases found : spelling? t (firstOf t.keyOf ps) d.path with
      | none =>
        have new : ¬∃ q ∈ ps, t.keyOf q = t.keyOf d.path := by
          intro met
          have known := isSome_spelling?_iff.2 (exists_firstOf_key_iff.2 met)
          rw [found] at known
          cases known
        rw [if_neg new]
        simp
      | some q =>
        obtain ⟨hq, same⟩ := keyOf_of_spelling? found
        rw [if_pos ⟨q, mem_of_mem_firstOf hq, same⟩, ← h]
    rw [List.foldl_cons, step, ih (ps ++ [d.path]) rfl]
    simp

end Documents

/-! ## Problems -/

theorem foldl_addProblem (g : Gathered) (ps ds : List Diagnostic)
    (h : g.problems = firstOf (fun d => (d.file, d.message)) ps) :
    ds.foldl Gathered.addProblem g =
      { g with problems := firstOf (fun d => (d.file, d.message)) (ps ++ ds) } := by
  induction ds generalizing g ps with
  | nil =>
    rw [List.append_nil, ← h]
    rfl
  | cons d ds ih =>
    have step : g.addProblem d =
        { g with problems := firstOf (fun d => (d.file, d.message)) (ps ++ [d]) } := by
      have once := foldl_firstOf (fun d : Diagnostic => (d.file, d.message)) ps [d]
      rw [← once, ← h, List.foldl_cons, List.foldl_nil]
      simp only [Gathered.addProblem]
      simp only [Prod.mk.injEq, Bool.decide_and]
      split <;> rfl
    rw [List.foldl_cons, step, ih _ (ps ++ [d]) rfl]
    simp

/-! ## Features -/

section Features

variable {t : Tree} {documents : List Path}

/-- Joining in one more feature merges it into those of its directory. -/
theorem joined_append (features : List Feature) (f g : Feature) :
    joined t documents (features ++ [f]) g =
      if t.keyOf g.directory = t.keyOf f.directory then
        Gathered.mergeFeature (joined t documents features g)
          { f with documents := f.documents.filterMap (spelling? t documents) }
      else joined t documents features g := by
  simp only [joined]
  rw [List.filter_append]
  by_cases same : t.keyOf g.directory = t.keyOf f.directory
  · rw [if_pos same, List.filter_cons_of_pos (by simpa using same.symm), List.filter_nil,
      List.flatMap_append, List.flatMap_append, List.flatMap_singleton, List.flatMap_singleton,
      ← foldl_firstOf]
    simp only [Gathered.mergeFeature]
    congr 1
    apply Text.ascending_congr
    intro s
    simp only [List.mem_append, Text.mem_ascending]
  · have other : ¬t.keyOf f.directory = t.keyOf g.directory := fun h => same h.symm
    rw [if_neg same, List.filter_cons_of_neg (by simpa using other), List.filter_nil,
      List.append_nil]

/-- A feature whose directory has not been met is joined with nothing. -/
theorem joined_new {features : List Feature} {f : Feature}
    (new : ¬∃ g ∈ features, t.keyOf g.directory = t.keyOf f.directory)
    (distinct : (f.documents.filterMap (spelling? t documents)).Pairwise
      fun p q => p.parts ≠ q.parts)
    (ordered : f.screenshots.Pairwise (· < ·)) :
    joined t documents (features ++ [f]) f =
      { f with documents := f.documents.filterMap (spelling? t documents) } := by
  have none : (features.filter fun g => t.keyOf g.directory = t.keyOf f.directory) = [] :=
    List.filter_eq_nil_iff.2 fun g hg same => new ⟨g, hg, of_decide_eq_true same⟩
  simp only [joined]
  rw [List.filter_append, none, List.nil_append, List.filter_cons_of_pos (by simp),
    List.filter_nil, List.flatMap_singleton, List.flatMap_singleton, firstOf_of_pairwise distinct,
    Text.ascending_eq ordered fun s => Iff.rfl]

theorem isSome_lookup_iff {entries : List (Path × Feature)} {features : List Feature}
    (h : entries = (firstOf (fun f => t.keyOf f.directory) features).map fun f =>
      (t.resolved f.directory, joined t documents features f)) {f : Feature} :
    (lookup (t.resolved f.directory) entries).isSome = true ↔
      ∃ g ∈ features, t.keyOf g.directory = t.keyOf f.directory := by
  have kept : (∃ g ∈ firstOf (fun f => t.keyOf f.directory) features,
        t.keyOf g.directory = t.keyOf f.directory) ↔
      ∃ g ∈ features, t.keyOf g.directory = t.keyOf f.directory := exists_firstOf_key_iff
  rw [← kept, lookup, Option.isSome_map, h, List.find?_map, Option.isSome_map, List.find?_isSome]
  simp only [Function.comp_apply, decide_eq_true_eq]
  rfl

theorem addFeature_eq {g : Gathered} {features : List Feature} {f : Feature}
    (hdocuments : g.documents = documents.map fun p => (t.resolved p, p))
    (hfeatures : g.features = (firstOf (fun f => t.keyOf f.directory) features).map fun f =>
      (t.resolved f.directory, joined t documents features f))
    (distinct : (f.documents.filterMap (spelling? t documents)).Pairwise
      fun p q => p.parts ≠ q.parts)
    (ordered : f.screenshots.Pairwise (· < ·)) :
    g.addFeature t f =
      { g with features := (firstOf (fun f => t.keyOf f.directory) (features ++ [f])).map fun h =>
          (t.resolved h.directory, joined t documents (features ++ [f]) h) } := by
  have found : (f.documents.filterMap fun p => lookup (t.resolved p) g.documents) =
      f.documents.filterMap (spelling? t documents) := by
    simp only [hdocuments, lookup_documents]
  have met := isSome_lookup_iff hfeatures (f := f)
  simp only [Gathered.addFeature]
  rw [found, firstOf_append_singleton]
  by_cases known : ∃ h ∈ features, t.keyOf h.directory = t.keyOf f.directory
  · obtain ⟨old, hold⟩ := Option.isSome_iff_exists.1 (met.2 known)
    rw [if_pos known, hold]
    dsimp only
    rw [hfeatures, List.map_map]
    congr 1
    apply List.map_congr_left
    intro h _
    rw [joined_append]
    dsimp only [Function.comp_apply]
    split
    · rename_i same
      rw [if_pos (show t.keyOf h.directory = t.keyOf f.directory from same)]
    · rename_i other
      rw [if_neg (show ¬t.keyOf h.directory = t.keyOf f.directory from other)]
  · have absent : lookup (t.resolved f.directory) g.features = none := by
      cases entry : lookup (t.resolved f.directory) g.features with
      | none => rfl
      | some old => exact absurd (met.1 (by rw [entry]; rfl)) known
    rw [if_neg known, absent]
    dsimp only
    rw [List.map_append, List.map_singleton, joined_new known distinct ordered, hfeatures]
    congr 2
    apply List.map_congr_left
    intro h hh
    have other : ¬t.keyOf h.directory = t.keyOf f.directory :=
      fun same => known ⟨h, mem_of_mem_firstOf hh, same⟩
    rw [joined_append, if_neg other]

/-- The features of a scan, joined in one after the other. -/
theorem foldl_addFeature {g : Gathered} {features : List Feature}
    (hdocuments : g.documents = documents.map fun p => (t.resolved p, p))
    (hfeatures : g.features = (firstOf (fun f => t.keyOf f.directory) features).map fun f =>
      (t.resolved f.directory, joined t documents features f))
    {fs : List Feature}
    (regular : ∀ f ∈ fs, ((f.documents.filterMap (spelling? t documents)).Pairwise
      fun p q => p.parts ≠ q.parts) ∧ f.screenshots.Pairwise (· < ·)) :
    fs.foldl (Gathered.addFeature t) g =
      { g with features := (firstOf (fun f => t.keyOf f.directory) (features ++ fs)).map fun f =>
          (t.resolved f.directory, joined t documents (features ++ fs) f) } := by
  induction fs generalizing g features with
  | nil =>
    rw [List.append_nil, ← hfeatures]
    rfl
  | cons f fs ih =>
    obtain ⟨⟨distinct, ordered⟩, regular⟩ := List.forall_mem_cons.1 regular
    have step := addFeature_eq hdocuments hfeatures distinct ordered
    have nextDocuments : (g.addFeature t f).documents = documents.map fun p => (t.resolved p, p) := by
      rw [step]
      exact hdocuments
    have nextFeatures := congrArg Gathered.features step
    rw [List.foldl_cons, ih nextDocuments nextFeatures regular, step]
    simp

/-- Features whose documents are known keep them when more are found. -/
theorem joined_of_known {features : List Feature}
    (known : ∀ f ∈ features, ∀ p ∈ f.documents, (spelling? t documents p).isSome = true)
    (more : List Path) (f : Feature) :
    joined t (documents ++ more) features f = joined t documents features f := by
  simp only [joined]
  congr 2
  refine List.flatMap_congr fun g hg => List.filterMap_congr fun p hp => ?_
  exact spelling?_append (known g (List.mem_filter.1 hg).1 p hp) more

end Features

/-! ## Scan by scan -/

section Scans

variable {t : Tree} {scans : List Scan}

theorem mem_documents_iff {p : Path} :
    (p ∈ scans.flatMap fun s => s.documents.map (·.path)) ↔
      ∃ s ∈ scans, ∃ d ∈ s.documents, d.path = p := by
  simp only [List.mem_flatMap, List.mem_map]

variable (regular : ∀ s ∈ scans, Scan.Regular t s)
include regular

/-- A problem is its file and its message. -/
theorem eq_of_mem_problems {a b : Diagnostic} (ha : a ∈ scans.flatMap (·.problems))
    (hb : b ∈ scans.flatMap (·.problems)) (same : (a.file, a.message) = (b.file, b.message)) :
    a = b := by
  obtain ⟨s, hs, ha⟩ := List.mem_flatMap.1 ha
  obtain ⟨r, hr, hb⟩ := List.mem_flatMap.1 hb
  obtain ⟨_, _, rfl⟩ := (regular s hs).unreadable a ha
  obtain ⟨_, _, rfl⟩ := (regular r hr).unreadable b hb
  cases same
  rfl

theorem mem_problemsOf_iff {x : Diagnostic} :
    x ∈ problemsOf scans ↔ ∃ s ∈ scans, x ∈ s.problems := by
  rw [problemsOf, mem_firstOf_iff fun a ha b hb => eq_of_mem_problems regular ha hb,
    List.mem_flatMap]

theorem located_of_mem_documentsOf {p : Path} (hp : p ∈ documentsOf t scans) :
    ∃ pos, t.locate p = .ok pos := by
  obtain ⟨s, hs, d, hd, rfl⟩ := mem_documents_iff.1 (mem_of_mem_firstOf hp)
  exact (regular s hs).located d hd

/-- Documents that are told apart are so by the parts of their spelling, too. -/
theorem pairwise_documentsOf :
    (documentsOf t scans).Pairwise fun p q => p.parts ≠ q.parts := by
  refine (pairwise_firstOf _).imp_of_mem fun hp hq apart same => apart ?_
  exact Tree.keyOf_eq_of_parts_eq (located_of_mem_documentsOf regular hp)
    (located_of_mem_documentsOf regular hq) same

theorem isSome_spelling?_of_mem_features {f : Feature}
    (hf : f ∈ scans.flatMap (·.features)) {p : Path} (hp : p ∈ f.documents) :
    (spelling? t (documentsOf t scans) p).isSome = true := by
  obtain ⟨s, hs, hf⟩ := List.mem_flatMap.1 hf
  obtain ⟨_, own, _⟩ := (regular s hs).of_mem_features hf
  rw [own] at hp
  obtain ⟨d, hd, rfl⟩ := List.mem_map.1 hp
  have mem := mem_documents_iff.2 ⟨s, hs, d, (List.mem_filter.1 hd).1, rfl⟩
  exact isSome_spelling?_iff.2 (exists_mem_firstOf mem)

/-- The documents of a feature stay apart in the spellings seen first. -/
theorem pairwise_spelled {f : Feature} (hf : f ∈ scans.flatMap (·.features)) :
    (f.documents.filterMap (spelling? t (documentsOf t scans))).Pairwise
      fun p q => p.parts ≠ q.parts := by
  obtain ⟨s, hs, hf⟩ := List.mem_flatMap.1 hf
  obtain ⟨_, own, _⟩ := (regular s hs).of_mem_features hf
  rw [own, List.pairwise_filterMap, List.pairwise_map]
  apply ((regular s hs).distinct.filter _).imp_of_mem
  intro d e hd he apart p hp q hq same
  obtain ⟨hp, keyP⟩ := keyOf_of_spelling? hp
  obtain ⟨hq, keyQ⟩ := keyOf_of_spelling? hq
  have key := Tree.keyOf_eq_of_parts_eq (located_of_mem_documentsOf regular hp)
    (located_of_mem_documentsOf regular hq) same
  obtain ⟨a, ha⟩ := (regular s hs).located d (List.mem_filter.1 hd).1
  obtain ⟨b, hb⟩ := (regular s hs).located e (List.mem_filter.1 he).1
  have at_eq := (Tree.keyOf_eq_iff ha hb).1 (keyP.symm.trans (key.trans keyQ))
  exact apart (by rw [ha, hb, at_eq])

end Scans

theorem Gathers.addScan {t : Tree} {scans : List Scan} {g : Gathered} (h : Gathers t scans g)
    {s : Scan} (regular : ∀ r ∈ scans ++ [s], Scan.Regular t r) :
    Gathers t (scans ++ [s]) (g.addScan t s) ∧ (g.addScan t s).roots = g.roots := by
  have before : ∀ r ∈ scans, Scan.Regular t r := fun r hr => regular r (List.mem_append_left _ hr)
  have problems := foldl_addProblem g (scans.flatMap Scan.problems) s.problems h.problems
  have all : firstOf t.keyOf ((scans.flatMap fun s => s.documents.map (·.path)) ++
      s.documents.map (·.path)) = documentsOf t (scans ++ [s]) := by
    simp [documentsOf]
  have documents : s.documents.foldl (Gathered.addDocument t)
        (s.problems.foldl Gathered.addProblem g) =
      { s.problems.foldl Gathered.addProblem g with
        documents := (documentsOf t (scans ++ [s])).map fun p => (t.resolved p, p) } := by
    rw [← all]
    refine foldl_addDocument _ ?_ _
    rw [problems]
    exact h.documents
  obtain ⟨more, grown⟩ : ∃ more, documentsOf t (scans ++ [s]) = documentsOf t scans ++ more := by
    rw [← all]
    exact exists_firstOf_append _ _
  -- what the features so far hold is not touched by the documents of this scan
  have kept : g.features = (featuresOf t scans).map fun f => (t.resolved f.directory,
      joined t (documentsOf t (scans ++ [s])) (scans.flatMap (·.features)) f) := by
    rw [h.features, grown]
    apply List.map_congr_left
    intro f _
    rw [joined_of_known fun f hf p hp => isSome_spelling?_of_mem_features before hf hp]
  have spelled : ∀ f ∈ s.features,
      ((f.documents.filterMap (spelling? t (documentsOf t (scans ++ [s])))).Pairwise
        fun p q => p.parts ≠ q.parts) ∧ f.screenshots.Pairwise (· < ·) := by
    intro f hf
    have mem : f ∈ (scans ++ [s]).flatMap (·.features) :=
      List.mem_flatMap.2 ⟨s, by simp, hf⟩
    exact ⟨pairwise_spelled regular mem, ((regular s (by simp)).of_mem_features hf).2.2⟩
  have features := foldl_addFeature (congrArg Gathered.documents documents)
    (by rw [documents, problems]; exact kept) spelled
  rw [documents, problems] at features
  simp only [Gathered.addScan]
  rw [documents, problems, features]
  exact ⟨⟨by simp [problemsOf], rfl, by simp [featuresOf]⟩, rfl⟩

/-! ## Root by root -/

/-- One more root is scanned unless it resolves to one of those before it. -/
theorem scansOf_append (t : Tree) (config : ScanConfig) (roots : List Path) (r : Path) :
    scansOf t config (roots ++ [r]) = scansOf t config roots ∨
      scansOf t config (roots ++ [r]) = scansOf t config roots ++ [t.scan config r] := by
  simp only [scansOf]
  rw [firstOf_append_singleton]
  split
  · exact Or.inl rfl
  · exact Or.inr (by rw [List.map_append, List.map_singleton])

theorem regular_of_mem_scansOf {t : Tree} {config : ScanConfig} {roots : List Path} {s : Scan}
    (hs : s ∈ scansOf t config roots) : Scan.Regular t s := by
  obtain ⟨root, _, rfl⟩ := List.mem_map.1 hs
  exact Scan.regular_scan t config root

theorem regular_scansOf (t : Tree) (config : ScanConfig) (roots : List Path) :
    ∀ s ∈ scansOf t config roots, Scan.Regular t s :=
  fun _ => regular_of_mem_scansOf

/-- What has been gathered from the roots. -/
structure GathersRoots (t : Tree) (config : ScanConfig) (roots : List Path) (g : Gathered) :
    Prop where
  scans : Gathers t (scansOf t config roots) g
  roots_eq : g.roots = (firstOf t.keyOf roots).map t.resolved

theorem GathersRoots.addRoot {t : Tree} {config : ScanConfig} {roots : List Path} {g : Gathered}
    (h : GathersRoots t config roots g) (root : Path) :
    GathersRoots t config (roots ++ [root]) (g.addRoot t config root) := by
  have met : (g.roots.any (·.parts = (t.resolved root).parts)) = true ↔
      ∃ q ∈ roots, t.keyOf q = t.keyOf root := by
    rw [← exists_firstOf_key_iff, h.roots_eq, List.any_map, List.any_eq_true]
    simp only [Function.comp_apply, decide_eq_true_eq]
    rfl
  have distinct : firstOf t.keyOf (roots ++ [root]) = if ∃ q ∈ roots, t.keyOf q = t.keyOf root
      then firstOf t.keyOf roots else firstOf t.keyOf roots ++ [root] :=
    firstOf_append_singleton roots root
  simp only [Gathered.addRoot]
  by_cases known : ∃ q ∈ roots, t.keyOf q = t.keyOf root
  · rw [if_pos known] at distinct
    rw [if_pos (met.2 known)]
    exact ⟨by rw [scansOf, distinct]; exact h.scans, by rw [distinct, h.roots_eq]⟩
  · rw [if_neg known] at distinct
    rw [if_neg fun any => known (met.1 any)]
    have regular : ∀ s ∈ scansOf t config roots ++ [t.scan config root], Scan.Regular t s := by
      intro s hs
      rcases List.mem_append.1 hs with hs | hs
      · exact regular_of_mem_scansOf hs
      · rw [List.mem_singleton.1 hs]
        exact Scan.regular_scan t config root
    have entered : Gathers t (scansOf t config roots)
        { g with roots := g.roots ++ [t.resolved root] } :=
      ⟨h.scans.problems, h.scans.documents, h.scans.features⟩
    obtain ⟨gathered, same⟩ := entered.addScan regular
    refine ⟨?_, by rw [same, distinct, h.roots_eq, List.map_append, List.map_singleton]⟩
    rw [scansOf, distinct, List.map_append, List.map_singleton]
    exact gathered

theorem gathersRoots_gather (t : Tree) (config : ScanConfig) (roots : List Path) :
    GathersRoots t config roots (gather t config roots) := by
  induction roots using List.reverseRecOn with
  | nil => exact ⟨⟨rfl, rfl, rfl⟩, rfl⟩
  | append_singleton roots root ih =>
    rw [gather, List.foldl_append]
    exact ih.addRoot root

theorem exists_of_mem_problems {t : Tree} {config : ScanConfig} {roots : List Path} {x : Diagnostic}
    (hx : x ∈ (gather t config roots).problems) : ∃ file message, x = .unreadable file message := by
  rw [(gathersRoots_gather t config roots).scans.problems] at hx
  obtain ⟨s, hs, hx⟩ := List.mem_flatMap.1 (mem_of_mem_firstOf hx)
  exact (regular_of_mem_scansOf hs).unreadable x hx

end Run

end ScriptAudit
