import ScriptAudit.Proofs.Path.Enclosing
import ScriptAudit.Proofs.Scan.Discovery
import ScriptAudit.Proofs.Tree.Plain

/-!
# How a scan divides its documents

The features of a scan divide its documents by the directories that they lie in. Below the root of
a readable directory these are told by the names in front of the last one, so that a feature has
the documents with the same names in front, in the order of the walk, whatever the walk came to
between them.
-/

namespace ScriptAudit

namespace Path

theorem extension?_eq_some_iff {name ending : String} (dotless : '.' ∉ ending.toList) :
    extension? name = some ending ↔ ∃ stem, stem ≠ "" ∧ name = stem ++ "." ++ ending := by
  have reversed (stem : String) : (stem ++ "." ++ ending).toList.reverse =
      ending.toList.reverse ++ '.' :: stem.toList.reverse := by
    simp
  constructor
  · intro h
    simp only [extension?] at h
    split at h
    · rename_i tail head cut
      split at h
      · cases h
      · rename_i written
        obtain ⟨whole, _⟩ := Text.cutAt?_beq_eq_some_iff.1 cut
        refine ⟨String.ofList head.reverse, ?_, ?_⟩
        · intro empty
          rw [← String.toList_inj, String.toList_ofList] at empty
          exact written (by simpa using empty)
        · rw [← String.toList_inj, ← List.reverse_inj, reversed, whole, String.toList_ofList,
            List.reverse_reverse, ← Option.some.inj h, String.toList_ofList, List.reverse_reverse]
    · cases h
  · rintro ⟨stem, written, rfl⟩
    have cut : Text.cutAt? (· == '.') (stem ++ "." ++ ending).toList.reverse =
        some (ending.toList.reverse, stem.toList.reverse) :=
      Text.cutAt?_beq_eq_some_iff.2 ⟨reversed stem, by simpa using dotless⟩
    have some : stem.toList ≠ [] := fun empty => written (String.toList_eq_nil_iff.1 empty)
    simp only [extension?]
    rw [cut]
    simp [some]

end Path

namespace Tree

variable {t : Tree} {root : Path} {start : Position} {n m : Node} {front : List String}
  {name : String}

/-- The feature of a document has the name of the directory that the document lies in. -/
theorem featureOf_eq {p : Path} {pos : Position} (located : t.locate p.directory = .ok pos) :
    t.featureOf p = pos.getLast?.getD "" := by
  rw [featureOf, Path.fileName?_eq, parts_resolved located]
  rcases List.eq_nil_or_concat pos with rfl | ⟨front, name, rfl⟩
  · rfl
  · rw [List.concat_eq_append, List.map_append, List.map_singleton, ← List.cons_append,
      List.getLast?_concat, List.getLast?_concat]
    rfl

/-- What names lead to lies where the names in front of the last one lead. -/
theorem locate_directory_joins (located : t.locate root = .ok start)
    (here : t.top.at? start = some n) (found : n.at? (front ++ [name]) = some m)
    (plain : ∀ target, m ≠ .link target) :
    t.locate (root.joins front) = .ok (start ++ front) ∧
      t.locate (root.joins (front ++ [name])).directory = .ok (start ++ front) := by
  obtain ⟨es, before, _⟩ := Node.exists_lookup_of_at? found
  have named := ((t.wellFormed.at? here).1.at? found).2 name (by simp)
  have toFront := locate_joins located here before fun _ same => by cases same
  have whole := locate_joins located here found plain
  rw [Path.joins_append] at whole ⊢
  exact ⟨toFront, locate_directory_join toFront named whole⟩

section Finds

variable {config : ScanConfig} (located : t.locate root = .ok start)
  (here : t.top.at? start = some n) {names : List String} (finds : config.Finds n names)
include located here finds

theorem locate_of_finds : t.locate (root.joins names) = .ok (start ++ names) ∧
    t.locate (root.joins names).directory = .ok (start ++ names.dropLast) := by
  obtain ⟨front, name, content, rfl, there⟩ := finds.exists_concat
  have plain : ∀ target, Node.file content ≠ .link target := fun _ same => by cases same
  rw [List.dropLast_concat]
  exact ⟨locate_joins located here there plain, (locate_directory_joins located here there plain).2⟩

theorem featureOf_of_finds :
    t.featureOf (root.joins names) = (start ++ names.dropLast).getLast?.getD "" :=
  featureOf_eq (locate_of_finds located here finds).2

/-- The path of a document tells which names lead to it. -/
theorem eq_of_joins_eq {others : List String} (finds' : config.Finds n others)
    (same : root.joins names = root.joins others) : names = others := by
  have place := (locate_of_finds located here finds).1
  rw [same, (locate_of_finds located here finds').1, Except.ok.injEq] at place
  exact (List.append_cancel_left place).symm

/-- Documents lie in one directory, in every spelling, when only their last names differ. -/
theorem directory_parts_eq_iff {others : List String} (finds' : config.Finds n others) :
    (root.joins names).directory.parts = (root.joins others).directory.parts ↔
      names.dropLast = others.dropLast := by
  constructor
  · intro same
    have one := eq_of_parts_eq (locate_of_finds located here finds).2
      (locate_of_finds located here finds').2 same
    exact List.append_cancel_left one
  · intro same
    obtain ⟨front, name, content, rfl, there⟩ := finds.exists_concat
    obtain ⟨front', name', content', rfl, there'⟩ := finds'.exists_concat
    rw [List.dropLast_concat, List.dropLast_concat] at same
    subst same
    have ordered := (t.wellFormed.at? here).1
    have plain : ∀ target, Node.file content ≠ .link target := fun _ same => by cases same
    have some := ne_empty_of_locate (locate_directory_joins located here there plain).1
    rw [Path.joins_append, Path.joins_append]
    exact congrArg Path.parts (Path.directory_join_eq some
      ((ordered.at? there).2 name (by simp)) ((ordered.at? there').2 name' (by simp)))

end Finds

end Tree

/-- A PNG file right in the screenshot directory of a feature, links followed. -/
structure Feature.Shows (t : Tree) (f : Feature) (name : String) : Prop where
  listed : ∃ es node, t.find f.screenshotDirectory = .ok (.directory es) ∧ (name, node) ∈ es
  file : ∃ content, t.find (f.screenshotDirectory.join name) = .ok (.file content)
  png : ∃ stem, stem ≠ "" ∧ name = stem ++ ".png"

theorem Feature.shows_iff {t : Tree} {f : Feature} {name : String} :
    f.Shows t name ↔ name ∈ (Scan.screenshots t f.screenshotDirectory).toOption.getD [] := by
  have all : f.Shows t name ↔
      (∃ es node, t.find f.screenshotDirectory = .ok (.directory es) ∧ (name, node) ∈ es) ∧
      (∃ content, t.find (f.screenshotDirectory.join name) = .ok (.file content)) ∧
      ∃ stem, stem ≠ "" ∧ name = stem ++ ".png" :=
    ⟨fun h => ⟨h.listed, h.file, h.png⟩, fun ⟨listed, file, png⟩ => ⟨listed, file, png⟩⟩
  rw [all]
  generalize f.screenshotDirectory = dir
  have png : (Path.extension? name == some "png") = true ↔
      ∃ stem, stem ≠ "" ∧ name = stem ++ ".png" := by
    rw [beq_iff_eq, Path.extension?_eq_some_iff (by decide)]
    simp only [String.append_assoc]
    rfl
  have file : t.isFile (dir.join name) = true ↔
      ∃ content, t.find (dir.join name) = .ok (.file content) := by
    rw [Tree.isFile]
    cases t.find (dir.join name) with
    | error e => simp
    | ok n => cases n <;> simp [Node.isFile]
  rw [Scan.screenshots]
  cases listed : t.list dir with
  | ok names =>
    obtain ⟨es, found, rfl⟩ := Tree.list_eq_ok_iff.1 listed
    have among : name ∈ es.map (·.1) ↔ ∃ es' node, t.find dir = .ok (.directory es') ∧
        (name, node) ∈ es' := by
      rw [found]
      simp
    rw [← png, ← file, ← among]
    simp [Except.toOption]
  | error e =>
    have unlisted : ∀ es, t.find dir ≠ .ok (.directory es) := by
      intro es found
      rw [Tree.list_eq_ok_iff.2 ⟨es, found, rfl⟩] at listed
      cases listed
    have none : ¬∃ es node, t.find dir = .ok (.directory es) ∧ (name, node) ∈ es := by
      rintro ⟨es, _, found, _⟩
      exact unlisted es found
    simp only [none, false_and, false_iff]
    cases e <;> simp [Except.toOption]

/-- What a scan that starts at a position records of the directory at the names `front` below it,
the documents being at these places. -/
structure Feature.Collects (t : Tree) (root : Path) (start : Position)
    (places : List (List String)) (documents : List Descriptor) (front : List String)
    (f : Feature) : Prop where
  located : t.locate f.directory = .ok (start ++ front)
  documents_eq : f.documents = (places.filter (·.dropLast = front)).map root.joins
  documents_ne_nil : f.documents ≠ []
  name_eq : f.name = (start ++ front).getLast?.getD ""
  shared : ∀ d ∈ documents, d.path ∈ f.documents → d.feature = f.name
  ascending : f.screenshots.Pairwise (· < ·)
  screenshots : ∀ name, name ∈ f.screenshots ↔ f.Shows t name

/-- What a scan makes of the directory that it starts at, the documents being at these places. -/
structure Scan.Divides (t : Tree) (config : ScanConfig) (root : Path) (start : Position)
    (n : Node) (places : List (List String)) (s : Scan) : Prop where
  walked : places.Sublist (n.descendants.map (·.1))
  ascending : places.Pairwise (· < ·)
  finds : ∀ names, names ∈ places ↔ config.Finds n names
  located : ∀ names ∈ places, t.locate (root.joins names) = .ok (start ++ names)
  documents : s.documents.map (·.path) = places.map root.joins
  features : ∀ f ∈ s.features, ∃ front, f.Collects t root start places s.documents front
  apart : s.features.Pairwise fun f g => t.locate f.directory ≠ t.locate g.directory
  whole : (s.features.flatMap (·.documents)).Perm (s.documents.map (·.path))

namespace Scan

section Division

variable {t : Tree} {config : ScanConfig} {root : Path} {start : Position} {n : Node} {s : Scan}
  (regular : Regular t s) (located : t.locate root = .ok start) (here : t.top.at? start = some n)
  (documents : s.documents = (places config n).map (t.documentAt root))
include regular located here documents

/-- A feature is of the directory of some document, and has the documents whose names have the same
in front. -/
theorem exists_finds_of_mem_features {f : Feature} (hf : f ∈ s.features) :
    ∃ own, config.Finds n own ∧ f.directory = (root.joins own).directory ∧
      t.locate f.directory = .ok (start ++ own.dropLast) ∧
      f.documents = ((places config n).filter (·.dropLast = own.dropLast)).map root.joins := by
  have ordered := (t.wellFormed.at? here).1
  obtain ⟨⟨d, hd, directory⟩, documents_eq, _⟩ := regular.of_mem_features hf
  rw [documents] at hd documents_eq
  obtain ⟨own, hown, rfl⟩ := List.mem_map.1 hd
  have finds := (mem_places_iff ordered).1 hown
  have directory : f.directory = (root.joins own).directory := directory.symm
  refine ⟨own, finds, directory, ?_, ?_⟩
  · rw [directory]
    exact (Tree.locate_of_finds located here finds).2
  · rw [documents_eq, List.filter_map, List.map_map, directory]
    refine congrArg _ (List.filter_congr fun names hnames => decide_eq_decide.2 ?_)
    exact Tree.directory_parts_eq_iff located here ((mem_places_iff ordered).1 hnames) finds

theorem exists_collects {f : Feature} (hf : f ∈ s.features) :
    ∃ front, f.Collects t root start (places config n) s.documents front := by
  have ordered := (t.wellFormed.at? here).1
  obtain ⟨own, finds, directory, place, documents_eq⟩ :=
    exists_finds_of_mem_features regular located here documents hf
  have name_eq : f.name = (start ++ own.dropLast).getLast?.getD "" := by
    obtain ⟨d, hd, parts, name⟩ := regular.exists_name_eq hf
    rw [documents] at hd
    obtain ⟨names, hnames, rfl⟩ := List.mem_map.1 hd
    have finds' := (mem_places_iff ordered).1 hnames
    rw [directory] at parts
    rw [name, Tree.documentAt_path, Tree.featureOf_of_finds located here finds',
      (Tree.directory_parts_eq_iff located here finds' finds).1 parts]
  refine ⟨own.dropLast, place, documents_eq, ?_, name_eq, ?_,
    (regular.of_mem_features hf).2.2, fun name => ?_⟩
  · intro empty
    rw [documents_eq, List.map_eq_nil_iff, List.filter_eq_nil_iff] at empty
    exact empty own ((mem_places_iff ordered).2 finds) (decide_eq_true rfl)
  · intro d hd hpath
    rw [documents] at hd
    obtain ⟨names, hnames, rfl⟩ := List.mem_map.1 hd
    have finds' := (mem_places_iff ordered).1 hnames
    rw [Tree.documentAt_path, documents_eq] at hpath
    obtain ⟨others, hothers, same⟩ := List.mem_map.1 hpath
    obtain ⟨hothers, parent⟩ := List.mem_filter.1 hothers
    cases Tree.eq_of_joins_eq located here ((mem_places_iff ordered).1 hothers) finds' same
    rw [Tree.documentAt_feature, Tree.featureOf_of_finds located here finds', name_eq,
      of_decide_eq_true parent]
  · rw [regular.screenshots_eq hf, Feature.shows_iff]

theorem pairwise_locate_features :
    s.features.Pairwise fun f g => t.locate f.directory ≠ t.locate g.directory := by
  refine regular.pairwise_features.imp_of_mem fun hf hg apart same => apart ?_
  obtain ⟨own, finds, directoryF, placeF, _⟩ :=
    exists_finds_of_mem_features regular located here documents hf
  obtain ⟨other, finds', directoryG, placeG, _⟩ :=
    exists_finds_of_mem_features regular located here documents hg
  rw [placeF, placeG, Except.ok.injEq, List.append_cancel_left_eq] at same
  rw [directoryF, directoryG]
  exact (Tree.directory_parts_eq_iff located here finds finds').2 same

end Division

end Scan

/-- The scan of a readable directory finds, in the order of the walk and each once, the files below
it that have the name of a document, no hidden name on the way, and no excluded directory on the
way. Its features divide them by the directories that they lie in. -/
theorem Tree.scan_divides {t : Tree} {config : ScanConfig} {root : Path}
    {es : List (String × Node)} (found : t.find root = .ok (.directory es))
    (readable : ∀ e ∈ (Node.directory es).descendants, e.2.isDirectory = true →
      isTooLong (root.joins e.1) = false) :
    ∃ start places, t.locate root = .ok start ∧
      Scan.Divides t config root start (.directory es) places (t.scan config root) := by
  obtain ⟨start, located, here⟩ := locate_of_find found
  have ordered := (t.wellFormed.at? here).1
  have regular := Scan.regular_scan t config root
  have documents : (t.scan config root).documents =
      (Scan.places config (.directory es)).map (t.documentAt root) :=
    documents_scan_eq found readable
  refine ⟨start, Scan.places config (.directory es), located, Scan.places_sublist _,
    Scan.pairwise_places ordered, fun _ => Scan.mem_places_iff ordered, fun names hnames => ?_, ?_,
    fun f hf => Scan.exists_collects regular located here documents hf,
    Scan.pairwise_locate_features regular located here documents, regular.flatMap_documents_perm⟩
  · exact (locate_of_finds located here ((Scan.mem_places_iff ordered).1 hnames)).1
  · rw [documents, List.map_map]
    rfl

namespace Scan

/-- What stands around the documents of two directories, the one inside the other. -/
def interleavedEntries : List (String × Node) :=
  [(".old.mock.md", .file (.text "")), ("a.mock.md", .file (.text "")),
    ("b", .directory [("README.md", .file (.text "")),
      ("screenshots", .directory [("s.png", .link ⟨"../y.full.md"⟩),
        ("x.mock.md", .file (.text ""))]),
      ("y.full.md", .file (.text "")), ("z.md", .file .undecodable)]),
    ("c.full.md", .file (.text ""))]

def interleaved : Tree where
  top := .directory [("qa", .directory interleavedEntries)]
  workDir := []
  wellFormed := by
    simp only [interleavedEntries, Node.WellFormed, Node.WellFormedEntries]
    decide

/-- The walk comes to the inner directory between two documents of the outer one. -/
theorem scan_divides_interleaved :
    interleaved.find ⟨"qa"⟩ = .ok (.directory interleavedEntries) ∧
    (∀ e ∈ (Node.directory interleavedEntries).descendants, e.2.isDirectory = true →
      Tree.isTooLong (Path.joins ⟨"qa"⟩ e.1) = false) ∧
    ∃ s, s = interleaved.scan { includeUnsuffixed := true } ⟨"qa"⟩ ∧
      (∃ start places, Divides interleaved { includeUnsuffixed := true } ⟨"qa"⟩ start
        (.directory interleavedEntries) places s) ∧
      s.features = [
        ⟨⟨"qa"⟩, "qa", [⟨"qa/a.mock.md"⟩, ⟨"qa/c.full.md"⟩], []⟩,
        ⟨⟨"qa/b"⟩, "b", [⟨"qa/b/y.full.md"⟩, ⟨"qa/b/z.md"⟩], ["s.png"]⟩] := by
  have found : interleaved.find ⟨"qa"⟩ = .ok (.directory interleavedEntries) := by rfl
  have readable : ∀ e ∈ (Node.directory interleavedEntries).descendants, e.2.isDirectory = true →
      Tree.isTooLong (Path.joins ⟨"qa"⟩ e.1) = false := by
    decide +kernel
  refine ⟨found, readable, _, rfl, ?_, by decide +kernel⟩
  obtain ⟨start, places, _, divides⟩ := Tree.scan_divides found readable
  exact ⟨start, places, divides⟩

end Scan

end ScriptAudit
