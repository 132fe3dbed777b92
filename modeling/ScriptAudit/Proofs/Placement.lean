import ScriptAudit.Proofs.Consistency
import ScriptAudit.Proofs.Markup.Fault
import ScriptAudit.Proofs.Path.Enclosing
import ScriptAudit.Proofs.Tree.Plain

/-!
# Where a document is placed

A document is misplaced when one of the two directories around it is named after the other mode.
The directories are read off the path as it is written, while the feature of the document comes from
where its directory is. The two agree on every spelling that names both directories. A spelling that
does not may hide a directory from the check, or show it one that the document is not in.
-/

namespace ScriptAudit

namespace Path

/-- The file and the two directories around it are written as names, or all are from the root on. -/
def SpelledOut (p : Path) : Prop :=
  ∃ (front : List Part) (dirs : List String) (file : String),
    p.parts = front ++ (dirs ++ [file]).map .name ∧ (2 ≤ dirs.length ∨ front = [.root])

/-- Only names follow once a directory has been named, so that none is left again. -/
def ClimbsFirst (p : Path) : Prop :=
  ∃ (front : List Part) (dirs : List String) (file : String),
    p.parts = front ++ (dirs ++ [file]).map .name ∧ ∀ part ∈ front, part.name? = none

end Path

/-- Without links the names that a path ends in are those that lead to it. -/
theorem Tree.exists_eq_append {t : Tree} (linkFree : t.top.LinkFree) {p : Path} {pos : Position}
    (h : t.locate p = .ok pos) {front : List Path.Part} {names : List String}
    (split : p.parts = front ++ names.map .name) :
    ∃ base, pos = base ++ names ∧ (front = [.root] → base = []) := by
  obtain ⟨_, _, walks⟩ := locate_eq_ok_iff.1 h
  have step_name : Path.Part.step? ∘ Path.Part.name = fun s => some s.toList := rfl
  have steps : p.steps = front.filterMap Path.Part.step? ++ names.map String.toList := by
    rw [Path.steps_eq, split, List.filterMap_append, List.filterMap_map, step_name,
      List.filterMap_eq_map']
  have thinned : Walks t.top linkLimit (startOf p t.workDir) p.steps pos :=
    walks.thins (Path.Thins.filter _)
  rw [steps] at thinned
  obtain ⟨base, left, toFront, beyond⟩ := thinned.split
  have named : ∀ s ∈ names.map String.toList, Path.isVoid s = false ∧ s ≠ ['.', '.'] := by
    intro s hs
    obtain ⟨name, hname, rfl⟩ := List.mem_map.1 hs
    refine Path.of_name_mem_parts (p := p) ?_
    rw [split]
    exact List.mem_append_right _ (List.mem_map_of_mem hname)
  have whole := beyond.eq_append linkFree named
  simp only [List.map_map, Function.comp_def, String.ofList_toList, List.map_id'] at whole
  refine ⟨base, whole, ?_⟩
  rintro rfl
  have absolute : p.isAbsolute = true := (Path.isAbsolute_iff p).2 (by rw [split]; rfl)
  rw [startOf, absolute] at toFront
  cases toFront
  rfl

namespace Consistency

/-! ## The names that are looked at -/

/-- The names of the two directories around a file, nearest first, as far as its parts show them. -/
def shown (parts : List Path.Part) : List String :=
  (parts.dropLast.reverse.take 2).filterMap Path.Part.name?

/-- The names of the two directories around a position, nearest first. -/
def around (pos : Position) : List String :=
  pos.dropLast.reverse.take 2

theorem shown_append (front : List Path.Part) (dirs : List String) (file : String) :
    shown (front ++ (dirs ++ [file]).map .name) = dirs.reverse.take 2 ++
      (front.reverse.take (2 - dirs.length)).filterMap Path.Part.name? := by
  have names (l : List String) : (l.map Path.Part.name).filterMap Path.Part.name? = l := by
    rw [List.filterMap_map]
    exact List.filterMap_some
  rw [shown, List.map_append, List.map_singleton, ← List.append_assoc, List.dropLast_concat,
    List.reverse_append, List.take_append, List.filterMap_append, ← List.map_reverse,
    ← List.map_take, names, List.length_map, List.length_reverse]

theorem around_append (base dirs : List String) (file : String) :
    around (base ++ (dirs ++ [file])) = dirs.reverse.take 2 ++
      base.reverse.take (2 - dirs.length) := by
  rw [around, ← List.append_assoc, List.dropLast_concat, List.reverse_append, List.take_append,
    List.length_reverse]

section Shown

variable {t : Tree} (linkFree : t.top.LinkFree) {p : Path} {pos : Position}
  (h : t.locate p = .ok pos)
include linkFree h

/-- A path that is spelled out shows the directories that its file is in. -/
theorem shown_of_spelledOut (spelled : p.SpelledOut) : shown p.parts = around pos := by
  obtain ⟨front, dirs, file, split, enough⟩ := spelled
  obtain ⟨base, rfl, absolute⟩ := Tree.exists_eq_append linkFree h split
  rw [split, shown_append, around_append]
  rcases enough with two | root
  · rw [Nat.sub_eq_zero_of_le two]
    rfl
  · rw [absolute root, root]
    cases 2 - dirs.length with
    | zero => rfl
    | succ n => simp [Path.Part.name?]

/-- A path that climbs first shows the nearest of them, and nothing else. -/
theorem shown_of_climbsFirst (climbs : p.ClimbsFirst) : shown p.parts <+: around pos := by
  obtain ⟨front, dirs, file, split, nameless⟩ := climbs
  obtain ⟨base, rfl, _⟩ := Tree.exists_eq_append linkFree h split
  have none : (front.reverse.take (2 - dirs.length)).filterMap Path.Part.name? = [] :=
    List.filterMap_eq_nil_iff.2 fun part hpart =>
      nameless part (List.mem_reverse.1 (List.mem_of_mem_take hpart))
  rw [split, shown_append, around_append, none, List.append_nil]
  exact List.prefix_append _ _

end Shown

/-! ## Verdicts -/

/-- The nearest of directories with these names that pins another mode. -/
def misplacedIn (names : List String) (mode : Mode) : Option (String × Mode) :=
  (names.filterMap directoryMode?).find? fun (_, pinned) => pinned != mode

theorem misplacedIn_of_isPrefix {near all : List String} (front : near <+: all) {mode : Mode}
    {found : String × Mode} (h : misplacedIn near mode = some found) :
    misplacedIn all mode = some found := by
  obtain ⟨more, rfl⟩ := front
  simp only [misplacedIn] at h ⊢
  rw [List.filterMap_append, List.find?_append, h, Option.some_or]

theorem misplacement?_eq (d : Document) :
    misplacement? d = misplacedIn (shown d.path.parts) d.mode := by
  rw [misplacement?, misplacedIn, shown, ← Path.filterMap_enclosing, List.filterMap_filterMap]

/-- The check of a feature reports of the document that a directory pins another mode. -/
def Misplaced (f : Feature) (d : Document) : Prop :=
  ∃ x ∈ f.check [d], x.ruleId = "mode-placement" ∧ x.line = none

theorem misplaced_iff {f : Feature} {d : Document} :
    Misplaced f d ↔ (misplacement? d).isSome = true := by
  have reported (x : Diagnostic) : x ∈ f.check [d] ∧ x.ruleId = "mode-placement" ↔
      x ∈ modeFaults d := by
    have own : x ∈ (f.check [d]).filter (·.ruleId = "mode-placement") ↔ x ∈ modeFaults d := by
      rw [Feature.filter_check_mode, List.flatMap_singleton]
    rwa [List.mem_filter, decide_eq_true_iff] at own
  constructor
  · rintro ⟨x, hx, id, line⟩
    rcases List.mem_append.1 ((reported x).1 ⟨hx, id⟩) with placed | declared
    · obtain ⟨found, hfound, _⟩ := List.mem_map.1 placed
      rw [Option.mem_toList.1 hfound]
      rfl
    · obtain ⟨c, _, found⟩ := List.mem_filterMap.1 declared
      obtain ⟨⟨p, mode⟩, _, found⟩ := Option.bind_eq_some_iff.1 found
      dsimp only at found
      split at found <;> cases found
      cases line
  · intro some
    obtain ⟨found, hfound⟩ := Option.isSome_iff_exists.1 some
    obtain ⟨x, hx, line⟩ : ∃ x ∈ placementFault d, x.line = none := by
      rw [placementFault, hfound]
      exact ⟨_, List.mem_singleton_self _, rfl⟩
    obtain ⟨hx, id⟩ := (reported x).2 (List.mem_append_left _ hx)
    exact ⟨x, hx, id, line⟩

end Consistency

open Consistency

theorem Tree.featureOf_eq_of_locate_eq {t : Tree} (linkFree : t.top.LinkFree) {p q : Path}
    {m n : String} (namedP : p.fileName? = some m) (namedQ : q.fileName? = some n) {pos : Position}
    (hp : t.locate p = .ok pos) (hq : t.locate q = .ok pos) :
    m = n ∧ t.featureOf p = t.featureOf q := by
  obtain ⟨front, dirP, rfl⟩ := locate_directory linkFree namedP hp
  obtain ⟨front', dirQ, same⟩ := locate_directory linkFree namedQ hq
  obtain ⟨rfl, own⟩ := List.append_inj' same rfl
  refine ⟨(List.cons.inj own).1, ?_⟩
  rw [featureOf, featureOf, resolved_of_locate dirP, resolved_of_locate dirQ]

/-- In a tree without links two spellings of one file yield documents with the same feature, mode
and contents. A spelling that names the directories around the file gets the verdict of where the
file is, so that two of them are reported alike. A spelling that climbs first is reported only if
those are. -/
theorem Document.placement_of_spellings {t : Tree} (linkFree : t.top.LinkFree) {p q : Path}
    {pos : Position} (hp : t.locate p = .ok pos) (hq : t.locate q = .ok pos) {markers : Markers}
    {source : String} {d e : Document}
    (readP : Document.read p (t.featureOf p) markers source = .ok d)
    (readQ : Document.read q (t.featureOf q) markers source = .ok e) :
    d.feature = e.feature ∧ d.mode = e.mode ∧ d.cases = e.cases ∧
    (p.SpelledOut → misplacement? d = misplacedIn (around pos) d.mode) ∧
    (p.SpelledOut → q.SpelledOut → ∀ f g, Misplaced f d ↔ Misplaced g e) ∧
    (p.SpelledOut → q.ClimbsFirst → ∀ f g, Misplaced g e → Misplaced f d) := by
  obtain ⟨mode, o, declared, outlined, _, madeD⟩ := read_eq_ok_iff.1 readP
  obtain ⟨mode', o', declared', outlined', _, madeE⟩ := read_eq_ok_iff.1 readQ
  obtain ⟨m, namedP, ofP⟩ := Option.bind_eq_some_iff.1 declared
  obtain ⟨n, namedQ, ofQ⟩ := Option.bind_eq_some_iff.1 declared'
  obtain ⟨rfl, feature⟩ := Tree.featureOf_eq_of_locate_eq linkFree namedP namedQ hp hq
  rw [ofP] at ofQ
  cases ofQ
  rw [outlined] at outlined'
  cases outlined'
  have read {p : Path} {d : Document} {feature : String} {cases : List TestCase}
      (made : d = { path := p, feature, mode, cases, source }) :
      d.path = p ∧ d.feature = feature ∧ d.mode = mode ∧ d.cases = cases := by
    rw [made]
    exact ⟨rfl, rfl, rfl, rfl⟩
  obtain ⟨pathD, featureD, modeD, casesD⟩ := read madeD
  obtain ⟨pathE, featureE, modeE, casesE⟩ := read madeE
  have modes : d.mode = e.mode := modeD.trans modeE.symm
  refine ⟨?_, modes, casesD.trans casesE.symm, fun spelled => ?_,
    fun spelledP spelledQ f g => ?_, fun spelled climbs f g misplaced => ?_⟩
  · rw [featureD, featureE, feature]
  · rw [misplacement?_eq, pathD, shown_of_spelledOut linkFree hp spelled]
  · rw [misplaced_iff, misplaced_iff, misplacement?_eq, misplacement?_eq, pathD, pathE, modes,
      shown_of_spelledOut linkFree hp spelledP, shown_of_spelledOut linkFree hq spelledQ]
  · rw [misplaced_iff, misplacement?_eq] at misplaced ⊢
    obtain ⟨found, verdict⟩ := Option.isSome_iff_exists.1 misplaced
    rw [pathE] at verdict
    rw [pathD, modes, shown_of_spelledOut linkFree hp spelled,
      misplacedIn_of_isPrefix (shown_of_climbsFirst linkFree hq climbs) verdict]
    rfl

/-- The least text that a document can have. -/
def skeleton : String :=
  "# Test Case: A\n# Prerequisites\n# Test Steps\n# Expected UI State\n# Expected Result"

/-- A full document in a directory for mock documents, and one beside that directory. -/
def mocked : Tree where
  top := .directory [
    ("mocks", .directory [("b", .directory [("x.full.md", .file (.text skeleton))])]),
    ("x.full.md", .file (.text skeleton))]
  workDir := []
  wellFormed := by
    refine ⟨by decide, ⟨by decide, ⟨by decide, trivial, by simp, trivial⟩, by simp, trivial⟩,
      fun e he => ?_, by decide, trivial, by simp, trivial⟩
    rw [List.mem_singleton.1 he, String.lt_iff]
    decide

/-- What is read of the file at a path of `mocked`. -/
def mockedAt (p : Path) : Except (List Diagnostic) Document :=
  Document.read p (mocked.featureOf p) {} skeleton

theorem exists_mockedAt {p : Path} (declared : p.fileName?.bind Mode.ofFileName? = some .full) :
    ∃ d, mockedAt p = .ok d ∧
      ∀ f, Misplaced f d ↔ (misplacedIn (shown p.parts) .full).isSome = true := by
  have readable : (Document.read ⟨"x.full.md"⟩ "" {} skeleton).isOk = true := by decide +kernel
  cases read : Document.read ⟨"x.full.md"⟩ "" {} skeleton with
  | error ds =>
    rw [read] at readable
    cases readable
  | ok known =>
    -- that the text can be read does not depend on its path
    obtain ⟨_, o, _, outlined, sound, _⟩ := Document.read_eq_ok_iff.1 read
    refine ⟨_, Document.read_eq_ok_iff.2 ⟨.full, o, declared, outlined, sound, rfl⟩, fun f => ?_⟩
    rw [misplaced_iff, misplacement?_eq]

theorem placement_of_spellings_mocked :
    mocked.top.LinkFree ∧
    mocked.locate ⟨"mocks/b/x.full.md"⟩ = .ok ["mocks", "b", "x.full.md"] ∧
    mocked.locate ⟨"./mocks/../mocks/b/x.full.md"⟩ = .ok ["mocks", "b", "x.full.md"] ∧
    ∃ d e, mockedAt ⟨"mocks/b/x.full.md"⟩ = .ok d ∧
      mockedAt ⟨"./mocks/../mocks/b/x.full.md"⟩ = .ok e ∧ ∀ f g, Misplaced f d ↔ Misplaced g e := by
  have linkFree : mocked.top.LinkFree := by
    simp [mocked, Node.LinkFree, Node.LinkFreeEntries]
  have first : mocked.locate ⟨"mocks/b/x.full.md"⟩ = .ok ["mocks", "b", "x.full.md"] := by rfl
  have second : mocked.locate ⟨"./mocks/../mocks/b/x.full.md"⟩ =
      .ok ["mocks", "b", "x.full.md"] := by rfl
  have spelledP : Path.SpelledOut ⟨"mocks/b/x.full.md"⟩ :=
    ⟨[], ["mocks", "b"], "x.full.md", by decide +kernel, Or.inl (by decide)⟩
  have spelledQ : Path.SpelledOut ⟨"./mocks/../mocks/b/x.full.md"⟩ :=
    ⟨[.here, .name "mocks", .up], ["mocks", "b"], "x.full.md", by decide +kernel,
      Or.inl (by decide)⟩
  obtain ⟨d, readD, _⟩ := exists_mockedAt (p := ⟨"mocks/b/x.full.md"⟩) (by decide +kernel)
  obtain ⟨e, readE, _⟩ :=
    exists_mockedAt (p := ⟨"./mocks/../mocks/b/x.full.md"⟩) (by decide +kernel)
  refine ⟨linkFree, first, second, d, e, readD, readE, ?_⟩
  exact (Document.placement_of_spellings linkFree first second readD readE).2.2.2.2.1 spelledP
    spelledQ

/-- A step up hides a directory that the file is in, and shows one that it is not in. -/
theorem placement_by_spelling :
    (mocked.locate ⟨"mocks/b/x.full.md"⟩ = mocked.locate ⟨"mocks/b/../b/x.full.md"⟩ ∧
      ∃ d e, mockedAt ⟨"mocks/b/x.full.md"⟩ = .ok d ∧ mockedAt ⟨"mocks/b/../b/x.full.md"⟩ = .ok e ∧
        ∀ f, Misplaced f d ∧ ¬Misplaced f e) ∧
    mocked.locate ⟨"/x.full.md"⟩ = mocked.locate ⟨"mocks/../x.full.md"⟩ ∧
      ∃ d e, mockedAt ⟨"/x.full.md"⟩ = .ok d ∧ mockedAt ⟨"mocks/../x.full.md"⟩ = .ok e ∧
        ∀ f, ¬Misplaced f d ∧ Misplaced f e := by
  obtain ⟨a, readA, verdictA⟩ := exists_mockedAt (p := ⟨"mocks/b/x.full.md"⟩) (by decide +kernel)
  obtain ⟨b, readB, verdictB⟩ :=
    exists_mockedAt (p := ⟨"mocks/b/../b/x.full.md"⟩) (by decide +kernel)
  obtain ⟨c, readC, verdictC⟩ := exists_mockedAt (p := ⟨"/x.full.md"⟩) (by decide +kernel)
  obtain ⟨d, readD, verdictD⟩ := exists_mockedAt (p := ⟨"mocks/../x.full.md"⟩) (by decide +kernel)
  refine ⟨⟨by decide +kernel, a, b, readA, readB, fun f => ?_⟩, by decide +kernel, c, d, readC,
    readD, fun f => ?_⟩
  · rw [verdictA, verdictB]
    decide +kernel
  · rw [verdictC, verdictD]
    decide +kernel

end ScriptAudit
