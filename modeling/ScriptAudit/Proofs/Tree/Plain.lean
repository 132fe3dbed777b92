import Mathlib.Data.List.Basic
import ScriptAudit.Proofs.Tree.Join

/-!
# Plain paths

A path is plain when every segment of it is a name: it is relative, has no slash too many, and goes
neither nowhere nor up. Plain paths are told apart by their parts, and in a tree without links by
where they lead.
-/

namespace ScriptAudit

namespace Path

def IsPlain (p : Path) : Prop :=
  ∀ s ∈ p.segments, isVoid s = false ∧ s ≠ ['.', '.']

instance (p : Path) : Decidable p.IsPlain :=
  inferInstanceAs (Decidable (∀ s ∈ p.segments, isVoid s = false ∧ s ≠ ['.', '.']))

theorem eq_of_segments_eq {p q : Path} (same : p.segments = q.segments) : p = q := by
  have text : p.text = q.text := by
    rw [← String.toList_inj, text_eq_intercalate, text_eq_intercalate, same]
  cases p
  cases q
  cases text
  rfl

theorem innerPart?_of_name {s : List Char} (kept : isVoid s = false) (down : s ≠ ['.', '.']) :
    innerPart? s = some (.name (String.ofList s)) := by
  rw [innerPart?, if_neg (by simp [kept]), if_neg down]

theorem dropEndWhile_isVoid {init : List (List Char)} {s : List Char} (kept : isVoid s = false) :
    Text.dropEndWhile isVoid (init ++ [s]) = init ++ [s] := by
  rw [Text.dropEndWhile, List.reverse_append, List.reverse_singleton, List.singleton_append,
    List.dropWhile_cons_of_neg (by simp [kept]), List.reverse_cons, List.reverse_reverse]

/-- Files whose segments differ in the last one only have one directory. -/
theorem directory_eq_of_segments_eq {p q : Path} {front : List (List Char)} {s r : List Char}
    (hp : p.segments = front ++ [s]) (hq : q.segments = front ++ [r]) (keptS : isVoid s = false)
    (keptR : isVoid r = false) : p.directory = q.directory := by
  have parent : p.parent? = q.parent? := by
    cases front with
    | nil =>
      have written {s : List Char} (kept : isVoid s = false) : s.isEmpty = false := by
        cases s with
        | nil => cases kept
        | cons _ _ => rfl
      rw [parent?_of_bare hp rfl, parent?_of_bare hq rfl, written keptS, written keptR]
    | cons first init =>
      rw [parent?_of_inner hp (dropEndWhile_isVoid keptS),
        parent?_of_inner hq (dropEndWhile_isVoid keptR)]
  rw [directory, directory, parent]

/-- Whatever the name is that is appended, the directory is written in one way. -/
theorem directory_join_eq {p : Path} (some : p.text ≠ "") {m n : String}
    (namedM : isEntryName m = true) (namedN : isEntryName n = true) :
    (p.join m).directory = (p.join n).directory := by
  have kept {name : String} (named : isEntryName name = true) : isVoid name.toList = false :=
    (eq_of_innerPart?_eq_name (Tree.innerPart?_of_isEntryName named)).2.1
  obtain ⟨front, _, _, joined⟩ := Path.segments_join some
  exact directory_eq_of_segments_eq (joined namedM) (joined namedN) (kept namedM) (kept namedN)

namespace IsPlain

variable {p q : Path} (plain : p.IsPlain)
include plain

theorem isAbsolute_eq : p.isAbsolute = false := by
  refine Bool.eq_false_iff.2 fun absolute => ?_
  obtain ⟨first, rest, split⟩ := segments_of_isAbsolute absolute
  have kept := (plain [] (by simp [split])).1
  cases kept

theorem parts_eq : p.parts = p.segments.map fun s => .name (String.ofList s) := by
  have inner : p.segments.filterMap innerPart? =
      p.segments.map fun s => .name (String.ofList s) := by
    rw [← List.filterMap_eq_map]
    exact List.filterMap_congr fun s hs => innerPart?_of_name (plain s hs).1 (plain s hs).2
  rw [← inner, parts]
  split
  · rename_i none
    rw [none, List.filterMap_nil]
  · rename_i empty
    have kept := (plain [] (by simp [empty])).1
    cases kept
  · rename_i rest _ absolute
    have kept := (plain [] (by simp [absolute])).1
    cases kept
  · rename_i rest here
    have kept := (plain ['.'] (by simp [here])).1
    cases kept
  · rename_i first rest _ _ other
    rw [other]

/-- Plain paths are told apart by their parts. -/
theorem eq_of_parts_eq (plainQ : q.IsPlain) (same : p.parts = q.parts) : p = q := by
  rw [plain.parts_eq, plainQ.parts_eq] at same
  refine eq_of_segments_eq ((List.map_inj_right fun s r h => ?_).1 same)
  exact String.ofList_injective (Part.name.inj h)

theorem ne_empty : p.text ≠ "" := by
  intro empty
  have kept := (plain [] (by simp [segments, empty])).1
  cases kept

theorem segments_join {name : String} (named : isEntryName name = true) :
    (p.join name).segments = p.segments ++ [name.toList] := by
  obtain ⟨front, _, before, joined⟩ := Path.segments_join plain.ne_empty
  rcases before with same | slash
  · rw [joined named, same]
  · have kept := (plain [] (by simp [slash])).1
    cases kept

theorem join {name : String} (named : isEntryName name = true) : (p.join name).IsPlain := by
  intro s hs
  rw [plain.segments_join named] at hs
  rcases List.mem_append.1 hs with hs | hs
  · exact plain s hs
  · obtain ⟨own, kept, down⟩ :=
      eq_of_innerPart?_eq_name (Tree.innerPart?_of_isEntryName named)
    rw [List.mem_singleton.1 hs]
    exact ⟨kept, down⟩

theorem joins {names : List String} (named : ∀ name ∈ names, isEntryName name = true) :
    (p.joins names).IsPlain := by
  induction names generalizing p with
  | nil => exact plain
  | cons name rest ih =>
    obtain ⟨own, named⟩ := List.forall_mem_cons.1 named
    exact ih (plain.join own) named

end IsPlain

end Path

namespace Tree

variable {t : Tree} {p q : Path} {pos : Position}

theorem Walks.eq_append {top : Node} (linkFree : top.LinkFree) {links : Nat} {x : Position}
    {segments : List (List Char)}
    (names : ∀ s ∈ segments, Path.isVoid s = false ∧ s ≠ ['.', '.'])
    (walks : Walks top links pos segments x) : x = pos ++ segments.map String.ofList := by
  induction walks with
  | done links pos => rw [List.map_nil, List.append_nil]
  | step turned further ih =>
    obtain ⟨⟨kept, down⟩, names⟩ := List.forall_mem_cons.1 names
    obtain ⟨rfl, _⟩ := exists_lookup_of_turn kept down turned
    rw [ih names, List.map_cons, List.append_assoc, List.singleton_append]
  | follow turned _ _ => exact absurd turned (turn_ne_along linkFree)

variable (linkFree : t.top.LinkFree)
include linkFree

/-- Without links a plain path leads down from the working directory, segment by segment. -/
theorem eq_append_of_isPlain (plain : p.IsPlain) (h : t.locate p = .ok pos) :
    pos = t.workDir ++ p.segments.map String.ofList := by
  obtain ⟨_, _, walks⟩ := locate_eq_ok_iff.1 h
  rw [startOf, plain.isAbsolute_eq] at walks
  exact walks.eq_append linkFree plain

/-- Plain paths lead to different places. -/
theorem eq_of_locate_eq (plainP : p.IsPlain) (plainQ : q.IsPlain) (hp : t.locate p = .ok pos)
    (hq : t.locate q = .ok pos) : p = q := by
  have same := (eq_append_of_isPlain linkFree plainP hp).symm.trans
    (eq_append_of_isPlain linkFree plainQ hq)
  exact Path.eq_of_segments_eq ((List.map_inj_right fun _ _ => String.ofList_injective).1
    (List.append_cancel_left same))

theorem exists_segments_eq (plain : p.IsPlain) {name : String} (named : p.fileName? = some name)
    (h : t.locate p = .ok pos) : ∃ front s, p.segments = front ++ [s] ∧
      Path.isVoid s = false ∧ t.locate p.directory = .ok (t.workDir ++ front.map String.ofList) := by
  rcases List.eq_nil_or_concat p.segments with none | ⟨front, s, split⟩
  · exact absurd none p.segments_ne_nil
  · rw [List.concat_eq_append] at split
    obtain ⟨dir, found, same⟩ := locate_directory linkFree named h
    rw [eq_append_of_isPlain linkFree plain h, split, List.map_append, ← List.append_assoc] at same
    refine ⟨front, s, split, (plain s (by simp [split])).1, ?_⟩
    rw [found, List.append_inj_left' same rfl]

/-- Plain files whose directories lead to one place have one directory. -/
theorem directory_eq_of_locate_eq (plainP : p.IsPlain) (plainQ : q.IsPlain) {m n : String}
    (namedP : p.fileName? = some m) (namedQ : q.fileName? = some n) {a b : Position}
    (hp : t.locate p = .ok a) (hq : t.locate q = .ok b) (dirP : t.locate p.directory = .ok pos)
    (dirQ : t.locate q.directory = .ok pos) : p.directory = q.directory := by
  obtain ⟨front, s, splitP, keptP, foundP⟩ := exists_segments_eq linkFree plainP namedP hp
  obtain ⟨front', r, splitQ, keptQ, foundQ⟩ := exists_segments_eq linkFree plainQ namedQ hq
  rw [dirP] at foundP
  rw [dirQ, foundP, Except.ok.injEq, List.append_cancel_left_eq] at foundQ
  have same : front = front' := (List.map_inj_right fun _ _ => String.ofList_injective).1 foundQ
  exact Path.directory_eq_of_segments_eq splitP (same ▸ splitQ) keptP keptQ

end Tree

end ScriptAudit
