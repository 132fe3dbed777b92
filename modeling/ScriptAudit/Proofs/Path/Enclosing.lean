import ScriptAudit.Proofs.Path

/-!
# The directories around a file, as they are written

The parent of a path has all parts but the last, so the two enclosing directories of a path are
named by the parts in front of its own name. A part that is no name leaves its directory without
one.
-/

namespace ScriptAudit

namespace Path

def Part.name? : Part → Option String
  | .name s => some s
  | _ => none

theorem fileName?_eq (p : Path) : p.fileName? = p.parts.getLast?.bind Part.name? := by
  rw [fileName?]
  cases p.parts.getLast? with
  | none => rfl
  | some part => cases part <;> rfl

/-- What the first segment of a path denotes, when it is not all of an empty path. -/
def firstPart? (first : List Char) : Option Part :=
  if first = [] then some .root else if first = ['.'] then some .here else innerPart? first

theorem exists_firstPart? (first : List Char) : ∃ part, firstPart? first = some part := by
  rw [firstPart?]
  split
  · exact ⟨_, rfl⟩
  · split
    · exact ⟨_, rfl⟩
    · rename_i written dot
      refine exists_innerPart? (Bool.eq_false_iff.2 fun void => ?_)
      rw [isVoid.eq_def] at void
      split at void
      · exact written rfl
      · exact dot rfl
      · cases void

theorem parts_eq_of_segments_eq {p : Path} {first : List Char} {rest : List (List Char)}
    (split : p.segments = first :: rest) (written : first ≠ [] ∨ rest ≠ []) :
    p.parts = (firstPart? first).toList ++ rest.filterMap innerPart? := by
  rw [parts, split, firstPart?]
  by_cases empty : first = []
  · subst empty
    cases rest with
    | nil => simp at written
    | cons a rest => simp
  · by_cases dot : first = ['.']
    · subst dot
      simp
    · obtain ⟨part, denotes⟩ := exists_firstPart? first
      rw [firstPart?, if_neg empty, if_neg dot] at denotes
      simp only [if_neg empty, if_neg dot]
      split
      case h_5 other =>
        cases other
        rw [List.filterMap_cons_some denotes, denotes]
        rfl
      all_goals simp_all

/-- A part that is a name is a segment that is one. -/
theorem of_name_mem_parts {p : Path} {name : String} (h : .name name ∈ p.parts) :
    isVoid name.toList = false ∧ name.toList ≠ ['.', '.'] := by
  have denoted : ∃ s, innerPart? s = some (.name name) := by
    obtain ⟨first, rest, split⟩ := List.exists_cons_of_ne_nil p.segments_ne_nil
    by_cases written : first ≠ [] ∨ rest ≠ []
    · rw [parts_eq_of_segments_eq split written, List.mem_append] at h
      rcases h with front | later
      · rw [Option.mem_toList, firstPart?] at front
        split at front
        · cases front
        · split at front
          · cases front
          · exact ⟨first, front⟩
      · obtain ⟨s, _, denotes⟩ := List.mem_filterMap.1 later
        exact ⟨s, denotes⟩
    · simp only [not_or, Decidable.not_not] at written
      rw [parts, split, written.1, written.2] at h
      cases h
  obtain ⟨s, denotes⟩ := denoted
  obtain ⟨rfl, kept, down⟩ := eq_of_innerPart?_eq_name denotes
  exact ⟨kept, down⟩

/-- What the parent that keeps these segments denotes. -/
theorem parts_of_kept {first : List Char} {kept : List (List Char)}
    (clean : ∀ s ∈ first :: kept, '/' ∉ s) :
    (if first.isEmpty && kept.isEmpty then (⟨"/"⟩ : Path)
      else ⟨String.ofList (['/'].intercalate (first :: kept))⟩).parts =
      (firstPart? first).toList ++ kept.filterMap innerPart? := by
  by_cases bottom : first = [] ∧ kept = []
  · obtain ⟨rfl, rfl⟩ := bottom
    rfl
  · rw [if_neg (by simpa using bottom)]
    refine parts_eq_of_segments_eq (segments_intercalate clean (List.cons_ne_nil _ _)) ?_
    by_cases empty : first = []
    · exact Or.inr fun none => bottom ⟨empty, none⟩
    · exact Or.inl empty

/-- The parent has all parts but the last. -/
theorem parts_of_parent? {p d : Path} (parent : p.parent? = some d) :
    d.parts = p.parts.dropLast := by
  obtain ⟨first, rest, split⟩ := List.exists_cons_of_ne_nil p.segments_ne_nil
  rcases List.eq_nil_or_concat (Text.dropEndWhile isVoid rest) with bare | ⟨init, z, inner⟩
  · rw [parent?_of_bare split bare] at parent
    split at parent
    · cases parent
    · rename_i written
      cases parent
      obtain ⟨head, denotes⟩ := exists_firstPart? first
      rw [parts_eq_of_segments_eq split (Or.inl (by simpa using written)),
        ← filterMap_dropEndWhile_isVoid, bare, denotes]
      rfl
  · rw [List.concat_eq_append] at inner
    have more : rest ≠ [] := by
      rintro rfl
      simp [Text.dropEndWhile] at inner
    obtain ⟨_, _, _, ends⟩ := Text.exists_dropEndWhile_append isVoid rest
    obtain ⟨part, last⟩ := exists_innerPart? (ends z (by rw [inner]; simp))
    have whole : p.parts = (firstPart? first).toList ++ init.filterMap innerPart? ++ [part] := by
      rw [parts_eq_of_segments_eq split (Or.inr more), ← filterMap_dropEndWhile_isVoid rest, inner,
        List.filterMap_append, List.filterMap_cons_some last, List.append_assoc]
      rfl
    rw [parent?_of_inner split inner] at parent
    cases parent
    rw [parts_of_kept (slash_not_mem_of_kept split inner), filterMap_dropEndWhile_isVoid, whole,
      List.dropLast_concat]

theorem parts_of_parent?_eq_none {p : Path} (root : p.parent? = none) :
    p.parts = [] ∨ p.parts = [.root] := by
  obtain ⟨first, rest, split⟩ := List.exists_cons_of_ne_nil p.segments_ne_nil
  rcases List.eq_nil_or_concat (Text.dropEndWhile isVoid rest) with bare | ⟨init, z, inner⟩
  · rw [parent?_of_bare split bare] at root
    split at root
    · rename_i empty
      obtain rfl : first = [] := by simpa using empty
      by_cases none : rest = []
      · left
        rw [parts, split, none]
      · right
        rw [parts_eq_of_segments_eq split (Or.inr none), ← filterMap_dropEndWhile_isVoid, bare]
        rfl
    · cases root
  · rw [List.concat_eq_append] at inner
    rw [parent?_of_inner split inner] at root
    cases root

/-- The names of the enclosing directories, nearest first, are those among the two parts in front of
the last. -/
theorem filterMap_enclosing (p : Path) :
    p.enclosing.filterMap fileName? =
      (p.parts.dropLast.reverse.take 2).filterMap Part.name? := by
  have lastTwo (parts : List Part) : (parts.reverse.take 2).filterMap Part.name? =
      (parts.getLast?.bind Part.name?).toList ++
        (parts.dropLast.getLast?.bind Part.name?).toList := by
    obtain ⟨turned, rfl⟩ : ∃ turned, parts = turned.reverse := ⟨parts.reverse, by simp⟩
    rcases turned with _ | ⟨a, _ | ⟨b, rest⟩⟩
    · rfl
    · cases a <;> rfl
    · cases a <;> cases b <;> simp [List.filterMap_cons, Part.name?]
  have parentless {parts : List Part} (h : parts = [] ∨ parts = [.root]) :
      parts.dropLast = [] := by
    rcases h with rfl | rfl <;> rfl
  have single (d : Path) (more : List Path) : (d :: more).filterMap fileName? =
      (d.parts.getLast?.bind Part.name?).toList ++ more.filterMap fileName? := by
    rw [← fileName?_eq]
    cases named : d.fileName? with
    | none => rw [List.filterMap_cons_none named]; rfl
    | some name => rw [List.filterMap_cons_some named]; rfl
  rw [lastTwo, enclosing]
  cases parent : p.parent? with
  | none =>
    rw [parentless (parts_of_parent?_eq_none parent)]
    rfl
  | some d =>
    rw [← parts_of_parent? parent]
    dsimp only
    rw [single]
    cases above : d.parent? with
    | none =>
      rw [parentless (parts_of_parent?_eq_none above)]
      rfl
    | some e =>
      rw [← parts_of_parent? above, Option.toList_some, single, List.filterMap_nil, List.append_nil]

end Path

end ScriptAudit
