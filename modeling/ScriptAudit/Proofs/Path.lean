import ScriptAudit.Proofs.Text.Search
import ScriptAudit.Tree

/-!
# Segments and parts of a path

Segments that denote nothing may stand between the others without changing the parts of a path.
Appending a name, and going to the directory of a file, are said of the segments.
-/

namespace ScriptAudit

namespace Path

/-- The second list is the first without some of the segments that denote nothing. -/
inductive Thins : List (List Char) → List (List Char) → Prop
  | nil : Thins [] []
  | keep (s : List Char) {a b : List (List Char)} (rest : Thins a b) : Thins (s :: a) (s :: b)
  | drop {s : List Char} (void : isVoid s = true) {a b : List (List Char)} (rest : Thins a b) :
    Thins (s :: a) b

namespace Thins

theorem refl (a : List (List Char)) : Thins a a := by
  induction a with
  | nil => exact .nil
  | cons s a ih => exact ih.keep s

theorem append_left (front : List (List Char)) {a b : List (List Char)} (h : Thins a b) :
    Thins (front ++ a) (front ++ b) := by
  induction front with
  | nil => exact h
  | cons s front ih => exact ih.keep s

theorem drop_front {voids : List (List Char)} (void : ∀ s ∈ voids, isVoid s = true)
    {a b : List (List Char)} (h : Thins a b) : Thins (voids ++ a) b := by
  induction voids with
  | nil => exact h
  | cons s voids ih =>
    obtain ⟨first, void⟩ := List.forall_mem_cons.1 void
    exact (ih void).drop first

theorem filter (a : List (List Char)) : Thins a (a.filter (!isVoid ·)) := by
  induction a with
  | nil => exact .nil
  | cons s a ih =>
    rw [List.filter_cons]
    split
    · exact ih.keep s
    · rename_i void
      exact ih.drop (by simpa using void)

end Thins

/-! ## Parts -/

/-- The segments that denote something. -/
def steps (p : Path) : List (List Char) :=
  p.segments.filter (!isVoid ·)

def Part.step? : Part → Option (List Char)
  | .root | .here => none
  | .up => some ['.', '.']
  | .name s => some s.toList

theorem filterMap_innerPart? (segments : List (List Char)) :
    (segments.filterMap innerPart?).filterMap Part.step? = segments.filter (!isVoid ·) := by
  rw [List.filterMap_filterMap, ← List.filterMap_eq_filter]
  refine congrArg (List.filterMap · segments) (funext fun s => ?_)
  simp only [innerPart?]
  cases hs : isVoid s with
  | true => simp [Option.guard, hs]
  | false =>
    by_cases up : s = ['.', '.']
    · subst up
      rfl
    · simp [Part.step?, Option.guard, hs, up]

theorem segments_ne_nil (p : Path) : p.segments ≠ [] :=
  List.splitOn_ne_nil '/' _

theorem steps_eq (p : Path) : p.steps = p.parts.filterMap Part.step? := by
  have some := p.segments_ne_nil
  simp only [steps, parts]
  split
  · rename_i none
    exact absurd none some
  · rename_i empty
    rw [empty]
    rfl
  · rename_i rest _ absolute
    rw [absolute, List.filterMap_cons_none rfl, filterMap_innerPart?]
    rfl
  · rename_i rest relative
    rw [relative, List.filterMap_cons_none rfl, filterMap_innerPart?]
    rfl
  · rename_i first rest _ _ other
    rw [other, filterMap_innerPart?]

theorem segments_of_isAbsolute {p : Path} (h : p.isAbsolute = true) :
    ∃ first rest, p.segments = [] :: first :: rest := by
  simp only [isAbsolute] at h
  simp only [segments]
  cases text : p.text.toList with
  | nil =>
    rw [text] at h
    cases h
  | cons c s =>
    rw [text] at h
    obtain rfl : c = '/' := by simpa using h
    obtain ⟨first, rest, split⟩ := List.exists_cons_of_ne_nil (List.splitOn_ne_nil '/' s)
    exact ⟨first, rest, by rw [List.splitOn_cons_eq_if_modifyHead, if_pos (by simp), split]⟩

theorem segments_of_not_isAbsolute {p : Path} (h : p.isAbsolute = false) :
    p.segments = [[]] ∨ ∃ c first rest, p.segments = (c :: first) :: rest := by
  simp only [isAbsolute] at h
  simp only [segments]
  cases text : p.text.toList with
  | nil => exact Or.inl rfl
  | cons c s =>
    rw [text] at h
    have other : c ≠ '/' := by simpa using h
    obtain ⟨first, rest, split⟩ := List.exists_cons_of_ne_nil (List.splitOn_ne_nil '/' s)
    refine Or.inr ⟨c, first, rest, ?_⟩
    rw [List.splitOn_cons_eq_if_modifyHead, if_neg (by simpa using other), split]
    rfl

theorem isAbsolute_iff_segments {p : Path} :
    p.isAbsolute = true ↔ ∃ first rest, p.segments = [] :: first :: rest := by
  constructor
  · exact segments_of_isAbsolute
  · rintro ⟨first, rest, split⟩
    cases absolute : p.isAbsolute with
    | true => rfl
    | false =>
      rcases segments_of_not_isAbsolute absolute with empty | ⟨c, other, more, split'⟩
      · rw [split] at empty
        cases empty
      · rw [split] at split'
        cases split'

theorem innerPart?_ne_root (s : List Char) : innerPart? s ≠ some .root := by
  simp only [innerPart?]
  split
  · simp
  · split <;> simp

theorem isAbsolute_iff (p : Path) : p.isAbsolute = true ↔ p.parts.head? = some .root := by
  constructor
  · intro h
    obtain ⟨first, rest, split⟩ := segments_of_isAbsolute h
    rw [parts, split]
    rfl
  · intro h
    cases absolute : p.isAbsolute with
    | true => rfl
    | false =>
      rcases segments_of_not_isAbsolute absolute with empty | ⟨c, first, rest, split⟩
      · rw [parts, empty] at h
        cases h
      · have inner : ∀ segments : List (List Char),
            (segments.filterMap innerPart?).head? ≠ some .root := by
          intro segments root
          obtain ⟨s, _, hs⟩ := List.mem_filterMap.1 (List.mem_of_head? root)
          exact innerPart?_ne_root s hs
        rw [parts, split] at h
        split at h
        · rename_i none
          cases none
        · rename_i empty
          cases empty
        · rename_i absolute
          cases absolute
        · cases h
        · exact absurd h (inner _)

theorem isAbsolute_eq_of_parts_eq {p q : Path} (h : p.parts = q.parts) :
    p.isAbsolute = q.isAbsolute := by
  rw [Bool.eq_iff_iff, isAbsolute_iff, isAbsolute_iff, h]

theorem steps_eq_of_parts_eq {p q : Path} (h : p.parts = q.parts) : p.steps = q.steps := by
  rw [steps_eq, steps_eq, h]

/-! ## The order of paths -/

instance : Std.LawfulEqCmp Part.order where
  eq_of_compare {a b} h := by
    simp only [Part.order, compareLex_eq_eq, compareOn, Std.compare_eq_iff_eq] at h
    obtain ⟨rank, spelled⟩ := h
    cases a <;> cases b <;> simp_all [Part.rank, Part.spelled]

/-- Paths that tie have the same parts. -/
theorem parts_eq_of_le {p q : Path} (hpq : le p q = true) (hqp : le q p = true) :
    p.parts = q.parts := by
  have swapped : order q p = (order p q).swap := Std.OrientedCmp.eq_swap
  have tied : order p q = .eq := by
    rw [le, swapped] at hqp
    rw [le] at hpq
    revert hpq hqp
    cases order p q <;> decide
  exact Std.LawfulEqCmp.eq_of_compare tied

/-! ## Appending a name -/

theorem not_mem_of_isEntryName {name : String} (h : isEntryName name = true) :
    name.toList ≠ [] ∧ '/' ∉ name.toList ∧ '\x00' ∉ name.toList := by
  simp only [isEntryName, Bool.and_eq_true, Bool.not_eq_true', List.contains_eq_mem,
    decide_eq_false_iff_not] at h
  obtain ⟨⟨⟨⟨void, _⟩, slash⟩, nul⟩, _⟩ := h
  refine ⟨fun empty => ?_, slash, nul⟩
  rw [empty] at void
  cases void

/-- The text of a path with a name appended: one slash stands between them. -/
theorem join_text {p : Path} (some : p.text ≠ "") :
    ∃ front, (p.text.toList = front ∨ p.text.toList = front ++ ['/']) ∧
      ∀ {name : String}, isEntryName name = true →
        (p.join name).text.toList = front ++ '/' :: name.toList := by
  have relative {name : String} (named : isEntryName name = true) :
      name.toList.head? ≠ Option.some '/' :=
    fun h => (not_mem_of_isEntryName named).2.1 (List.mem_of_head? h)
  by_cases last : p.text.toList.getLast? = Option.some '/'
  · obtain ⟨front, split⟩ := List.getLast?_eq_some_iff.1 last
    refine ⟨front, Or.inr split, fun named => ?_⟩
    rw [join, if_neg (relative named), if_pos (by simp [last])]
    simp [split]
  · refine ⟨p.text.toList, Or.inl rfl, fun named => ?_⟩
    rw [join, if_neg (relative named), if_neg (by simp [some, last])]
    simp

/-- A name appended is one segment more, or takes the place of an empty last one. -/
theorem segments_join {p : Path} (some : p.text ≠ "") :
    ∃ front, front ≠ [] ∧ (p.segments = front ∨ p.segments = front ++ [[]]) ∧
      ∀ {name : String}, isEntryName name = true →
        (p.join name).segments = front ++ [name.toList] := by
  obtain ⟨front, before, text⟩ := join_text some
  refine ⟨front.splitOn '/', List.splitOn_ne_nil '/' _, ?_, fun named => ?_⟩
  · simp only [segments]
    rcases before with same | slash
    · exact Or.inl (by rw [same])
    · exact Or.inr (by rw [slash, List.splitOn_append_cons_self, List.splitOn_nil])
  · rw [segments, text named, List.splitOn_append_cons_self,
      List.splitOn_eq_singleton (not_mem_of_isEntryName named).2.1]

theorem thins_join {p : Path} (some : p.text ≠ "") {name : String}
    (named : isEntryName name = true) :
    Thins (p.segments ++ [name.toList]) (p.join name).segments := by
  obtain ⟨front, _, before, joined⟩ := segments_join some
  rw [joined named]
  rcases before with same | slash
  · rw [same]
    exact .refl _
  · rw [slash, List.append_assoc]
    exact ((Thins.refl [name.toList]).drop rfl).append_left _

theorem isAbsolute_join {p : Path} (some : p.text ≠ "") {name : String}
    (named : isEntryName name = true) : (p.join name).isAbsolute = p.isAbsolute := by
  obtain ⟨front, before, text⟩ := join_text some
  have written : p.text.toList ≠ [] := fun empty => some (String.toList_eq_nil_iff.1 empty)
  simp only [isAbsolute]
  rw [text named]
  rcases before with same | slash
  · rw [same] at written ⊢
    cases front with
    | nil => exact absurd rfl written
    | cons c front => rfl
  · rw [slash]
    cases front <;> rfl

theorem join_ne_empty {p : Path} (some : p.text ≠ "") {name : String}
    (named : isEntryName name = true) : (p.join name).text ≠ "" := by
  obtain ⟨front, _, joined⟩ := join_text some
  have text := joined named
  intro empty
  rw [empty] at text
  simp at text

theorem nul_not_mem_join {p : Path} (some : p.text ≠ "") {name : String}
    (named : isEntryName name = true) (free : '\x00' ∉ p.text.toList) :
    '\x00' ∉ (p.join name).text.toList := by
  obtain ⟨front, before, text⟩ := join_text some
  have own := (not_mem_of_isEntryName named).2.2
  rw [text named]
  rcases before with same | slash
  · rw [same] at free
    simp [free, own]
  · rw [slash] at free
    simp only [List.mem_append, not_or] at free
    simp [free.1, own]

/-! ## The directory of a file -/

theorem eq_of_innerPart?_eq_name {s : List Char} {name : String}
    (h : innerPart? s = some (.name name)) :
    s = name.toList ∧ isVoid s = false ∧ s ≠ ['.', '.'] := by
  simp only [innerPart?] at h
  split at h
  · cases h
  · rename_i kept
    split at h
    · cases h
    · rename_i down
      cases h
      exact ⟨by rw [String.toList_ofList], by simpa using kept, down⟩

theorem innerPart?_of_isVoid {s : List Char} (h : isVoid s = true) : innerPart? s = none := by
  rw [innerPart?, if_pos h]

theorem exists_innerPart? {s : List Char} (h : isVoid s = false) :
    ∃ part, innerPart? s = some part := by
  simp only [innerPart?]
  rw [if_neg (by simp [h])]
  split
  · exact ⟨_, rfl⟩
  · exact ⟨_, rfl⟩

/-- What the first segment of a path gives to its parts. -/
theorem exists_parts_eq {p : Path} {first : List Char} {rest : List (List Char)}
    (split : p.segments = first :: rest) :
    ∃ head, p.parts = head ++ rest.filterMap innerPart? ∧
      ∀ name, head.getLast? = some (.name name) → innerPart? first = some (.name name) := by
  simp only [parts]
  rw [split]
  split
  · rename_i none
    cases none
  · rename_i empty
    cases empty
    exact ⟨[], rfl, by simp⟩
  · rename_i absolute
    cases absolute
    exact ⟨[.root], rfl, by simp⟩
  · rename_i relative
    cases relative
    exact ⟨[.here], rfl, by simp⟩
  · rename_i other
    cases other
    refine ⟨(innerPart? first).toList, ?_, fun name h => ?_⟩
    · cases part : innerPart? first with
      | none => rw [List.filterMap_cons_none part]; rfl
      | some _ => rw [List.filterMap_cons_some part]; rfl
    · cases part : innerPart? first with
      | none => simp [part] at h
      | some _ => simpa [part] using h

theorem text_eq_intercalate (p : Path) : p.text.toList = ['/'].intercalate p.segments :=
  (List.intercalate_splitOn '/').symm

theorem slash_not_mem_of_mem_segments {p : Path} {s : List Char} (hs : s ∈ p.segments) :
    '/' ∉ s :=
  Text.not_mem_of_mem_splitOn hs

/-- A path that is put together from segments has these. -/
theorem segments_intercalate {ls : List (List Char)} (clean : ∀ s ∈ ls, '/' ∉ s)
    (some : ls ≠ []) : segments ⟨String.ofList (['/'].intercalate ls)⟩ = ls := by
  rw [segments, String.toList_ofList, List.splitOn_intercalate '/' clean some]

/-- Segments at the end that denote nothing do not matter. -/
theorem filterMap_dropEndWhile_isVoid (ls : List (List Char)) :
    (Text.dropEndWhile isVoid ls).filterMap innerPart? = ls.filterMap innerPart? := by
  obtain ⟨after, split, void, _⟩ := Text.exists_dropEndWhile_append isVoid ls
  have nothing : after.filterMap innerPart? = [] :=
    List.filterMap_eq_nil_iff.2 fun s hs => innerPart?_of_isVoid (void s hs)
  conv => rhs; rw [split]
  rw [List.filterMap_append, nothing, List.append_nil]

theorem parent?_of_bare {p : Path} {first : List Char} {rest : List (List Char)}
    (split : p.segments = first :: rest) (bare : Text.dropEndWhile isVoid rest = []) :
    p.parent? = if first.isEmpty then none else some ⟨""⟩ := by
  simp only [parent?]
  rw [split]
  dsimp only
  rw [bare]

theorem parent?_of_inner {p : Path} {first z : List Char} {rest init : List (List Char)}
    (split : p.segments = first :: rest) (inner : Text.dropEndWhile isVoid rest = init ++ [z]) :
    p.parent? = some (if first.isEmpty && (Text.dropEndWhile isVoid init).isEmpty then ⟨"/"⟩
      else ⟨String.ofList (['/'].intercalate (first :: Text.dropEndWhile isVoid init))⟩) := by
  simp only [parent?]
  rw [split]
  dsimp only
  have front : (init ++ [z]).dropLast = init := List.dropLast_concat
  cases ends : init ++ [z] with
  | nil => simp at ends
  | cons a more =>
    rw [inner, ends]
    rw [ends] at front
    dsimp only
    rw [front]
    split <;> rfl

/-- The segments that the parent keeps are segments of the path. -/
theorem slash_not_mem_of_kept {p : Path} {first z : List Char} {rest init : List (List Char)}
    (split : p.segments = first :: rest) (inner : Text.dropEndWhile isVoid rest = init ++ [z]) :
    ∀ s ∈ first :: Text.dropEndWhile isVoid init, '/' ∉ s := by
  intro s hs
  refine slash_not_mem_of_mem_segments (p := p) ?_
  rw [split]
  rcases List.mem_cons.1 hs with rfl | hs
  · exact List.mem_cons_self
  · have within : s ∈ Text.dropEndWhile isVoid rest := by
      rw [inner]
      exact List.mem_append_left _ ((Text.dropEndWhile_front isVoid init).subset hs)
    exact List.mem_cons_of_mem _ ((Text.dropEndWhile_front isVoid rest).subset within)

/-- The directory of a path that keeps these segments. -/
theorem directory_of_kept {p : Path} {first : List Char} {kept : List (List Char)}
    (clean : ∀ s ∈ first :: kept, '/' ∉ s)
    (parent : p.parent? = some (if first.isEmpty && kept.isEmpty then ⟨"/"⟩
      else ⟨String.ofList (['/'].intercalate (first :: kept))⟩)) :
    ∃ gap, p.directory.segments = first :: (kept ++ gap) ∧ (∀ s ∈ gap, isVoid s = true) ∧
      (p.directory.isAbsolute = true ↔ first = []) := by
  simp only [directory]
  rw [parent]
  by_cases bottom : first = [] ∧ kept = []
  · obtain ⟨rfl, rfl⟩ := bottom
    refine ⟨[[]], rfl, by simp [isVoid], ?_⟩
    exact ⟨fun _ => rfl, fun _ => rfl⟩
  · have deeper : ¬(first.isEmpty && kept.isEmpty) = true := by
      simpa using bottom
    have pieces := List.splitOn_intercalate '/' clean (List.cons_ne_nil first kept)
    have written : ['/'].intercalate (first :: kept) ≠ [] := by
      intro empty
      rw [empty, List.splitOn_nil, List.cons.injEq] at pieces
      exact bottom ⟨pieces.1.symm, pieces.2.symm⟩
    have text : (String.ofList (['/'].intercalate (first :: kept))) ≠ "" := by
      intro empty
      exact written (by rw [← String.toList_ofList (l := ['/'].intercalate _), empty]; rfl)
    rw [if_neg deeper]
    dsimp only
    rw [if_neg text]
    have own := segments_intercalate clean (List.cons_ne_nil first kept)
    refine ⟨[], by rw [own, List.append_nil], by simp, ?_⟩
    rw [isAbsolute_iff_segments, own]
    constructor
    · rintro ⟨_, _, same⟩
      exact (List.cons.inj same).1
    · rintro rfl
      cases kept with
      | nil => exact absurd ⟨rfl, rfl⟩ bottom
      | cons a rest => exact ⟨a, rest, rfl⟩

theorem getLast?_parts_of_fileName? {p : Path} {name : String} (named : p.fileName? = some name) :
    p.parts.getLast? = some (.name name) := by
  simp only [fileName?] at named
  split at named
  · rename_i s last
    cases named
    exact last
  · cases named

/-- The segments of a file and of its directory have a front in common, behind which the file has
its name; everything else denotes nothing. -/
structure FiledUnder (p : Path) (name : String) (front gap own after : List (List Char)) : Prop where
  segments_eq : p.segments = front ++ (gap ++ name.toList :: after)
  directory_eq : p.directory.segments = front ++ own
  void : ∀ s ∈ gap ++ (own ++ after), isVoid s = true
  kept : isVoid name.toList = false
  down : name.toList ≠ ['.', '.']
  isAbsolute_eq : p.directory.isAbsolute = p.isAbsolute

/-- When the name is the first segment, the directory is the one that paths start from. -/
theorem filedUnder_of_bare {p : Path} {name : String} {first : List Char}
    {after : List (List Char)} (split : p.segments = first :: after)
    (bare : Text.dropEndWhile isVoid after = []) (void : ∀ s ∈ after, isVoid s = true)
    (part : innerPart? first = some (.name name)) : p.FiledUnder name [] [] [['.']] after := by
  obtain ⟨rfl, kept, down⟩ := eq_of_innerPart?_eq_name part
  have written : name.toList ≠ [] := by
    intro empty
    rw [empty] at kept
    cases kept
  have here : p.directory = ⟨"."⟩ := by
    rw [directory, parent?_of_bare split bare, if_neg (by simpa using written)]
    rfl
  have relative : p.isAbsolute = false := by
    apply Bool.eq_false_iff.2
    intro absolute
    obtain ⟨_, _, split'⟩ := isAbsolute_iff_segments.1 absolute
    rw [split] at split'
    exact written (List.cons.inj split').1
  refine ⟨split, by rw [here]; rfl, ?_, kept, down, by rw [here, relative]; rfl⟩
  intro s hs
  rcases List.mem_cons.1 hs with rfl | hs
  · rfl
  · exact void s hs

theorem isAbsolute_iff_of_segments_eq {p : Path} {first : List Char} {rest : List (List Char)}
    (split : p.segments = first :: rest) (more : rest ≠ []) :
    p.isAbsolute = true ↔ first = [] := by
  rw [isAbsolute_iff_segments, split]
  constructor
  · rintro ⟨_, _, same⟩
    exact (List.cons.inj same).1
  · rintro rfl
    obtain ⟨a, rest, rfl⟩ := List.exists_cons_of_ne_nil more
    exact ⟨a, rest, rfl⟩

/-- Otherwise the directory keeps what stands in front of the name. -/
theorem exists_filedUnder_of_inner {p : Path} {name : String} {first z : List Char}
    {init after : List (List Char)} (split : p.segments = first :: (init ++ [z] ++ after))
    (inner : Text.dropEndWhile isVoid (init ++ [z] ++ after) = init ++ [z])
    (void : ∀ s ∈ after, isVoid s = true) (part : innerPart? z = some (.name name)) :
    ∃ front gap own, p.FiledUnder name front gap own after := by
  obtain ⟨rfl, kept, down⟩ := eq_of_innerPart?_eq_name part
  obtain ⟨gap, init_eq, voidGap, _⟩ := Text.exists_dropEndWhile_append isVoid init
  have whole : p.segments = (first :: Text.dropEndWhile isVoid init) ++
      (gap ++ name.toList :: after) := by
    rw [split]
    conv => lhs; rw [init_eq]
    simp
  obtain ⟨own, directory_eq, voidOwn, absolute⟩ :=
    directory_of_kept (slash_not_mem_of_kept split inner) (parent?_of_inner split inner)
  refine ⟨_, gap, own, whole, directory_eq, ?_, kept, down, ?_⟩
  · intro s hs
    rw [List.mem_append, List.mem_append] at hs
    rcases hs with hs | hs | hs
    · exact voidGap s hs
    · exact voidOwn s hs
    · exact void s hs
  · rw [Bool.eq_iff_iff, absolute, isAbsolute_iff_of_segments_eq split (by simp)]

theorem exists_filedUnder {p : Path} {name : String} (named : p.fileName? = some name) :
    ∃ front gap own after, p.FiledUnder name front gap own after := by
  have last := getLast?_parts_of_fileName? named
  obtain ⟨first, rest, split⟩ := List.exists_cons_of_ne_nil p.segments_ne_nil
  obtain ⟨head, parts_eq, fromHead⟩ := exists_parts_eq split
  obtain ⟨after, rest_eq, void, endsInner⟩ := Text.exists_dropEndWhile_append isVoid rest
  rw [parts_eq, ← filterMap_dropEndWhile_isVoid] at last
  rcases List.eq_nil_or_concat (Text.dropEndWhile isVoid rest) with bare | ⟨init, z, inner⟩
  · rw [bare, List.filterMap_nil, List.append_nil] at last
    rw [bare, List.nil_append] at rest_eq
    subst rest_eq
    exact ⟨_, _, _, _, filedUnder_of_bare split bare void (fromHead name last)⟩
  · rw [List.concat_eq_append] at inner
    obtain ⟨part, hpart⟩ := exists_innerPart? (endsInner z (by rw [inner]; simp))
    rw [inner, List.filterMap_append, List.filterMap_cons_some hpart, List.filterMap_nil,
      ← List.append_assoc, List.getLast?_concat] at last
    cases last
    rw [inner] at rest_eq
    subst rest_eq
    obtain ⟨front, gap, own, filed⟩ := exists_filedUnder_of_inner split inner void hpart
    exact ⟨front, gap, own, after, filed⟩

theorem slash_not_mem_of_fileName? {p : Path} {name : String} (named : p.fileName? = some name) :
    '/' ∉ name.toList := by
  obtain ⟨front, gap, own, after, filed⟩ := exists_filedUnder named
  refine slash_not_mem_of_mem_segments (p := p) ?_
  rw [filed.segments_eq]
  simp

theorem directory_ne_empty (p : Path) : p.directory.text ≠ "" := by
  simp only [directory]
  split
  · split
    · decide
    · rename_i written
      exact written
  · decide

theorem mem_text_of_mem_segments {p : Path} {s : List Char} (hs : s ∈ p.segments) {c : Char}
    (hc : c ∈ s) : c ∈ p.text.toList :=
  Text.mem_of_mem_splitOn hs hc

/-- A directory has no characters of its own besides slashes and dots. -/
theorem nul_not_mem_directory {p : Path} {name : String} (named : p.fileName? = some name)
    (free : '\x00' ∉ p.text.toList) : '\x00' ∉ p.directory.text.toList := by
  obtain ⟨front, gap, gap', after, whole, own, void, _⟩ := exists_filedUnder named
  intro nul
  rw [text_eq_intercalate] at nul
  rcases Text.mem_intercalate nul with slash | ⟨s, hs, hc⟩
  · cases slash
  · rw [own] at hs
    rcases List.mem_append.1 hs with hs | hs
    · refine free (mem_text_of_mem_segments ?_ hc)
      rw [whole]
      exact List.mem_append_left _ hs
    · have empty := void s (List.mem_append_right _ (List.mem_append_left _ hs))
      simp only [isVoid] at empty
      split at empty
      · cases hc
      · simp at hc
      · cases empty

end Path

end ScriptAudit
