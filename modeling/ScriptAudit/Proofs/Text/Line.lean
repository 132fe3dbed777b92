import ScriptAudit.Text.Line

/-!
# Numbered lines

The numbers of a text's lines count up from 1, and a mark put in front of a text that is not empty
changes its first line only.
-/

namespace ScriptAudit.Text

variable {α : Type _}

theorem getElem?_numbered (xs : List α) (i : Nat) :
    (numbered xs)[i]? = xs[i]?.map fun x => (i + 1, x) := by
  simp [numbered]

theorem length_numbered (xs : List α) : (numbered xs).length = xs.length := by
  simp [numbered]

theorem map_snd_numbered (xs : List α) : (numbered xs).map (·.2) = xs := by
  apply List.ext_getElem?
  intro i
  rw [List.getElem?_map, getElem?_numbered]
  cases xs[i]? <;> rfl

theorem mem_numbered_iff {xs : List α} {n : Nat} {x : α} :
    (n, x) ∈ numbered xs ↔ ∃ i, n = i + 1 ∧ xs[i]? = some x := by
  rw [List.mem_iff_getElem?]
  simp only [getElem?_numbered, Option.map_eq_some_iff, Prod.mk.injEq]
  constructor
  · rintro ⟨i, y, hy, rfl, rfl⟩
    exact ⟨i, rfl, hy⟩
  · rintro ⟨i, rfl, hx⟩
    exact ⟨i, x, hx, rfl, rfl⟩

theorem bounds_of_mem_numbered {xs : List α} {l : Nat × α} (h : l ∈ numbered xs) :
    1 ≤ l.1 ∧ l.1 ≤ xs.length := by
  obtain ⟨i, hn, hi⟩ := mem_numbered_iff.1 h
  have := (List.getElem?_eq_some_iff.1 hi).1
  omega

theorem pairwise_numbered (xs : List α) : (numbered xs).Pairwise (·.1 < ·.1) := by
  apply List.pairwise_iff_getElem.2
  intro i j hi hj hij
  simp only [numbered, List.getElem_mapIdx]
  omega

/-- A list with positions counted from `n`. -/
def numberedFrom (n : Nat) (xs : List α) : List (Nat × α) :=
  xs.mapIdx fun i x => (n + i, x)

theorem numbered_eq_numberedFrom (xs : List α) : numbered xs = numberedFrom 1 xs := by
  simp [numbered, numberedFrom, Nat.add_comm]

theorem numberedFrom_cons (n : Nat) (x : α) (xs : List α) :
    numberedFrom n (x :: xs) = (n, x) :: numberedFrom (n + 1) xs := by
  simp [numberedFrom, Nat.add_assoc, Nat.add_comm 1]

theorem numberedFrom_append (n : Nat) (xs ys : List α) :
    numberedFrom n (xs ++ ys) = numberedFrom n xs ++ numberedFrom (n + xs.length) ys := by
  simp [numberedFrom, List.mapIdx_append, Nat.add_assoc, Nat.add_comm xs.length]

theorem numberedFrom_succ (n : Nat) (xs : List α) :
    numberedFrom (n + 1) xs = (numberedFrom n xs).map fun l => (l.1 + 1, l.2) := by
  apply List.ext_getElem?
  intro i
  simp only [numberedFrom, List.getElem?_mapIdx, List.getElem?_map, Option.map_map,
    Function.comp_def, Nat.add_right_comm n 1 i]

theorem bounds_of_mem_numberedFrom {n : Nat} {xs : List α} {l : Nat × α}
    (h : l ∈ numberedFrom n xs) : n ≤ l.1 ∧ l.1 < n + xs.length := by
  obtain ⟨i, hi, rfl⟩ := List.mem_mapIdx.1 h
  exact ⟨Nat.le_add_right n i, Nat.add_lt_add_left hi n⟩

/-- Entries that are read back from the lines that they are written in. -/
theorem map_numberedFrom {β γ : Type _} {write : β → α} {read : Nat × α → γ} {value : Nat → β → γ}
    {xs : List β} (h : ∀ x ∈ xs, ∀ k, read (k, write x) = value k x) (n : Nat) :
    (numberedFrom n (xs.map write)).map read = xs.mapIdx fun i x => value (n + i) x := by
  induction xs generalizing n with
  | nil => rfl
  | cons x xs ih =>
    obtain ⟨first, rest⟩ := List.forall_mem_cons.1 h
    have shift (i : Nat) : n + 1 + i = n + (i + 1) := by omega
    rw [List.map_cons, numberedFrom_cons, List.map_cons, List.mapIdx_cons, first, ih rest]
    simp only [shift, Nat.add_zero]

theorem mem_of_mem_numberedFrom {n : Nat} {xs : List α} {l : Nat × α}
    (h : l ∈ numberedFrom n xs) : l.2 ∈ xs := by
  obtain ⟨i, hi, rfl⟩ := List.mem_mapIdx.1 h
  exact List.getElem_mem hi

/-! ## Lines written one below the other -/

theorem splitOn_unlines {ls : List (List Char)} (single : ∀ l ∈ ls, '\n' ∉ l) :
    (unlines ls).splitOn '\n' = ls ++ [[]] := by
  induction ls with
  | nil => rfl
  | cons l ls ih =>
    obtain ⟨first, rest⟩ := List.forall_mem_cons.1 single
    have shape : unlines (l :: ls) = l ++ '\n' :: unlines ls := by simp [unlines]
    rw [shape, List.splitOn_append_cons_self_of_not_mem first, ih rest, List.cons_append]

theorem dropReturn_eq_self {s : List Char} (ending : s.getLast? ≠ some '\r') :
    dropReturn s = s := by
  simp only [dropReturn]

/-- Lines that are written one below the other are read again. -/
theorem lines_unlines {ls : List (List Char)} (single : ∀ l ∈ ls, '\n' ∉ l)
    (ending : ∀ l ∈ ls, l.getLast? ≠ some '\r') : lines (unlines ls) = ls := by
  have same : ls.map dropReturn = ls := by
    rw [List.map_congr_left fun l hl => dropReturn_eq_self (ending l hl), List.map_id']
  rw [lines, splitOn_unlines single]
  simp [same]

/-! ## A mark in front -/

theorem dropReturn_cons {c : Char} (hc : c ≠ '\r') (s : List Char) :
    dropReturn (c :: s) = c :: dropReturn s := by
  cases s with
  | nil =>
    simp only [dropReturn]
    split
    · rename_i last
      exact absurd (by simpa using last) hc
    · rfl
  | cons d s =>
    simp only [dropReturn]
    rw [List.getLast?_cons_cons]
    split <;> rfl

/-- A character in front that ends no line belongs to the first line. -/
theorem lines_cons {c : Char} (hreturn : c ≠ '\r') (hfeed : c ≠ '\n') {s first : List Char}
    {rest : List (List Char)} (h : lines s = first :: rest) :
    lines (c :: s) = (c :: first) :: rest := by
  have front : (c :: s).splitOn '\n' = (s.splitOn '\n').modifyHead (c :: ·) := by
    rw [List.splitOn_cons_eq_if_modifyHead, if_neg (by simpa using hfeed)]
  rw [lines] at h ⊢
  rw [front]
  cases pieces : s.splitOn '\n' with
  | nil => exact absurd pieces (List.splitOn_ne_nil '\n' s)
  | cons p ps =>
    rw [pieces] at h
    cases ps with
    | nil =>
      cases p with
      | nil => cases h
      | cons d p =>
        cases h
        rfl
    | cons q ps =>
      simp only [List.dropLast_cons_cons, List.map_cons, List.cons_append, List.cons.injEq,
        List.modifyHead_cons, dropReturn_cons hreturn, List.getLast?_cons_cons] at h ⊢
      exact ⟨⟨trivial, h.1⟩, h.2⟩

end ScriptAudit.Text
