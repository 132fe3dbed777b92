/-!
# Sorting

Sorting by insertion, which keeps elements that tie in the order given. For any `le` the result is a
permutation; a total and transitive `le` puts it in order. A list that is in order stays as it is.
-/

namespace ScriptAudit

variable {α : Type}

/-- Puts `x` before the first element that it does not have to follow. -/
def insertBy (le : α → α → Bool) (x : α) : List α → List α
  | [] => [x]
  | y :: rest => if le x y then x :: y :: rest else y :: insertBy le x rest

def sortBy (le : α → α → Bool) : List α → List α
  | [] => []
  | x :: rest => insertBy le x (sortBy le rest)

theorem insertBy_perm (le : α → α → Bool) (x : α) (xs : List α) :
    (insertBy le x xs).Perm (x :: xs) := by
  induction xs with
  | nil => exact .refl _
  | cons y rest ih =>
    rw [insertBy]
    split
    · exact .refl _
    · exact (ih.cons y).trans (.swap x y rest)

theorem sortBy_perm (le : α → α → Bool) (xs : List α) : (sortBy le xs).Perm xs := by
  induction xs with
  | nil => exact .refl _
  | cons x rest ih => exact (insertBy_perm le x _).trans (ih.cons x)

theorem mem_sortBy {le : α → α → Bool} {xs : List α} {a : α} : a ∈ sortBy le xs ↔ a ∈ xs :=
  (sortBy_perm le xs).mem_iff

theorem pairwise_insertBy {le : α → α → Bool} (trans : ∀ a b c, le a b → le b c → le a c)
    (total : ∀ a b, (le a b || le b a) = true) (x : α) {xs : List α} (h : xs.Pairwise (le · ·)) :
    (insertBy le x xs).Pairwise (le · ·) := by
  induction xs with
  | nil => exact List.pairwise_singleton _ _
  | cons y rest ih =>
    obtain ⟨hy, hrest⟩ := List.pairwise_cons.1 h
    rw [insertBy]
    split
    case isTrue hxy =>
      refine List.pairwise_cons.2 ⟨fun z hz => ?_, h⟩
      rcases List.mem_cons.1 hz with rfl | hz
      · exact hxy
      · exact trans x y z hxy (hy z hz)
    case isFalse hxy =>
      refine List.pairwise_cons.2 ⟨fun z hz => ?_, ih hrest⟩
      rcases List.mem_cons.1 ((insertBy_perm le x rest).mem_iff.1 hz) with rfl | hz
      · simpa [hxy] using total z y
      · exact hy z hz

theorem pairwise_sortBy {le : α → α → Bool} (trans : ∀ a b c, le a b → le b c → le a c)
    (total : ∀ a b, (le a b || le b a) = true) (xs : List α) :
    (sortBy le xs).Pairwise (le · ·) := by
  induction xs with
  | nil => exact .nil
  | cons x rest ih => exact pairwise_insertBy trans total x ih

/-- A list is sorted in one way only, if its elements are equal where they tie. -/
theorem sortBy_eq_of_perm {le : α → α → Bool} (trans : ∀ a b c, le a b → le b c → le a c)
    (total : ∀ a b, (le a b || le b a) = true) {xs ys : List α} (perm : xs.Perm ys)
    (antisymm : ∀ a ∈ xs, ∀ b ∈ xs, le a b → le b a → a = b) : sortBy le xs = sortBy le ys := by
  have same : (sortBy le xs).Perm (sortBy le ys) :=
    (sortBy_perm le xs).trans (perm.trans (sortBy_perm le ys).symm)
  refine List.Perm.eq_of_pairwise (fun a b ha hb hab hba => ?_) (pairwise_sortBy trans total xs)
    (pairwise_sortBy trans total ys) same
  exact antisymm a (mem_sortBy.1 ha) b (perm.mem_iff.2 (mem_sortBy.1 hb)) hab hba

theorem sortBy_of_pairwise {le : α → α → Bool} {xs : List α} (h : xs.Pairwise (le · ·)) :
    sortBy le xs = xs := by
  induction xs with
  | nil => rfl
  | cons x rest ih =>
    obtain ⟨hx, hrest⟩ := List.pairwise_cons.1 h
    rw [sortBy, ih hrest]
    cases rest with
    | nil => rfl
    | cons y rest => rw [insertBy, if_pos (hx y List.mem_cons_self)]

theorem sortBy_append (le : α → α → Bool) (xs ys : List α) :
    sortBy le (xs ++ ys) = xs.foldr (insertBy le) (sortBy le ys) := by
  induction xs with
  | nil => rfl
  | cons x rest ih => rw [List.cons_append, sortBy, ih, List.foldr_cons]

/-- Elements that do not tie, or are equal, may be put in one before the other. -/
theorem insertBy_comm {le : α → α → Bool} (trans : ∀ a b c, le a b → le b c → le a c)
    (total : ∀ a b, (le a b || le b a) = true) {a b : α} (antisymm : le a b → le b a → a = b)
    (xs : List α) : insertBy le a (insertBy le b xs) = insertBy le b (insertBy le a xs) := by
  by_cases same : a = b
  · rw [same]
  · have oneWay : le a b = !le b a := by
      have either := total a b
      cases hab : le a b <;> cases hba : le b a <;> simp_all
    induction xs with
    | nil => cases hba : le b a <;> simp [insertBy, oneWay, hba]
    | cons y rest ih =>
      by_cases hb : le b y = true
      · by_cases ha : le a y = true
        · cases hba : le b a <;> simp [insertBy, oneWay, ha, hb, hba]
        · have hba : le b a = true := by
            have hab : le a b ≠ true := fun hab => ha (trans a b y hab hb)
            simpa [oneWay] using hab
          simp [insertBy, oneWay, ha, hb, hba]
      · by_cases ha : le a y = true
        · have hba : le b a ≠ true := fun hba => hb (trans b a y hba ha)
          simp [insertBy, ha, hb, hba]
        · simp [insertBy, ha, hb, ih]

/-- What stands in front may be rearranged, if its elements are equal where they tie. What follows
may tie with it. -/
theorem sortBy_append_of_perm {le : α → α → Bool} (trans : ∀ a b c, le a b → le b c → le a c)
    (total : ∀ a b, (le a b || le b a) = true) {xs ys : List α} (perm : xs.Perm ys)
    (antisymm : ∀ a ∈ xs, ∀ b ∈ xs, le a b → le b a → a = b) (rest : List α) :
    sortBy le (xs ++ rest) = sortBy le (ys ++ rest) := by
  rw [sortBy_append, sortBy_append]
  exact perm.foldr_eq' (fun a ha b hb => insertBy_comm trans total (antisymm b hb a ha)) _

theorem filter_insertBy {le : α → α → Bool} {p : α → Bool}
    (tied : ∀ a b, p a → p b → le a b) (x : α) (xs : List α) :
    (insertBy le x xs).filter p = (x :: xs).filter p := by
  induction xs with
  | nil => rfl
  | cons y rest ih =>
    rw [insertBy]
    split
    case isTrue => rfl
    case isFalse hxy =>
      have apart : ¬(p x = true ∧ p y = true) := fun ⟨hx, hy⟩ => hxy (tied x y hx hy)
      rw [List.filter_cons, ih]
      cases hx : p x <;> cases hy : p y <;> simp_all

/-- Elements that tie keep their order. -/
theorem filter_sortBy {le : α → α → Bool} {p : α → Bool}
    (tied : ∀ a b, p a → p b → le a b) (xs : List α) :
    (sortBy le xs).filter p = xs.filter p := by
  induction xs with
  | nil => rfl
  | cons x rest ih => rw [sortBy, filter_insertBy tied, List.filter_cons, List.filter_cons, ih]

/-- What is filtered out of a list in order leaves it to the rest where an element goes. -/
theorem filter_insertBy_of_pairwise {le : α → α → Bool} (trans : ∀ a b c, le a b → le b c → le a c)
    (p : α → Bool) (x : α) {xs : List α} (h : xs.Pairwise (le · ·)) :
    (insertBy le x xs).filter p = if p x then insertBy le x (xs.filter p) else xs.filter p := by
  induction xs with
  | nil => cases hx : p x <;> simp [insertBy, hx]
  | cons y rest ih =>
    obtain ⟨hy, hrest⟩ := List.pairwise_cons.1 h
    rw [insertBy]
    split
    case isTrue hxy =>
      -- everything kept is behind `y`, and so behind `x`
      have front : insertBy le x ((y :: rest).filter p) = x :: (y :: rest).filter p := by
        have behind : ∀ z ∈ (y :: rest).filter p, le x z = true := by
          intro z hz
          rcases List.mem_cons.1 (List.mem_filter.1 hz).1 with rfl | hz
          · exact hxy
          · exact trans x y z hxy (hy z hz)
        cases kept : (y :: rest).filter p with
        | nil => rfl
        | cons z more =>
          rw [kept] at behind
          rw [insertBy, if_pos (behind z List.mem_cons_self)]
      rw [front, List.filter_cons]
    case isFalse hxy =>
      rw [List.filter_cons, ih hrest, List.filter_cons]
      cases hy : p y <;> cases hx : p x <;> simp [insertBy, hxy]

/-- Sorting and filtering may change places. -/
theorem sortBy_filter {le : α → α → Bool} (trans : ∀ a b c, le a b → le b c → le a c)
    (total : ∀ a b, (le a b || le b a) = true) (p : α → Bool) (xs : List α) :
    sortBy le (xs.filter p) = (sortBy le xs).filter p := by
  induction xs with
  | nil => rfl
  | cons x rest ih =>
    rw [sortBy, filter_insertBy_of_pairwise trans p x (pairwise_sortBy trans total rest), ← ih,
      List.filter_cons]
    split <;> rfl

theorem map_insertBy {β : Type} {le : α → α → Bool} {le' : β → β → Bool} {f : α → β} {x : α}
    {xs : List α} (same : ∀ a ∈ xs, le' (f x) (f a) = le x a) :
    insertBy le' (f x) (xs.map f) = (insertBy le x xs).map f := by
  induction xs with
  | nil => rfl
  | cons y rest ih =>
    obtain ⟨first, further⟩ := List.forall_mem_cons.1 same
    rw [List.map_cons, insertBy, insertBy, first, ih further]
    split <;> rfl

/-- So may sorting and a change that the order of the elements does not look at. -/
theorem sortBy_map {β : Type} {le : α → α → Bool} {le' : β → β → Bool} {f : α → β} {xs : List α}
    (same : ∀ a ∈ xs, ∀ b ∈ xs, le' (f a) (f b) = le a b) :
    sortBy le' (xs.map f) = (sortBy le xs).map f := by
  induction xs with
  | nil => rfl
  | cons x rest ih =>
    have inner : ∀ a ∈ rest, ∀ b ∈ rest, le' (f a) (f b) = le a b := fun a ha b hb =>
      same a (List.mem_cons_of_mem x ha) b (List.mem_cons_of_mem x hb)
    have outer : ∀ a ∈ sortBy le rest, le' (f x) (f a) = le x a := fun a ha =>
      same x List.mem_cons_self a (List.mem_cons_of_mem x (mem_sortBy.1 ha))
    rw [List.map_cons, sortBy, ih inner, map_insertBy outer, sortBy]

/-- Orders that agree on the elements sort them alike. -/
theorem sortBy_congr {le le' : α → α → Bool} {xs : List α}
    (same : ∀ a ∈ xs, ∀ b ∈ xs, le' a b = le a b) : sortBy le' xs = sortBy le xs := by
  simpa using @sortBy_map α α le le' id xs same

end ScriptAudit
