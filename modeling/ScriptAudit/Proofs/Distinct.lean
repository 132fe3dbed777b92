import Mathlib.Data.List.Basic

/-!
# First occurrences

Out of a list, the elements whose key has not occurred before. Collecting into a list that takes an
element only when its key is new comes to the same.
-/

namespace ScriptAudit

variable {α κ : Type _} [DecidableEq κ] {key : α → κ}

/-- The elements that bring a new key, in order. -/
def firstOf (key : α → κ) : List α → List α
  | [] => []
  | a :: rest => a :: (firstOf key rest).filter fun b => key b ≠ key a

theorem firstOf_sublist (xs : List α) : (firstOf key xs).Sublist xs := by
  induction xs with
  | nil => exact .slnil
  | cons a rest ih => exact (List.filter_sublist.trans ih).cons_cons a

theorem mem_of_mem_firstOf {xs : List α} {a : α} (h : a ∈ firstOf key xs) : a ∈ xs :=
  (firstOf_sublist xs).subset h

theorem pairwise_firstOf (xs : List α) :
    (firstOf key xs).Pairwise fun a b => key a ≠ key b := by
  induction xs with
  | nil => exact .nil
  | cons a rest ih =>
    refine List.pairwise_cons.2 ⟨fun b hb => ?_, ih.filter _⟩
    have new := of_decide_eq_true (List.mem_filter.1 hb).2
    exact fun same => new same.symm

theorem exists_mem_firstOf {xs : List α} {a : α} (h : a ∈ xs) :
    ∃ b ∈ firstOf key xs, key b = key a := by
  induction xs with
  | nil => cases h
  | cons x rest ih =>
    by_cases same : key a = key x
    · exact ⟨x, List.mem_cons_self, same.symm⟩
    · rcases List.mem_cons.1 h with rfl | later
      · exact absurd rfl same
      · obtain ⟨b, hb, hkey⟩ := ih later
        refine ⟨b, List.mem_cons_of_mem _ (List.mem_filter.2 ⟨hb, ?_⟩), hkey⟩
        exact decide_eq_true (hkey ▸ same)

/-- Every key is kept. -/
theorem exists_firstOf_key_iff {xs : List α} {k : κ} :
    (∃ b ∈ firstOf key xs, key b = k) ↔ ∃ b ∈ xs, key b = k := by
  constructor
  · rintro ⟨b, hb, same⟩
    exact ⟨b, mem_of_mem_firstOf hb, same⟩
  · rintro ⟨b, hb, rfl⟩
    exact exists_mem_firstOf hb

/-- What comes later does not change which elements were first. -/
theorem exists_firstOf_append (xs ys : List α) :
    ∃ more, firstOf key (xs ++ ys) = firstOf key xs ++ more := by
  induction xs with
  | nil => exact ⟨firstOf key ys, rfl⟩
  | cons x rest ih =>
    obtain ⟨more, split⟩ := ih
    exact ⟨more.filter fun b => key b ≠ key x, by
      rw [List.cons_append, firstOf, split, List.filter_append, firstOf, List.cons_append]⟩

/-- Nothing is added by elements whose keys are known. -/
theorem firstOf_append_of_known {xs ys : List α} (known : ∀ b ∈ ys, ∃ a ∈ xs, key a = key b) :
    firstOf key (xs ++ ys) = firstOf key xs := by
  obtain ⟨more, split⟩ : ∃ more, firstOf key (xs ++ ys) = firstOf key xs ++ more :=
    exists_firstOf_append xs ys
  have none : more = [] := by
    refine List.eq_nil_iff_forall_not_mem.2 fun b hb => ?_
    have distinct : (firstOf key (xs ++ ys)).Pairwise fun a b => key a ≠ key b :=
      pairwise_firstOf _
    rw [split, List.pairwise_append] at distinct
    have here : b ∈ xs ++ ys := mem_of_mem_firstOf (split ▸ List.mem_append_right _ hb)
    obtain ⟨a, ha, same⟩ : ∃ a ∈ firstOf key xs, key a = key b := by
      rcases List.mem_append.1 here with here | here
      · exact exists_mem_firstOf here
      · exact exists_firstOf_key_iff.2 (known b here)
    exact distinct.2.2 a ha b hb same
  rw [split, none, List.append_nil]

theorem firstOf_append_singleton (xs : List α) (a : α) :
    firstOf key (xs ++ [a]) =
      if ∃ b ∈ xs, key b = key a then firstOf key xs else firstOf key xs ++ [a] := by
  induction xs with
  | nil => simp [firstOf]
  | cons x rest ih =>
    rw [List.cons_append, firstOf, ih, firstOf]
    by_cases same : key x = key a
    · have known : ∃ b ∈ x :: rest, key b = key a := ⟨x, List.mem_cons_self, same⟩
      rw [if_pos known]
      split
      · rfl
      · simp [same]
    · by_cases later : ∃ b ∈ rest, key b = key a
      · obtain ⟨b, hb, hkey⟩ := id later
        have known : ∃ b ∈ x :: rest, key b = key a := ⟨b, List.mem_cons_of_mem _ hb, hkey⟩
        rw [if_pos later, if_pos known]
      · have unknown : ¬∃ b ∈ x :: rest, key b = key a := by
          rintro ⟨b, hb, hkey⟩
          rcases List.mem_cons.1 hb with rfl | hb
          · exact same hkey
          · exact later ⟨b, hb, hkey⟩
        have new : key a ≠ key x := fun h => same h.symm
        rw [if_neg later, if_neg unknown, List.filter_append]
        simp [new]

theorem foldl_firstOf (key : α → κ) (xs ys : List α) :
    ys.foldl (fun seen a => if seen.any (key · = key a) then seen else seen ++ [a])
      (firstOf key xs) = firstOf key (xs ++ ys) := by
  induction ys generalizing xs with
  | nil => rw [List.foldl_nil, List.append_nil]
  | cons y ys ih =>
    have known : ((firstOf key xs).any (key · = key y) = true) ↔ ∃ b ∈ xs, key b = key y := by
      rw [← exists_firstOf_key_iff, List.any_eq_true]
      simp only [decide_eq_true_eq]
    have step : (if (firstOf key xs).any (key · = key y) then firstOf key xs
        else firstOf key xs ++ [y]) = firstOf key (xs ++ [y]) := by
      rw [firstOf_append_singleton]
      simp only [known]
    rw [List.foldl_cons, step, ih, List.append_assoc, List.singleton_append]

theorem firstOf_of_pairwise {xs : List α} (distinct : xs.Pairwise fun a b => key a ≠ key b) :
    firstOf key xs = xs := by
  induction xs with
  | nil => rfl
  | cons a rest ih =>
    obtain ⟨apart, distinct⟩ := List.pairwise_cons.1 distinct
    rw [firstOf, ih distinct, List.filter_eq_self.2]
    intro b hb
    exact decide_eq_true (apart b hb).symm

/-- Among elements with different keys each is found by its own. -/
theorem find?_of_pairwise {xs : List α} (distinct : xs.Pairwise fun a b => key a ≠ key b) {a : α}
    (h : a ∈ xs) : xs.find? (fun b => key b = key a) = some a := by
  induction xs with
  | nil => cases h
  | cons x rest ih =>
    obtain ⟨apart, distinct⟩ := List.pairwise_cons.1 distinct
    rcases List.mem_cons.1 h with rfl | later
    · exact List.find?_cons_of_pos (by simp)
    · have other : ¬key x = key a := apart a later
      rw [List.find?_cons_of_neg (by simpa using other), ih distinct later]

theorem eq_of_pairwise {xs : List α} (distinct : xs.Pairwise fun a b => key a ≠ key b) {a b : α}
    (ha : a ∈ xs) (hb : b ∈ xs) (same : key a = key b) : a = b := by
  have found := find?_of_pairwise distinct ha
  rw [same, find?_of_pairwise distinct hb] at found
  exact (Option.some.inj found).symm

/-- Of the blocks of elements with different keys, those of one key are the block of one element. -/
theorem flatMap_of_pairwise {β : Type _} {xs : List α}
    (distinct : xs.Pairwise fun a b => key a ≠ key b) {a : α} (h : a ∈ xs) (block : α → List β) :
    (xs.flatMap fun b => if key b = key a then block b else []) = block a := by
  induction xs with
  | nil => cases h
  | cons x rest ih =>
    obtain ⟨apart, distinct⟩ := List.pairwise_cons.1 distinct
    rw [List.flatMap_cons]
    rcases List.mem_cons.1 h with rfl | later
    · have others : (rest.flatMap fun b => if key b = key a then block b else []) = [] :=
        List.flatMap_eq_nil_iff.2 fun b hb => if_neg (apart b hb).symm
      rw [others, if_pos rfl, List.append_nil]
    · rw [if_neg (apart a later), ih distinct later, List.nil_append]

/-- Grouped by the keys, each of them taken once, the elements are what they were. -/
theorem flatMap_filter_key_perm {ks : List κ} (different : ks.Nodup) {xs : List α}
    (covered : ∀ a ∈ xs, key a ∈ ks) : (ks.flatMap fun k => xs.filter (key · = k)).Perm xs := by
  induction ks generalizing xs with
  | nil =>
    have none : xs = [] := List.eq_nil_iff_forall_not_mem.2 fun a ha => by simpa using covered a ha
    rw [none]
    exact .refl _
  | cons k ks ih =>
    obtain ⟨new, different⟩ := List.nodup_cons.1 different
    -- the groups of the other keys are groups of what the first key leaves
    have others : (ks.flatMap fun l => xs.filter (key · = l)) =
        ks.flatMap fun l => (xs.filter fun a => ¬key a = k).filter (key · = l) := by
      refine List.flatMap_congr fun l hl => ?_
      rw [List.filter_filter]
      refine List.filter_congr fun a _ => ?_
      have apart : key a = l → key a ≠ k := fun own other => new (other ▸ own ▸ hl)
      by_cases own : key a = l
      · simp [own, own ▸ apart own]
      · simp [own]
    have left : ∀ a ∈ xs.filter (fun a => ¬key a = k), key a ∈ ks := by
      intro a ha
      obtain ⟨ha, other⟩ := List.mem_filter.1 ha
      rcases List.mem_cons.1 (covered a ha) with own | later
      · exact absurd own (by simpa using other)
      · exact later
    rw [List.flatMap_cons, others]
    refine ((ih different left).append_left _).trans ?_
    simpa using List.filter_append_perm (fun a => decide (key a = k)) xs

/-- Where the key tells elements apart, only repetitions are dropped. -/
theorem mem_firstOf_iff {xs : List α} (apart : ∀ a ∈ xs, ∀ b ∈ xs, key a = key b → a = b) {a : α} :
    a ∈ firstOf key xs ↔ a ∈ xs := by
  constructor
  · exact mem_of_mem_firstOf
  · intro h
    obtain ⟨b, hb, same⟩ : ∃ b ∈ firstOf key xs, key b = key a := exists_mem_firstOf h
    rw [← apart b (mem_of_mem_firstOf hb) a h same]
    exact hb

theorem nodup_firstOf (xs : List α) : (firstOf key xs).Nodup :=
  (pairwise_firstOf xs).imp fun apart same => apart (congrArg key same)

/-- Where the key tells elements apart, the order of the list does not decide what is kept. -/
theorem firstOf_perm {xs ys : List α} (perm : xs.Perm ys)
    (apart : ∀ a ∈ xs, ∀ b ∈ xs, key a = key b → a = b) :
    (firstOf key xs).Perm (firstOf key ys) := by
  refine (List.perm_ext_iff_of_nodup (nodup_firstOf xs) (nodup_firstOf ys)).2 fun a => ?_
  rw [mem_firstOf_iff apart, mem_firstOf_iff fun a ha b hb =>
    apart a (perm.mem_iff.2 ha) b (perm.mem_iff.2 hb)]
  exact perm.mem_iff

/-- Elements that go by their keys may be left out first or last. -/
theorem firstOf_filter {xs : List α} {q : α → Bool}
    (agree : ∀ a ∈ xs, ∀ b ∈ xs, key a = key b → q a = q b) :
    firstOf key (xs.filter q) = (firstOf key xs).filter q := by
  induction xs with
  | nil => rfl
  | cons a rest ih =>
    have inner := ih fun b hb c hc =>
      agree b (List.mem_cons_of_mem _ hb) c (List.mem_cons_of_mem _ hc)
    rw [firstOf, List.filter_cons, List.filter_cons]
    cases kept : q a with
    | true =>
      rw [if_pos rfl, if_pos rfl, firstOf, inner, List.filter_comm]
    | false =>
      rw [if_neg (by simp), if_neg (by simp), inner, List.filter_filter]
      refine List.filter_congr fun b hb => ?_
      cases left : q b with
      | false => rfl
      | true =>
        have apart : key b ≠ key a := by
          intro same
          have equal := agree b (List.mem_cons_of_mem _ (mem_of_mem_firstOf hb)) a
            List.mem_cons_self same
          rw [left, kept] at equal
          cases equal
        rw [decide_eq_true apart]
        rfl

/-- Two keys keep the same of certain elements when they compare these with all others alike. -/
theorem filter_firstOf_congr {ι : Type _} [DecidableEq ι] {key' : α → ι} {xs : List α}
    {q : α → Bool}
    (agree : ∀ a ∈ xs, ∀ b ∈ xs, q b = true → (key b = key a ↔ key' b = key' a)) :
    (firstOf key xs).filter q = (firstOf key' xs).filter q := by
  induction xs with
  | nil => rfl
  | cons a rest ih =>
    have inner := ih fun b hb c hc =>
      agree b (List.mem_cons_of_mem _ hb) c (List.mem_cons_of_mem _ hc)
    have tail : ((firstOf key rest).filter fun b => key b ≠ key a).filter q =
        ((firstOf key' rest).filter fun b => key' b ≠ key' a).filter q := by
      rw [List.filter_comm, List.filter_comm q, inner]
      refine List.filter_congr fun b hb => ?_
      obtain ⟨hb, left⟩ := List.mem_filter.1 hb
      have alike := agree a List.mem_cons_self b (List.mem_cons_of_mem _ (mem_of_mem_firstOf hb)) left
      exact decide_eq_decide.2 (not_congr alike)
    rw [firstOf, firstOf, List.filter_cons, List.filter_cons, tail]

theorem firstOf_congr {key' : α → κ} {xs : List α} (same : ∀ a ∈ xs, key a = key' a) :
    firstOf key xs = firstOf key' xs := by
  have agree : ∀ a ∈ xs, ∀ b ∈ xs, true = true → (key b = key a ↔ key' b = key' a) := by
    intro a ha b hb _
    rw [same a ha, same b hb]
  have all (ys : List α) : ys.filter (fun _ => true) = ys := List.filter_eq_self.2 fun _ _ => rfl
  have kept := filter_firstOf_congr agree
  rwa [all, all] at kept

theorem map_firstOf {β : Type _} (key : β → κ) (f : α → β) (xs : List α) :
    (firstOf (fun a => key (f a)) xs).map f = firstOf key (xs.map f) := by
  induction xs with
  | nil => rfl
  | cons a rest ih =>
    rw [firstOf, List.map_cons, List.map_cons, firstOf, ← ih, List.filter_map]
    rfl

end ScriptAudit
