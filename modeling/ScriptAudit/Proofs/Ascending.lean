/-!
# Lists in ascending order of a key

In such a list the key tells elements apart, and standing earlier is the same as having the lower
key.
-/

namespace ScriptAudit

variable {α : Type _} {key : α → Nat} {xs : List α}

theorem eq_of_key_eq (ascending : xs.Pairwise fun a b => key a < key b) {a b : α} (ha : a ∈ xs)
    (hb : b ∈ xs) (same : key a = key b) : a = b := by
  induction xs with
  | nil => cases ha
  | cons x rest ih =>
    obtain ⟨above, ascending⟩ := List.pairwise_cons.1 ascending
    rcases List.mem_cons.1 ha with rfl | below
    · rcases List.mem_cons.1 hb with rfl | hb
      · rfl
      · have := above b hb
        omega
    · rcases List.mem_cons.1 hb with rfl | hb
      · have := above a below
        omega
      · exact ih ascending below hb

/-- Such a list is determined by its members. -/
theorem eq_of_mem_iff {ys : List α} (ascending : xs.Pairwise fun a b => key a < key b)
    (ascending' : ys.Pairwise fun a b => key a < key b) (members : ∀ a, a ∈ xs ↔ a ∈ ys) :
    xs = ys := by
  have distinct {zs : List α} (h : zs.Pairwise fun a b => key a < key b) : zs.Nodup := by
    refine h.imp fun lt same => ?_
    rw [same] at lt
    exact Nat.lt_irrefl _ lt
  have perm := (List.perm_ext_iff_of_nodup (distinct ascending) (distinct ascending')).2 members
  exact perm.eq_of_pairwise (fun a b _ _ hab hba => absurd hba (Nat.lt_asymm hab)) ascending
    ascending'

theorem filter_key_eq_singleton (ascending : xs.Pairwise fun a b => key a < key b) {a : α}
    (ha : a ∈ xs) : (xs.filter fun b => key b = key a) = [a] := by
  refine eq_of_mem_iff (ascending.filter _) (List.pairwise_singleton _ a) fun b => ?_
  rw [List.mem_filter, decide_eq_true_iff, List.mem_singleton]
  constructor
  · rintro ⟨hb, same⟩
    exact eq_of_key_eq ascending hb ha same
  · rintro rfl
    exact ⟨ha, rfl⟩

theorem key_le_of_getLast? (ascending : xs.Pairwise fun a b => key a < key b) {a b : α}
    (last : xs.getLast? = some b) (ha : a ∈ xs) : key a ≤ key b := by
  obtain ⟨front, rfl⟩ := List.getLast?_eq_some_iff.1 last
  rcases List.mem_append.1 ha with above | same
  · exact Nat.le_of_lt ((List.pairwise_append.1 ascending).2.2 a above b List.mem_cons_self)
  · rcases List.mem_singleton.1 same with rfl
    exact Nat.le_refl _

/-- What is found first is the least of its kind. -/
theorem find?_eq_some_iff_of_key_lt (ascending : xs.Pairwise fun a b => key a < key b)
    {p : α → Bool} {a : α} :
    xs.find? p = some a ↔ a ∈ xs ∧ p a = true ∧ ∀ b ∈ xs, p b = true → key a ≤ key b := by
  have least {b : α} (found : xs.find? p = some b) :
      b ∈ xs ∧ p b = true ∧ ∀ c ∈ xs, p c = true → key b ≤ key c := by
    obtain ⟨accepted, front, back, rfl, none⟩ := List.find?_eq_some_iff_append.1 found
    refine ⟨by simp, accepted, fun c hc hp => ?_⟩
    rcases List.mem_append.1 hc with before | behind
    · have refused := none c before
      rw [hp] at refused
      cases refused
    · rcases List.mem_cons.1 behind with rfl | behind
      · exact Nat.le_refl _
      · have ordered := (List.pairwise_append.1 ascending).2.1
        exact Nat.le_of_lt ((List.pairwise_cons.1 ordered).1 c behind)
  refine ⟨least, fun ⟨ha, accepted, below⟩ => ?_⟩
  cases found : xs.find? p with
  | none => exact absurd accepted (List.find?_eq_none.1 found a ha)
  | some b =>
    obtain ⟨hb, accepted', below'⟩ := least found
    have upto := below b hb accepted'
    have above := below' a ha accepted
    rw [eq_of_key_eq ascending ha hb (by omega)]

theorem pairwise_iff_of_key_lt (ascending : xs.Pairwise fun a b => key a < key b)
    {P : α → α → Prop} :
    xs.Pairwise P ↔ ∀ a ∈ xs, ∀ b ∈ xs, key a < key b → P a b := by
  constructor
  · intro h
    induction xs with
    | nil => simp
    | cons x rest ih =>
      obtain ⟨above, ascending⟩ := List.pairwise_cons.1 ascending
      obtain ⟨first, h⟩ := List.pairwise_cons.1 h
      intro a ha b hb lt
      rcases List.mem_cons.1 ha with rfl | below
      · rcases List.mem_cons.1 hb with rfl | hb
        · omega
        · exact first b hb
      · rcases List.mem_cons.1 hb with rfl | hb
        · have := above a below
          omega
        · exact ih ascending h a below b hb lt
  · intro h
    exact ascending.imp_of_mem fun ha hb lt => h _ ha _ hb lt

end ScriptAudit
