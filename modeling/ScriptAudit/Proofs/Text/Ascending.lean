import ScriptAudit.Text.Ascending

/-!
# The order of texts

A set of texts, listed in ascending order, is determined by its members, and a search finds the least
of them that will do. Texts that are read up to a mark are compared there, before what follows the
mark.
-/

namespace ScriptAudit.Text

theorem pairwise_lt_ascending (texts : List String) : (ascending texts).Pairwise (· < ·) := by
  apply ((pairwise_ascending texts).and (nodup_ascending texts)).imp
  intro a b h
  obtain ⟨le, apart⟩ := h
  exact String.not_le.1 fun ge => apart (String.le_antisymm le ge)

theorem ascending_eq {texts ys : List String} (ordered : ys.Pairwise (· < ·))
    (members : ∀ s, s ∈ texts ↔ s ∈ ys) : ascending texts = ys := by
  have nodup : ys.Nodup := ordered.imp String.ne_of_lt
  have perm : (ascending texts).Perm ys :=
    (List.perm_ext_iff_of_nodup (nodup_ascending texts) nodup).2 fun s =>
      mem_ascending.trans (members s)
  exact List.Perm.eq_of_pairwise (fun a b _ _ hab hba => absurd hba (String.lt_asymm hab))
    (pairwise_lt_ascending texts) ordered perm

theorem ascending_congr {xs ys : List String} (members : ∀ s, s ∈ xs ↔ s ∈ ys) :
    ascending xs = ascending ys :=
  ascending_eq (pairwise_lt_ascending ys) fun s => (members s).trans mem_ascending.symm

theorem ascending_sublist {xs ys : List String} (subset : xs ⊆ ys) :
    (ascending xs).Sublist (ascending ys) := by
  have kept : ascending xs = (ascending ys).filter (· ∈ xs) := by
    refine ascending_eq ((pairwise_lt_ascending ys).filter _) fun s => ?_
    simp only [List.mem_filter, mem_ascending, decide_eq_true_eq]
    exact ⟨fun hs => ⟨subset hs, hs⟩, And.right⟩
  rw [kept]
  exact List.filter_sublist

/-- What is found first is the least text of its kind. -/
theorem find?_ascending_eq_some_iff {texts : List String} {p : String → Bool} {s : String} :
    (ascending texts).find? p = some s ↔
      s ∈ texts ∧ p s = true ∧ ∀ t ∈ texts, p t = true → s ≤ t := by
  have least {u : String} (found : (ascending texts).find? p = some u) :
      u ∈ texts ∧ p u = true ∧ ∀ t ∈ texts, p t = true → u ≤ t := by
    obtain ⟨accepted, front, back, split, none⟩ := List.find?_eq_some_iff_append.1 found
    have ordered := pairwise_ascending texts
    rw [split] at ordered
    refine ⟨mem_ascending.1 (split ▸ by simp), accepted, fun t ht own => ?_⟩
    have among : t ∈ front ++ u :: back := split ▸ mem_ascending.2 ht
    rcases List.mem_append.1 among with before | behind
    · have refused := none t before
      rw [own] at refused
      cases refused
    · rcases List.mem_cons.1 behind with rfl | behind
      · exact String.le_refl _
      · exact (List.pairwise_cons.1 (List.pairwise_append.1 ordered).2.1).1 t behind
  refine ⟨least, fun ⟨hs, accepted, below⟩ => ?_⟩
  cases found : (ascending texts).find? p with
  | none => exact absurd accepted (List.find?_eq_none.1 found s (mem_ascending.2 hs))
  | some u =>
    obtain ⟨hu, own, above⟩ := least found
    rw [String.le_antisymm (above s hs accepted) (below u hu own)]

/-! ## Comparing up to a mark -/

theorem compare_congr {a b c d : String} (lt : a < b ↔ c < d) (gt : b < a ↔ d < c) :
    compare a b = compare c d := by
  have eq_iff (s t : String) : s = t ↔ ¬s < t ∧ ¬t < s := by
    constructor
    · rintro rfl
      exact ⟨String.lt_irrefl s, String.lt_irrefl s⟩
    · rintro ⟨above, below⟩
      exact String.le_antisymm (String.not_lt.1 below) (String.not_lt.1 above)
  have eq : a = b ↔ c = d := by rw [eq_iff, eq_iff c d, lt, gt]
  change compareOfLessAndEq a b = compareOfLessAndEq c d
  simp only [compareOfLessAndEq, lt, eq]

/-- What follows the first mark is compared only where the texts in front of it are the same. -/
theorem append_cons_lt_congr {mark : Char} {a b s t s' t' : List Char} (ha : mark ∉ a)
    (hb : mark ∉ b) (same : a = b → (s < t ↔ s' < t')) :
    a ++ mark :: s < b ++ mark :: t ↔ a ++ mark :: s' < b ++ mark :: t' := by
  induction a generalizing b with
  | nil =>
    cases b with
    | nil => simp only [List.nil_append, List.cons_lt_cons_iff, same rfl]
    | cons d b =>
      have apart : mark ≠ d := List.ne_of_not_mem_cons hb
      simp only [List.nil_append, List.cons_append, List.cons_lt_cons_iff, apart, false_and]
  | cons c a ih =>
    cases b with
    | nil =>
      have apart : c ≠ mark := (List.ne_of_not_mem_cons ha).symm
      simp only [List.nil_append, List.cons_append, List.cons_lt_cons_iff, apart, false_and]
    | cons d b =>
      simp only [List.cons_append, List.cons_lt_cons_iff]
      refine or_congr_right (and_congr_right fun equal => ?_)
      exact ih (List.not_mem_of_not_mem_cons ha) (List.not_mem_of_not_mem_cons hb)
        fun rest => same (by rw [equal, rest])

end ScriptAudit.Text
