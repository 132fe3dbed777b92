import ScriptAudit.Sorting

/-!
# Ascending texts

A set of texts as the list of its members in ascending order, compared by code point.
-/

namespace ScriptAudit.Text

/-- Each text once, in ascending order. -/
def ascending (texts : List String) : List String :=
  sortBy (fun a b => a ≤ b) texts.eraseDups

theorem mem_ascending {texts : List String} {s : String} : s ∈ ascending texts ↔ s ∈ texts := by
  rw [ascending, mem_sortBy, List.mem_eraseDups]

theorem nodup_eraseDups (texts : List String) : texts.eraseDups.Nodup := by
  generalize length : texts.length = n
  induction n using Nat.strongRecOn generalizing texts with
  | ind n ih =>
    cases texts with
    | nil => exact .nil
    | cons s rest =>
      rw [List.eraseDups_cons]
      refine List.nodup_cons.2 ⟨?_, ih _ ?_ _ rfl⟩
      · rw [List.mem_eraseDups, List.mem_filter]
        simp
      · have shorter := List.length_filter_le (fun t => !t == s) rest
        rw [List.length_cons] at length
        omega

theorem nodup_ascending (texts : List String) : (ascending texts).Nodup :=
  (sortBy_perm _ _).nodup_iff.2 (nodup_eraseDups texts)

theorem pairwise_ascending (texts : List String) : (ascending texts).Pairwise (· ≤ ·) := by
  have trans (a b c : String) (hab : decide (a ≤ b) = true) (hbc : decide (b ≤ c) = true) :
      decide (a ≤ c) = true :=
    decide_eq_true (String.le_trans (of_decide_eq_true hab) (of_decide_eq_true hbc))
  have total (a b : String) : (decide (a ≤ b) || decide (b ≤ a)) = true := by
    simpa using String.le_total a b
  exact (pairwise_sortBy trans total texts.eraseDups).imp of_decide_eq_true

end ScriptAudit.Text
