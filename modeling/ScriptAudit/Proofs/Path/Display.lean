import Mathlib.Data.List.Forall2
import ScriptAudit.Path

/-!
# Paths as they are shown

A path is shown with slashes in place of its backslashes, although a backslash is a character of a
name like any other. So paths are shown alike when they differ in these two characters only. A path
without a backslash is shown as it is.
-/

namespace ScriptAudit

namespace Path

def IsSlash (c : Char) : Prop :=
  c = '/' ∨ c = '\\'

/-- The paths are written the same, except that one may have a slash where the other has a
backslash. -/
def Alike (p q : Path) : Prop :=
  List.Forall₂ (fun a b => a = b ∨ IsSlash a ∧ IsSlash b) p.text.toList q.text.toList

variable {p q : Path}

theorem display_eq_iff : p.display = q.display ↔ p.Alike q := by
  have shown (a b : Char) : (if a = '\\' then '/' else a) = (if b = '\\' then '/' else b) ↔
      a = b ∨ IsSlash a ∧ IsSlash b := by
    rw [IsSlash, IsSlash]
    by_cases ha : a = '\\' <;> by_cases hb : b = '\\' <;> simp [ha, hb, eq_comm]
    rintro rfl rfl
    rfl
  rw [display, display, String.ofList_inj, Alike, ← List.forall₂_eq_eq_eq,
    List.forall₂_map_left_iff, List.forall₂_map_right_iff]
  simp only [shown]

theorem display_of_not_mem (free : '\\' ∉ p.text.toList) : p.display = p.text := by
  have same : p.text.toList.map (fun c => if c = '\\' then '/' else c) = p.text.toList.map id := by
    refine List.map_congr_left fun c hc => if_neg ?_
    rintro rfl
    exact free hc
  rw [display, same, List.map_id, String.ofList_toList]

theorem Alike.backslash_mem (alike : p.Alike q) (apart : p ≠ q) :
    '\\' ∈ p.text.toList ∨ '\\' ∈ q.text.toList := by
  by_contra free
  obtain ⟨left, right⟩ := not_or.1 free
  have shown := display_eq_iff.2 alike
  rw [display_of_not_mem left, display_of_not_mem right] at shown
  cases p
  cases q
  exact apart (congrArg Path.mk shown)

end Path

end ScriptAudit
