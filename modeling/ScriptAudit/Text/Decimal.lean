/-!
# Decimal digits

The ASCII digits, the number that a run of them writes, and the bound under which a written number
is kept.
-/

namespace ScriptAudit.Text

def isDigit (c : Char) : Bool :=
  '0' ≤ c && c ≤ '9'

/-- The value of a digit string, read from the left. -/
def decimalValue (digits : List Char) : Nat :=
  digits.foldl (fun n c => 10 * n + (c.toNat - '0'.toNat)) 0

/-- A non-empty digit string whose value is below `bound`. -/
def decimalBelow? (bound : Nat) (digits : List Char) : Option Nat :=
  if digits.isEmpty || !digits.all isDigit then none
  else if decimalValue digits < bound then some (decimalValue digits) else none

theorem decimalBelow?_eq_some_iff {bound n : Nat} {digits : List Char} :
    decimalBelow? bound digits = some n ↔
      digits ≠ [] ∧ (∀ c ∈ digits, isDigit c = true) ∧ decimalValue digits = n ∧ n < bound := by
  rw [decimalBelow?]
  split
  · rename_i wrong
    simp only [Bool.or_eq_true, List.isEmpty_iff, Bool.not_eq_true', List.all_eq_false] at wrong
    simp only [reduceCtorEq, false_iff]
    rintro ⟨some, numeric, _⟩
    rcases wrong with empty | ⟨c, hc, other⟩
    · exact some empty
    · exact other (numeric c hc)
  · rename_i right
    simp only [Bool.or_eq_true, List.isEmpty_iff, Bool.not_eq_true', not_or, Bool.not_eq_false,
      List.all_eq_true] at right
    split
    · rename_i below
      simp only [Option.some.injEq]
      constructor
      · rintro rfl
        exact ⟨right.1, right.2, rfl, below⟩
      · exact fun h => h.2.2.1
    · rename_i above
      simp only [reduceCtorEq, false_iff]
      rintro ⟨_, _, rfl, below⟩
      exact above below

/-! ## Numbers as they are written -/

theorem isDigit_of_mem_toString {n : Nat} {c : Char} (h : c ∈ (toString n).toList) :
    isDigit c = true := by
  rw [Nat.toString_eq_ofList_toDigits, String.toList_ofList] at h
  exact Nat.isDigit_of_mem_toDigits (by decide) (by decide) h

theorem toString_toList_ne_nil (n : Nat) : (toString n).toList ≠ [] := by
  rw [Nat.toString_eq_ofList_toDigits, String.toList_ofList]
  exact Nat.toDigits_ne_nil

theorem decimalValue_toString (n : Nat) : decimalValue (toString n).toList = n := by
  have read := Nat.ofDigitChars_ten_toDigits (n := n)
  rw [Nat.ofDigitChars_eq_foldl] at read
  rw [Nat.toString_eq_ofList_toDigits, String.toList_ofList]
  exact read

end ScriptAudit.Text
