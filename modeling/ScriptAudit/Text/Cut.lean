/-!
# Cutting text at a mark

`after?` tests the front of a text, `cutAt?` finds the first character of a class and `cut?` the
first occurrence of a word. Each returns the parts around what it found, without it.
-/

namespace ScriptAudit.Text

/-- What follows the first text in the second, when the second starts with it. -/
def after? : List Char → List Char → Option (List Char)
  | [], s => some s
  | _ :: _, [] => none
  | c :: head, d :: s => if c = d then after? head s else none

/-- The text before and after the first character of the class. -/
def cutAt? (p : Char → Bool) : List Char → Option (List Char × List Char)
  | [] => none
  | c :: rest => if p c then some ([], rest) else (cutAt? p rest).map fun (a, b) => (c :: a, b)

/-- The text before and after the first occurrence of `word`. -/
def cut? (word : List Char) : List Char → Option (List Char × List Char)
  | [] => (after? word []).map fun b => ([], b)
  | c :: rest =>
    match after? word (c :: rest) with
    | some b => some ([], b)
    | none => (cut? word rest).map fun (a, b) => (c :: a, b)

theorem eq_append_of_after? {head s rest : List Char} (h : after? head s = some rest) :
    s = head ++ rest := by
  induction head generalizing s with
  | nil => exact Option.some.inj h
  | cons c head ih =>
    cases s with
    | nil => cases h
    | cons d s =>
      unfold after? at h
      split at h
      · rename_i same
        rw [same, ih h, List.cons_append]
      · cases h

theorem eq_append_of_cutAt? {p : Char → Bool} {s a b : List Char}
    (h : cutAt? p s = some (a, b)) : ∃ c, p c = true ∧ s = a ++ c :: b := by
  induction s generalizing a with
  | nil => cases h
  | cons c s ih =>
    unfold cutAt? at h
    split at h
    · rename_i found
      cases h
      exact ⟨c, found, rfl⟩
    · obtain ⟨⟨a', b'⟩, tail, same⟩ := Option.map_eq_some_iff.1 h
      cases same
      obtain ⟨d, hd, rfl⟩ := ih tail
      exact ⟨d, hd, rfl⟩

theorem eq_append_of_cut? {word s a b : List Char} (h : cut? word s = some (a, b)) :
    s = a ++ word ++ b := by
  induction s generalizing a with
  | nil =>
    obtain ⟨b', found, same⟩ := Option.map_eq_some_iff.1 h
    cases same
    simpa using eq_append_of_after? found
  | cons c s ih =>
    unfold cut? at h
    split at h
    · rename_i found
      cases h
      simpa using eq_append_of_after? found
    · obtain ⟨⟨a', b'⟩, tail, same⟩ := Option.map_eq_some_iff.1 h
      cases same
      simp [ih tail]

/-- Whether `word` occurs anywhere in the text; the empty word does. -/
def occursIn (word s : List Char) : Bool :=
  (cut? word s).isSome

def endsWith (tail s : List Char) : Bool :=
  tail.reverse.isPrefixOf s.reverse

end ScriptAudit.Text
