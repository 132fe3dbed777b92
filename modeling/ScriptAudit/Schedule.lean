/-!
# Schedules

How a queue is worked off under a number of permits. An entry starts, in queue order, when a permit
is free; entries under way finish in any order, and each gives its permit back. Every order of
finishing that this allows is a permutation of the queue, and with at least one permit the order of
the queue is one of them.
-/

namespace ScriptAudit

/-- A moment: what has yet to start, what is under way, and what has finished, in that order. -/
structure Schedule (α : Type) where
  waiting : List α
  running : List α
  finished : List α

namespace Schedule

variable {α : Type} {permits : Nat}

/-- The moment before anything has started. -/
def initial (queue : List α) : Schedule α :=
  ⟨queue, [], []⟩

/-- What may happen next. -/
inductive Step (permits : Nat) : Schedule α → Schedule α → Prop where
  | start {a : α} {waiting running finished : List α} (free : running.length < permits) :
      Step permits ⟨a :: waiting, running, finished⟩ ⟨waiting, running ++ [a], finished⟩
  | finish {a : α} {waiting finished : List α} (before after : List α) :
      Step permits ⟨waiting, before ++ a :: after, finished⟩
        ⟨waiting, before ++ after, finished ++ [a]⟩

inductive Reaches (permits : Nat) (s : Schedule α) : Schedule α → Prop where
  | refl : Reaches permits s s
  | tail {t u : Schedule α} (before : Reaches permits s t) (last : Step permits t u) :
      Reaches permits s u

/-- The entries of a queue may finish in this order. -/
def Completes (permits : Nat) (queue order : List α) : Prop :=
  Reaches permits (initial queue) ⟨[], [], order⟩

/-- Everything, wherever it stands. -/
def entries (s : Schedule α) : List α :=
  s.waiting ++ (s.running ++ s.finished)

theorem Step.entries_perm {s t : Schedule α} (h : Step permits s t) :
    t.entries.Perm s.entries := by
  cases h with
  | start _ =>
    simp only [entries, List.append_assoc, List.cons_append]
    exact (List.perm_middle.append_left _).trans List.perm_middle
  | finish _ _ =>
    simp only [entries, List.append_assoc]
    refine List.Perm.append_left _ (List.Perm.append_left _ ?_)
    rw [← List.append_assoc, List.cons_append]
    exact List.perm_append_singleton _ _

theorem Reaches.entries_perm {s t : Schedule α} (h : Reaches permits s t) :
    t.entries.Perm s.entries := by
  induction h with
  | refl => exact .refl _
  | tail _ last ih => exact last.entries_perm.trans ih

theorem Completes.perm {queue order : List α} (h : Completes permits queue order) :
    order.Perm queue := by
  simpa [entries, initial] using Reaches.entries_perm h

theorem Step.running_le {s t : Schedule α} (h : Step permits s t)
    (bound : s.running.length ≤ permits) : t.running.length ≤ permits := by
  cases h with
  | start free => simpa using Nat.succ_le_of_lt free
  | finish _ _ =>
    simp only [List.length_append, List.length_cons] at bound ⊢
    omega

/-- No more than the permitted number is ever under way. -/
theorem Reaches.running_le {queue : List α} {s : Schedule α}
    (h : Reaches permits (initial queue) s) : s.running.length ≤ permits := by
  induction h with
  | refl => exact Nat.zero_le _
  | tail _ last ih => exact last.running_le ih

/-- Without permits nothing starts. -/
theorem Reaches.eq_initial {queue : List α} {s : Schedule α} (h : Reaches 0 (initial queue) s) :
    s = initial queue := by
  induction h with
  | refl => rfl
  | tail before last _ =>
    have idle := before.running_le
    cases last with
    | start free => exact absurd free (Nat.not_lt_zero _)
    | finish _ _ => simp at idle

/-- One entry after the other. -/
theorem completes_self (positive : 0 < permits) (queue : List α) :
    Completes permits queue queue := by
  have worked (done left : List α) :
      Reaches permits (initial (done ++ left)) ⟨left, [], done⟩ →
        Completes permits (done ++ left) (done ++ left) := by
    induction left generalizing done with
    | nil =>
      intro h
      simpa [Completes] using h
    | cons a left ih =>
      intro h
      have next := (h.tail (.start positive)).tail (.finish [] [])
      simpa using ih (done ++ [a]) (by simpa using next)
  exact worked [] queue .refl

/-- A queue can be worked off with at least one permit, or when there is nothing in it. -/
theorem exists_completes_iff {queue : List α} :
    (∃ order, Completes permits queue order) ↔ 0 < permits ∨ queue = [] := by
  constructor
  · rintro ⟨order, completes⟩
    rcases Nat.eq_zero_or_pos permits with rfl | positive
    · have same := Reaches.eq_initial completes
      exact .inr (congrArg waiting same).symm
    · exact .inl positive
  · rintro (positive | rfl)
    · exact ⟨queue, completes_self positive queue⟩
    · exact ⟨[], .refl⟩

end Schedule

end ScriptAudit
