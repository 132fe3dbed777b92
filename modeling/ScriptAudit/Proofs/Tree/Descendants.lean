import Mathlib.Data.List.Basic
import ScriptAudit.Proofs.Tree

/-!
# What stands below a node

A walk of a tree without any choice of its own comes to every entry once, each with the names that
lead to it: a directory before what is below it, and siblings in the order of their names. In terms
of the names, the walk goes up in the lexicographic order.
-/

namespace ScriptAudit

namespace Node

mutual

/-- Every entry below a node, depth first and with the names that lead to it. -/
def descendants : Node → List (List String × Node)
  | directory es => descendantsIn es
  | file _ => []
  | link _ => []

def descendantsIn : List (String × Node) → List (List String × Node)
  | [] => []
  | (name, node) :: rest =>
    ([name], node) :: (node.descendants.map fun e => (name :: e.1, e.2)) ++ descendantsIn rest

end

/-- What is below some entries is one of them, or below one of them. -/
theorem mem_descendantsIn_iff {es : List (String × Node)} {names : List String} {m : Node} :
    (names, m) ∈ descendantsIn es ↔ ∃ name node, (name, node) ∈ es ∧
      (names = [name] ∧ m = node ∨
        ∃ inner, names = name :: inner ∧ (inner, m) ∈ node.descendants) := by
  induction es with
  | nil => simp [descendantsIn]
  | cons head rest ih =>
    obtain ⟨name, node⟩ := head
    rw [descendantsIn, List.mem_append, List.mem_cons, ih]
    constructor
    · rintro ((own | inside) | ⟨name', node', entry, place⟩)
      · cases own
        exact ⟨name, m, List.mem_cons_self, Or.inl ⟨rfl, rfl⟩⟩
      · obtain ⟨⟨inner, m'⟩, found, same⟩ := List.mem_map.1 inside
        cases same
        exact ⟨name, node, List.mem_cons_self, Or.inr ⟨inner, rfl, found⟩⟩
      · exact ⟨name', node', List.mem_cons_of_mem _ entry, place⟩
    · rintro ⟨name', node', entry, place⟩
      rcases List.mem_cons.1 entry with same | later
      · cases same
        rcases place with ⟨rfl, rfl⟩ | ⟨inner, rfl, found⟩
        · exact Or.inl (Or.inl rfl)
        · exact Or.inl (Or.inr (List.mem_map.2 ⟨_, found, rfl⟩))
      · exact Or.inr ⟨name', node', later, place⟩

theorem ne_nil_of_mem_descendants {n : Node} {e : List String × Node} (h : e ∈ n.descendants) :
    e.1 ≠ [] := by
  cases n with
  | file _ => cases h
  | link _ => cases h
  | directory es =>
    rw [descendants] at h
    obtain ⟨name, node, _, ⟨single, _⟩ | ⟨inner, longer, _⟩⟩ := mem_descendantsIn_iff.1 h
    · rw [single]
      exact List.cons_ne_nil _ _
    · rw [longer]
      exact List.cons_ne_nil _ _

/-- The walk comes to what names lead to. -/
theorem mem_descendants_iff {n : Node} (ordered : n.WellFormed) {names : List String} {m : Node} :
    (names, m) ∈ n.descendants ↔ names ≠ [] ∧ n.at? names = some m := by
  induction names generalizing n with
  | nil => exact ⟨fun h => absurd rfl (ne_nil_of_mem_descendants h), fun h => absurd rfl h.1⟩
  | cons name rest ih =>
    rw [at?_cons_eq_some_iff]
    constructor
    · intro h
      refine ⟨List.cons_ne_nil _ _, ?_⟩
      cases n with
      | file _ => cases h
      | link _ => cases h
      | directory es =>
        rw [descendants] at h
        obtain ⟨name', child, entry, place⟩ := mem_descendantsIn_iff.1 h
        have found := ordered.entries.lookup_of_mem entry
        rcases place with ⟨single, rfl⟩ | ⟨inner, longer, inside⟩
        · cases single
          exact ⟨es, m, rfl, found, rfl⟩
        · cases longer
          exact ⟨es, child, rfl, found, ((ih (ordered.entries.of_mem entry).2).1 inside).2⟩
    · rintro ⟨-, es, child, rfl, found, further⟩
      rw [descendants, mem_descendantsIn_iff]
      refine ⟨name, child, mem_of_lookup found, ?_⟩
      cases rest with
      | nil =>
        cases further
        exact Or.inl ⟨rfl, rfl⟩
      | cons next more =>
        refine Or.inr ⟨next :: more, rfl, ?_⟩
        exact (ih (ordered.entries.lookup found).2).2 ⟨List.cons_ne_nil _ _, further⟩

mutual

/-- The walk goes up from entry to entry, so that it comes to none of them twice. -/
theorem pairwise_descendants (n : Node) (ordered : n.WellFormed) :
    (n.descendants.map (·.1)).Pairwise (· < ·) := by
  cases n with
  | file _ => exact .nil
  | link _ => exact .nil
  | directory es =>
    rw [descendants]
    exact pairwise_descendantsIn es ordered

theorem pairwise_descendantsIn (es : List (String × Node)) (ordered : WellFormedEntries es) :
    ((descendantsIn es).map (·.1)).Pairwise (· < ·) := by
  cases es with
  | nil => exact .nil
  | cons head rest =>
    obtain ⟨name, node⟩ := head
    obtain ⟨_, inner, later, others⟩ := ordered
    have nested :
        ((node.descendants.map fun e => (name :: e.1, e.2)).map (·.1)).Pairwise (· < ·) := by
      rw [List.map_map, List.pairwise_map]
      refine (List.pairwise_map.1 (pairwise_descendants node inner)).imp fun lt => ?_
      exact List.cons_lt_cons_iff.2 (Or.inr ⟨rfl, lt⟩)
    -- whatever stands below the first entry has its name in front, and what follows a greater one
    have first : ∀ names ∈
        (([name], node) :: node.descendants.map fun e => (name :: e.1, e.2)).map (·.1),
        ∃ inner, names = name :: inner := by
      simp only [List.map_cons, List.map_map, List.mem_cons, List.mem_map]
      rintro names (rfl | ⟨e, _, rfl⟩)
      · exact ⟨[], rfl⟩
      · exact ⟨e.1, rfl⟩
    rw [descendantsIn, List.map_append]
    refine List.pairwise_append.2 ⟨List.pairwise_cons.2 ⟨fun names h => ?_, nested⟩,
      pairwise_descendantsIn rest others, fun names h other h' => ?_⟩
    · rw [List.map_map] at h
      obtain ⟨e, he, rfl⟩ := List.mem_map.1 h
      obtain ⟨next, more, some⟩ := List.exists_cons_of_ne_nil (ne_nil_of_mem_descendants he)
      refine List.cons_lt_cons_iff.2 (Or.inr ⟨rfl, ?_⟩)
      rw [some]
      exact List.nil_lt_cons _ _
    · obtain ⟨deeper, rfl⟩ := first names h
      obtain ⟨⟨names', m⟩, he, rfl⟩ := List.mem_map.1 h'
      obtain ⟨name', node', entry, place⟩ := mem_descendantsIn_iff.1 he
      have lt : name < name' := later _ entry
      rcases place with ⟨rfl, _⟩ | ⟨inner', rfl, _⟩
      · exact List.cons_lt_cons_iff.2 (Or.inl lt)
      · exact List.cons_lt_cons_iff.2 (Or.inl lt)

end

end Node

end ScriptAudit
