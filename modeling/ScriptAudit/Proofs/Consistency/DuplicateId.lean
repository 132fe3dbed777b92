import Mathlib.Data.List.Forall2
import ScriptAudit.Proofs.Consistency

/-!
# Ids declared more than once

The check of a feature reports each id that several test cases declare once, in ascending order. It
anchors the report at the first of the declarations, in the order of files and lines, and names the
files of all of them. The order in which the documents are given does not matter.
-/

namespace ScriptAudit

namespace Consistency

/-- The test cases that declare an id, each with its document. -/
def declaring (documents : List Document) (id : String) : List (Document × TestCase) :=
  (documents.flatMap fun d => d.cases.map fun c => (d, c)).filter fun e => e.2.id = id

/-- Where a test case of a document declares its id. -/
def ownerOf (e : Document × TestCase) : Owner :=
  (e.1.file, e.2.line)

/-- What is reported of an id that several test cases declare. -/
structure DuplicateReport (documents : List Document) (id : String) (x : Diagnostic) : Prop where
  kind : x.kind = .consistencyError
  severity : x.severity = .error
  ruleId : x.ruleId = "duplicate-id"
  anchor : ∃ e ∈ declaring documents id, x.file = e.1.file ∧ x.line = some e.2.line ∧
    ∀ other ∈ declaring documents id, e.1.file < other.1.file ∨
      e.1.file = other.1.file ∧ e.2.line ≤ other.2.line
  message : ∃ files : List String, files.Perm ((declaring documents id).map (·.1.file)) ∧
    files.Pairwise (· ≤ ·) ∧ x.message = "test case id '" ++ id ++ "' is declared by " ++
      toString (declaring documents id).length ++ " documents: " ++ ", ".intercalate files

variable {documents : List Document} {id : String}

theorem mem_of_mem_declaring {e : Document × TestCase} (he : e ∈ declaring documents id) :
    e.1 ∈ documents := by
  obtain ⟨d, hd, declared⟩ := List.mem_flatMap.1 (List.mem_filter.1 he).1
  obtain ⟨c, _, rfl⟩ := List.mem_map.1 declared
  exact hd

/-! ## Owners -/

theorem owners_perm : (owners documents id).Perm ((declaring documents id).map ownerOf) := by
  refine (sortBy_perm _ _).trans (.of_eq ?_)
  rw [declaring, List.filter_flatMap, List.map_flatMap]
  refine List.flatMap_congr fun d _ => ?_
  rw [List.filter_map, List.map_map]
  rfl

theorem pairwise_owners : (owners documents id).Pairwise fun a b => ownerLe a b = true :=
  pairwise_sortBy ownerLe_trans ownerLe_total _

theorem ownerLe_ownerOf_iff {e other : Document × TestCase} :
    ownerLe (ownerOf e) (ownerOf other) = true ↔ e.1.file < other.1.file ∨
      e.1.file = other.1.file ∧ e.2.line ≤ other.2.line :=
  ownerLe_iff

theorem length_owners : (owners documents id).length = (declaring documents id).length := by
  rw [owners_perm.length_eq, List.length_map]

/-- The first owner stands before all others, and the files come in ascending order. -/
theorem duplicateReport_of_owners {first second : Owner} {rest : List Owner}
    (listed : owners documents id = first :: second :: rest) :
    DuplicateReport documents id (diagnostic .error "duplicate-id" first.1 (some first.2)
      ("test case id '" ++ id ++ "' is declared by " ++
        toString (first :: second :: rest).length ++ " documents: " ++
        ", ".intercalate ((first :: second :: rest).map (·.1)))) where
  kind := rfl
  severity := rfl
  ruleId := rfl
  anchor := by
    have ordered : (owners documents id).Pairwise fun a b => ownerLe a b = true := pairwise_owners
    rw [listed] at ordered
    have least := (List.pairwise_cons.1 ordered).1
    have among : first ∈ (declaring documents id).map ownerOf := by
      rw [← owners_perm.mem_iff, listed]
      exact List.mem_cons_self
    obtain ⟨e, he, rfl⟩ := List.mem_map.1 among
    refine ⟨e, he, rfl, rfl, fun other hother => ?_⟩
    have further : ownerOf other ∈ owners documents id :=
      owners_perm.mem_iff.2 (List.mem_map_of_mem hother)
    rw [listed] at further
    rcases List.mem_cons.1 further with same | later
    · have file : other.1.file = e.1.file := congrArg Prod.fst same
      have line : other.2.line = e.2.line := congrArg Prod.snd same
      exact .inr ⟨file.symm, Nat.le_of_eq line.symm⟩
    · exact ownerLe_ownerOf_iff.1 (least (ownerOf other) later)
  message := by
    rw [← listed, ← length_owners]
    refine ⟨(owners documents id).map (·.1), ?_, ?_, rfl⟩
    · have owned : (owners documents id).Perm ((declaring documents id).map ownerOf) := owners_perm
      have files := owned.map (·.1)
      rwa [List.map_map] at files
    · refine List.pairwise_map.2 (pairwise_owners.imp fun before => ?_)
      rcases ownerLe_iff.1 before with before | ⟨same, _⟩
      · exact String.not_lt.1 (String.lt_asymm before)
      · exact same ▸ String.le_refl _

theorem exists_duplicateReport {x : Diagnostic} (hx : x ∈ duplicateIds documents) :
    ∃ id, DuplicateReport documents id x := by
  obtain ⟨id, _, found⟩ := List.mem_filterMap.1 hx
  split at found
  · rename_i listed
    cases found
    exact ⟨id, duplicateReport_of_owners listed⟩
  · cases found

/-! ## Reports -/

/-- The ids that several test cases declare, each once and in ascending order. -/
def duplicated (documents : List Document) : List String :=
  (declaredIds documents).filter fun id => 2 ≤ (declaring documents id).length

theorem mem_duplicated_iff : id ∈ duplicated documents ↔ 2 ≤ (declaring documents id).length := by
  rw [duplicated, List.mem_filter, decide_eq_true_iff, and_iff_right_iff_imp]
  intro several
  obtain ⟨e, he⟩ := List.exists_mem_of_length_pos (Nat.lt_of_lt_of_le Nat.zero_lt_two several)
  obtain ⟨declared, own⟩ := List.mem_filter.1 he
  obtain ⟨d, hd, he⟩ := List.mem_flatMap.1 declared
  obtain ⟨c, hc, rfl⟩ := List.mem_map.1 he
  rw [declaredIds, Text.mem_ascending, List.mem_flatMap]
  exact ⟨d, hd, List.mem_map.2 ⟨c, hc, of_decide_eq_true own⟩⟩

theorem pairwise_duplicated : (duplicated documents).Pairwise (· < ·) :=
  (Text.pairwise_lt_ascending _).filter _

theorem forall₂_duplicateIds :
    List.Forall₂ (DuplicateReport documents) (duplicated documents) (duplicateIds documents) := by
  rw [duplicated, duplicateIds]
  induction declaredIds documents with
  | nil => exact .nil
  | cons id rest ih =>
    rw [List.filter_cons, List.filterMap_cons, ← length_owners]
    rcases listed : owners documents id with _ | ⟨first, _ | ⟨second, more⟩⟩
    · exact ih
    · exact ih
    · exact .cons (duplicateReport_of_owners listed) ih

end Consistency

/-- The check of a feature has one report for every id that at least two test cases declare, in
ascending order of the ids, and none for any other id. The reports are the same, and come in the
same order, when the documents are given in another order. -/
theorem Feature.check_duplicates (f : Feature) (documents : List Document) :
    ∃ ids : List String, ids.Pairwise (· < ·) ∧
      (∀ id, id ∈ ids ↔ 2 ≤ (Consistency.declaring documents id).length) ∧
      List.Forall₂ (Consistency.DuplicateReport documents) ids
        ((f.check documents).filter (·.ruleId = "duplicate-id")) ∧
      ∀ others, documents.Perm others →
        (f.check others).filter (·.ruleId = "duplicate-id") =
          (f.check documents).filter (·.ruleId = "duplicate-id") := by
  refine ⟨Consistency.duplicated documents, Consistency.pairwise_duplicated,
    fun _ => Consistency.mem_duplicated_iff, ?_, fun others perm => ?_⟩
  · rw [filter_check_duplicate]
    exact Consistency.forall₂_duplicateIds
  · rw [filter_check_duplicate, filter_check_duplicate,
      Consistency.duplicateIds_eq_of_perm perm]

/-- A document with a test case for each of these ids and lines. -/
def Document.declares (file : String) (declared : List (String × Nat)) : Document where
  path := ⟨file⟩
  feature := "acl"
  mode := .mock
  cases := declared.map fun (id, line) =>
    { id, name := "Card", line, prerequisites := [], setupScript := none, startingUrl := none
      steps := [], expectedUiState := [], expectedResult := ⟨"", line⟩, screenshots := [] }
  source := ""

/-- Three declarations of one id in two documents, and one of another id. -/
theorem Feature.check_duplicates_thrice :
    let f : Feature := ⟨⟨"acl"⟩, "acl", [], []⟩
    let viewer := Document.declares "acl/viewer.mock.md" [("ACL-001", 1), ("ACL-002", 5)]
    let admin := Document.declares "acl/admin.mock.md" [("ACL-001", 7), ("ACL-001", 3)]
    ∃ x : Diagnostic, x.file = "acl/admin.mock.md" ∧ x.line = some 3 ∧
      x.message = "test case id 'ACL-001' is declared by 3 documents: " ++
        "acl/admin.mock.md, acl/admin.mock.md, acl/viewer.mock.md" ∧
      Consistency.DuplicateReport [viewer, admin] "ACL-001" x ∧
      [viewer, admin].Perm [admin, viewer] ∧
      (f.check [admin, viewer]).filter (·.ruleId = "duplicate-id") = [x] := by
  intro f viewer admin
  have reported : (f.check [viewer, admin]).filter (·.ruleId = "duplicate-id") =
      [⟨"acl/admin.mock.md", some 3, "duplicate-id", .error,
        "test case id 'ACL-001' is declared by 3 documents: " ++
          "acl/admin.mock.md, acl/admin.mock.md, acl/viewer.mock.md", .consistencyError⟩] := by
    decide +kernel
  obtain ⟨ids, _, several, reports, same⟩ := check_duplicates f [viewer, admin]
  rw [reported] at reports same
  obtain ⟨id, _, report, none, rfl⟩ := List.forall₂_cons_right_iff.1 reports
  cases none
  obtain rfl : "ACL-001" = id := List.mem_singleton.1 ((several _).2 (by decide))
  exact ⟨_, rfl, rfl, rfl, report, .swap .., same _ (.swap ..)⟩

end ScriptAudit
