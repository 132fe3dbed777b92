import Mathlib.Data.List.Basic
import ScriptAudit.Proofs.Screenshot.Coverage

/-!
# References to screenshots

The check of a feature compares the references that its documents make with the screenshots that it
has: a reference without a screenshot is missing and, when all documents could be read, a screenshot
without a reference is an orphan. The documents may be given in any order.
-/

namespace ScriptAudit

namespace Consistency

/-- A placeholder refers to a screenshot by its name, on a line of a document. -/
structure Reference where
  document : Document
  line : Nat
  name : String
deriving DecidableEq, Repr

/-- All references of the documents to screenshots of a feature. -/
def references (feature : String) (documents : List Document) : List Reference :=
  documents.flatMap fun d => d.placeholders.filterMap fun p =>
    (Screenshot.fileName? p.path feature).map fun name => ⟨d, p.line, name⟩

/-- What is reported of a reference that leads to no screenshot. -/
def Reference.missing (f : Feature) (r : Reference) : Diagnostic where
  file := r.document.file
  line := some r.line
  ruleId := "screenshot-missing"
  severity := .warning
  message := "screenshot 'qa/" ++ f.name ++ "/screenshots/" ++ r.name ++ "' not found in " ++
    f.screenshotDirectory.display
  kind := .consistencyError

/-- The references that lead to no screenshot of the feature. -/
def lost (f : Feature) (documents : List Document) : List Reference :=
  (references f.name documents).filter fun r => r.name ∉ f.screenshots

/-- The screenshots that no reference leads to. -/
def unused (f : Feature) (documents : List Document) : List String :=
  f.screenshots.filter fun name => ∀ r ∈ references f.name documents, r.name ≠ name

variable {f : Feature} {documents : List Document}

theorem missing_eq (d : Document) {p : Placeholder} {name : String}
    (refers : Screenshot.fileName? p.path f.name = some name) :
    missing f d p = Reference.missing f ⟨d, p.line, name⟩ := by
  have path := Screenshot.eq_append_of_fileName? refers
  simp [missing, diagnostic, Reference.missing, path, ← String.toList_inj]

theorem missingScreenshots_eq :
    missingScreenshots f documents = (lost f documents).map (Reference.missing f) := by
  rw [missingScreenshots, lost, references, List.filter_flatMap, List.map_flatMap]
  refine List.flatMap_congr fun d _ => ?_
  rw [List.filter_filterMap, List.map_filterMap]
  refine List.filterMap_congr fun p _ => ?_
  rw [Feature.reference?]
  cases refers : Screenshot.fileName? p.path f.name with
  | none => rfl
  | some name =>
    have same := missing_eq d refers
    by_cases here : name ∈ f.screenshots
    · simp [here, Option.filter]
    · simp [here, Option.filter, ← same, missing]

theorem map_name_references :
    (references f.name documents).map (·.name) = referenced f documents := by
  rw [references, referenced, List.map_flatMap]
  refine List.flatMap_congr fun d _ => ?_
  rw [List.map_filterMap]
  refine List.filterMap_congr fun p _ => ?_
  rw [Option.map_map, Feature.reference?]
  exact congrFun Option.map_id _

theorem orphanedScreenshots_eq :
    orphanedScreenshots f documents = (unused f documents).map (orphan f) := by
  have unreferenced (name : String) : (!(referenced f documents).contains name) =
      decide (∀ r ∈ references f.name documents, r.name ≠ name) := by
    rw [← map_name_references, Bool.eq_iff_iff, Bool.not_eq_true', ← Bool.not_eq_true,
      List.contains_iff_mem, decide_eq_true_iff]
    simp
  rw [orphanedScreenshots, unused]
  simp only [unreferenced]
  rfl

/-- A screenshot that a reference asks for in vain is none of the feature's. -/
theorem name_not_mem_unused {r : Reference} (hr : r ∈ lost f documents) :
    r.name ∉ unused f documents := by
  have absent := of_decide_eq_true (List.mem_filter.1 hr).2
  exact fun here => absent (List.mem_filter.1 here).1

end Consistency

open Consistency in
/-- The check of a feature reports a missing screenshot for each reference that leads to none and,
when it is given as many documents as the feature lists, an orphan for each screenshot that no
reference leads to. No name is among both. All of what it reports stays the same, but for its order,
when the documents are given in another order. -/
theorem Feature.check_references (f : Feature) (documents : List Document) :
    (f.check documents).filter (·.ruleId = "screenshot-missing") =
      (lost f documents).map (Reference.missing f) ∧
    (f.check documents).filter (·.ruleId = "screenshot-orphan") =
      (if documents.length = f.documents.length then (unused f documents).map (orphan f) else []) ∧
    (∀ name, ¬((∃ r ∈ lost f documents, r.name = name) ∧ name ∈ unused f documents)) ∧
    ∀ others, documents.Perm others → (f.check documents).Perm (f.check others) := by
  refine ⟨?_, ?_, ?_, fun others perm => check_perm rfl perm⟩
  · rw [filter_check_missing, missingScreenshots_eq]
  · rw [filter_check_orphan, orphanedScreenshots_eq]
  · rintro _ ⟨⟨r, hr, rfl⟩, here⟩
    exact name_not_mem_unused hr here

/-- A document without references, beside one that refers to a screenshot that is not there. -/
def Document.bareTest : Document :=
  { cardTest with path := ⟨"acl/b.mock.md"⟩, cases := [] }

open Consistency in
theorem Feature.check_references_card :
    let f : Feature := ⟨⟨"acl"⟩, "acl", [⟨"acl/a.mock.md"⟩, ⟨"acl/b.mock.md"⟩],
      ["ACL-001_02-card.png"]⟩
    let documents := [Document.cardTest, .bareTest]
    let others := [.bareTest, Document.cardTest]
    documents.Perm others ∧ documents.length = f.documents.length ∧
      (f.check documents).filter (·.ruleId = "screenshot-missing") =
        [Reference.missing f ⟨Document.cardTest, 9, "ACL-001_01-card.png"⟩] ∧
      (f.check documents).filter (·.ruleId = "screenshot-orphan") =
        [orphan f "ACL-001_02-card.png"] ∧
      (f.check documents).Perm (f.check others) := by
  intro f documents others
  have swapped : documents.Perm others := .swap ..
  have all : documents.length = f.documents.length := rfl
  have found : lost f documents = [⟨Document.cardTest, 9, "ACL-001_01-card.png"⟩] ∧
      unused f documents = ["ACL-001_02-card.png"] := by
    decide +kernel
  obtain ⟨missing, orphaned, _, perm⟩ := check_references f documents
  rw [found.1] at missing
  rw [if_pos all, found.2] at orphaned
  exact ⟨swapped, all, missing, orphaned, perm _ swapped⟩

end ScriptAudit
