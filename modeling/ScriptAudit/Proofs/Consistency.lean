import ScriptAudit.Consistency
import ScriptAudit.Proofs.Diagnostic
import ScriptAudit.Proofs.Text.Ascending

/-!
# Checks of a feature

Each of the four checks reports under an id of its own, so the diagnostics of a feature fall apart
by their ids. Checking a feature against its documents comes to the same diagnostics in whatever
order the documents are given, though not in the same order: ids and screenshots are compared as
sets.
-/

namespace ScriptAudit

namespace Consistency

/-! ## What each check reports -/

section Reported

variable {f : Feature} {documents : List Document} {x : Diagnostic}

theorem exists_of_mem_duplicateIds (hx : x ∈ duplicateIds documents) :
    ∃ file line message, x = diagnostic .error "duplicate-id" file line message := by
  obtain ⟨id, _, found⟩ := List.mem_filterMap.1 hx
  split at found
  · cases found
    exact ⟨_, _, _, rfl⟩
  · cases found

theorem exists_of_mem_modeFaults {d : Document} (hx : x ∈ modeFaults d) :
    ∃ line message, x = diagnostic .error "mode-placement" d.file line message := by
  rcases List.mem_append.1 hx with placed | declared
  · obtain ⟨_, _, rfl⟩ := List.mem_map.1 placed
    exact ⟨_, _, rfl⟩
  · obtain ⟨c, _, found⟩ := List.mem_filterMap.1 declared
    obtain ⟨⟨p, mode⟩, _, found⟩ := Option.bind_eq_some_iff.1 found
    dsimp only at found
    split at found <;> cases found
    exact ⟨_, _, rfl⟩

/-- What is reported of a reference to a screenshot that is not there. -/
def missing (f : Feature) (d : Document) (p : Placeholder) : Diagnostic :=
  diagnostic .warning "screenshot-missing" d.file (some p.line)
    ("screenshot '" ++ p.path ++ "' not found in " ++ f.screenshotDirectory.display)

theorem mem_missingScreenshots_iff :
    x ∈ missingScreenshots f documents ↔ ∃ d ∈ documents, ∃ p ∈ d.placeholders,
      ∃ name, f.reference? p = some name ∧ name ∉ f.screenshots ∧ x = missing f d p := by
  simp only [missingScreenshots, List.mem_flatMap, List.mem_filterMap, Option.bind_eq_some_iff]
  constructor
  · rintro ⟨d, hd, p, hp, name, refers, found⟩
    split at found
    · cases found
    · rename_i absent
      cases found
      exact ⟨d, hd, p, hp, name, refers, by simpa using absent, rfl⟩
  · rintro ⟨d, hd, p, hp, name, refers, absent, rfl⟩
    exact ⟨d, hd, p, hp, name, refers, by rw [if_neg (by simpa using absent)]; rfl⟩

/-- What is reported of a screenshot that no placeholder refers to. -/
def orphan (f : Feature) (name : String) : Diagnostic :=
  diagnostic .info "screenshot-orphan" (f.screenshotDirectory.join name).display none
    "screenshot is not referenced by any placeholder"

theorem mem_orphanedScreenshots_iff :
    x ∈ orphanedScreenshots f documents ↔ ∃ name ∈ f.screenshots,
      (∀ d ∈ documents, ∀ p ∈ d.placeholders, f.reference? p ≠ some name) ∧ x = orphan f name := by
  have unreferenced (name : String) : (!(referenced f documents).contains name) = true ↔
      ∀ d ∈ documents, ∀ p ∈ d.placeholders, f.reference? p ≠ some name := by
    simp [referenced]
  simp only [orphanedScreenshots, List.mem_map, List.mem_filter, unreferenced]
  constructor
  · rintro ⟨name, ⟨hname, none⟩, rfl⟩
    exact ⟨name, hname, none, rfl⟩
  · rintro ⟨name, hname, none, rfl⟩
    exact ⟨name, ⟨hname, none⟩, rfl⟩

end Reported

end Consistency

namespace Feature

variable (f : Feature) (documents : List Document)

/-- The diagnostics of a feature, taken apart by their ids. -/
theorem filter_check (id : String) :
    (f.check documents).filter (·.ruleId = id) =
      (if "duplicate-id" = id then Consistency.duplicateIds documents else []) ++
      (if "mode-placement" = id then documents.flatMap Consistency.modeFaults else []) ++
      (if "screenshot-missing" = id then Consistency.missingScreenshots f documents else []) ++
      (if "screenshot-orphan" = id then
        if documents.length = f.documents.length then Consistency.orphanedScreenshots f documents
        else []
      else []) := by
  have duplicate : ∀ x ∈ Consistency.duplicateIds documents, x.ruleId = "duplicate-id" := by
    intro x hx
    obtain ⟨_, _, _, rfl⟩ := Consistency.exists_of_mem_duplicateIds hx
    rfl
  have mode : ∀ x ∈ documents.flatMap Consistency.modeFaults, x.ruleId = "mode-placement" := by
    intro x hx
    obtain ⟨_, _, hx⟩ := List.mem_flatMap.1 hx
    obtain ⟨_, _, rfl⟩ := Consistency.exists_of_mem_modeFaults hx
    rfl
  have missing : ∀ x ∈ Consistency.missingScreenshots f documents,
      x.ruleId = "screenshot-missing" := by
    intro x hx
    obtain ⟨_, _, _, _, _, _, _, rfl⟩ := Consistency.mem_missingScreenshots_iff.1 hx
    rfl
  have orphaned : ∀ x ∈ (if documents.length = f.documents.length then
      Consistency.orphanedScreenshots f documents else []), x.ruleId = "screenshot-orphan" := by
    intro x hx
    split at hx
    · obtain ⟨_, _, _, rfl⟩ := Consistency.mem_orphanedScreenshots_iff.1 hx
      rfl
    · cases hx
  rw [check, List.filter_append, List.filter_append, List.filter_append,
    Diagnostic.filter_ruleId duplicate, Diagnostic.filter_ruleId mode,
    Diagnostic.filter_ruleId missing, Diagnostic.filter_ruleId orphaned]

/-- Whatever is reported of a feature is about its consistency. -/
theorem kind_of_mem_check {x : Diagnostic} (hx : x ∈ f.check documents) :
    x.kind = .consistencyError := by
  rw [check, List.mem_append, List.mem_append, List.mem_append] at hx
  rcases hx with ((duplicate | mode) | missing) | orphaned
  · obtain ⟨_, _, _, rfl⟩ := Consistency.exists_of_mem_duplicateIds duplicate
    rfl
  · obtain ⟨_, _, mode⟩ := List.mem_flatMap.1 mode
    obtain ⟨_, _, rfl⟩ := Consistency.exists_of_mem_modeFaults mode
    rfl
  · obtain ⟨_, _, _, _, _, _, _, rfl⟩ := Consistency.mem_missingScreenshots_iff.1 missing
    rfl
  · split at orphaned
    · obtain ⟨_, _, _, rfl⟩ := Consistency.mem_orphanedScreenshots_iff.1 orphaned
      rfl
    · cases orphaned

theorem filter_check_duplicate :
    (f.check documents).filter (·.ruleId = "duplicate-id") =
      Consistency.duplicateIds documents := by
  rw [filter_check]
  simp

theorem filter_check_mode :
    (f.check documents).filter (·.ruleId = "mode-placement") =
      documents.flatMap Consistency.modeFaults := by
  rw [filter_check]
  simp

theorem filter_check_missing :
    (f.check documents).filter (·.ruleId = "screenshot-missing") =
      Consistency.missingScreenshots f documents := by
  rw [filter_check]
  simp

theorem filter_check_orphan :
    (f.check documents).filter (·.ruleId = "screenshot-orphan") =
      if documents.length = f.documents.length then Consistency.orphanedScreenshots f documents
      else [] := by
  rw [filter_check]
  simp

end Feature

namespace Consistency

/-! ## Owners -/

theorem ownerLe_iff {a b : Owner} :
    ownerLe a b = true ↔ a.1 < b.1 ∨ a.1 = b.1 ∧ a.2 ≤ b.2 := by
  simp [ownerLe]

theorem ownerLe_trans (a b c : Owner) (hab : ownerLe a b = true) (hbc : ownerLe b c = true) :
    ownerLe a c = true := by
  rw [ownerLe_iff] at hab hbc ⊢
  rcases hab with hab | ⟨fileAB, lineAB⟩
  · rcases hbc with hbc | ⟨fileBC, _⟩
    · exact Or.inl (String.lt_trans hab hbc)
    · exact Or.inl (fileBC ▸ hab)
  · rw [fileAB]
    rcases hbc with hbc | ⟨fileBC, lineBC⟩
    · exact Or.inl hbc
    · exact Or.inr ⟨fileBC, Nat.le_trans lineAB lineBC⟩

theorem ownerLe_total (a b : Owner) : (ownerLe a b || ownerLe b a) = true := by
  rw [Bool.or_eq_true, ownerLe_iff, ownerLe_iff]
  by_cases before : a.1 < b.1
  · exact Or.inl (Or.inl before)
  · by_cases after : b.1 < a.1
    · exact Or.inr (Or.inl after)
    · have file : a.1 = b.1 := String.le_antisymm (String.not_lt.1 after) (String.not_lt.1 before)
      rcases Nat.le_total a.2 b.2 with line | line
      · exact Or.inl (Or.inr ⟨file, line⟩)
      · exact Or.inr (Or.inr ⟨file.symm, line⟩)

theorem ownerLe_antisymm {a b : Owner} (hab : ownerLe a b = true) (hba : ownerLe b a = true) :
    a = b := by
  rw [ownerLe_iff] at hab hba
  rcases hab with hab | ⟨file, lineAB⟩
  · rcases hba with hba | ⟨file, _⟩
    · exact absurd hba (String.lt_asymm hab)
    · exact absurd (file ▸ hab) (String.lt_irrefl _)
  · rcases hba with hba | ⟨_, lineBA⟩
    · exact absurd (file ▸ hba) (String.lt_irrefl _)
    · exact Prod.ext file (Nat.le_antisymm lineAB lineBA)

/-! ## Documents in another order -/

section Perm

variable {xs ys : List Document} (perm : xs.Perm ys)
include perm

theorem owners_eq_of_perm (id : String) : owners xs id = owners ys id :=
  sortBy_eq_of_perm ownerLe_trans ownerLe_total (perm.flatMap_right _)
    fun _ _ _ _ => ownerLe_antisymm

theorem declaredIds_eq_of_perm : declaredIds xs = declaredIds ys :=
  Text.ascending_congr fun _ => (perm.flatMap_right _).mem_iff

theorem duplicateIds_eq_of_perm : duplicateIds xs = duplicateIds ys := by
  simp only [duplicateIds]
  rw [declaredIds_eq_of_perm perm]
  simp only [owners_eq_of_perm perm]

theorem orphanedScreenshots_eq_of_perm (f : Feature) :
    orphanedScreenshots f xs = orphanedScreenshots f ys := by
  have same : ∀ name, (referenced f xs).contains name = (referenced f ys).contains name := by
    intro name
    have members := (perm.flatMap_right fun d => d.placeholders.filterMap f.reference?).mem_iff
      (a := name)
    rw [Bool.eq_iff_iff, List.contains_iff_mem, List.contains_iff_mem]
    exact members
  simp only [orphanedScreenshots]
  simp only [same]

end Perm

end Consistency

/-- Of the documents of a feature only their number counts, and not the order of those read. -/
theorem Feature.check_perm {f : Feature} {paths : List Path} {xs ys : List Document}
    (number : paths.length = f.documents.length) (perm : xs.Perm ys) :
    (f.check xs).Perm ({ f with documents := paths }.check ys) := by
  have whole : xs.length = f.documents.length ↔ ys.length = paths.length := by
    rw [perm.length_eq, number]
  have orphaned : (if xs.length = f.documents.length then Consistency.orphanedScreenshots f xs
      else []) = if ys.length = paths.length then Consistency.orphanedScreenshots f ys else [] := by
    simp only [whole, Consistency.orphanedScreenshots_eq_of_perm perm]
  simp only [check]
  rw [Consistency.duplicateIds_eq_of_perm perm, orphaned]
  have mode := perm.flatMap_right Consistency.modeFaults
  have missing : (Consistency.missingScreenshots f xs).Perm (Consistency.missingScreenshots f ys) :=
    perm.flatMap_right _
  exact ((mode.append_left _).append missing).append_right _

end ScriptAudit
