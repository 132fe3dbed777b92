import ScriptAudit.Proofs.Diagnostic
import ScriptAudit.Proofs.Markup.Fault

/-!
# Faults by their ids

Each kind of fault is found by a function of its own and reported under an id of its own, but for
the two faults of the order of sections, which share one. So the report of a document that is
refused falls apart by ids.
-/

namespace ScriptAudit

namespace Markup

/-- What is reported of faults in the document at a path. -/
def report (path : Path) (found : List Located) : List Diagnostic :=
  found.map fun (line, f) => f.diagnostic path.display line

theorem report_append (path : Path) (xs ys : List Located) :
    report path (xs ++ ys) = report path xs ++ report path ys :=
  List.map_append

theorem ruleId_of_mem_report {path : Path} {found : List Located} {id : String}
    (h : ∀ l ∈ found, l.2.ruleId = id) {x : Diagnostic} (hx : x ∈ report path found) :
    x.ruleId = id := by
  obtain ⟨l, hl, rfl⟩ := List.mem_map.1 hx
  exact h l hl

theorem filter_report {path : Path} {found : List Located} {own : String}
    (h : ∀ l ∈ found, l.2.ruleId = own) (id : String) :
    (report path found).filter (·.ruleId = id) = if own = id then report path found else [] :=
  Diagnostic.filter_ruleId (fun _ => ruleId_of_mem_report h) id

/-! ## The ids of each kind -/

/-- Where one fault is found at several places. -/
theorem ruleId_of_mem_map {α : Type _} {xs : List α} {place : α → Option Nat} {f : Fault} :
    ∀ l ∈ xs.map fun a => (place a, f), l.2.ruleId = f.ruleId := by
  intro l hl
  obtain ⟨a, _, rfl⟩ := List.mem_map.1 hl
  rfl

theorem ruleId_of_mem_placeholderFaults {lines : List (Nat × List Char)} :
    ∀ l ∈ placeholderFaults lines, l.2.ruleId = "placeholder-syntax" := by
  intro l hl
  obtain ⟨k, _, hl⟩ := List.mem_flatMap.1 hl
  obtain ⟨r, _, found⟩ := List.mem_filterMap.1 hl
  cases r with
  | error f =>
    cases found
    rfl
  | ok r => cases found

namespace Outline

variable {o : Outline}

theorem ruleId_of_mem_orderFaultsAfter {opened : List Section} {bs : List Block} :
    ∀ l ∈ orderFaultsAfter opened bs, l.2.ruleId = "section-order" := by
  induction bs generalizing opened with
  | nil => simp [orderFaultsAfter]
  | cons b bs ih =>
    rw [orderFaultsAfter_cons, List.forall_mem_append, List.forall_mem_map]
    refine ⟨fun fault found => ?_, ih⟩
    exact (headingFault?_eq_some_iff.1 (Option.mem_toList.1 found)).ruleId_eq

/-- What is said of a missing section, and where. -/
theorem missingFault_eq (s : Section) :
    ∃ previous line, o.missingFault s = (some line, .missingSection s previous line) := by
  rw [missingFault]
  split
  · exact ⟨_, _, rfl⟩
  · exact ⟨_, _, rfl⟩

theorem ruleId_of_mem_missingFaults : ∀ l ∈ o.missingFaults, l.2.ruleId = "missing-section" := by
  intro l hl
  obtain ⟨s, _, rfl⟩ := List.mem_map.1 hl
  obtain ⟨previous, line, fault⟩ := o.missingFault_eq s
  rw [fault]
  rfl

theorem ruleId_of_mem_urlFaults : ∀ l ∈ o.urlFaults, l.2.ruleId = "starting-url" := by
  intro l hl
  rw [urlFaults] at hl
  split at hl
  · rw [List.mem_singleton.1 hl]
    rfl
  · cases hl

end Outline

theorem ruleId_of_mem_modeFaults {path : Path} :
    ∀ l ∈ modeFaults path, l.2.ruleId = "filename-mode" := by
  intro l hl
  rw [(mem_modeFaults_iff.1 hl).2]
  rfl

/-- The message quotes the label of the section and what it is expected after. -/
theorem Fault.toList_message_missingSection (s : Section) (p : Option Section) (n : Nat) :
    (Fault.missingSection s p n).message.toList =
      "missing required section ".toList ++ '\'' :: (s.label.toList ++ '\'' ::
        (" (expected after ".toList ++ '\'' ::
          (((p.map Section.label).getD "Test Case").toList ++ '\'' ::
            (", which ends at line ".toList ++ ((toString n).toList ++ [')']))))) := by
  have message : (Fault.missingSection s p n).message =
      "missing required section '" ++ s.label ++ "' (expected after '" ++
        (p.map Section.label).getD "Test Case" ++ "', which ends at line " ++ toString n ++ ")" :=
    rfl
  rw [message]
  simp

/-! ## Reports -/

/-- The report on a text with a test case, taken apart by its ids. -/
theorem filter_report_structureFaults (path : Path) (lines : List (Nat × List Char)) (o : Outline)
    (id : String) :
    (report path (structureFaults lines o)).filter (·.ruleId = id) =
      (if "placeholder-syntax" = id then report path (placeholderFaults lines) else []) ++
      (if "unclosed-fence" = id then report path (fenceFaults lines) else []) ++
      (if "content-before-heading" = id then report path o.preambleFaults else []) ++
      (if "multiple-test-cases" = id then report path o.repeatFaults else []) ++
      (if "stray-content" = id then report path o.strayFaults else []) ++
      (if "section-order" = id then report path o.orderFaults else []) ++
      (if "missing-section" = id then
        report path (if (openFence? lines).isSome then [] else o.missingFaults) else []) ++
      (if "starting-url" = id then report path o.urlFaults else []) ++
      (if "step-syntax" = id then report path o.stepFaults else []) := by
  have fence : ∀ l ∈ fenceFaults lines, l.2.ruleId = "unclosed-fence" := ruleId_of_mem_map
  have preamble : ∀ l ∈ o.preambleFaults, l.2.ruleId = "content-before-heading" :=
    ruleId_of_mem_map
  have repeated : ∀ l ∈ o.repeatFaults, l.2.ruleId = "multiple-test-cases" := ruleId_of_mem_map
  have stray : ∀ l ∈ o.strayFaults, l.2.ruleId = "stray-content" := ruleId_of_mem_map
  have order : ∀ l ∈ o.orderFaults, l.2.ruleId = "section-order" :=
    Outline.ruleId_of_mem_orderFaultsAfter
  have missing : ∀ l ∈ (if (openFence? lines).isSome then [] else o.missingFaults),
      l.2.ruleId = "missing-section" := by
    split
    · simp
    · exact Outline.ruleId_of_mem_missingFaults
  have step : ∀ l ∈ o.stepFaults, l.2.ruleId = "step-syntax" := ruleId_of_mem_map
  simp only [structureFaults, report_append, List.filter_append]
  rw [filter_report ruleId_of_mem_placeholderFaults, filter_report fence, filter_report preamble,
    filter_report repeated, filter_report stray, filter_report order, filter_report missing,
    filter_report Outline.ruleId_of_mem_urlFaults, filter_report step]

end Markup

namespace Document

open Markup

variable {path : Path} {feature : String} {markers : Markers} {source : String}
  {ds : List Diagnostic}

/-- A text with faults is refused with what is reported of them, in report order. -/
theorem read_of_faults (path : Path) (feature : String) (markers : Markers) {source : String}
    (h : faults path source ≠ []) :
    read path feature markers source =
      .error (Diagnostic.sort (report path (faults path source))) := by
  simp only [read]
  split
  · rename_i none _ _
    exact absurd none h
  · rfl

theorem exists_read_of_faults_eq_nil (path : Path) (feature : String) (markers : Markers)
    {source : String} (h : faults path source = []) :
    ∃ d, read path feature markers source = .ok d := by
  obtain ⟨⟨mode, declared⟩, o, outlined, sound⟩ := faults_eq_nil_iff.1 h
  exact ⟨_, read_eq_ok_iff.2 ⟨mode, o, declared, outlined, sound, rfl⟩⟩

theorem perm_of_read_error (h : read path feature markers source = .error ds) :
    ds.Perm (report path (faults path source)) := by
  by_cases none : faults path source = []
  · obtain ⟨d, result⟩ := exists_read_of_faults_eq_nil path feature markers none
    rw [result] at h
    cases h
  · rw [read_of_faults path feature markers none] at h
    cases h
    exact Diagnostic.sort_perm _

/-- What reading a text reports under an id; of a document nothing is reported. -/
def reportedUnder (id : String) : Except (List Diagnostic) Document → List Diagnostic
  | .ok _ => []
  | .error ds => ds.filter (·.ruleId = id)

/-- What is reported of a text with a test case under an id, the file name aside. -/
theorem reportedUnder_read (path : Path) (feature : String) (markers : Markers) {source : String}
    {o : Outline} (outlined : Outline.ofLines? (Line.scan false (textLines source)) = some o)
    (id : String) (inText : id ≠ "filename-mode") :
    reportedUnder id (read path feature markers source) =
      Diagnostic.sort
        ((report path (structureFaults (textLines source) o)).filter (·.ruleId = id)) := by
  have whole : faults path source = modeFaults path ++ structureFaults (textLines source) o := by
    rw [faults, outlined]
  have sorted : reportedUnder id (read path feature markers source) =
      Diagnostic.sort ((report path (faults path source)).filter (·.ruleId = id)) := by
    rw [Diagnostic.sort, sortBy_filter Diagnostic.le_trans Diagnostic.le_total]
    by_cases none : faults path source = []
    · obtain ⟨d, result⟩ := exists_read_of_faults_eq_nil path feature markers none
      rw [result, none]
      rfl
    · rw [read_of_faults path feature markers none]
      rfl
  rw [sorted, whole, report_append, List.filter_append, filter_report ruleId_of_mem_modeFaults,
    if_neg inText.symm, List.nil_append]

/-- What a refused document with a test case is reported for under an id, its file name aside. -/
theorem filter_perm_of_read_error (h : read path feature markers source = .error ds) {o : Outline}
    (outlined : Outline.ofLines? (Line.scan false (textLines source)) = some o) (id : String)
    (inText : id ≠ "filename-mode") :
    (ds.filter (·.ruleId = id)).Perm
      ((report path (structureFaults (textLines source) o)).filter (·.ruleId = id)) := by
  have own := reportedUnder_read path feature markers outlined id inText
  rw [h, reportedUnder] at own
  rw [own]
  exact Diagnostic.sort_perm _

end Document

end ScriptAudit
