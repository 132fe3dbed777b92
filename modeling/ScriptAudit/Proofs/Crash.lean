import ScriptAudit.Proofs.Report
import ScriptAudit.Proofs.Rule.Adjust
import ScriptAudit.Proofs.Scan.Without
import ScriptAudit.Proofs.Screenshot.Orphan

/-!
# Rules that crash

A rule that crashes on a document costs what all rules find in that document and nothing else that
rules find. The document is reported once, takes no part in the check of its feature, and makes the
outcome of the run that of something unreadable.
-/

namespace ScriptAudit

namespace Run

/-! ## One document -/

/-- A rule crashes on the document at a path, which can be read and is well formed. -/
def Crashes (t : Tree) (config : Config) (rules : RuleSet) (p : Path) : Prop :=
  ∃ source d, t.readText p = .ok source ∧
    Document.read p (t.featureOf p) config.markers source = .ok d ∧
    ∃ r ∈ rules.rules, r.check config d = none

/-- What is reported of such a document. -/
def internalError (p : Path) : Diagnostic where
  file := p.display
  line := none
  ruleId := "internal-error"
  severity := .error
  message := "internal error while checking document"
  kind := .ioError

section Document

variable {t : Tree} {config : Config} {rules : RuleSet} {p : Path}

theorem evaluate_eq_none_iff {d : Document} :
    rules.evaluate config d = none ↔ ∃ r ∈ rules.rules, r.check config d = none := by
  rw [← Option.not_isSome_iff_eq_none, RuleSet.evaluate_isSome_iff]
  simp

theorem checkDocument_eq_none_iff :
    checkDocument t config rules p = none ↔ Crashes t config rules p := by
  rw [checkDocument, Crashes]
  cases t.readText p with
  | error e => simp
  | ok source =>
    dsimp only
    cases read : Document.read p (t.featureOf p) config.markers source with
    | error ds => simp [read]
    | ok d => simp [read, evaluate_eq_none_iff]

instance : Decidable (Crashes t config rules p) :=
  decidable_of_iff ((checkDocument t config rules p).isNone = true) <| by
    rw [Option.isNone_iff_eq_none, checkDocument_eq_none_iff]

theorem check_of_crashes (crashes : Crashes t config rules p) :
    check t config rules p = .crashed p := by
  rw [check, checkDocument_eq_none_iff.2 crashes]
  rfl

theorem diagnostics_of_crashes (crashes : Crashes t config rules p) :
    (check t config rules p).diagnostics = [internalError p] := by
  rw [check_of_crashes crashes]
  rfl

/-- A document that is handed on does not crash a rule. -/
theorem not_crashes_of_check {d : Document} (h : (check t config rules p).document = some d) :
    ¬Crashes t config rules p := by
  intro crashes
  rw [check_of_crashes crashes] at h
  cases h

/-- Where what is reported of a document comes from. -/
inductive Stems (t : Tree) (config : Config) (rules : RuleSet) (p : Path) (x : Diagnostic) :
    Prop where
  | unreadable {e : PathError} (text : t.readText p = .error e)
      (shown : x = .unreadable p.display ("cannot read document: " ++ e.message))
  | malformed (kind : x.kind = .parseError)
  | found {d : Document} (kind : x.kind = .schemaViolation)
      (reported : x ∈ rules.rules.flatMap fun r => r.reports config d)
  | crashed (crashes : Crashes t config rules p) (shown : x = internalError p)

theorem stems_of_mem_check {x : Diagnostic} (hx : x ∈ (check t config rules p).diagnostics) :
    Stems t config rules p x := by
  have outcome := comesTo_check t config rules p
  generalize check t config rules p = c at outcome hx
  cases outcome with
  | unreadable text => exact .unreadable text (List.mem_singleton.1 hx)
  | malformed text refused =>
    obtain ⟨line, fault, rfl⟩ := (Document.read_eq_error refused).2 x hx
    exact .malformed rfl
  | @judged source d ds text read evaluated =>
    obtain ⟨_, rfl⟩ := RuleSet.evaluate_eq_some_iff.1 evaluated
    have reported := (Diagnostic.sort_perm _).mem_iff.1 hx
    obtain ⟨r, _, own⟩ := List.mem_flatMap.1 reported
    obtain ⟨_, _, f, _, rfl⟩ := Rule.mem_reports_iff.1 own
    exact .found rfl reported
  | crashed text read broken =>
    exact .crashed ⟨_, _, text, read, evaluate_eq_none_iff.1 broken⟩ (List.mem_singleton.1 hx)

/-- Only what cannot be read is reported as such, next to crashes. -/
theorem exists_ioError_iff (spared : ¬Crashes t config rules p) :
    (∃ x ∈ (check t config rules p).diagnostics, x.kind = .ioError) ↔
      ∃ e, t.readText p = .error e := by
  constructor
  · rintro ⟨x, hx, kind⟩
    cases stems_of_mem_check hx with
    | unreadable text _ => exact ⟨_, text⟩
    | malformed parse => cases kind.symm.trans parse
    | found schema _ => cases kind.symm.trans schema
    | crashed crashes _ => exact absurd crashes spared
  · rintro ⟨e, text⟩
    rw [check, checkDocument, text]
    exact ⟨_, List.mem_singleton_self _, rfl⟩

theorem not_internal_of_mem_check (spared : ¬Crashes t config rules p) {x : Diagnostic}
    (hx : x ∈ (check t config rules p).diagnostics) :
    ¬(x.kind = .ioError ∧ x.ruleId = "internal-error") := by
  rintro ⟨kind, id⟩
  cases stems_of_mem_check hx with
  | unreadable _ shown =>
    rw [shown] at id
    exact absurd id (by simp [Diagnostic.unreadable])
  | malformed parse => cases kind.symm.trans parse
  | found schema _ => cases kind.symm.trans schema
  | crashed crashes _ => exact absurd crashes spared

/-- What is found in a document is what its rules report. -/
theorem exists_of_mem_findings {x : Diagnostic} (hx : x ∈ (check t config rules p).diagnostics)
    (kind : x.kind = .schemaViolation) :
    ∃ d, x ∈ rules.rules.flatMap fun r => r.reports config d := by
  cases stems_of_mem_check hx with
  | unreadable _ shown =>
    rw [shown] at kind
    cases kind
  | malformed parse => cases kind.symm.trans parse
  | found _ reported => exact ⟨_, reported⟩
  | crashed _ shown =>
    rw [shown] at kind
    cases kind

end Document

/-! ## The documents of a run -/

section Parts

variable (t : Tree) (config : Config) (rules : RuleSet) (roots : List Path)

/-- The documents found that a rule crashes on. -/
def crashing : List Path :=
  (documentsOf t (scansOf t config.scan roots)).filter (Crashes t config rules ·)

/-- The documents found that no rule crashes on. -/
def spared : List Path :=
  (documentsOf t (scansOf t config.scan roots)).filter (¬Crashes t config rules ·)

/-- Where the documents stand that a rule crashes on. -/
def crashSites (pos : Position) : Bool :=
  (crashing t config rules roots).any fun p => (t.locate p).toOption = some pos

/-- The tree without these documents. -/
def withoutCrashes : Tree :=
  t.without (crashSites t config rules roots)

variable {t config rules roots}

theorem lost_crashSites_iff {p : Path} (hp : p ∈ documentsOf t (scansOf t config.scan roots)) :
    t.lost (crashSites t config rules roots) p = true ↔ Crashes t config rules p := by
  have regular := regular_scansOf t config.scan roots
  obtain ⟨x, located⟩ := located_of_mem_documentsOf regular hp
  rw [Tree.lost_of_locate located, crashSites, List.any_eq_true]
  constructor
  · rintro ⟨q, hq, there⟩
    obtain ⟨hq, crashes⟩ := List.mem_filter.1 hq
    obtain ⟨y, locatedQ⟩ := located_of_mem_documentsOf regular hq
    have same : y = x := by
      rw [locatedQ] at there
      exact Option.some.inj (of_decide_eq_true there)
    -- documents found are told apart by their places
    obtain rfl : q = p := eq_of_pairwise (pairwise_firstOf _) hq hp
      ((Tree.keyOf_eq_iff locatedQ located).2 same)
    exact of_decide_eq_true crashes
  · intro crashes
    refine ⟨p, List.mem_filter.2 ⟨hp, decide_eq_true crashes⟩, ?_⟩
    rw [located]
    exact decide_eq_true rfl

/-- Without the documents that a rule crashes on, a run finds the others. -/
theorem documentsOf_withoutCrashes :
    documentsOf (withoutCrashes t config rules roots)
        (scansOf (withoutCrashes t config rules roots) config.scan roots) =
      spared t config rules roots := by
  rw [withoutCrashes, documentsOf_without, spared]
  refine List.filter_congr fun p hp => ?_
  rw [Bool.eq_iff_iff, Bool.not_eq_true', ← Bool.not_eq_true, lost_crashSites_iff hp,
    decide_eq_true_iff]

/-- What the others come to is the same with and without those. -/
theorem checkDocument_withoutCrashes {p : Path} (hp : p ∈ spared t config rules roots) :
    checkDocument (withoutCrashes t config rules roots) config rules p =
      checkDocument t config rules p := by
  obtain ⟨hp, kept⟩ := List.mem_filter.1 hp
  have regular := regular_scansOf t config.scan roots
  obtain ⟨s, hs, d, hd, rfl⟩ := mem_documents_iff.1 (mem_of_mem_firstOf hp)
  obtain ⟨x, located⟩ := (regular s hs).located d hd
  obtain ⟨name, named⟩ := (regular s hs).named d hd
  have stays : ¬Tree.Loses t.top (crashSites t config rules roots) x := by
    intro lost
    have crashes := (lost_crashSites_iff hp).1 ((Tree.lost_of_locate located).trans lost.1)
    exact of_decide_eq_true kept crashes
  rw [withoutCrashes, checkDocument, checkDocument, Tree.readText_without located stays,
    Tree.featureOf_without named located]

theorem spared_withoutCrashes :
    spared (withoutCrashes t config rules roots) config rules roots =
      spared t config rules roots := by
  rw [spared, documentsOf_withoutCrashes]
  refine List.filter_eq_self.2 fun p hp => decide_eq_true ?_
  rw [← checkDocument_eq_none_iff, checkDocument_withoutCrashes hp, checkDocument_eq_none_iff]
  exact of_decide_eq_true (List.mem_filter.1 hp).2

end Parts

/-! ## Reports -/

section Reports

variable {t : Tree} {config : Config} {rules : RuleSet} {roots : List Path}

/-- A report is made of what was pushed while the documents finished in some order. -/
theorem MayReport.exists_finished {permits : Nat} {r : Report}
    (h : MayReport t config rules roots permits r) :
    ∃ finished, finished.Perm (documentsOf t (scansOf t config.scan roots)) ∧
      r.diagnostics = Diagnostic.sort (pushed t config rules roots finished) := by
  obtain ⟨finished, joined, done, order, rfl⟩ := h
  refine ⟨finished, done.perm.trans (queue_perm t config.scan roots), ?_⟩
  rw [report_eq, collected_eq (order.trans done.perm)]
  rfl

theorem pushed_perm_parts {finished : List Path}
    (perm : finished.Perm (documentsOf t (scansOf t config.scan roots))) :
    (pushed t config rules roots finished).Perm
      (problemsOf (scansOf t config.scan roots) ++
        ((crashing t config rules roots).map internalError ++
          (spared t config rules roots).flatMap fun p => (check t config rules p).diagnostics) ++
        (handed t (scansOf t config.scan roots)).flatMap fun f =>
          f.check (readDocuments t config rules f)) := by
  have documents : (finished.flatMap fun p => (check t config rules p).diagnostics).Perm
      ((crashing t config rules roots).map internalError ++
        (spared t config rules roots).flatMap fun p => (check t config rules p).diagnostics) := by
    have crashed : (crashing t config rules roots).map internalError =
        (crashing t config rules roots).flatMap fun p => (check t config rules p).diagnostics := by
      rw [List.map_eq_flatMap]
      refine List.flatMap_congr fun p hp => (diagnostics_of_crashes ?_).symm
      exact of_decide_eq_true (List.mem_filter.1 hp).2
    have parts : (crashing t config rules roots ++ spared t config rules roots).Perm
        (documentsOf t (scansOf t config.scan roots)) := by
      simp only [crashing, spared, decide_not]
      exact List.filter_append_perm _ _
    rw [crashed, ← List.flatMap_append]
    exact (perm.trans parts.symm).flatMap_right _
  have features : ((sortBy (fun a b => Path.le a.1 b.1)
      (gather t config.scan roots).features).flatMap fun f =>
        f.2.check (readDocuments t config rules f.2)).Perm
      ((handed t (scansOf t config.scan roots)).flatMap fun f =>
        f.check (readDocuments t config rules f)) := by
    rw [← map_features_gather, List.flatMap_map]
    exact (sortBy_perm _ _).flatMap_right _
  simp only [pushed]
  rw [(gathersRoots_gather t config.scan roots).scans.problems]
  exact (documents.append_left _).append features

section Parts

variable {r : Report}
  (parts : r.diagnostics.Perm (problemsOf (scansOf t config.scan roots) ++
    ((crashing t config rules roots).map internalError ++
      (spared t config rules roots).flatMap fun p => (check t config rules p).diagnostics) ++
    (handed t (scansOf t config.scan roots)).flatMap fun f =>
      f.check (readDocuments t config rules f)))
include parts

/-- What is picked out by kind and id and is no problem of a scan nor about a feature comes from the
documents. -/
theorem filter_parts_perm (q : Diagnostic → Bool)
    (problem : ∀ file message, q (.unreadable file message) = false)
    (feature : ∀ x, x.kind = .consistencyError → q x = false) :
    (r.diagnostics.filter q).Perm (((crashing t config rules roots).map internalError).filter q ++
      (spared t config rules roots).flatMap fun p =>
        (check t config rules p).diagnostics.filter q) := by
  have problems : (problemsOf (scansOf t config.scan roots)).filter q = [] := by
    refine List.filter_eq_nil_iff.2 fun x hx => ?_
    rw [← (gathersRoots_gather t config.scan roots).scans.problems] at hx
    obtain ⟨file, message, rfl⟩ := exists_of_mem_problems hx
    simp [problem]
  have features : ((handed t (scansOf t config.scan roots)).flatMap fun f =>
      f.check (readDocuments t config rules f)).filter q = [] := by
    refine List.filter_eq_nil_iff.2 fun x hx => ?_
    obtain ⟨f, _, hx⟩ := List.mem_flatMap.1 hx
    simp [feature x (Feature.kind_of_mem_check _ _ hx)]
  refine (parts.filter q).trans ?_
  rw [List.filter_append, List.filter_append, List.filter_append, problems, features,
    List.nil_append, List.append_nil, List.filter_flatMap]

theorem filter_internal_perm :
    (r.diagnostics.filter fun x => x.kind = .ioError ∧ x.ruleId = "internal-error").Perm
      ((crashing t config rules roots).map internalError) := by
  have others := filter_parts_perm parts
    (fun x => x.kind = .ioError ∧ x.ruleId = "internal-error")
    (fun _ _ => by simp [Diagnostic.unreadable]) fun x kind => by simp [kind]
  have crashed : ((crashing t config rules roots).map internalError).filter
      (fun x => x.kind = .ioError ∧ x.ruleId = "internal-error") =
        (crashing t config rules roots).map internalError := by
    refine List.filter_eq_self.2 fun x hx => ?_
    obtain ⟨p, _, rfl⟩ := List.mem_map.1 hx
    rfl
  have rest : ((spared t config rules roots).flatMap fun p =>
      (check t config rules p).diagnostics.filter
        fun x => x.kind = .ioError ∧ x.ruleId = "internal-error") = [] := by
    refine List.flatMap_eq_nil_iff.2 fun p hp => List.filter_eq_nil_iff.2 fun x hx internal => ?_
    have kept := of_decide_eq_true (List.mem_filter.1 hp).2
    exact not_internal_of_mem_check kept hx (of_decide_eq_true internal)
  rwa [crashed, rest, List.append_nil] at others

theorem filter_findings_perm : (r.diagnostics.filter (·.kind = .schemaViolation)).Perm
    ((spared t config rules roots).flatMap fun p =>
      (check t config rules p).diagnostics.filter (·.kind = .schemaViolation)) := by
  have others := filter_parts_perm parts (·.kind = .schemaViolation)
    (fun _ _ => rfl) fun x kind => by simp [kind]
  have crashed : ((crashing t config rules roots).map internalError).filter
      (·.kind = .schemaViolation) = [] := by
    refine List.filter_eq_nil_iff.2 fun x hx => ?_
    obtain ⟨p, _, rfl⟩ := List.mem_map.1 hx
    simp [internalError]
  rwa [crashed, List.nil_append] at others

theorem exists_ioError_parts_iff : (∃ x ∈ r.diagnostics, x.kind = .ioError) ↔
    crashing t config rules roots ≠ [] ∨ problemsOf (scansOf t config.scan roots) ≠ [] ∨
      ∃ p ∈ documentsOf t (scansOf t config.scan roots), ∃ e, t.readText p = .error e := by
  have member (x : Diagnostic) : x ∈ r.diagnostics ↔
      (x ∈ problemsOf (scansOf t config.scan roots) ∨
        (∃ p ∈ crashing t config rules roots, internalError p = x) ∨
        ∃ p ∈ spared t config rules roots, x ∈ (check t config rules p).diagnostics) ∨
      ∃ f ∈ handed t (scansOf t config.scan roots),
        x ∈ f.check (readDocuments t config rules f) := by
    rw [parts.mem_iff, List.mem_append, List.mem_append, List.mem_append, List.mem_map,
      List.mem_flatMap, List.mem_flatMap]
  constructor
  · rintro ⟨x, hx, kind⟩
    rcases (member x).1 hx with (problem | ⟨p, hp, _⟩ | ⟨p, hp, own⟩) | ⟨f, _, judged⟩
    · exact Or.inr (Or.inl (List.ne_nil_of_mem problem))
    · exact Or.inl (List.ne_nil_of_mem hp)
    · obtain ⟨found, kept⟩ := List.mem_filter.1 hp
      exact Or.inr (Or.inr ⟨p, found, (exists_ioError_iff (of_decide_eq_true kept)).1 ⟨x, own, kind⟩⟩)
    · rw [Feature.kind_of_mem_check _ _ judged] at kind
      cases kind
  · rintro (crashes | problems | ⟨p, found, e, error⟩)
    · obtain ⟨p, hp⟩ := List.exists_mem_of_ne_nil _ crashes
      exact ⟨internalError p, (member _).2 (Or.inl (Or.inr (Or.inl ⟨p, hp, rfl⟩))), rfl⟩
    · obtain ⟨x, hx⟩ := List.exists_mem_of_ne_nil _ problems
      refine ⟨x, (member x).2 (Or.inl (Or.inl hx)), ?_⟩
      rw [← (gathersRoots_gather t config.scan roots).scans.problems] at hx
      obtain ⟨file, message, rfl⟩ := exists_of_mem_problems hx
      rfl
    · have kept : ¬Crashes t config rules p := by
        rintro ⟨source, _, text, _⟩
        rw [error] at text
        cases text
      obtain ⟨x, hx, kind⟩ := (exists_ioError_iff kept).2 ⟨e, error⟩
      have own : p ∈ spared t config rules roots :=
        List.mem_filter.2 ⟨found, decide_eq_true kept⟩
      exact ⟨x, (member x).2 (Or.inl (Or.inr (Or.inr ⟨p, own, hx⟩))), kind⟩

end Parts

/-! ## Features -/

theorem not_crashes_of_mem_readDocuments {f : Feature} {d : Document}
    (hd : d ∈ readDocuments t config rules f) : ¬Crashes t config rules d.path := by
  obtain ⟨p, _, read⟩ := List.mem_filterMap.1 hd
  rw [(of_check read).1]
  exact not_crashes_of_check read

/-- A feature that holds a document that a rule crashes on reports no orphans. -/
theorem not_orphan_of_crashes {f : Feature} {p : Path} (hp : p ∈ f.documents)
    (crashes : Crashes t config rules p) {x : Diagnostic}
    (hx : x ∈ f.check (readDocuments t config rules f)) : x.ruleId ≠ "screenshot-orphan" := by
  intro id
  have reported : x ∈ (f.check (readDocuments t config rules f)).filter
      (·.ruleId = "screenshot-orphan") := List.mem_filter.2 ⟨hx, decide_eq_true id⟩
  obtain ⟨_, orphaned, _⟩ := mem_filter_check_orphan_iff.1 reported
  have read := orphaned.read p hp
  rw [check_of_crashes crashes] at read
  cases read

/-! ## Other runs -/

/-- Reports with the same findings have them in the same order. -/
theorem findings_eq_of_perm (distinct : rules.rules.Pairwise fun r q => r.id ≠ q.id)
    {r r' : Report}
    (perm : (r.diagnostics.filter (·.kind = .schemaViolation)).Perm
      (r'.diagnostics.filter (·.kind = .schemaViolation)))
    (known : ∀ x ∈ r.diagnostics.filter (·.kind = .schemaViolation),
      ∃ d, x ∈ rules.rules.flatMap fun r => r.reports config d) :
    r.diagnostics.filter (·.kind = .schemaViolation) =
      r'.diagnostics.filter (·.kind = .schemaViolation) := by
  have sorted (r : Report) : Diagnostic.sort (r.diagnostics.filter (·.kind = .schemaViolation)) =
      r.diagnostics.filter (·.kind = .schemaViolation) :=
    sortBy_of_pairwise (r.sorted.filter _)
  rw [← sorted r, ← sorted r']
  refine Diagnostic.sort_eq_of_perm perm fun a ha b hb tied => ?_
  obtain ⟨d, ha⟩ := known a ha
  obtain ⟨e, hb⟩ := known b hb
  exact RuleSet.eq_of_order_eq_of_mem_reports distinct ha hb tied

end Reports

/-- How a report treats the documents that a rule crashes on. Each of them is in it once, as an
internal error, and the other documents are in it with what their check comes to. No check of a
feature is given one of them, and a feature that holds one reports no orphans. -/
structure Isolates (t : Tree) (config : Config) (rules : RuleSet) (roots : List Path)
    (r : Report) : Prop where
  diagnostics : r.diagnostics.Perm (problemsOf (scansOf t config.scan roots) ++
    ((crashing t config rules roots).map internalError ++
      (spared t config rules roots).flatMap fun p => (check t config rules p).diagnostics) ++
    (handed t (scansOf t config.scan roots)).flatMap fun f =>
      f.check (readDocuments t config rules f))
  internal : (r.diagnostics.filter fun x => x.kind = .ioError ∧ x.ruleId = "internal-error").Perm
    ((crashing t config rules roots).map internalError)
  findings : (r.diagnostics.filter (·.kind = .schemaViolation)).Perm
    ((spared t config rules roots).flatMap fun p =>
      (check t config rules p).diagnostics.filter (·.kind = .schemaViolation))
  unchecked : ∀ f ∈ handed t (scansOf t config.scan roots),
    ∀ d ∈ readDocuments t config rules f, ¬Crashes t config rules d.path
  orphans : ∀ f ∈ handed t (scansOf t config.scan roots),
    (∃ p ∈ f.documents, Crashes t config rules p) →
      ∀ x ∈ f.check (readDocuments t config rules f), x.ruleId ≠ "screenshot-orphan"
  outcome : ∀ failOnWarnings, r.outcome failOnWarnings = .unreadable ↔
    crashing t config rules roots ≠ [] ∨ problemsOf (scansOf t config.scan roots) ≠ [] ∨
      ∃ p ∈ documentsOf t (scansOf t config.scan roots), ∃ e, t.readText p = .error e

section Isolated

variable {t : Tree} {config : Config} {rules : RuleSet} {roots : List Path} {permits : Nat}
  {r : Report}

theorem MayReport.isolates (h : MayReport t config rules roots permits r) :
    Isolates t config rules roots r := by
  obtain ⟨finished, perm, diagnostics⟩ := h.exists_finished
  have parts := (Diagnostic.sort_perm (pushed t config rules roots finished)).trans
    (pushed_perm_parts perm)
  rw [← diagnostics] at parts
  constructor
  · exact parts
  · exact filter_internal_perm parts
  · exact filter_findings_perm parts
  · exact fun f _ d hd => not_crashes_of_mem_readDocuments hd
  · rintro f _ ⟨p, hp, crashes⟩ x hx
    exact not_orphan_of_crashes hp crashes hx
  · intro failOnWarnings
    rw [Report.outcome_eq_unreadable_iff, exists_ioError_parts_iff parts]

/-- With and without the documents that a rule crashes on, rules find the same in the others. -/
theorem findings_eq_without (distinct : rules.rules.Pairwise fun r q => r.id ≠ q.id)
    (h : MayReport t config rules roots permits r) {permits' : Nat} {r' : Report}
    (h' : MayReport (withoutCrashes t config rules roots) config rules roots permits' r') :
    r'.diagnostics.filter (·.kind = .schemaViolation) =
      r.diagnostics.filter (·.kind = .schemaViolation) := by
  have without := h'.isolates.findings
  rw [spared_withoutCrashes] at without
  have same : ((spared t config rules roots).flatMap fun p =>
      (check (withoutCrashes t config rules roots) config rules p).diagnostics.filter
        (·.kind = .schemaViolation)) =
      (spared t config rules roots).flatMap fun p =>
        (check t config rules p).diagnostics.filter (·.kind = .schemaViolation) := by
    refine List.flatMap_congr fun p hp => ?_
    rw [check, check, checkDocument_withoutCrashes hp]
  rw [same] at without
  have known : ∀ x ∈ r.diagnostics.filter (·.kind = .schemaViolation),
      ∃ d, x ∈ rules.rules.flatMap fun q => q.reports config d := by
    intro x hx
    obtain ⟨p, _, found⟩ := List.mem_flatMap.1 (h.isolates.findings.mem_iff.1 hx)
    obtain ⟨found, kind⟩ := List.mem_filter.1 found
    exact exists_of_mem_findings found (of_decide_eq_true kind)
  exact (findings_eq_of_perm distinct (h.isolates.findings.trans without.symm) known).symm

end Isolated

/-- A rule that crashes does not keep a run from ending in a report. Whatever the permits and the
orders of finishing and collecting, the crash stays with its documents: a run over the tree without
them finds the other documents, and its rules find the same in them, in the same order. -/
theorem run_isolates {rules : RuleSet} (distinct : rules.rules.Pairwise fun r q => r.id ≠ q.id)
    (t : Tree) (config : Config) (roots : List Path) :
    (Proceeds t config roots → ∃ r, t.run config rules roots = .ok r ∧
      ∀ permits, 0 < permits → MayReport t config rules roots permits r) ∧
    (∀ permits, 0 < permits → ∃ r, MayReport t config rules roots permits r) ∧
    ∀ permits r, MayReport t config rules roots permits r →
      Isolates t config rules roots r ∧
      documentsOf (withoutCrashes t config rules roots)
          (scansOf (withoutCrashes t config rules roots) config.scan roots) =
        spared t config rules roots ∧
      ∀ permits' r', MayReport (withoutCrashes t config rules roots) config rules roots permits' r' →
        r'.diagnostics.filter (·.kind = .schemaViolation) =
          r.diagnostics.filter (·.kind = .schemaViolation) := by
  refine ⟨fun proceeds => ?_, fun permits positive => ?_, fun permits r h => ?_⟩
  · have ran : t.run config rules roots = .ok _ := run_eq_report proceeds
    exact ⟨_, ran, fun permits positive => mayReport_of_run positive ran⟩
  · exact exists_mayReport_iff.2 (.inl positive)
  · exact ⟨h.isolates, documentsOf_withoutCrashes, fun permits' r' h' =>
      findings_eq_without distinct h h'⟩

/-- Two rules, of which the first crashes on a document that declares the id `A`. -/
def brittleRules : RuleSet where
  rules := [
    { id := "brittle", severity := .error, summary := ""
      check := fun _ d => if d.cases.any (·.id = "A") then none else some [] },
    { id := "present", severity := .info, summary := ""
      check := fun _ _ => some [.onLine 1 "present"] }]

theorem crashing_neighbours :
    crashing neighbours {} brittleRules [⟨"a"⟩] = [⟨"a/x.mock.md"⟩] := by
  decide +kernel

theorem findings_neighbours :
    ((spared neighbours {} brittleRules [⟨"a"⟩]).flatMap fun p =>
      (check neighbours {} brittleRules p).diagnostics.filter (·.kind = .schemaViolation)) =
      [⟨"a/y.mock.md", some 1, "present", .info, "present", .schemaViolation⟩] := by
  decide +kernel

/-- One of the two documents is lost, and the other keeps its finding. -/
theorem run_isolates_neighbours :
    brittleRules.rules.Pairwise (fun r q => r.id ≠ q.id) ∧
    ∃ r, neighbours.run {} brittleRules [⟨"a"⟩] = .ok r ∧ r.outcome false = .unreadable ∧
      (r.diagnostics.filter fun x => x.kind = .ioError ∧ x.ruleId = "internal-error") =
        [internalError ⟨"a/x.mock.md"⟩] ∧
      r.diagnostics.filter (·.kind = .schemaViolation) =
        [⟨"a/y.mock.md", some 1, "present", .info, "present", .schemaViolation⟩] := by
  have distinct : brittleRules.rules.Pairwise fun r q => r.id ≠ q.id := by decide
  obtain ⟨ran, _, isolates⟩ := run_isolates distinct neighbours {} [⟨"a"⟩]
  obtain ⟨r, ran, may⟩ := ran (proceeds_of_jobs (by decide) (by decide))
  obtain ⟨isolated, _⟩ := isolates 1 r (may 1 Nat.one_pos)
  have internal := isolated.internal
  have findings := isolated.findings
  rw [crashing_neighbours] at internal
  rw [findings_neighbours] at findings
  refine ⟨distinct, r, ran, (isolated.outcome false).2 (Or.inl ?_),
    List.perm_singleton.1 internal, List.perm_singleton.1 findings⟩
  rw [crashing_neighbours]
  exact List.cons_ne_nil _ _

end Run

end ScriptAudit
