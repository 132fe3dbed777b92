import ScriptAudit.Proofs.Gather
import ScriptAudit.Proofs.Grade

/-!
# Runs do not depend on scheduling

A run collects blocks of diagnostics, one for each document, in whatever order the documents finish
in, and puts them in order at the end. No block depends on that order, and diagnostics that tie in
the report order are equal, so there is one report. A run has none just when it asks for more
permits than there can be, or for none while documents wait.
-/

namespace ScriptAudit

namespace Run

/-! ## Blocks -/

theorem check_path (t : Tree) (config : Config) (rules : RuleSet) (p : Path) :
    (check t config rules p).path = p := by
  have outcome := comesTo_check t config rules p
  generalize check t config rules p = c at outcome ⊢
  cases outcome <;> rfl

theorem foldl_extend {α : Type} (block : α → List Diagnostic) (xs : List α) (s : Sink) :
    (xs.foldl (fun s x => s.extend (block x)) s).collected =
      s.collected ++ xs.flatMap block := by
  induction xs generalizing s with
  | nil => exact (List.append_nil _).symm
  | cons x xs ih => rw [List.foldl_cons, ih, Sink.extend, List.flatMap_cons, List.append_assoc]

/-- All that reaches the sink of a run, in order of arrival. -/
def collected (g : Gathered) (finished joined : List Checked) : List Diagnostic :=
  g.problems ++ finished.flatMap (·.diagnostics) ++
    (sortBy (fun a b => Path.le a.1 b.1) g.features).flatMap fun f => f.2.check (readOf joined f.2)

theorem report_eq (g : Gathered) (finished joined : List Checked) :
    report g finished joined =
      .ofDiagnostics (collected g finished joined) g.documents.length g.features.length := by
  simp only [report, collected, Sink.drain]
  rw [foldl_extend (fun f : Path × Feature => f.2.check (readOf joined f.2)),
    foldl_extend (fun c : Checked => c.diagnostics)]
  rfl

/-! ## One order or another -/

theorem mem_queue_iff {t : Tree} {config : ScanConfig} {roots : List Path} {p : Path} :
    p ∈ queue (gather t config roots) ↔ p ∈ documentsOf t (scansOf t config roots) := by
  rw [queue, mem_sortBy, (gathersRoots_gather t config roots).scans.documents, List.map_map]
  exact (List.map_id _).symm ▸ Iff.rfl

theorem queue_perm (t : Tree) (config : ScanConfig) (roots : List Path) :
    (queue (gather t config roots)).Perm (documentsOf t (scansOf t config roots)) := by
  have second : (Prod.snd ∘ fun p : Path => (t.resolved p, p)) = id := rfl
  refine (sortBy_perm _ _).trans ?_
  rw [(gathersRoots_gather t config roots).scans.documents, List.map_map, second, List.map_id]

theorem length_documents_gather (t : Tree) (config : ScanConfig) (roots : List Path) :
    (gather t config roots).documents.length = (documentsOf t (scansOf t config roots)).length := by
  rw [(gathersRoots_gather t config roots).scans.documents, List.length_map]

theorem length_features_gather (t : Tree) (config : ScanConfig) (roots : List Path) :
    (gather t config roots).features.length = (featuresOf t (scansOf t config roots)).length := by
  rw [(gathersRoots_gather t config roots).scans.features, List.length_map]

/-- The documents of a feature that can be read. -/
def readDocuments (t : Tree) (config : Config) (rules : RuleSet) (f : Feature) : List Document :=
  f.documents.filterMap fun p => (check t config rules p).document

theorem readOf_eq {t : Tree} {config : Config} {rules : RuleSet} {joined : List Path}
    (distinct : joined.Pairwise fun p q => p.parts ≠ q.parts) {f : Feature}
    (known : ∀ p ∈ f.documents, p ∈ joined) :
    readOf (joined.map (check t config rules)) f = readDocuments t config rules f := by
  simp only [readOf, readDocuments]
  apply List.filterMap_congr
  intro p hp
  have check_key : (fun c : Checked => decide (c.path.parts = p.parts)) ∘ check t config rules =
      fun q => decide (q.parts = p.parts) := by
    funext q
    rw [Function.comp_apply, check_path]
  rw [List.find?_map, check_key, find?_of_pairwise distinct (known p hp)]
  rfl

section Orders

variable (t : Tree) (config : Config) (rules : RuleSet) (roots : List Path)

/-- What a run reports of the documents, in the order in which they finish, and of the rest. -/
def pushed (finished : List Path) : List Diagnostic :=
  let g := gather t config.scan roots
  g.problems ++ finished.flatMap (fun p => (check t config rules p).diagnostics) ++
    (sortBy (fun a b => Path.le a.1 b.1) g.features).flatMap fun f =>
      f.2.check (readDocuments t config rules f.2)

variable {t config rules roots}

theorem mem_queue_of_mem_features {f : Path × Feature}
    (hf : f ∈ (gather t config.scan roots).features) {p : Path} (hp : p ∈ f.2.documents) :
    p ∈ queue (gather t config.scan roots) := by
  rw [(gathersRoots_gather t config.scan roots).scans.features] at hf
  obtain ⟨first, _, rfl⟩ := List.mem_map.1 hf
  obtain ⟨_, _, spelled⟩ := List.mem_flatMap.1 (mem_of_mem_firstOf hp)
  obtain ⟨q, _, found⟩ := List.mem_filterMap.1 spelled
  exact mem_queue_iff.2 (keyOf_of_spelling? found).1

theorem pairwise_queue : (queue (gather t config.scan roots)).Pairwise
    fun p q => p.parts ≠ q.parts :=
  ((queue_perm t config.scan roots).pairwise_iff fun h => h.symm).2
    (pairwise_documentsOf (regular_scansOf t config.scan roots))

/-- The order in which documents are collected makes no difference to features. -/
theorem collected_eq {finished collects : List Path}
    (perm : collects.Perm (queue (gather t config.scan roots))) :
    collected (gather t config.scan roots) (finished.map (check t config rules))
      (collects.map (check t config rules)) = pushed t config rules roots finished := by
  have distinct : collects.Pairwise fun p q => p.parts ≠ q.parts :=
    (perm.pairwise_iff fun h => h.symm).2 pairwise_queue
  simp only [collected, pushed]
  rw [List.flatMap_map]
  congr 1
  apply List.flatMap_congr
  intro f hf
  rw [readOf_eq distinct fun p hp => ?_]
  exact perm.mem_iff.2 (mem_queue_of_mem_features (mem_sortBy.1 hf) hp)

theorem pushed_perm {finished : List Path}
    (perm : finished.Perm (queue (gather t config.scan roots))) :
    (pushed t config rules roots finished).Perm
      (pushed t config rules roots (queue (gather t config.scan roots))) := by
  simp only [pushed]
  exact ((perm.flatMap_right _).append_left _).append_right _

/-- Every producer keeps to the grades of its rule ids. -/
theorem graded_of_mem_pushed (separate : rules.Separate) {finished : List Path} {d : Diagnostic}
    (hd : d ∈ pushed t config rules roots finished) : d.Graded rules := by
  simp only [pushed] at hd
  rw [List.mem_append, List.mem_append] at hd
  rcases hd with (problem | checked) | judged
  · obtain ⟨file, message, rfl⟩ := exists_of_mem_problems problem
    exact Diagnostic.graded_unreadable separate file message
  · obtain ⟨p, _, checked⟩ := List.mem_flatMap.1 checked
    exact Diagnostic.graded_of_mem_check separate checked
  · obtain ⟨f, _, judged⟩ := List.mem_flatMap.1 judged
    exact Diagnostic.graded_of_mem_featureCheck separate judged

theorem eq_of_order_eq_of_mem_pushed (separate : rules.Separate) {finished : List Path}
    {a b : Diagnostic} (ha : a ∈ pushed t config rules roots finished)
    (hb : b ∈ pushed t config rules roots finished) (tied : Diagnostic.order a b = .eq) : a = b := by
  have gradeA := graded_of_mem_pushed separate ha
  have gradeB := graded_of_mem_pushed separate hb
  exact gradeA.eq_of_order_eq gradeB tied

theorem sort_pushed (separate : rules.Separate) {finished : List Path} {ds : List Diagnostic}
    (perm : (pushed t config rules roots finished).Perm ds) :
    Diagnostic.sort (pushed t config rules roots finished) = Diagnostic.sort ds := by
  apply Diagnostic.sort_eq_of_perm perm
  intro a ha b hb
  exact eq_of_order_eq_of_mem_pushed separate ha hb

variable (t config rules roots) in
/-- The report on what the queue, taken in its order, comes to. -/
def queueReport : Report :=
  .ofDiagnostics (pushed t config rules roots (queue (gather t config.scan roots)))
    (gather t config.scan roots).documents.length (gather t config.scan roots).features.length

theorem documents_queueReport : (queueReport t config rules roots).documents =
    (documentsOf t (scansOf t config.scan roots)).length :=
  length_documents_gather t config.scan roots

theorem features_queueReport : (queueReport t config rules roots).features =
    (featuresOf t (scansOf t config.scan roots)).length :=
  length_features_gather t config.scan roots

/-- Whatever the orders, the report is the same: what ties in the report order is equal. -/
theorem report_eq_queueReport (separate : rules.Separate) {finished collects : List Path}
    (first : finished.Perm (queue (gather t config.scan roots)))
    (second : collects.Perm (queue (gather t config.scan roots))) :
    report (gather t config.scan roots) (finished.map (check t config rules))
      (collects.map (check t config rules)) = queueReport t config rules roots := by
  have sorted : Diagnostic.sort (pushed t config rules roots finished) =
      Diagnostic.sort (pushed t config rules roots (queue (gather t config.scan roots))) :=
    sort_pushed separate (pushed_perm first)
  rw [report_eq, collected_eq second]
  simp only [queueReport, Report.ofDiagnostics]
  congr 1

/-! ## Runs without a report -/

theorem failure?_eq_tooManyPermits_iff {jobs documents : Nat} :
    failure? jobs documents = some .tooManyPermits ↔ permitLimit < jobs := by
  rw [failure?]
  split
  · rename_i excess
    exact iff_of_true rfl excess
  · rename_i possible
    refine iff_of_false (fun h => ?_) possible
    split at h <;> cases h

theorem failure?_eq_starved_iff {jobs documents : Nat} :
    failure? jobs documents = some .starved ↔ jobs = 0 ∧ 0 < documents := by
  rw [failure?]
  split
  · rename_i excess
    refine iff_of_false (fun h => by cases h) ?_
    rintro ⟨rfl, _⟩
    exact absurd excess (by decide)
  · split
    · rename_i starved
      exact iff_of_true rfl starved
    · rename_i served
      exact iff_of_false (fun h => by cases h) served

theorem failure?_eq_none_iff {jobs documents : Nat} :
    failure? jobs documents = none ↔ jobs ≤ permitLimit ∧ (jobs = 0 → documents = 0) := by
  have served : ¬(jobs = 0 ∧ 0 < documents) ↔ (jobs = 0 → documents = 0) := by
    rw [not_and, Nat.pos_iff_ne_zero, not_not]
  rw [← Nat.not_lt, ← served, ← failure?_eq_tooManyPermits_iff, ← failure?_eq_starved_iff]
  cases failure? jobs documents with
  | none => simp
  | some f => cases f <;> simp

theorem run_eq_error_iff_failure {f : Failure} : t.run config rules roots = .error f ↔
    failure? (config.jobs.getD 1) (documentsOf t (scansOf t config.scan roots)).length =
      some f := by
  rw [Tree.run, length_documents_gather]
  split
  · rename_i g failed
    rw [failed, Except.error.injEq, Option.some.injEq]
  · rename_i none
    rw [none]
    exact iff_of_false (fun h => by cases h) fun h => by cases h

theorem run_eq_error_iff : t.run config rules roots = .error .tooManyPermits ↔
    permitLimit < config.jobs.getD 1 :=
  run_eq_error_iff_failure.trans failure?_eq_tooManyPermits_iff

theorem getD_jobs_eq_zero_iff : config.jobs.getD 1 = 0 ↔ config.jobs = some 0 := by
  cases config.jobs <;> simp

theorem run_eq_starved_iff : t.run config rules roots = .error .starved ↔
    config.jobs = some 0 ∧ documentsOf t (scansOf t config.scan roots) ≠ [] := by
  rw [run_eq_error_iff_failure, failure?_eq_starved_iff, getD_jobs_eq_zero_iff,
    List.length_pos_iff]

variable (t config roots) in
/-- There can be the permits that are asked for, and there is one if any document is found. -/
structure Proceeds : Prop where
  possible : config.jobs.getD 1 ≤ permitLimit
  served : config.jobs = some 0 → documentsOf t (scansOf t config.scan roots) = []

theorem failure?_eq_none_iff_proceeds : failure? (config.jobs.getD 1)
    (documentsOf t (scansOf t config.scan roots)).length = none ↔ Proceeds t config roots := by
  rw [failure?_eq_none_iff, getD_jobs_eq_zero_iff, List.length_eq_zero_iff]
  exact ⟨fun ⟨possible, served⟩ => ⟨possible, served⟩, fun h => ⟨h.possible, h.served⟩⟩

theorem proceeds_of_jobs (some : config.jobs ≠ .some 0)
    (possible : config.jobs.getD 1 ≤ permitLimit) : Proceeds t config roots :=
  ⟨possible, fun none => absurd none some⟩

theorem run_eq_report (proceeds : Proceeds t config roots) : t.run config rules roots =
    .ok (report (gather t config.scan roots)
      ((queue (gather t config.scan roots)).map (check t config rules))
      ((queue (gather t config.scan roots)).map (check t config rules))) := by
  rw [Tree.run, length_documents_gather, failure?_eq_none_iff_proceeds.2 proceeds]

theorem run_eq_queueReport (separate : rules.Separate) (proceeds : Proceeds t config roots) :
    t.run config rules roots = .ok (queueReport t config rules roots) := by
  have self := List.Perm.refl (queue (gather t config.scan roots))
  rw [run_eq_report proceeds, report_eq_queueReport separate self self]

theorem exists_mayReport_iff {permits : Nat} : (∃ r, MayReport t config rules roots permits r) ↔
    0 < permits ∨ documentsOf t (scansOf t config.scan roots) = [] := by
  have queued : queue (gather t config.scan roots) = [] ↔
      documentsOf t (scansOf t config.scan roots) = [] := by
    rw [← List.length_eq_zero_iff, (queue_perm t config.scan roots).length_eq,
      List.length_eq_zero_iff]
  rw [← queued, ← Schedule.exists_completes_iff]
  constructor
  · rintro ⟨_, finished, _, completes, _⟩
    exact ⟨finished, completes⟩
  · rintro ⟨finished, completes⟩
    exact ⟨_, finished, finished, completes, .refl _, rfl⟩

/-- A run starves just when its documents can finish in no order. -/
theorem run_eq_starved_iff_forall_not : t.run config rules roots = .error .starved ↔
    ∀ r, ¬MayReport t config rules roots (config.jobs.getD 1) r := by
  rw [run_eq_starved_iff, ← not_exists, exists_mayReport_iff, not_or, Nat.pos_iff_ne_zero, not_not,
    getD_jobs_eq_zero_iff]

variable (t config rules roots) in
/-- A run comes to this report and to no other, whatever the permits and the orders, unless more
documents may be checked at once than there can be permits, or there are documents and none may be
checked. -/
structure Settles (r : Report) : Prop where
  unique : ∀ permits, 0 < permits → ∀ r', MayReport t config rules roots permits r' ↔ r' = r
  run : t.run config rules roots =
    if permitLimit < config.jobs.getD 1 then .error .tooManyPermits
    else if config.jobs = some 0 ∧ documentsOf t (scansOf t config.scan roots) ≠ [] then
      .error .starved
    else .ok r

theorem settles_queueReport (separate : rules.Separate) :
    Settles t config rules roots (queueReport t config rules roots) := by
  constructor
  · intro permits positive r'
    constructor
    · rintro ⟨finished, joined, done, order, rfl⟩
      exact report_eq_queueReport separate done.perm (order.trans done.perm)
    · rintro rfl
      have self := List.Perm.refl (queue (gather t config.scan roots))
      exact ⟨_, _, Schedule.completes_self positive _, .refl _,
        (report_eq_queueReport separate self self).symm⟩
  · split
    · rename_i excess
      exact run_eq_error_iff.2 excess
    · rename_i possible
      split
      · rename_i starved
        exact run_eq_starved_iff.2 starved
      · rename_i served
        refine run_eq_queueReport separate ⟨Nat.not_lt.1 possible, fun none => ?_⟩
        by_contra found
        exact served ⟨none, found⟩

end Orders

/-- Under the stock rules, however they are configured, a run has one report: any number of permits
and any orders of finishing and collecting lead to it, it holds everything that was pushed, and
diagnostics that tie in the report order are equal throughout. -/
theorem exists_unique_report {t : Tree} {config : Config} {rules : RuleSet} {roots : List Path}
    (configured : RuleSet.stock.configure config.rules = .ok rules) :
    ∃ r : Report,
      (∀ permits, 0 < permits → ∀ r', MayReport t config rules roots permits r' ↔ r' = r) ∧
      (Proceeds t config roots → t.run config rules roots = .ok r) ∧
      (∀ (permits : Nat) (finished joined : List Path),
        Schedule.Completes permits (queue (gather t config.scan roots)) finished →
        joined.Perm finished →
          r.diagnostics.Perm (collected (gather t config.scan roots)
            (finished.map (check t config rules)) (joined.map (check t config rules)))) ∧
      ∀ a ∈ r.diagnostics, ∀ b ∈ r.diagnostics, Diagnostic.order a b = .eq → a = b := by
  have separate : rules.Separate := RuleSet.separate_stock.configure configured
  refine ⟨queueReport t config rules roots, (settles_queueReport separate).unique,
    run_eq_queueReport separate, fun permits finished joined done order => ?_,
    fun a ha b hb tied => ?_⟩
  · rw [collected_eq (order.trans done.perm)]
    exact (Diagnostic.sort_perm _).trans (pushed_perm done.perm).symm
  · have pushedA := (Diagnostic.sort_perm _).mem_iff.1 ha
    have pushedB := (Diagnostic.sort_perm _).mem_iff.1 hb
    exact eq_of_order_eq_of_mem_pushed separate pushedA pushedB tied

/-- One feature with a document that breaks off and one that is not text. -/
def brokenPair : Tree where
  top := .directory [("login", .directory [("a.mock.md", .file (.text "# Test Case: LOGIN-1 - Open")),
    ("b.full.md", .file .undecodable)])]
  workDir := []
  wellFormed := by
    refine ⟨by decide, ⟨by decide, trivial, fun e he => ?_, by decide, trivial, by simp, trivial⟩,
      by simp, trivial⟩
    rw [List.mem_singleton.1 he, String.lt_iff]
    decide

theorem exists_unique_report_brokenPair :
    RuleSet.stock.configure {} = .ok RuleSet.stock ∧ ∃ r : Report,
      (∀ permits, 0 < permits → ∀ r',
        MayReport brokenPair {} RuleSet.stock [⟨"login"⟩] permits r' ↔ r' = r) ∧
      brokenPair.run {} RuleSet.stock [⟨"login"⟩] = .ok r := by
  have configured : RuleSet.stock.configure {} = .ok RuleSet.stock := rfl
  obtain ⟨r, unique, ran, _⟩ := @exists_unique_report brokenPair {} _ [⟨"login"⟩] configured
  exact ⟨configured, r, unique, ran (proceeds_of_jobs (by decide) (by decide))⟩

end Run

end ScriptAudit
