import Mathlib.Logic.ExistsUnique
import ScriptAudit.Proofs.Markup.Fault
import ScriptAudit.Proofs.Rule.Stock
import ScriptAudit.Run

/-!
# What becomes of a document

Under the stock rules the check of a document never crashes, and it ends in one of three ways: the
document cannot be read, its structure is refused, or the rules judge it.
-/

namespace ScriptAudit

/-- Configured stock rules do not crash either. -/
theorem RuleSet.isSome_evaluate_of_configure {c : RulesConfig} {rules : RuleSet}
    (configured : stock.configure c = .ok rules) (config : Config) (d : Document) :
    (rules.evaluate config d).isSome = true := by
  obtain ⟨_, rfl⟩ := configure_eq_ok_iff.1 configured
  apply evaluate_isSome_iff.2
  intro r hr
  obtain ⟨q, hq, rfl⟩ := List.mem_map.1 hr
  obtain ⟨check, total, _⟩ := Rule.stock_places (List.mem_filter.1 hq).1
  rw [Rule.regraded, total]
  rfl

namespace Run

/-- All that the check of a document can come to. -/
inductive ComesTo (t : Tree) (config : Config) (rules : RuleSet) (p : Path) : Checked → Prop where
  | unreadable {e : PathError} (text : t.readText p = .error e) :
      ComesTo t config rules p
        ⟨p, none, [.unreadable p.display ("cannot read document: " ++ e.message)]⟩
  | malformed {source : String} {ds : List Diagnostic} (text : t.readText p = .ok source)
      (refused : Document.read p (t.featureOf p) config.markers source = .error ds) :
      ComesTo t config rules p ⟨p, none, ds⟩
  | judged {source : String} {d : Document} {ds : List Diagnostic}
      (text : t.readText p = .ok source)
      (read : Document.read p (t.featureOf p) config.markers source = .ok d)
      (found : rules.evaluate config d = some ds) : ComesTo t config rules p ⟨p, some d, ds⟩
  | crashed {source : String} {d : Document} (text : t.readText p = .ok source)
      (read : Document.read p (t.featureOf p) config.markers source = .ok d)
      (broken : rules.evaluate config d = none) : ComesTo t config rules p (.crashed p)

theorem comesTo_check (t : Tree) (config : Config) (rules : RuleSet) (p : Path) :
    ComesTo t config rules p (check t config rules p) := by
  simp only [check, checkDocument]
  cases text : t.readText p with
  | error e => exact .unreadable text
  | ok source =>
    dsimp only
    cases read : Document.read p (t.featureOf p) config.markers source with
    | error ds => exact .malformed text read
    | ok d =>
      dsimp only
      cases found : rules.evaluate config d with
      | none => exact .crashed text read found
      | some ds => exact .judged text read found

end Run

/-- The ways in which the check of a document ends. -/
inductive Ending where
  | unreadable
  | malformed
  | judged
deriving DecidableEq, Repr

def Checked.Ends (c : Checked) : Ending → Prop
  | .unreadable => c.document = none ∧ ∃ d, c.diagnostics = [d] ∧ d.kind = .ioError
  | .malformed => c.document = none ∧ c.diagnostics ≠ [] ∧ ∀ d ∈ c.diagnostics, d.kind = .parseError
  | .judged => c.document.isSome = true ∧ ∀ d ∈ c.diagnostics, d.kind = .schemaViolation

theorem Checked.Ends.unique {c : Checked} {a b : Ending} (ha : c.Ends a) (hb : c.Ends b) :
    a = b := by
  have apart : ∀ {d}, c.diagnostics = [d] → d.kind = .ioError →
      (∀ x ∈ c.diagnostics, x.kind = .parseError) → False := by
    intro d single io all
    have parse := all d (by simp [single])
    rw [io] at parse
    cases parse
  have read : c.document = none → c.document.isSome = true → False := by
    intro none some
    rw [none] at some
    cases some
  cases a with
  | unreadable =>
    obtain ⟨none, d, single, io⟩ := ha
    cases b with
    | unreadable => rfl
    | malformed => exact (apart single io hb.2.2).elim
    | judged => exact (read none hb.1).elim
  | malformed =>
    cases b with
    | unreadable =>
      obtain ⟨_, d, single, io⟩ := hb
      exact (apart single io ha.2.2).elim
    | malformed => rfl
    | judged => exact (read ha.1 hb.1).elim
  | judged =>
    cases b with
    | unreadable => exact (read hb.1 ha.1).elim
    | malformed => exact (read hb.1 ha.1).elim
    | judged => rfl

theorem checkDocument_eq {t : Tree} {config : Config} {c : RulesConfig} {rules : RuleSet}
    (configured : RuleSet.stock.configure c = .ok rules) (p : Path) :
    checkDocument t config rules p = some (Run.check t config rules p) ∧
      ∃! ending, (Run.check t config rules p).Ends ending := by
  have total : ∃ checked, checkDocument t config rules p = some checked ∧
      ∃ ending, checked.Ends ending := by
    simp only [checkDocument]
    split
    · exact ⟨_, rfl, .unreadable, rfl, _, rfl, rfl⟩
    · split
      · rename_i ds refused
        obtain ⟨some, faults⟩ := Document.read_eq_error refused
        refine ⟨_, rfl, .malformed, rfl, some, fun d hd => ?_⟩
        obtain ⟨line, fault, rfl⟩ := faults d hd
        rfl
      · rename_i d _
        obtain ⟨ds, found⟩ :=
          Option.isSome_iff_exists.1 (RuleSet.isSome_evaluate_of_configure configured config d)
        refine ⟨⟨p, some d, ds⟩, by rw [found]; rfl, .judged, rfl, fun x hx => ?_⟩
        obtain ⟨r, _, fs, _, f, _, rfl⟩ := (RuleSet.mem_iff_of_evaluate found).1 hx
        rfl
  obtain ⟨checked, run, ending, ends⟩ := total
  have same : Run.check t config rules p = checked := by
    rw [Run.check, run, Option.getD_some]
  rw [same]
  exact ⟨run, ending, ends, fun other h => h.unique ends⟩

end ScriptAudit
