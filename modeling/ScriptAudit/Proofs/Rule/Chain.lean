import Mathlib.Data.List.Forall2
import ScriptAudit.Proofs.Rule.Adjust
import ScriptAudit.Proofs.Text.Ascending

/-!
# Configurations in turn

A configured rule set can be configured again. Two configurations in turn come to one that disables
what either disables, and in which a severity of the second goes before one of the first. So a chain
of them does no more than a single one: rules are dropped and regraded, and those that are left keep
their order.

A configuration is refused for the first id it names that the set in hand does not have. An id that
was disabled is not known to what comes after.
-/

namespace ScriptAudit

namespace RulesConfig

/-- The whole says what the first configuration says and, on top of it, the second. -/
structure Combines (first second whole : RulesConfig) : Prop where
  disabled : whole.disabled = first.disabled ++ second.disabled
  severity : ∀ id, whole.severity.lookup id =
    (second.severity.lookup id).or (first.severity.lookup id)

def extendedBy (first second : RulesConfig) : RulesConfig where
  disabled := first.disabled ++ second.disabled
  severity := second.severity ++ first.severity

/-- All that the configurations of a chain say, the later ones on top. -/
def combined : List RulesConfig → RulesConfig
  | [] => {}
  | c :: cs => c.extendedBy (combined cs)

theorem combines_extendedBy (first second : RulesConfig) :
    Combines first second (first.extendedBy second) where
  disabled := rfl
  severity _ := List.lookup_append

theorem isSome_lookup_severity_iff {c : RulesConfig} {id : String} :
    (c.severity.lookup id).isSome = true ↔ id ∈ c.severity.map (·.1) := by
  simp only [List.lookup_isSome_iff, List.mem_map, beq_iff_eq]
  exact exists_congr fun entry => and_congr_right fun _ => eq_comm

variable {first second whole : RulesConfig}

theorem Combines.mem_namedIds_iff (combines : Combines first second whole) {id : String} :
    id ∈ RuleSet.namedIds whole ↔ id ∈ RuleSet.namedIds first ∨ id ∈ RuleSet.namedIds second := by
  simp only [RuleSet.mem_namedIds_iff, ← isSome_lookup_severity_iff, combines.disabled,
    combines.severity, Option.isSome_or, List.mem_append, Bool.or_eq_true]
  tauto

theorem Combines.regraded (combines : Combines first second whole) (r : Rule) :
    r.regraded whole = (r.regraded first).regraded second := by
  simp only [Rule.regraded, combines.severity, Option.getD_or]

end RulesConfig

@[simp] theorem Rule.id_regraded (r : Rule) (c : RulesConfig) : (r.regraded c).id = r.id :=
  rfl

/-- Nothing but the severity may differ. -/
structure Rule.Remains (q r : Rule) : Prop where
  id : q.id = r.id
  summary : q.summary = r.summary
  check : q.check = r.check

namespace RuleSet

open RulesConfig (Combines combined)

def Has (rs : RuleSet) (id : String) : Prop :=
  ∃ r ∈ rs.rules, r.id = id

instance (rs : RuleSet) (id : String) : Decidable (rs.Has id) :=
  inferInstanceAs (Decidable (∃ r ∈ rs.rules, r.id = id))

/-- The first id named that the set does not have: the first in the list of disabled ids or, when
all of these are known, the least of those that are given a severity. -/
def FirstUnknown (rs : RuleSet) (c : RulesConfig) (id : String) : Prop :=
  ¬rs.Has id ∧
    ((∃ before after, c.disabled = before ++ id :: after ∧ ∀ known ∈ before, rs.Has known) ∨
      (∀ known ∈ c.disabled, rs.Has known) ∧ id ∈ c.severity.map (·.1) ∧
        ∀ other ∈ c.severity.map (·.1), ¬rs.Has other → id ≤ other)

/-- Configures with one configuration after the other, up to one that is refused. -/
def configureAll (rs : RuleSet) (cs : List RulesConfig) : Except ConfigFault RuleSet :=
  cs.foldlM configure rs

variable {rs s : RuleSet} {c : RulesConfig}

/-! ## Refusals -/

theorem isNone_get?_iff {id : String} : (rs.get? id).isNone = true ↔ ¬rs.Has id := by
  rw [Has, ← not_isNone_get?_iff, not_not]

theorem find?_namedIds_eq_some_iff {id : String} :
    (namedIds c).find? (fun id => (rs.get? id).isNone) = some id ↔ rs.FirstUnknown c id := by
  have all_known : (∀ known ∈ c.disabled, ¬(rs.get? known).isNone = true) ↔
      ∀ known ∈ c.disabled, rs.Has known := by
    simp only [isNone_get?_iff, not_not]
  rw [namedIds, List.find?_append, Option.or_eq_some_iff, List.find?_eq_none, all_known,
    Text.find?_ascending_eq_some_iff, List.find?_eq_some_iff_append]
  simp only [Bool.not_eq_true', ← Bool.not_eq_true, isNone_get?_iff, not_not, FirstUnknown]
  constructor
  · rintro (⟨unknown, listed⟩ | ⟨known, graded, unknown, least⟩)
    · exact ⟨unknown, .inl listed⟩
    · exact ⟨unknown, .inr ⟨known, graded, least⟩⟩
  · rintro ⟨unknown, listed | ⟨known, graded, least⟩⟩
    · exact .inl ⟨unknown, listed⟩
    · exact .inr ⟨known, graded, unknown, least⟩

theorem configure_eq_error_iff {f : ConfigFault} :
    rs.configure c = .error f ↔ ∃ id, f = .unknownRule id ∧ rs.FirstUnknown c id := by
  simp only [← find?_namedIds_eq_some_iff, configure]
  split
  · rename_i id unknown
    rw [unknown, Except.error.injEq]
    constructor
    · rintro rfl
      exact ⟨id, rfl, rfl⟩
    · rintro ⟨_, rfl, same⟩
      rw [Option.some.inj same]
  · rename_i known
    simp [known]

theorem exists_configure_eq_error_iff :
    (∃ f, rs.configure c = .error f) ↔
      ∃ id, (id ∈ c.disabled ∨ id ∈ c.severity.map (·.1)) ∧ ¬rs.Has id := by
  have refused : (∃ f, rs.configure c = .error f) ↔
      ((namedIds c).find? fun id => (rs.get? id).isNone).isSome = true := by
    simp only [configure_eq_error_iff, ← find?_namedIds_eq_some_iff, Option.isSome_iff_exists]
    exact ⟨fun ⟨_, id, _, found⟩ => ⟨id, found⟩, fun ⟨id, found⟩ => ⟨_, id, rfl, found⟩⟩
  simp only [refused, List.find?_isSome, mem_namedIds_iff, isNone_get?_iff]

/-! ## Two configurations -/

theorem has_of_configure_iff (configured : rs.configure c = .ok s) {id : String} :
    s.Has id ↔ rs.Has id ∧ id ∉ c.disabled := by
  obtain ⟨_, rfl⟩ := configure_eq_ok_iff.1 configured
  simp only [Has, List.mem_map, List.mem_filter]
  constructor
  · rintro ⟨_, ⟨r, ⟨hr, enabled⟩, rfl⟩, rfl⟩
    exact ⟨⟨r, hr, rfl⟩, by simpa using enabled⟩
  · rintro ⟨⟨r, hr, rfl⟩, enabled⟩
    exact ⟨r.regraded c, ⟨r, ⟨hr, by simpa using enabled⟩, rfl⟩, rfl⟩

theorem configure_of_combines {c₁ c₂ whole : RulesConfig} {s₁ s₂ : RuleSet}
    (first : rs.configure c₁ = .ok s₁) (second : s₁.configure c₂ = .ok s₂)
    (combines : Combines c₁ c₂ whole) : rs.configure whole = .ok s₂ := by
  obtain ⟨known₁, made₁⟩ := configure_eq_ok_iff.1 first
  obtain ⟨known₂, made₂⟩ := configure_eq_ok_iff.1 second
  refine configure_eq_ok_iff.2 ⟨fun id named => ?_, ?_⟩
  · rcases combines.mem_namedIds_iff.1 named with named | named
    · exact known₁ id named
    · exact ((has_of_configure_iff first).1 (known₂ id named)).1
  · -- a rule passes both filters when neither list has its id, which grading does not change
    have kept (r : Rule) : (!whole.disabled.contains r.id) =
        (!c₂.disabled.contains (r.regraded c₁).id && !c₁.disabled.contains r.id) := by
      rw [combines.disabled, List.contains_append, Bool.not_or, Bool.and_comm]
      rfl
    rw [made₂, made₁]
    simp only [List.filter_map, List.map_map, List.filter_filter, kept]
    congr 1
    exact List.map_congr_left fun r _ => (combines.regraded r).symm

/-! ## Chains -/

/-- A chain of configurations that are all accepted does what one of them all would do. -/
theorem configure_combined {cs : List RulesConfig} (configured : rs.configureAll cs = .ok s) :
    rs.configure (combined cs) = .ok s := by
  induction cs generalizing rs with
  | nil =>
    cases configured
    refine configure_eq_ok_iff.2 ⟨fun id named => ?_, ?_⟩
    · simp [namedIds, combined, Text.mem_ascending] at named
    · simp [combined, Rule.regraded]
  | cons c cs ih =>
    rw [configureAll, List.foldlM_cons] at configured
    cases next : rs.configure c with
    | error f =>
      rw [next] at configured
      cases configured
    | ok mid =>
      rw [next] at configured
      exact configure_of_combines next (ih configured) (RulesConfig.combines_extendedBy c _)

/-- The rules of a configured set are rules of the set, in the same order. -/
theorem sublistForall₂_of_configure (configured : rs.configure c = .ok s) :
    List.SublistForall₂ Rule.Remains s.rules rs.rules := by
  obtain ⟨_, rfl⟩ := configure_eq_ok_iff.1 configured
  have regraded (rules : List Rule) :
      List.Forall₂ Rule.Remains (rules.map (·.regraded c)) rules :=
    List.forall₂_map_left_iff.2 (List.forall₂_same.2 fun r _ => ⟨rfl, rfl, rfl⟩)
  exact List.sublistForall₂_iff.2 ⟨_, regraded _, List.filter_sublist⟩

/-- Configurations compose. Two in turn come to one that combines them; along a chain the rules
keep their ids apart and those that are left their order, summaries and checks; and a set refuses a
configuration exactly when this names an id that it does not have, and gives the first of them. -/
theorem configure_composes (distinct : rs.rules.Pairwise fun r q => r.id ≠ q.id) :
    (∀ c₁ c₂ whole s₁ s₂, rs.configure c₁ = .ok s₁ → s₁.configure c₂ = .ok s₂ →
      Combines c₁ c₂ whole → rs.configure whole = .ok s₂) ∧
    ∀ cs s, rs.configureAll cs = .ok s →
      s.rules.Pairwise (fun r q => r.id ≠ q.id) ∧
      List.SublistForall₂ Rule.Remains s.rules rs.rules ∧
      rs.configure (combined cs) = .ok s ∧
      ∀ c, ((∃ f, s.configure c = .error f) ↔
          ∃ id, (id ∈ c.disabled ∨ id ∈ c.severity.map (·.1)) ∧ ¬s.Has id) ∧
        ∀ f, s.configure c = .error f ↔ ∃ id, f = .unknownRule id ∧ s.FirstUnknown c id := by
  refine ⟨fun c₁ c₂ whole s₁ s₂ => configure_of_combines, fun cs s configured => ?_⟩
  have whole := configure_combined configured
  exact ⟨pairwise_of_configure whole distinct, sublistForall₂_of_configure whole, whole,
    fun c => ⟨exists_configure_eq_error_iff, fun f => configure_eq_error_iff⟩⟩

/-- The second configuration grades a rule that the first has graded; the third names two that they
have disabled. -/
theorem configure_composes_stock :
    stock.rules.Pairwise (fun r q => r.id ≠ q.id) ∧
    ∃ s₁ s₂, stock.configure
        ⟨["id-format"], [("name-nonempty", .error), ("step-numbering", .info)]⟩ = .ok s₁ ∧
      s₁.configure ⟨["steps-nonempty"], [("name-nonempty", .info)]⟩ = .ok s₂ ∧
      stock.configure ⟨["id-format", "steps-nonempty"],
        [("name-nonempty", .info), ("step-numbering", .info)]⟩ = .ok s₂ ∧
      s₂.configure ⟨["step-numbering"], [("steps-nonempty", .error), ("id-format", .error)]⟩ =
        .error (.unknownRule "id-format") := by
  have distinct : stock.rules.Pairwise fun r q => r.id ≠ q.id := by decide
  obtain ⟨s₁, first⟩ : ∃ s₁, stock.configure
      ⟨["id-format"], [("name-nonempty", .error), ("step-numbering", .info)]⟩ = .ok s₁ := ⟨_, rfl⟩
  obtain ⟨s₂, second⟩ : ∃ s₂,
      s₁.configure ⟨["steps-nonempty"], [("name-nonempty", .info)]⟩ = .ok s₂ := by
    cases first
    exact ⟨_, rfl⟩
  have combines : Combines ⟨["id-format"], [("name-nonempty", .error), ("step-numbering", .info)]⟩
      ⟨["steps-nonempty"], [("name-nonempty", .info)]⟩
      ⟨["id-format", "steps-nonempty"], [("name-nonempty", .info), ("step-numbering", .info)]⟩ := by
    refine ⟨rfl, fun id => ?_⟩
    simp only [List.lookup_cons]
    cases id == "name-nonempty" <;> rfl
  have composed := configure_composes distinct
  have chained : stock.configureAll [⟨["id-format"], [("name-nonempty", .error),
      ("step-numbering", .info)]⟩, ⟨["steps-nonempty"], [("name-nonempty", .info)]⟩] = .ok s₂ := by
    cases first
    cases second
    rfl
  have refuses := (composed.2 _ _ chained).2.2.2
  refine ⟨distinct, s₁, s₂, first, second, composed.1 _ _ _ _ _ first second combines, ?_⟩
  refine ((refuses _).2 _).2 ⟨"id-format", rfl, ?_⟩
  cases first
  cases second
  refine ⟨by decide, .inr ⟨by decide, by decide, ?_⟩⟩
  decide

end RuleSet

end ScriptAudit
