import Mathlib.Data.List.Forall2
import ScriptAudit.Proofs.Rule.Conformance
import ScriptAudit.Proofs.Text.Ascending

/-!
# Roles in a test case

The rule on roles looks for them in the prerequisites, in the steps and in the name. Which keyword a
word stands for does not hang on the other words, so all that counts of these texts is the set of
roles that they mention: order and repetition do not, and further text can only add roles.

The name counts like the other texts. It makes no difference as long as the prerequisites and the
steps mention its roles as well, or all of them together mention too few.
-/

namespace ScriptAudit

/-! ## Words and roles -/

namespace Rule

/-- The word is the keyword, or the keyword with an `s` behind it. -/
def Names (word keyword : List Char) : Prop :=
  word = keyword ∨ word = keyword ++ ['s']

/-- The role is the first keyword that the word names. -/
def StandsFor (keywords : List (List Char)) (word role : List Char) : Prop :=
  Names word role ∧ ∃ before after, keywords = before ++ role :: after ∧
    ∀ keyword ∈ before, ¬Names word keyword

theorem names_iff {word keyword : List Char} :
    Names word keyword ↔
      keyword = word ∨ keyword = if word.getLast? = some 's' then word.dropLast else word := by
  rw [Names, eq_comm]
  split
  · rename_i plural
    obtain ⟨front, rfl⟩ := List.getLast?_eq_some_iff.1 plural
    rw [List.dropLast_concat, List.append_cancel_right_eq, eq_comm (a := front)]
  · rename_i singular
    have unmarked : word ≠ keyword ++ ['s'] := by
      rintro rfl
      exact singular List.getLast?_concat
    rw [or_self, or_iff_left unmarked]

theorem role?_eq_some_iff {keywords : List (List Char)} {word role : List Char} :
    role? keywords word = some role ↔ StandsFor keywords word role := by
  simp only [role?, List.find?_eq_some_iff_append, StandsFor, names_iff, Bool.or_eq_true,
    decide_eq_true_eq, Bool.not_eq_true', ← Bool.not_eq_true]

/-- A word of the text stands for the role, capitals aside. -/
def Tells (config : Config) (text role : String) : Prop :=
  ∃ word ∈ Text.runs (fun ch => !Text.isAlphanumeric ch) text.toList,
    StandsFor (config.roles.keywords.map fun k => Text.lower k.toList) (Text.lower word)
      role.toList

theorem not_tells_empty (config : Config) (role : String) : ¬Tells config "" role := by
  rintro ⟨word, hw, _⟩
  cases hw

end Rule

namespace TestCase

/-- A prerequisite or a step mentions the role. -/
def Plays (config : Config) (c : TestCase) (role : String) : Prop :=
  ∃ text ∈ c.prerequisites.map (·.text) ++ c.steps.map (·.text), Rule.Tells config text role

variable {config : Config} {c c' : TestCase} {role : String}

theorem mentions_iff :
    c.Mentions config role ↔ Rule.Tells config c.name role ∨ c.Plays config role := by
  simp only [Mentions, Plays, Rule.Tells, Rule.role?_eq_some_iff, List.cons_append,
    List.exists_mem_cons_iff]

def unnamed (c : TestCase) : TestCase :=
  { c with name := "" }

theorem mentions_unnamed_iff : c.unnamed.Mentions config role ↔ c.Plays config role :=
  mentions_iff.trans (or_iff_right (Rule.not_tells_empty config role))

/-- So few roles are mentioned that they count as one scenario. -/
def FewRoles (config : Config) (c : TestCase) : Prop :=
  ∀ roles : List String, roles.Nodup → (∀ role ∈ roles, c.Mentions config role) →
    roles.length < config.roles.threshold

/-- The roles that a test case mentions, in ascending order. -/
def roles (config : Config) (c : TestCase) : List String :=
  Rule.rolesOf (config.roles.keywords.map fun k => Text.lower k.toList) c

theorem mem_roles_iff : role ∈ c.roles config ↔ c.Mentions config role :=
  Rule.mem_rolesOf_iff

theorem plays_of_roles_subset (idle : c.roles config ⊆ c.unnamed.roles config)
    (told : Rule.Tells config c.name role) : c.Plays config role :=
  mentions_unnamed_iff.1 (mem_roles_iff.1 (idle (mem_roles_iff.2 (mentions_iff.2 (.inl told)))))

theorem mentions_of_subset (name : c.name = c'.name)
    (prerequisites : c.prerequisites ⊆ c'.prerequisites) (steps : c.steps ⊆ c'.steps)
    (mentioned : c.Mentions config role) : c'.Mentions config role := by
  rw [mentions_iff, ← name]
  refine (mentions_iff.1 mentioned).imp_right fun ⟨text, among, told⟩ => ⟨text, ?_, told⟩
  exact (List.mem_append.1 among).elim
    (fun h => List.mem_append_left _ (List.map_subset _ prerequisites h))
    fun h => List.mem_append_right _ (List.map_subset _ steps h)

theorem roles_sublist (more : ∀ role, c.Mentions config role → c'.Mentions config role) :
    (c.roles config).Sublist (c'.roles config) := by
  refine Text.ascending_sublist fun role told => Text.mem_ascending.1 ?_
  have mentioned := mem_roles_iff.1 (Text.mem_ascending.2 told)
  exact mem_roles_iff.2 (more role mentioned)

theorem roles_eq (same : ∀ role, c.Mentions config role ↔ c'.Mentions config role) :
    c.roles config = c'.roles config :=
  (roles_sublist fun role => (same role).1).antisymm (roles_sublist fun role => (same role).2)

end TestCase

def Document.unnamed (d : Document) : Document :=
  { d with cases := d.cases.map TestCase.unnamed }

namespace Rule

/-! ## Findings -/

/-- What is found of a test case that starts on the line and mentions the roles. -/
def rolesFinding (line : Nat) (roles : List String) : Finding :=
  .onLine line ("mentions " ++ toString roles.length ++ " distinct roles (" ++
    ", ".intercalate roles ++ "); a document should describe one scenario")

theorem length_eq_of_rolesFinding_eq {line line' : Nat} {roles roles' : List String}
    (same : rolesFinding line roles = rolesFinding line' roles') :
    roles.length = roles'.length := by
  have counted (line : Nat) (roles : List String) : ∃ rest,
      (rolesFinding line roles).message.toList =
        "mentions ".toList ++ ((toString roles.length).toList ++ ' ' :: rest) := by
    simp only [rolesFinding, Finding.onLine, String.toList_append, List.append_assoc]
    exact ⟨_, rfl⟩
  have digits (n : Nat) : ' ' ∉ (toString n).toList := fun blank =>
    absurd (Text.isDigit_of_mem_toString blank) (by decide)
  obtain ⟨rest, message⟩ := counted line roles
  obtain ⟨rest', message'⟩ := counted line' roles'
  rw [same, message'] at message
  have counts := congrArg (List.takeWhile (· != ' ')) (List.append_cancel_left message)
  rw [Text.takeWhile_bne_append (digits _), Text.takeWhile_bne_append (digits _)] at counts
  have values := congrArg Text.decimalValue counts
  rw [Text.decimalValue_toString, Text.decimalValue_toString] at values
  exact values.symm

/-- The second finding is on the same line and lists the roles of the first and maybe more. -/
def Grows (f f' : Finding) : Prop :=
  ∃ line roles roles', roles.Sublist roles' ∧ f = rolesFinding line roles ∧
    f' = rolesFinding line roles'

/-- What the rule makes of one test case. -/
def roleFinding? (config : Config) (c : TestCase) : Option Finding :=
  if config.roles.threshold ≤ (c.roles config).length then
    some (rolesFinding c.line (c.roles config))
  else none

variable {config : Config} {c c' : TestCase} {d d' : Document}

theorem singleScenario_eq : singleScenario config d = d.cases.filterMap (roleFinding? config) :=
  rfl

theorem roleFinding?_eq_some_iff {f : Finding} : roleFinding? config c = some f ↔
    config.roles.threshold ≤ (c.roles config).length ∧
      f = rolesFinding c.line (c.roles config) := by
  rw [roleFinding?, Option.ite_none_right_eq_some, Option.some.injEq, eq_comm (a := f)]

theorem roleFinding?_eq_none_iff : roleFinding? config c = none ↔ c.FewRoles config := by
  rw [roleFinding?, when_eq_none_iff, Nat.not_le]
  exact length_rolesOf_lt_iff

theorem roleFinding?_congr (line : c.line = c'.line)
    (same : ∀ role, c.Mentions config role ↔ c'.Mentions config role) :
    roleFinding? config c = roleFinding? config c' := by
  rw [roleFinding?, roleFinding?, line, TestCase.roles_eq same]

/-- A test case that mentions more is found where it was, with more roles. -/
theorem roleFinding?_mono (line : c.line = c'.line)
    (more : ∀ role, c.Mentions config role → c'.Mentions config role) {f : Finding}
    (found : roleFinding? config c = some f) :
    ∃ f', roleFinding? config c' = some f' ∧ Grows f f' := by
  have sublist := TestCase.roles_sublist more
  obtain ⟨many, rfl⟩ := roleFinding?_eq_some_iff.1 found
  refine ⟨_, roleFinding?_eq_some_iff.2 ⟨many.trans sublist.length_le, rfl⟩, ?_⟩
  exact ⟨c.line, _, _, sublist, rfl, by rw [line]⟩

/-- The name adds nothing where its roles are mentioned anyway or where there are too few. -/
theorem roleFinding?_unnamed_eq_iff : roleFinding? config c.unnamed = roleFinding? config c ↔
    (∀ role, Tells config c.name role → c.Plays config role) ∨ c.FewRoles config := by
  have fewer (role : String) (mentioned : c.unnamed.Mentions config role) :
      c.Mentions config role :=
    TestCase.mentions_iff.2 (.inr (TestCase.mentions_unnamed_iff.1 mentioned))
  constructor
  · intro same
    cases found : roleFinding? config c with
    | none => exact .inr (roleFinding?_eq_none_iff.1 found)
    | some f =>
      obtain ⟨_, rfl⟩ := roleFinding?_eq_some_iff.1 found
      obtain ⟨_, equal⟩ := roleFinding?_eq_some_iff.1 (same.trans found)
      have count := length_eq_of_rolesFinding_eq equal
      have roles := (TestCase.roles_sublist fewer).eq_of_length count.symm
      refine .inl fun role told => TestCase.mentions_unnamed_iff.1 (TestCase.mem_roles_iff.1 ?_)
      rw [roles]
      exact TestCase.mem_roles_iff.2 (TestCase.mentions_iff.2 (.inl told))
  · rintro (idle | few)
    · refine roleFinding?_congr rfl fun role => ⟨fewer role, fun mentioned => ?_⟩
      exact TestCase.mentions_unnamed_iff.2
        ((TestCase.mentions_iff.1 mentioned).elim (idle role) fun played => played)
    · rw [roleFinding?_eq_none_iff.2 few, roleFinding?_eq_none_iff]
      exact fun roles distinct mentioned =>
        few roles distinct fun role hrole => fewer role (mentioned role hrole)

/-! ## Documents -/

theorem singleScenario_congr (cases : List.Forall₂ (fun c c' => c.line = c'.line ∧
      ∀ role, c.Mentions config role ↔ c'.Mentions config role) d.cases d'.cases) :
    singleScenario config d = singleScenario config d' := by
  rw [singleScenario_eq, singleScenario_eq]
  generalize d.cases = cs, d'.cases = cs' at cases
  induction cases with
  | nil => rfl
  | cons agree _ ih =>
    rw [List.filterMap_cons, List.filterMap_cons, roleFinding?_congr agree.1 agree.2, ih]

theorem singleScenario_mono (cases : List.Forall₂ (fun c c' => c.line = c'.line ∧
      ∀ role, c.Mentions config role → c'.Mentions config role) d.cases d'.cases) :
    List.SublistForall₂ Grows (singleScenario config d) (singleScenario config d') := by
  rw [singleScenario_eq, singleScenario_eq]
  generalize d.cases = cs, d'.cases = cs' at cases
  induction cases with
  | nil => exact .nil
  | @cons c c' _ _ agree _ ih =>
    cases found : roleFinding? config c with
    | none =>
      rw [List.filterMap_cons_none found]
      cases found' : roleFinding? config c' with
      | none => rwa [List.filterMap_cons_none found']
      | some f' =>
        rw [List.filterMap_cons_some found']
        exact .cons_right ih
    | some f =>
      obtain ⟨f', found', grows⟩ := roleFinding?_mono agree.1 agree.2 found
      rw [List.filterMap_cons_some found, List.filterMap_cons_some found']
      exact .cons grows ih

/-- Where a judgement is passed on no more elements, the same results mean the same judgement. -/
theorem filterMap_eq_filterMap_iff {α β : Type} {f g : α → Option β} {xs : List α}
    (fewer : ∀ x, f x = none → g x = none) :
    xs.filterMap g = xs.filterMap f ↔ ∀ x ∈ xs, g x = f x := by
  refine ⟨fun same => ?_, List.filterMap_congr⟩
  induction xs with
  | nil => exact List.forall_mem_nil _
  | cons x xs ih =>
    rw [List.forall_mem_cons]
    cases hf : f x with
    | none =>
      rw [List.filterMap_cons_none hf, List.filterMap_cons_none (fewer x hf)] at same
      exact ⟨fewer x hf, ih same⟩
    | some b =>
      rw [List.filterMap_cons_some hf] at same
      cases hg : g x with
      | none =>
        have count := congrArg List.length (List.filterMap_cons_none hg ▸ same)
        have short : xs.countP (fun x => (g x).isSome) ≤ xs.countP fun x => (f x).isSome := by
          refine List.countP_mono_left fun x _ judged => ?_
          cases hx : f x with
          | none =>
            rw [fewer x hx] at judged
            cases judged
          | some _ => rfl
        rw [List.length_cons, List.length_filterMap_eq_countP,
          List.length_filterMap_eq_countP] at count
        omega
      | some b' =>
        rw [List.filterMap_cons_some hg, List.cons.injEq] at same
        exact ⟨by rw [same.1], ih same.2⟩

theorem singleScenario_unnamed_eq_iff :
    singleScenario config d.unnamed = singleScenario config d ↔ ∀ c ∈ d.cases,
      (∀ role, Tells config c.name role → c.Plays config role) ∨ c.FewRoles config := by
  simp only [singleScenario_eq, Document.unnamed, List.filterMap_map]
  rw [filterMap_eq_filterMap_iff]
  · exact forall₂_congr fun c _ => roleFinding?_unnamed_eq_iff
  · intro c found
    rw [← found]
    exact roleFinding?_unnamed_eq_iff.2 (.inr (roleFinding?_eq_none_iff.1 found))

/-- The rule on roles looks at which roles the texts of a test case mention, and at the name only
where it adds to those of the prerequisites and the steps. -/
theorem singleScenario_roles (config : Config) (d d' : Document) :
    (List.Forall₂ (fun c c' => c.line = c'.line ∧ c.prerequisites = c'.prerequisites ∧
        c.steps = c'.steps ∧ ∀ role, Tells config c.name role ∨ Tells config c'.name role →
          c.Plays config role) d.cases d'.cases →
      singleScenario config d = singleScenario config d') ∧
    (singleScenario config d.unnamed = singleScenario config d ↔ ∀ c ∈ d.cases,
      (∀ role, Tells config c.name role → c.Plays config role) ∨ c.FewRoles config) ∧
    (List.Forall₂ (fun c c' => c.line = c'.line ∧ c.name = c'.name ∧
        c.prerequisites.Perm c'.prerequisites ∧ c.steps.Perm c'.steps) d.cases d'.cases →
      singleScenario config d = singleScenario config d') ∧
    (List.Forall₂ (fun c c' => c.line = c'.line ∧ c.name = c'.name ∧
        c.prerequisites ⊆ c'.prerequisites ∧ c.steps ⊆ c'.steps) d.cases d'.cases →
      List.SublistForall₂ Grows (singleScenario config d) (singleScenario config d')) := by
  refine ⟨fun cases => ?_, singleScenario_unnamed_eq_iff, fun cases => ?_, fun cases => ?_⟩
  · refine singleScenario_congr (cases.imp fun c c' ⟨line, prerequisites, steps, idle⟩ => ?_)
    have plays (role : String) : c.Plays config role ↔ c'.Plays config role := by
      rw [TestCase.Plays, TestCase.Plays, prerequisites, steps]
    refine ⟨line, fun role => ?_⟩
    have own : Tells config c.name role → c.Plays config role := fun told => idle role (.inl told)
    have other : Tells config c'.name role → c'.Plays config role := fun told =>
      (plays role).1 (idle role (.inr told))
    rw [TestCase.mentions_iff, TestCase.mentions_iff, or_iff_right_of_imp own,
      or_iff_right_of_imp other, plays]
  · refine singleScenario_congr (cases.imp fun c c' ⟨line, name, prerequisites, steps⟩ => ?_)
    exact ⟨line, fun role => ⟨TestCase.mentions_of_subset name prerequisites.subset steps.subset,
      TestCase.mentions_of_subset name.symm prerequisites.symm.subset steps.symm.subset⟩⟩
  · refine singleScenario_mono (cases.imp fun c c' ⟨line, name, prerequisites, steps⟩ => ?_)
    exact ⟨line, fun role => TestCase.mentions_of_subset name prerequisites steps⟩

end Rule

/-- One test case with a given name, given prerequisites and the only step to open a card. -/
def Document.openingAs (name : String) (prerequisites : List String) : Document :=
  { (default : Document) with cases := [{ (default : TestCase) with
      name, line := 1
      prerequisites := prerequisites.map fun text => ⟨text, 3⟩
      steps := [⟨1, "Open the card", 5⟩] }] }

theorem Rule.singleScenario_roles_opening :
    singleScenario {} (Document.openingAs "As admin" ["An admin", "A viewer"]) =
      singleScenario {} (Document.openingAs "As viewers" ["An admin", "A viewer"]) ∧
    singleScenario {} (Document.openingAs "As viewers" ["An admin", "A viewer"]) =
      singleScenario {} (Document.openingAs "As viewers" ["A viewer", "An admin"]) ∧
    List.SublistForall₂ Grows (singleScenario {} (Document.openingAs "As viewers" ["An admin"]))
      (singleScenario {} (Document.openingAs "As viewers" ["A guest", "An admin"])) := by
  have idle (name : String) (h : name ∈ ["As admin", "As viewers"]) :
      ∀ c ∈ (Document.openingAs name ["An admin", "A viewer"]).cases,
        c.roles {} ⊆ c.unnamed.roles {} := by
    revert name
    decide +kernel
  refine ⟨(singleScenario_roles {} _ _).1 (.cons ⟨rfl, rfl, rfl, fun role told => ?_⟩ .nil),
    (singleScenario_roles {} _ _).2.2.1 (.cons ⟨rfl, rfl, .swap _ _ _, .refl _⟩ .nil),
    (singleScenario_roles {} _ _).2.2.2
      (.cons ⟨rfl, rfl, List.subset_cons_self _ _, List.Subset.refl _⟩ .nil)⟩
  rcases told with told | told
  · have subset := idle "As admin" (by simp) _ (List.mem_singleton_self _)
    exact TestCase.plays_of_roles_subset subset told
  · have subset := idle "As viewers" (by simp) _ (List.mem_singleton_self _)
    -- the two cases differ in the name only, on which `Plays` does not depend
    have played := TestCase.plays_of_roles_subset subset told
    exact played

/-- Two roles in the name, where nothing else mentions any. -/
theorem Rule.roles_in_name :
    singleScenario {} (Document.openingAs "Card is shown" ["Signed in"]) = [] ∧
    singleScenario {} (Document.openingAs "Admin meets viewer" ["Signed in"]) =
      [.onLine 1
        "mentions 2 distinct roles (admin, viewer); a document should describe one scenario"] := by
  decide +kernel

end ScriptAudit
