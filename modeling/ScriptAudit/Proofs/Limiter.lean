import ScriptAudit.CommandLine
import ScriptAudit.Config.Load
import ScriptAudit.Proofs.Run

/-!
# The limiter of a run

Documents are handed to tasks one after the other. The loop that does so takes a permit for each,
waiting while none is free, and a task gives its permit back when it finishes; behind the loop all
that has finished is collected. Permits are neither lost nor made, so the loop waits only for a task
that is under way, and every way of going on ends with each document checked and collected once.
There can be only so many permits, and an accepted configuration may ask for more than those, though
never for none.
-/

namespace ScriptAudit

/-- A moment of the loop: the permits that are free, what it has yet to come to, what it holds a
permit for, the tasks under way, what has finished, in that order, and what of this has yet to be
collected and has been. -/
structure Limiter (α : Type) where
  free : Nat
  waiting : List α
  held : Option α
  running : List α
  finished : List α
  uncollected : List α
  collected : List α

namespace Limiter

variable {α : Type}

def start (jobs : Nat) (queue : List α) : Limiter α :=
  ⟨jobs, queue, none, [], [], [], []⟩

/-- A limiter with so many permits, if there can be as many. -/
def new? (jobs : Nat) (queue : List α) : Option (Limiter α) :=
  if Run.permitLimit < jobs then none else some (start jobs queue)

/-- What may happen next. -/
inductive Step : Limiter α → Limiter α → Prop where
  | acquire {free : Nat} {a : α} {waiting running finished uncollected collected : List α} :
      Step ⟨free + 1, a :: waiting, none, running, finished, uncollected, collected⟩
        ⟨free, waiting, some a, running, finished, uncollected, collected⟩
  | spawn {free : Nat} {a : α} {waiting running finished uncollected collected : List α} :
      Step ⟨free, waiting, some a, running, finished, uncollected, collected⟩
        ⟨free, waiting, none, running ++ [a], finished, uncollected, collected⟩
  | finish {free : Nat} {a : α} {held : Option α} {waiting finished uncollected collected : List α}
      (before after : List α) :
      Step ⟨free, waiting, held, before ++ a :: after, finished, uncollected, collected⟩
        ⟨free + 1, waiting, held, before ++ after, finished ++ [a], uncollected ++ [a], collected⟩
  | collect {free : Nat} {a : α} {running finished collected : List α} (before after : List α) :
      Step ⟨free, [], none, running, finished, before ++ a :: after, collected⟩
        ⟨free, [], none, running, finished, before ++ after, collected ++ [a]⟩

/-- The moment is reached in so many steps. -/
inductive Takes (s : Limiter α) : Nat → Limiter α → Prop where
  | refl : Takes s 0 s
  | tail {n : Nat} {t u : Limiter α} (before : Takes s n t) (last : Step t u) : Takes s (n + 1) u

/-- Nothing is left to do. -/
structure Done (s : Limiter α) : Prop where
  waiting : s.waiting = []
  held : s.held = none
  running : s.running = []
  uncollected : s.uncollected = []

/-- The moment of the schedule: what the loop holds a permit for has not started. -/
def schedule (s : Limiter α) : Schedule α :=
  ⟨s.held.toList ++ s.waiting, s.running, s.finished⟩

/-- The steps that are still to be taken. -/
def work (s : Limiter α) : Nat :=
  4 * s.waiting.length + 3 * s.held.toList.length + 2 * s.running.length + s.uncollected.length

/-! ## One step -/

/-- What is true at every moment under so many permits: none of them is lost or made, the schedule
allows what has happened, and what has finished is collected or is yet to be. -/
structure Balanced (jobs : Nat) (queue : List α) (s : Limiter α) : Prop where
  permits : s.free + (s.held.toList.length + s.running.length) = jobs
  scheduled : Schedule.Reaches jobs (.initial queue) s.schedule
  collected : (s.uncollected ++ s.collected).Perm s.finished

variable {jobs : Nat} {queue : List α} {s t : Limiter α}

theorem balanced_start (jobs : Nat) (queue : List α) : Balanced jobs queue (start jobs queue) where
  permits := rfl
  scheduled := .refl
  collected := .refl _

theorem Step.balanced (h : Step s t) (before : Balanced jobs queue s) : Balanced jobs queue t := by
  obtain ⟨permits, scheduled, collected⟩ := before
  cases h with
  | acquire =>
    refine ⟨?_, scheduled, collected⟩
    simp only [Option.toList_none, Option.toList_some, List.length_nil, List.length_singleton]
      at permits ⊢
    omega
  | @spawn free a waiting running _ _ _ =>
    simp only [Option.toList_some, List.length_singleton] at permits
    have room : running.length < jobs := by omega
    refine ⟨?_, scheduled.tail (.start room), collected⟩
    simp only [Option.toList_none, List.length_nil, List.length_append, List.length_singleton]
    omega
  | @finish free a _ _ _ uncollected collected' front back =>
    refine ⟨?_, scheduled.tail (.finish front back), ?_⟩
    · simp only [List.length_append, List.length_cons] at permits ⊢
      omega
    · have moved : (uncollected ++ [a] ++ collected').Perm (uncollected ++ collected' ++ [a]) := by
        rw [List.append_assoc, List.append_assoc]
        exact List.perm_append_comm.append_left _
      exact moved.trans (collected.append_right _)
  | @collect free a _ _ collected' front back =>
    refine ⟨permits, scheduled, .trans ?_ collected⟩
    have moved : (front ++ back ++ (collected' ++ [a])).Perm (a :: (front ++ back ++ collected')) := by
      rw [← List.append_assoc]
      exact List.perm_append_singleton _ _
    exact moved.trans (List.perm_middle.symm.append_right collected')

theorem Step.work (h : Step s t) : t.work + 1 = s.work := by
  cases h <;>
    simp only [Limiter.work, Option.toList_none, Option.toList_some, List.length_nil,
      List.length_cons, List.length_append] <;>
    omega

/-- The loop waits for a permit only while a task is under way. -/
theorem Balanced.awake (h : Balanced jobs queue s) (positive : 0 < jobs) (held : s.held = none)
    (free : s.free = 0) : s.running ≠ [] := by
  intro none
  have permits := h.permits
  rw [held, free, none] at permits
  simp only [Option.toList_none, List.length_nil] at permits
  omega

/-- As long as something is left to do, something may happen. -/
theorem Balanced.exists_step (h : Balanced jobs queue s) (positive : 0 < jobs) (left : ¬Done s) :
    ∃ t, Step s t := by
  obtain ⟨free, waiting, held, running, finished, uncollected, collected⟩ := s
  cases held with
  | some a => exact ⟨_, .spawn⟩
  | none =>
    cases running with
    | cons a rest => exact ⟨_, .finish [] rest⟩
    | nil =>
      cases waiting with
      | cons a rest =>
        cases free with
        | zero => exact absurd rfl (h.awake positive rfl rfl)
        | succ free => exact ⟨_, .acquire⟩
      | nil =>
        cases uncollected with
        | cons a rest => exact ⟨_, .collect [] rest⟩
        | nil => exact absurd ⟨rfl, rfl, rfl, rfl⟩ left

/-! ## Whole runs -/

theorem Takes.balanced {n : Nat} (h : Takes (start jobs queue) n s) : Balanced jobs queue s := by
  induction h with
  | refl => exact balanced_start jobs queue
  | tail _ last ih => exact last.balanced ih

theorem Takes.work {n : Nat} (h : Takes (start jobs queue) n s) :
    n + s.work = 4 * queue.length := by
  induction h with
  | refl => simp [Limiter.work, start]
  | tail _ last ih =>
    have step := last.work
    omega

theorem done_iff_work : Done s ↔ s.work = 0 := by
  constructor
  · rintro ⟨waiting, held, running, uncollected⟩
    rw [Limiter.work, waiting, held, running, uncollected]
    rfl
  · intro none
    simp only [Limiter.work] at none
    refine ⟨List.length_eq_zero_iff.1 (by omega), ?_, List.length_eq_zero_iff.1 (by omega),
      List.length_eq_zero_iff.1 (by omega)⟩
    have empty : s.held.toList = [] := List.length_eq_zero_iff.1 (by omega)
    simpa using empty

/-- At the end each entry has finished once, has been collected once, and has given its permit
back. -/
theorem Balanced.of_done (h : Balanced jobs queue s) (done : Done s) :
    Schedule.Completes jobs queue s.finished ∧ s.collected.Perm s.finished ∧ s.free = jobs := by
  obtain ⟨waiting, held, running, uncollected⟩ := done
  refine ⟨?_, ?_, ?_⟩
  · have scheduled := h.scheduled
    rwa [schedule, waiting, held, running] at scheduled
  · have collected := h.collected
    rwa [uncollected] at collected
  · have permits := h.permits
    rwa [held, running] at permits

/-! ## The orders of a schedule -/

/-- A moment of a schedule is one of the loop, at which it holds nothing and has collected nothing. -/
theorem Takes.of_reaches {u : Schedule α} (h : Schedule.Reaches jobs (.initial queue) u) :
    ∃ n, Takes (start jobs queue) n
      ⟨jobs - u.running.length, u.waiting, none, u.running, u.finished, u.finished, []⟩ := by
  induction h with
  | refl => exact ⟨0, .refl⟩
  | tail before last ih =>
    obtain ⟨n, taken⟩ := ih
    cases last with
    | @start a waiting running finished free =>
      have one : jobs - running.length = jobs - (running ++ [a]).length + 1 := by
        rw [List.length_append, List.length_singleton]
        omega
      rw [one] at taken
      exact ⟨n + 2, (taken.tail .acquire).tail .spawn⟩
    | @finish a waiting finished front back =>
      have bound := before.running_le
      have one : jobs - (front ++ a :: back).length + 1 = jobs - (front ++ back).length := by
        simp only [List.length_append, List.length_cons] at bound ⊢
        omega
      have next := taken.tail (.finish front back)
      exact ⟨n + 1, one ▸ next⟩

/-- What has finished may be collected in any order. -/
theorem Takes.collects {n free : Nat} {finished uncollected collected rest : List α}
    (h : Takes s n ⟨free, [], none, [], finished, uncollected, collected⟩)
    (perm : rest.Perm uncollected) :
    ∃ m, Takes s m ⟨free, [], none, [], finished, [], collected ++ rest⟩ := by
  induction rest generalizing n uncollected collected with
  | nil =>
    obtain rfl := perm.nil_eq
    exact ⟨n, (List.append_nil collected).symm ▸ h⟩
  | cons a rest ih =>
    obtain ⟨front, back, rfl⟩ := List.append_of_mem (perm.mem_iff.1 List.mem_cons_self)
    have left : rest.Perm (front ++ back) := (perm.trans List.perm_middle).cons_inv
    obtain ⟨m, taken⟩ := ih (h.tail (.collect front back)) left
    exact ⟨m, by simpa using taken⟩

/-- The loop may end with these orders of finishing and of collecting. -/
def Ends (jobs : Nat) (queue finished collected : List α) : Prop :=
  ∃ n s, Takes (start jobs queue) n s ∧ Done s ∧ s.finished = finished ∧ s.collected = collected

theorem ends_iff {finished collected : List α} : Ends jobs queue finished collected ↔
    Schedule.Completes jobs queue finished ∧ collected.Perm finished := by
  constructor
  · rintro ⟨n, s, taken, done, rfl, rfl⟩
    obtain ⟨completes, perm, _⟩ := taken.balanced.of_done done
    exact ⟨completes, perm⟩
  · rintro ⟨completes, perm⟩
    obtain ⟨n, taken⟩ := Takes.of_reaches completes
    obtain ⟨m, ended⟩ := taken.collects perm
    exact ⟨m, _, ended, ⟨rfl, rfl, rfl, rfl⟩, rfl, rfl⟩

/-! ## Accepted configurations -/

/-- What a limiter keeps to, whatever happens next: its permits are neither lost nor made, it waits
only for a task that is under way, something may happen until the last step and nothing after it,
and then everything has been checked and collected once. -/
structure Works (jobs : Nat) (queue : List α) (first : Limiter α) : Prop where
  permits {n : Nat} {s : Limiter α} (h : Takes first n s) :
    s.free + (s.held.toList.length + s.running.length) = jobs
  awake {n : Nat} {s : Limiter α} (h : Takes first n s) (held : s.held = none)
    (free : s.free = 0) : s.running ≠ []
  goesOn {n : Nat} {s : Limiter α} (h : Takes first n s) (left : ¬Done s) : ∃ t, Step s t
  ends {n : Nat} {s : Limiter α} (h : Takes first n s) :
    n ≤ 4 * queue.length ∧ (Done s ↔ n = 4 * queue.length)
  checked {n : Nat} {s : Limiter α} (h : Takes first n s) (done : Done s) :
    s.finished.Perm queue ∧ s.collected.Perm queue ∧ s.free = jobs

theorem works_start (positive : 0 < jobs) (queue : List α) :
    Works jobs queue (start jobs queue) where
  permits h := h.balanced.permits
  awake h := h.balanced.awake positive
  goesOn h := h.balanced.exists_step positive
  ends h := by
    have work := h.work
    rw [done_iff_work]
    omega
  checked h done := by
    obtain ⟨completes, perm, free⟩ := h.balanced.of_done done
    exact ⟨completes.perm, perm.trans completes.perm, free⟩

end Limiter

/-! ## Accepted configurations -/

namespace Config

theorem jobs_pos_of_check {config : Config} (accepted : config.check = .ok config)
    {n : Nat} (asked : config.jobs = some n) : 0 < n := by
  rw [Nat.pos_iff_ne_zero]
  rintro rfl
  rw [Config.check, Config.fault?, if_pos asked] at accepted
  cases accepted

theorem eq_of_check {config config' : Config} (checked : config.check = .ok config') :
    config' = config := by
  rw [Config.check] at checked
  split at checked
  · cases checked
  · cases checked
    rfl

theorem check_of_mapError {ε : Type} {f : ConfigFault → ε} {config config' : Config}
    (checked : config.check.mapError f = .ok config') : config'.check = .ok config' := by
  cases outcome : config.check with
  | error fault =>
    rw [outcome] at checked
    cases checked
  | ok same =>
    rw [outcome] at checked
    cases checked
    obtain rfl := eq_of_check outcome
    exact outcome

/-- Wherever a configuration is read from, it is checked once the number of jobs is settled. -/
theorem check_of_load {t : Tree} {named : Option Path} {jobs : Option Nat} {config : Config}
    (loaded : Config.load t named jobs = .ok config) : config.check = .ok config := by
  have behind {read : Except LoadFault Config} (ended : (do
      let config ← read
      let config := { config with jobs := jobs.or config.jobs }
      config.check.mapError .refused) = .ok config) : config.check = .ok config := by
    cases read with
    | error f => cases ended
    | ok read => exact check_of_mapError ended
  cases named with
  | some p =>
    simp only [Config.load] at loaded
    split at loaded
    · exact behind loaded
    · cases loaded
  | none => exact behind loaded

end Config

namespace Run

variable {t : Tree} {config : Config} {rules : RuleSet} {roots : List Path}

theorem run_ne_starved (accepted : config.check = .ok config) :
    t.run config rules roots ≠ .error .starved := by
  intro starved
  obtain ⟨none, _⟩ := run_eq_starved_iff.1 starved
  exact absurd (Config.jobs_pos_of_check accepted none) (Nat.lt_irrefl 0)

/-- No call of the program waits without end. -/
theorem run_ne_starved_of_load {named : Option Path} {jobs : Option Nat}
    (loaded : Config.load t named jobs = .ok config) :
    t.run config rules roots ≠ .error .starved :=
  run_ne_starved (Config.check_of_load loaded)

end Run

namespace Limiter

theorem new?_eq_none_iff : new? jobs queue = none ↔ Run.permitLimit < jobs := by
  simp [new?]

theorem new?_eq_some_iff {first : Limiter α} :
    new? jobs queue = some first ↔ jobs ≤ Run.permitLimit ∧ start jobs queue = first := by
  rw [new?, Option.ite_none_left_eq_some, Nat.not_lt, Option.some.injEq]

/-- An accepted configuration leaves the number of jobs to the machine or asks for at least one. Its
limiter works unless it asks for more permits than there can be, and just then the run breaks off;
no run waits without end, and the reports that it may have are those of the orders in which the
limiter may end. -/
theorem works_of_accepted {config : Config} (accepted : config.check = .ok config) {cores : Nat}
    (positive : 0 < cores) (possible : cores ≤ Run.permitLimit) :
    (∀ {α : Type} (queue : List α),
      (new? (config.jobs.getD cores) queue = none ↔
        ∃ n, config.jobs = some n ∧ Run.permitLimit < n) ∧
      ∀ first, new? (config.jobs.getD cores) queue = some first →
        Works (config.jobs.getD cores) queue first) ∧
    ∀ (t : Tree) (rules : RuleSet) (roots : List Path),
      (t.run config rules roots = .error .tooManyPermits ↔
        ∃ n, config.jobs = some n ∧ Run.permitLimit < n) ∧
      t.run config rules roots ≠ .error .starved ∧
      ∀ r, Run.MayReport t config rules roots (config.jobs.getD cores) r ↔
        ∃ finished collected,
          Ends (config.jobs.getD cores) (Run.queue (Run.gather t config.scan roots)) finished
            collected ∧
          r = Run.report (Run.gather t config.scan roots)
            (finished.map (Run.check t config rules)) (collected.map (Run.check t config rules)) := by
  have asked : 0 < config.jobs.getD cores := by
    cases jobs : config.jobs with
    | none => exact positive
    | some n => exact Config.jobs_pos_of_check accepted jobs
  -- Whatever the machine has is possible, so that only a number asked for can be too large.
  have excess {others : Nat} (small : others ≤ Run.permitLimit) :
      Run.permitLimit < config.jobs.getD others ↔
        ∃ n, config.jobs = some n ∧ Run.permitLimit < n := by
    cases config.jobs with
    | none => simpa using small
    | some n => simp
  have one : 1 ≤ Run.permitLimit := by decide
  refine ⟨fun queue => ⟨new?_eq_none_iff.trans (excess possible), ?_⟩,
    fun t rules roots => ⟨Run.run_eq_error_iff.trans (excess one), Run.run_ne_starved accepted, ?_⟩⟩
  · intro first made
    obtain ⟨_, rfl⟩ := new?_eq_some_iff.1 made
    exact works_start asked queue
  · intro r
    simp only [Run.MayReport, ends_iff, and_assoc]

/-- Three documents for two permits on a machine with four processors. -/
theorem works_of_accepted_two :
    ({ jobs := some 2 } : Config).check = .ok { jobs := some 2 } ∧ 4 ≤ Run.permitLimit ∧
      new? 2 ["a", "b", "c"] = some (start 2 ["a", "b", "c"]) ∧
      Works 2 ["a", "b", "c"] (start 2 ["a", "b", "c"]) := by
  have accepted : ({ jobs := some 2 } : Config).check = .ok { jobs := some 2 } := by decide
  have possible : 4 ≤ Run.permitLimit := by decide
  have made : new? 2 ["a", "b", "c"] = some (start 2 ["a", "b", "c"]) :=
    new?_eq_some_iff.2 ⟨by decide, rfl⟩
  have all := works_of_accepted accepted (by decide) possible
  exact ⟨accepted, possible, made, (all.1 ["a", "b", "c"]).2 _ made⟩

/-- A number of jobs that is accepted, as a setting and from the command line, with which no run can
work. -/
theorem refused_of_accepted :
    ({ jobs := some 2305843009213693952 } : Config).check =
        .ok { jobs := some 2305843009213693952 } ∧
      Config.load Run.brokenPair none (CommandLine.jobs? "2305843009213693952".toList) =
        .ok { jobs := some 2305843009213693952 } ∧
      new? 2305843009213693952 ["a", "b", "c"] = none ∧
      Run.brokenPair.run { jobs := some 2305843009213693952 } .stock [⟨"login"⟩] =
        .error .tooManyPermits := by
  refine ⟨by decide, ?_, new?_eq_none_iff.2 (by decide), Run.run_eq_error_iff.2 (by decide)⟩
  decide +kernel

end Limiter

end ScriptAudit
