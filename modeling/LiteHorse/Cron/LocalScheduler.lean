/-
This file models the local scheduler process: the jobs it has loaded when it started, their
firings, which may overlap for different jobs, the strikes that `make_fire` counts in memory,
and the store of jobs, which is also changed from outside.

Three refusals in a row disable a job in the store, but the process does not look at the store
again: a job that is disabled stays in its table and goes on running the agent whenever it is
due. A firing that fails before the agent runs leaves the strikes as they are, although it is
not a refusal. The main result is about the runs in which neither comes up.
-/

import LiteHorse.Cron.Jobs
import LiteHorse.Scheduler.CronTick

namespace LiteHorse.Cron.LocalScheduler

open Jobs Runs Scheduler

/-- How the run of an agent ends. -/
inductive Outcome where
  | success
  | refusal
  | otherError
  deriving DecidableEq

/-- What can end a row of refusals, or go on with it. -/
inductive Entry where
  | ended (jobId : String) (outcome : Outcome)
  /-- `build_agent` has raised. -/
  | notBuilt (jobId : String)
  | disabledByHand (jobId : String)

structure State where
  store : JobStore
  /-- The jobs of the scheduler. -/
  table : List Job
  /-- `refusal_strikes.get(job.id, 0)` -/
  strikes : String → Nat
  /-- The jobs whose agent runs. -/
  running : List String
  /-- The jobs whose output is delivered. -/
  delivering : List String
  /-- The jobs whose agent was run, the last one first. -/
  agentRuns : List String
  /-- The last entry first. -/
  log : List Entry

inductive Event where
  /-- The trigger of a job is due. -/
  | due (jobId : String) (built : Bool)
  | finish (jobId : String) (outcome : Outcome)
  | delivered (jobId : String)
  | add (job : Job)
  | remove (jobId : String)
  | setEnabled (jobId : String) (enabled : Bool)

def refusalStrikeLimit : Nat := 3

def autoDisabled (strikes : Nat) : String := s!"auto-disabled: {strikes} model refusals"

namespace State

/-- APScheduler runs one instance of a job at a time. -/
def isActive (state : State) (jobId : String) : Bool :=
  jobId ∈ state.running || jobId ∈ state.delivering

def pop (state : State) (jobId : String) : State :=
  { state with strikes := Function.update state.strikes jobId 0 }

/-- What `fire` does once its agent has ended. -/
def settle (state : State) (jobId : String) : Outcome → State
  | .success | .otherError => state.pop jobId
  | .refusal =>
    let strikes := state.strikes jobId + 1
    if refusalStrikeLimit ≤ strikes then
      { state with store := state.store.disableWithReason jobId (autoDisabled strikes) }.pop jobId
    else { state with strikes := Function.update state.strikes jobId strikes }

end State

def step (state : State) : Event → Option State
  | .due jobId built =>
    if jobId ∈ state.table.map Job.id then
      if state.isActive jobId then some state
      else if built then
        some { state with
          running := jobId :: state.running
          agentRuns := jobId :: state.agentRuns }
      else some { state with log := .notBuilt jobId :: state.log }
    else none
  | .finish jobId outcome =>
    if jobId ∈ state.running then
      some { state.settle jobId outcome with
        running := state.running.erase jobId
        delivering := jobId :: state.delivering
        log := .ended jobId outcome :: state.log }
    else none
  | .delivered jobId =>
    if jobId ∈ state.delivering then
      some { state with delivering := state.delivering.erase jobId }
    else none
  | .add job => some { state with store := state.store.add job }
  | .remove jobId => some { state with store := state.store.remove jobId }
  | .setEnabled jobId enabled =>
    let next := { state with store := state.store.setEnabled jobId enabled }
    if enabled = false ∧ (state.store.get jobId).any Job.enabled then
      some { next with log := .disabledByHand jobId :: state.log }
    else some next

/-- `add_job` with `replace_existing`. -/
def addJob (table : List Job) (job : Job) : List Job :=
  if table.any fun old => old.id = job.id then
    table.map fun old => if old.id = job.id then job else old
  else table ++ [job]

section Schedule

variable (fromCrontab : String → Option CronTrigger)

/-- `_schedule_jobs`: the enabled jobs with a valid schedule. -/
def scheduleJobs (store : JobStore) : List Job :=
  (store.filter fun job => job.enabled && (parseSchedule fromCrontab job.schedule).isSome).foldl
    addJob []

/-- The process has started. -/
def State.initial (store : JobStore) : State where
  store := store
  table := scheduleJobs fromCrontab store
  strikes _ := 0
  running := []
  delivering := []
  agentRuns := []
  log := []

end Schedule

/-! ### What is asked of a run -/

/-- How many refusals of the job there were since its last other firing and since it was last
disabled by refusals or, if that counts, by hand. -/
def consecutive (byHand : Bool) (jobId : String) : List Entry → Nat
  | [] => 0
  | .ended other outcome :: earlier =>
    let before := consecutive byHand jobId earlier
    if other = jobId then
      if outcome = .refusal then if before + 1 = refusalStrikeLimit then 0 else before + 1
      else 0
    else before
  | .notBuilt other :: earlier => if other = jobId then 0 else consecutive byHand jobId earlier
  | .disabledByHand other :: earlier =>
    if byHand = true ∧ other = jobId then 0 else consecutive byHand jobId earlier

/-- A firing disables its job, and no other one, if it ends with the third refusal in a row,
and otherwise leaves the store as it is. -/
def DisablesAtThird (byHand : Bool) (state : State) (event : Event) : Prop :=
  ∀ next, step state event = some next →
    match event with
    | .finish jobId outcome =>
      if outcome = .refusal ∧ consecutive byHand jobId state.log + 1 = refusalStrikeLimit then
        JobStore.DisablesOnly jobId (autoDisabled refusalStrikeLimit) state.store next.store
      else next.store = state.store
    | .due _ _ | .delivered _ => next.store = state.store
    | .add _ | .remove _ | .setEnabled _ _ => True

/-- The agent of a job that is disabled in the store is not run. -/
def RunsEnabled (state : State) (event : Event) : Prop :=
  ∀ jobId next, step state event = some next → next.agentRuns = jobId :: state.agentRuns →
    state.store.isDisabled jobId = false

def StrikesDisable (fromCrontab : String → Option CronTrigger) (byHand : Bool) (store : JobStore)
    (events : List Event) : Prop :=
  StepsMeet step (DisablesAtThird byHand) (.initial fromCrontab store) events ∧
    StepsMeet step RunsEnabled (.initial fromCrontab store) events

/-- No trigger is due while its job is disabled, and nothing ends a row of refusals but the
end of an agent: no firing of a job with strikes fails before its agent runs and, if disabling
by hand counts, no job with strikes is disabled by hand. -/
def Undisturbed (byHand : Bool) (state : State) : Event → Prop
  | .due jobId built =>
    state.isActive jobId = false →
      if built then state.store.isDisabled jobId = false else state.strikes jobId = 0
  | .setEnabled jobId enabled => byHand = true → enabled = false → state.strikes jobId = 0
  | _ => True

instance (byHand : Bool) (state : State) :
    ∀ event, Decidable (Undisturbed byHand state event)
  | .due jobId built =>
    inferInstanceAs (Decidable (state.isActive jobId = false →
      if built then state.store.isDisabled jobId = false else state.strikes jobId = 0))
  | .setEnabled jobId enabled =>
    inferInstanceAs (Decidable (byHand = true → enabled = false → state.strikes jobId = 0))
  | .finish _ _ | .delivered _ | .add _ | .remove _ => isTrue trivial

/-! ### The strikes are the refusals in a row -/

theorem consecutive_lt (byHand : Bool) (jobId : String) (log : List Entry) :
    consecutive byHand jobId log < refusalStrikeLimit := by
  induction log with
  | nil => exact Nat.succ_pos 2
  | cons entry earlier inductionHypothesis =>
    cases entry with
    | ended other outcome =>
      unfold consecutive
      dsimp only
      split
      · split
        · split
          · exact Nat.succ_pos 2
          · next notThird => exact lt_of_le_of_ne inductionHypothesis notThird
        · exact Nat.succ_pos 2
      · exact inductionHypothesis
    | notBuilt other =>
      unfold consecutive
      split
      · exact Nat.succ_pos 2
      · exact inductionHypothesis
    | disabledByHand other =>
      unfold consecutive
      split
      · exact Nat.succ_pos 2
      · exact inductionHypothesis

/-- The strikes of every job are its refusals in a row. -/
def State.Counts (byHand : Bool) (state : State) : Prop :=
  ∀ jobId, state.strikes jobId = consecutive byHand jobId state.log

section Steps

variable {byHand : Bool} {state next : State} {jobId : String}

theorem due_cases {built : Bool} (taken : step state (.due jobId built) = some next) :
    next = state ∨
      state.isActive jobId = false ∧
        (built = true ∧ next = { state with
            running := jobId :: state.running
            agentRuns := jobId :: state.agentRuns } ∨
          built = false ∧ next = { state with log := .notBuilt jobId :: state.log }) := by
  unfold step at taken
  dsimp only at taken
  split at taken
  · split at taken
    · exact Or.inl (Option.some.inj taken).symm
    · next isFree =>
      refine Or.inr ⟨Bool.not_eq_true _ ▸ isFree, ?_⟩
      split at taken
      · next isBuilt => exact Or.inl ⟨isBuilt, (Option.some.inj taken).symm⟩
      · next notBuilt =>
        exact Or.inr ⟨Bool.not_eq_true _ ▸ notBuilt, (Option.some.inj taken).symm⟩
  · cases taken

theorem finish_eq {outcome : Outcome} (taken : step state (.finish jobId outcome) = some next) :
    next = { state.settle jobId outcome with
      running := state.running.erase jobId
      delivering := jobId :: state.delivering
      log := .ended jobId outcome :: state.log } := by
  unfold step at taken
  dsimp only at taken
  split at taken
  · exact (Option.some.inj taken).symm
  · cases taken

theorem delivered_eq (taken : step state (.delivered jobId) = some next) :
    next = { state with delivering := state.delivering.erase jobId } := by
  unfold step at taken
  dsimp only at taken
  split at taken
  · exact (Option.some.inj taken).symm
  · cases taken

theorem setEnabled_cases {enabled : Bool}
    (taken : step state (.setEnabled jobId enabled) = some next) :
    next = { state with store := state.store.setEnabled jobId enabled } ∨
      enabled = false ∧ next = { state with
        store := state.store.setEnabled jobId enabled
        log := .disabledByHand jobId :: state.log } := by
  unfold step at taken
  dsimp only at taken
  split at taken
  · next disables => exact Or.inr ⟨disables.1, (Option.some.inj taken).symm⟩
  · exact Or.inl (Option.some.inj taken).symm

/-- The third strike, where the strikes are counted right. -/
theorem State.Counts.third_iff (counts : state.Counts byHand) (jobId : String) :
    refusalStrikeLimit ≤ state.strikes jobId + 1 ↔
      consecutive byHand jobId state.log + 1 = refusalStrikeLimit := by
  rw [counts jobId]
  have few := consecutive_lt byHand jobId state.log
  omega

/-- The strikes of other jobs stay. -/
theorem strikes_settle_other (state : State) (outcome : Outcome) {other : String}
    (differs : other ≠ jobId) :
    (state.settle jobId outcome).strikes other = state.strikes other := by
  unfold State.settle
  split
  · exact Function.update_of_ne differs 0 state.strikes
  · exact Function.update_of_ne differs 0 state.strikes
  · dsimp only
    split
    · exact Function.update_of_ne differs 0 state.strikes
    · exact Function.update_of_ne differs _ state.strikes

theorem State.Counts.settle (counts : state.Counts byHand) (jobId : String) (outcome : Outcome)
    (other : String) :
    (state.settle jobId outcome).strikes other =
      consecutive byHand other (.ended jobId outcome :: state.log) := by
  unfold consecutive
  dsimp only
  by_cases own : jobId = other
  · subst own
    rw [if_pos rfl]
    cases outcome with
    | success => exact Function.update_self jobId 0 state.strikes
    | otherError => exact Function.update_self jobId 0 state.strikes
    | refusal =>
      have third := counts.third_iff jobId
      unfold State.settle
      dsimp only
      rw [if_pos rfl]
      by_cases isThird : refusalStrikeLimit ≤ state.strikes jobId + 1
      · rw [if_pos isThird, if_pos (third.mp isThird)]
        exact Function.update_self jobId 0 state.strikes
      · rw [if_neg isThird, if_neg (mt third.mpr isThird), ← counts jobId]
        exact Function.update_self jobId _ state.strikes
  · rw [if_neg own, strikes_settle_other state outcome (Ne.symm own)]
    exact counts other

/-- Ending a row of a job without strikes changes no count. -/
theorem State.Counts.of_reset (counts : state.Counts byHand) (none : state.strikes jobId = 0)
    (other : String) :
    state.strikes other = if jobId = other then 0 else consecutive byHand other state.log := by
  split
  · next own => rw [← own, none]
  · exact counts other

theorem State.Counts.of_step {event : Event} (counts : state.Counts byHand)
    (undisturbed : Undisturbed byHand state event) (taken : step state event = some next) :
    next.Counts byHand := by
  cases event with
  | due jobId built =>
    obtain rfl | ⟨isFree, ⟨_, rfl⟩ | ⟨notBuilt, rfl⟩⟩ := due_cases taken
    · exact counts
    · exact counts
    · have noStrikes := undisturbed isFree
      rw [if_neg (Bool.eq_false_iff.mp notBuilt)] at noStrikes
      exact counts.of_reset noStrikes
  | finish jobId outcome =>
    rw [finish_eq taken]
    exact counts.settle jobId outcome
  | delivered jobId =>
    rw [delivered_eq taken]
    exact counts
  | add job =>
    cases taken
    exact counts
  | remove jobId =>
    cases taken
    exact counts
  | setEnabled jobId enabled =>
    obtain rfl | ⟨disables, rfl⟩ := setEnabled_cases taken
    · exact counts
    · cases byHand with
      | false =>
        intro other
        exact (counts other).trans (if_neg fun both => Bool.false_ne_true both.1).symm
      | true =>
        intro other
        refine (counts.of_reset (undisturbed rfl disables) other).trans ?_
        simp only [consecutive, true_and]

/-- A firing that ends changes the store at the third strike only. -/
theorem store_settle (state : State) (jobId : String) (outcome : Outcome) :
    (state.settle jobId outcome).store =
      if outcome = .refusal ∧ refusalStrikeLimit ≤ state.strikes jobId + 1 then
        state.store.disableWithReason jobId (autoDisabled (state.strikes jobId + 1))
      else state.store := by
  unfold State.settle
  cases outcome with
  | success => rfl
  | otherError => rfl
  | refusal =>
    dsimp only
    split
    · next isThird => exact (if_pos ⟨rfl, isThird⟩).symm
    · next notThird => exact (if_neg fun both => notThird both.2).symm

theorem State.Counts.disablesAtThird (counts : state.Counts byHand) (event : Event) :
    DisablesAtThird byHand state event := by
  intro next taken
  cases event with
  | due jobId built =>
    obtain rfl | ⟨_, ⟨_, rfl⟩ | ⟨_, rfl⟩⟩ := due_cases taken <;> rfl
  | finish jobId outcome =>
    have third := counts.third_iff jobId
    rw [finish_eq taken]
    dsimp only
    rw [store_settle]
    split
    · next isThird =>
      rw [if_pos ⟨isThird.1, third.mpr isThird.2⟩, counts jobId, isThird.2]
      exact JobStore.disablesOnly_disableWithReason state.store jobId _
    · next notThird =>
      exact if_neg fun both => notThird ⟨both.1, third.mp both.2⟩
  | delivered jobId =>
    rw [delivered_eq taken]
  | add job => trivial
  | remove jobId => trivial
  | setEnabled jobId enabled => trivial

theorem agentRuns_settle (state : State) (jobId : String) (outcome : Outcome) :
    (state.settle jobId outcome).agentRuns = state.agentRuns := by
  unfold State.settle
  split
  · rfl
  · rfl
  · dsimp only
    split
    · rfl
    · rfl

/-- Only a trigger that is due runs an agent. -/
theorem agentRuns_of_step {event : Event} (taken : step state event = some next) :
    next.agentRuns = state.agentRuns ∨
      ∃ jobId, event = .due jobId true ∧ state.isActive jobId = false ∧
        next.agentRuns = jobId :: state.agentRuns := by
  cases event with
  | due jobId built =>
    obtain rfl | ⟨isFree, ⟨rfl, rfl⟩ | ⟨_, rfl⟩⟩ := due_cases taken
    · exact Or.inl rfl
    · exact Or.inr ⟨jobId, rfl, isFree, rfl⟩
    · exact Or.inl rfl
  | finish jobId outcome =>
    rw [finish_eq taken]
    exact Or.inl (agentRuns_settle state jobId outcome)
  | delivered jobId =>
    rw [delivered_eq taken]
    exact Or.inl rfl
  | add job =>
    cases taken
    exact Or.inl rfl
  | remove jobId =>
    cases taken
    exact Or.inl rfl
  | setEnabled jobId enabled =>
    obtain rfl | ⟨_, rfl⟩ := setEnabled_cases taken
    · exact Or.inl rfl
    · exact Or.inl rfl

theorem runsEnabled_of_undisturbed {event : Event} (undisturbed : Undisturbed byHand state event) :
    RunsEnabled state event := by
  intro jobId next taken isRun
  rcases agentRuns_of_step taken with same | ⟨other, rfl, isFree, runs⟩
  · exact absurd (same.symm.trans isRun) (List.cons_ne_self jobId _).symm
  · cases runs.symm.trans isRun
    exact undisturbed isFree

end Steps

/-- In every undisturbed run a job is disabled exactly by the firing that ends with its third
refusal in a row, and a job that is disabled does not run its agent. -/
theorem strikes_disable (fromCrontab : String → Option CronTrigger) (byHand : Bool)
    (store : JobStore) (events : List Event)
    (undisturbed : StepsMeet step (Undisturbed byHand) (.initial fromCrontab store) events) :
    StrikesDisable fromCrontab byHand store events := by
  have initial : (State.initial fromCrontab store).Counts byHand := fun _ => rfl
  constructor
  · exact stepsMeet_of_invariant step
      (fun state event next (counts : state.Counts byHand) => counts.of_step)
      (fun state event counts _ => counts.disablesAtThird event) initial undisturbed
  · exact undisturbed.mono step fun state event => runsEnabled_of_undisturbed

/-! ### A job whose model refuses -/

def digestJob : Job where
  id := "digest"
  schedule := "* * * * *"
  prompt := "news"
  delivery := []

/-- One firing whose model refuses. -/
def refusedFiring : List Event :=
  [.due "digest" true, .finish "digest" .refusal, .delivered "digest"]

def threeRefusals : List Event := refusedFiring ++ refusedFiring ++ refusedFiring

theorem initial_digest : State.initial minutelyCrontab [digestJob] =
    ⟨[digestJob], [digestJob], fun _ => 0, [], [], [], []⟩ := by
  have table : scheduleJobs minutelyCrontab [digestJob] = [digestJob] := by
    have valid : (parseSchedule minutelyCrontab digestJob.schedule).isSome = true := by
      rw [show digestJob.schedule = "* * * * *" from rfl, parseSchedule_minutely]
      rfl
    rw [scheduleJobs, List.filter_cons_of_pos (by rw [valid]; rfl)]
    rfl
  rw [State.initial, table]

/-- Three refusals, after which the job is not due again. -/
theorem three_refusals_disable : StrikesDisable minutelyCrontab true [digestJob] threeRefusals := by
  refine strikes_disable minutelyCrontab true [digestJob] threeRefusals ?_
  rw [initial_digest]
  decide

theorem not_runsEnabled_digest : ¬ StepsMeet step RunsEnabled
    (.initial minutelyCrontab [digestJob]) (threeRefusals ++ [.due "digest" true]) := by
  rw [initial_digest]
  intro runsEnabled
  obtain ⟨last, run, next, taken, isRun, disabled⟩ : ∃ last,
      exec step ⟨[digestJob], [digestJob], fun _ => 0, [], [], [], []⟩ threeRefusals = some last ∧
        ∃ next, step last (.due "digest" true) = some next ∧
          next.agentRuns = "digest" :: last.agentRuns ∧ last.store.isDisabled "digest" = true :=
    ⟨_, rfl, _, rfl, rfl, rfl⟩
  have atLast := (stepsMeet_append step run runsEnabled).2.1
  exact Bool.false_ne_true ((atLast "digest" next taken isRun).symm.trans disabled)

/-- After three refusals the job is disabled, and the next time it is due it runs its agent. -/
theorem disabled_job_runs :
    ¬ StrikesDisable minutelyCrontab false [digestJob] (threeRefusals ++ [.due "digest" true]) ∧
      ¬ StrikesDisable minutelyCrontab true [digestJob] (threeRefusals ++ [.due "digest" true]) :=
  ⟨fun disable => not_runsEnabled_digest disable.2, fun disable => not_runsEnabled_digest disable.2⟩

end LiteHorse.Cron.LocalScheduler
