/-
This file is about a scheduler that keeps recurring jobs: a store of jobs, each with an
interval trigger and the time of its next run, and a loop that runs what is due.

A job can be added with or without a time of its first run. Leaving the time out lets the
trigger choose it; giving `None` adds the job paused, and a paused job is never due. The two
facts the file ends with are what that means for a whole run: a paused job stays paused
(`paused_run`), and a job that has a next run keeps having one at most an interval away
(`alive_run`).

Times are in microseconds.
-/

import LiteHorse.Library.Runs
import Mathlib.Tactic.Linarith

namespace LiteHorse.JobStore

open Runs

/-- Fires every `interval`, from `startDate` on. -/
structure IntervalTrigger where
  interval : Int
  startDate : Int
  positive : 0 < interval

/-- A trigger without a start date starts one interval after it was made. -/
def IntervalTrigger.every (interval : Int) (positive : 0 < interval) (now : Int) :
    IntervalTrigger :=
  ⟨interval, now + interval, positive⟩

/-- The fire time after the previous one; the first one is the first multiple of the interval
past the start date that is not before now. -/
def IntervalTrigger.nextFireTime (trigger : IntervalTrigger) (previous : Option Int) (now : Int) :
    Int :=
  match previous with
  | some previous => previous + trigger.interval
  | none =>
    if trigger.startDate > now then trigger.startDate
    else trigger.startDate + trigger.interval * -((trigger.startDate - now) / trigger.interval)

structure Job (Id : Type*) where
  id : Id
  trigger : IntervalTrigger
  nextRunTime : Option Int

/-- The arguments of `add_job`. The time of the first run can be left out (`none`), and what
is given can be `None` (`some none`). -/
structure AddJob (Id : Type*) where
  id : Id
  trigger : IntervalTrigger
  nextRunTime : Option (Option Int)

structure Scheduler (Id : Type*) where
  now : Int
  jobs : List (Job Id)

section Store

variable {Id : Type*} [DecidableEq Id]

/-- The job that is stored: a time that was left out comes from the trigger. -/
def AddJob.job (request : AddJob Id) (now : Int) : Job Id where
  id := request.id
  trigger := request.trigger
  nextRunTime := request.nextRunTime.getD (some (request.trigger.nextFireTime none now))

/-- Store a job with `replace_existing`: a job of the same id gives way to it. -/
def storeJob (jobs : List (Job Id)) (job : Job Id) : List (Job Id) :=
  if jobs.any fun old => old.id = job.id then
    jobs.map fun old => if old.id = job.id then job else old
  else jobs ++ [job]

/-- Jobs added before the scheduler runs are stored when it starts. -/
def start (now : Int) (requests : List (AddJob Id)) : Scheduler Id where
  now := now
  jobs := requests.foldl (fun jobs request => storeJob jobs (request.job now)) []

/-- Run a job that is due, once for every fire time up to now, and set its next run to the
fire time after the last of them. A job without a next run is passed over. -/
def Job.process (job : Job Id) (now : Int) : Job Id :=
  match job.nextRunTime with
  | none => job
  | some due =>
    if due ≤ now then
      let last := due + job.trigger.interval * ((now - due) / job.trigger.interval)
      { job with nextRunTime := some (job.trigger.nextFireTime (some last) now) }
    else job

inductive Event where
  | wait (microseconds : Nat)
  | processJobs

def step (scheduler : Scheduler Id) : Event → Option (Scheduler Id)
  | .wait microseconds => some { scheduler with now := scheduler.now + microseconds }
  | .processJobs =>
    some { scheduler with jobs := scheduler.jobs.map fun job => job.process scheduler.now }

/-- The job is not paused and runs within an interval from now. -/
def Job.Alive (job : Job Id) (now : Int) : Prop :=
  ∃ next, job.nextRunTime = some next ∧ next ≤ now + job.trigger.interval

/-! ### One job -/

omit [DecidableEq Id] in
theorem process_id (job : Job Id) (now : Int) : (job.process now).id = job.id := by
  unfold Job.process
  split
  · rfl
  · split <;> rfl

omit [DecidableEq Id] in
theorem process_trigger (job : Job Id) (now : Int) : (job.process now).trigger = job.trigger := by
  unfold Job.process
  split
  · rfl
  · split <;> rfl

omit [DecidableEq Id] in
theorem process_paused (job : Job Id) (now : Int) (paused : job.nextRunTime = none) :
    (job.process now).nextRunTime = none := by
  unfold Job.process
  rw [paused]
  exact paused

omit [DecidableEq Id] in
theorem process_alive (job : Job Id) (now : Int) (alive : job.Alive now) :
    (job.process now).Alive now := by
  obtain ⟨next, isNext, soon⟩ := alive
  unfold Job.process
  rw [isNext]
  simp only
  split
  · next due =>
    refine ⟨_, rfl, ?_⟩
    have positive := job.trigger.positive
    have division := Int.mul_ediv_self_le (x := now - next) positive.ne'
    show next + job.trigger.interval * ((now - next) / job.trigger.interval) +
      job.trigger.interval ≤ now + job.trigger.interval
    linarith
  · exact ⟨next, isNext, soon⟩

omit [DecidableEq Id] in
theorem wait_alive (job : Job Id) (now : Int) (microseconds : Nat) (alive : job.Alive now) :
    job.Alive (now + microseconds) := by
  obtain ⟨next, isNext, soon⟩ := alive
  refine ⟨next, isNext, ?_⟩
  have later : (0 : Int) ≤ microseconds := Int.natCast_nonneg microseconds
  linarith

/-! ### What is stored at the start -/

theorem storeJob_new (jobs : List (Job Id)) (job : Job Id) (new : job.id ∉ jobs.map Job.id) :
    storeJob jobs job = jobs ++ [job] := by
  unfold storeJob
  rw [if_neg]
  intro taken
  obtain ⟨old, member, same⟩ := List.any_eq_true.mp taken
  exact new (List.mem_map.mpr ⟨old, member, by simpa using same⟩)

theorem foldl_storeJob (now : Int) (requests : List (AddJob Id)) (jobs : List (Job Id))
    (distinct : (jobs.map Job.id ++ requests.map AddJob.id).Nodup) :
    requests.foldl (fun jobs request => storeJob jobs (request.job now)) jobs =
      jobs ++ requests.map fun request => request.job now := by
  induction requests generalizing jobs with
  | nil => simp
  | cons request rest inductionHypothesis =>
    rw [List.map_cons, List.nodup_append] at distinct
    have new : (request.job now).id ∉ jobs.map Job.id := fun member =>
      distinct.2.2 _ member _ List.mem_cons_self rfl
    rw [List.foldl_cons, storeJob_new jobs _ new, inductionHypothesis]
    · rw [List.append_assoc]
      rfl
    · rw [List.map_append, List.append_assoc]
      exact List.nodup_append.mpr distinct

/-- Jobs with different ids are all stored. -/
theorem start_jobs (now : Int) (requests : List (AddJob Id))
    (distinct : (requests.map AddJob.id).Nodup) :
    (start now requests).jobs = requests.map fun request => request.job now := by
  have stored := foldl_storeJob now requests [] (by simpa using distinct)
  rw [List.nil_append] at stored
  exact stored

/-! ### Runs -/

/-- No job of the id has a next run. -/
def Paused (id : Id) (scheduler : Scheduler Id) : Prop :=
  ∀ job ∈ scheduler.jobs, job.id = id → job.nextRunTime = none

/-- The id has a job with this interval that is alive. -/
def HasAlive (id : Id) (interval : Int) (scheduler : Scheduler Id) : Prop :=
  ∃ job ∈ scheduler.jobs, job.id = id ∧ job.trigger.interval = interval ∧
    job.Alive scheduler.now

omit [DecidableEq Id] in
theorem not_hasAlive_of_paused (id : Id) (interval : Int) (scheduler : Scheduler Id)
    (paused : Paused id scheduler) : ¬ HasAlive id interval scheduler := by
  rintro ⟨job, member, own, _, next, isNext, _⟩
  rw [paused job member own] at isNext
  cases isNext

omit [DecidableEq Id] in
theorem paused_step (id : Id) (scheduler : Scheduler Id) (event : Event) (next : Scheduler Id)
    (paused : Paused id scheduler) (taken : step scheduler event = some next) :
    Paused id next := by
  cases event with
  | wait microseconds =>
    cases taken
    exact paused
  | processJobs =>
    cases taken
    intro job member own
    obtain ⟨old, oldMember, rfl⟩ := List.mem_map.mp member
    rw [process_id] at own
    exact process_paused old scheduler.now (paused old oldMember own)

omit [DecidableEq Id] in
/-- A job that is paused stays paused in every run. -/
theorem paused_run (id : Id) (scheduler : Scheduler Id) (events : List Event)
    (paused : Paused id scheduler) : Always step (Paused id) scheduler events :=
  always_invariant step (paused_step id) paused

omit [DecidableEq Id] in
theorem alive_step (id : Id) (interval : Int) (scheduler : Scheduler Id) (event : Event)
    (next : Scheduler Id) (alive : HasAlive id interval scheduler)
    (taken : step scheduler event = some next) : HasAlive id interval next := by
  obtain ⟨job, member, own, length, isAlive⟩ := alive
  cases event with
  | wait microseconds =>
    cases taken
    exact ⟨job, member, own, length, wait_alive job scheduler.now microseconds isAlive⟩
  | processJobs =>
    cases taken
    refine ⟨job.process scheduler.now, List.mem_map.mpr ⟨job, member, rfl⟩, ?_, ?_,
      process_alive job scheduler.now isAlive⟩
    · rw [process_id]
      exact own
    · rw [process_trigger]
      exact length

omit [DecidableEq Id] in
/-- A job that has a next run within an interval keeps having one in every run. -/
theorem alive_run (id : Id) (interval : Int) (scheduler : Scheduler Id) (events : List Event)
    (alive : HasAlive id interval scheduler) :
    Always step (HasAlive id interval) scheduler events :=
  always_invariant step (alive_step id interval) alive

omit [DecidableEq Id] in
/-- A trigger that has not started yet, or just did, fires within an interval. -/
theorem nextFireTime_le (trigger : IntervalTrigger) (now : Int)
    (started : trigger.startDate ≤ now + trigger.interval) :
    trigger.nextFireTime none now ≤ now + trigger.interval := by
  unfold IntervalTrigger.nextFireTime
  simp only
  split
  · exact started
  · have positive := trigger.positive
    have division := Int.lt_mul_ediv_self_add (x := trigger.startDate - now) positive
    rw [mul_neg]
    linarith

end Store

end LiteHorse.JobStore
