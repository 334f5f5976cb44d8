/-
This file models the scheduler service: `run_scheduler` adds seven recurring ticks to a
scheduler and starts it. Every tick is added with `next_run_time=None`, by which the service
means the first run to come one interval after the start; to the scheduler it means that the
job is paused.

The file proves that no tick of the service ever has a next run (`ticks_never_alive`), and
that the same registrations without the argument would keep all seven alive
(`omitted_ticks_alive`).
-/

import LiteHorse.Library.JobStore

namespace LiteHorse.Scheduler

open JobStore Runs

def tickSeconds : Nat := 60
def evolveTickSeconds : Nat := 86400
def summarizeTickSeconds : Nat := 3600
def compactTickSeconds : Nat := 86400
def curatorTickSeconds : Nat := 86400
def gdprTickSeconds : Nat := 86400
def auditShipTickSeconds : Nat := 86400

/-- A recurring tick: the id of its job and its interval. -/
structure Tick where
  id : String
  seconds : Nat
  positive : 0 < seconds

/-- The seven ticks in the order they are added. -/
def ticks : List Tick :=
  [⟨"cron-tick", tickSeconds, by decide⟩,
    ⟨"evolve-tick", evolveTickSeconds, by decide⟩,
    ⟨"summarize-tick", summarizeTickSeconds, by decide⟩,
    ⟨"compact-tick", compactTickSeconds, by decide⟩,
    ⟨"curator-tick", curatorTickSeconds, by decide⟩,
    ⟨"gdpr-tick", gdprTickSeconds, by decide⟩,
    ⟨"audit-ship-tick", auditShipTickSeconds, by decide⟩]

/-- The interval of a tick in microseconds. -/
def Tick.interval (tick : Tick) : Int := tick.seconds * 1000000

theorem Tick.interval_pos (tick : Tick) : 0 < tick.interval := by
  have positive := tick.positive
  unfold Tick.interval
  omega

/-- The `add_job` of a tick, made at a time, with the start time it is given. -/
def Tick.addJob (tick : Tick) (now : Int) (nextRunTime : Option (Option Int)) : AddJob String where
  id := tick.id
  trigger := .every tick.interval tick.interval_pos now
  nextRunTime := nextRunTime

/-- The scheduler after `sched.start()`: the ticks are added at `boot` with
`next_run_time=None` and stored at `started`. -/
def runScheduler (boot started : Int) : JobStore.Scheduler String :=
  start started (ticks.map fun tick => tick.addJob boot (some none))

/-- The tick is registered, has a next run, and that is at most one of its intervals away. -/
def TickAlive (tick : Tick) (scheduler : JobStore.Scheduler String) : Prop :=
  HasAlive tick.id tick.interval scheduler

/-- Every tick of the service is alive. -/
def EveryTickAlive (scheduler : JobStore.Scheduler String) : Prop :=
  ∀ tick ∈ ticks, TickAlive tick scheduler

/-! ### The jobs the service starts with -/

theorem nodup_ids (now : Int) (nextRunTime : Option (Option Int)) :
    ((ticks.map fun tick => tick.addJob now nextRunTime).map AddJob.id).Nodup := by
  rw [List.map_map]
  show (ticks.map Tick.id).Nodup
  decide

/-- Each tick has its own job. -/
theorem start_ticks (boot started : Int) (nextRunTime : Option (Option Int)) :
    (start started (ticks.map fun tick => tick.addJob boot nextRunTime)).jobs =
      ticks.map fun tick => (tick.addJob boot nextRunTime).job started := by
  rw [start_jobs started _ (nodup_ids boot nextRunTime), List.map_map]
  rfl

theorem paused_runScheduler (boot started : Int) (id : String) :
    Paused id (runScheduler boot started) := by
  intro job member _
  unfold runScheduler at member
  rw [start_ticks] at member
  obtain ⟨tick, _, rfl⟩ := List.mem_map.mp member
  rfl

/-! ### Runs of the service -/

/-- In every state the service reaches after its start, none of its ticks is alive. -/
theorem ticks_never_alive (boot started : Int) (events : List Event) :
    Always step (fun scheduler => ∀ tick ∈ ticks, ¬ TickAlive tick scheduler)
      (runScheduler boot started) events := by
  have paused : Always step (fun scheduler => ∀ tick ∈ ticks, Paused tick.id scheduler)
      (runScheduler boot started) events :=
    always_invariant step
      (fun scheduler event next holds taken tick member =>
        paused_step tick.id scheduler event next (holds tick member) taken)
      fun tick _ => paused_runScheduler boot started tick.id
  exact paused.mono step fun scheduler holds tick member =>
    not_hasAlive_of_paused tick.id tick.interval scheduler (holds tick member)

/-- The service that has just started: already there the ticks are not alive. -/
theorem ticks_paused_at_start :
    ¬ Always step EveryTickAlive (runScheduler 0 0) [] := by
  intro always
  have cronTick := always.head _ ⟨"cron-tick", tickSeconds, by decide⟩ List.mem_cons_self
  exact not_hasAlive_of_paused "cron-tick" _ _ (paused_runScheduler 0 0 "cron-tick") cronTick

/-- Without the argument the same registrations keep every tick alive in every run. -/
theorem omitted_ticks_alive (boot started : Int) (events : List Event) (after : boot ≤ started) :
    Always step EveryTickAlive
      (start started (ticks.map fun tick => tick.addJob boot none)) events := by
  have preserved : ∀ scheduler event next, EveryTickAlive scheduler →
      step scheduler event = some next → EveryTickAlive next := by
    intro scheduler event next holds taken tick member
    exact alive_step tick.id tick.interval scheduler event next (holds tick member) taken
  refine always_invariant step preserved fun tick member => ?_
  refine ⟨(tick.addJob boot none).job started, ?_, rfl, rfl, _, rfl, ?_⟩
  · rw [start_ticks]
    exact List.mem_map.mpr ⟨tick, member, rfl⟩
  · refine nextFireTime_le _ started ?_
    show boot + tick.interval ≤ started + tick.interval
    omega

end LiteHorse.Scheduler
