/-
This file is about the trigger of a crontab expression: a set of times, its boundaries, and
the search for the first of them from a time on. `getNextFireTime` is what a scheduler asks
it, with the previous fire time when there is one.

The file says when the answer is not after now, with a previous fire time
(`nextFireTime_le_of_previous`) and without one (`nextFireTime_le_of_none`): the first asks
for a boundary since the previous fire, the second for a boundary at this very microsecond.

Times are in microseconds.
-/

import Mathlib.Tactic.Linarith
import Mathlib.Order.Lattice

namespace LiteHorse.Cron

/-- A minute. -/
def minute : Int := 60000000

/-- A five-field crontab expression: its boundaries are whole minutes, and `firstFrom` finds
the first one at or after a time, if there is one. -/
structure CronTrigger where
  Boundary : Int → Prop
  firstFrom : Int → Option Int
  whole : ∀ time, Boundary time → minute ∣ time
  found : ∀ start time, firstFrom start = some time →
    Boundary time ∧ start ≤ time ∧ ∀ other, Boundary other → start ≤ other → time ≤ other
  exhausted : ∀ start, firstFrom start = none → ∀ other, Boundary other → other < start

/-- The next fire time: the search starts just after the previous one, or at now if that is
earlier, and without a previous one it starts at now. -/
def CronTrigger.getNextFireTime (trigger : CronTrigger) (previous : Option Int) (now : Int) :
    Option Int :=
  match previous with
  | some previous => trigger.firstFrom (min now (previous + 1))
  | none => trigger.firstFrom now

variable (trigger : CronTrigger)

/-- The first boundary from a time on is not after now exactly when there is a boundary
between the two. -/
theorem firstFrom_le_iff (start now : Int) :
    (∃ next, trigger.firstFrom start = some next ∧ next ≤ now) ↔
      ∃ boundary, trigger.Boundary boundary ∧ start ≤ boundary ∧ boundary ≤ now := by
  constructor
  · rintro ⟨next, isFirst, le⟩
    obtain ⟨isBoundary, after, _⟩ := trigger.found start next isFirst
    exact ⟨next, isBoundary, after, le⟩
  · rintro ⟨boundary, isBoundary, after, le⟩
    cases isFirst : trigger.firstFrom start with
    | none => exact absurd (trigger.exhausted start isFirst boundary isBoundary) (not_lt.mpr after)
    | some next =>
      exact ⟨next, rfl, ((trigger.found start next isFirst).2.2 boundary isBoundary after).trans le⟩

/-- Without a previous fire, the next one is not after now exactly when now is a boundary. -/
theorem nextFireTime_le_of_none (now : Int) :
    (∃ next, trigger.getNextFireTime none now = some next ∧ next ≤ now) ↔
      trigger.Boundary now := by
  show (∃ next, trigger.firstFrom now = some next ∧ next ≤ now) ↔ _
  rw [firstFrom_le_iff]
  constructor
  · rintro ⟨boundary, isBoundary, after, le⟩
    rw [le_antisymm after le]
    exact isBoundary
  · exact fun isBoundary => ⟨now, isBoundary, le_refl now, le_refl now⟩

/-- With an earlier previous fire, the next one is not after now exactly when a boundary has
passed since. -/
theorem nextFireTime_le_of_previous (previous now : Int) (earlier : previous < now) :
    (∃ next, trigger.getNextFireTime (some previous) now = some next ∧ next ≤ now) ↔
      ∃ boundary, trigger.Boundary boundary ∧ previous < boundary ∧ boundary ≤ now := by
  show (∃ next, trigger.firstFrom (min now (previous + 1)) = some next ∧ next ≤ now) ↔ _
  rw [firstFrom_le_iff, min_eq_right (by omega : previous + 1 ≤ now)]
  rfl

/-- With the previous fire at this very time, the next one is not after now exactly when now
is a boundary. -/
theorem nextFireTime_le_of_same (now : Int) :
    (∃ next, trigger.getNextFireTime (some now) now = some next ∧ next ≤ now) ↔
      trigger.Boundary now := by
  have start : min now (now + 1) = now := min_eq_left (by omega)
  have same : trigger.getNextFireTime (some now) now = trigger.getNextFireTime none now := by
    show trigger.firstFrom (min now (now + 1)) = trigger.firstFrom now
    rw [start]
  rw [same]
  exact nextFireTime_le_of_none trigger now

/-- Two boundaries are a minute apart. -/
theorem boundaries_apart (first second : Int) (isFirst : trigger.Boundary first)
    (isSecond : trigger.Boundary second) (before : first < second) : first + minute ≤ second := by
  obtain ⟨firstMinutes, rfl⟩ := trigger.whole first isFirst
  obtain ⟨secondMinutes, rfl⟩ := trigger.whole second isSecond
  unfold minute at before ⊢
  omega

/-- The trigger of `* * * * *`. -/
def everyMinute : CronTrigger where
  Boundary time := minute ∣ time
  firstFrom start := some (-(-start / minute) * minute)
  whole _ divides := divides
  found start time first := by
    cases first
    unfold minute
    refine ⟨⟨-(-start / 60000000), by omega⟩, by omega, ?_⟩
    rintro _ ⟨minutes, rfl⟩ after
    omega
  exhausted start none := by cases none

end LiteHorse.Cron
