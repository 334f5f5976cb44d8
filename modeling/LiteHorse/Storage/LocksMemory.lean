/-
This file is about `InMemorySessionLock`: any number of acquirers of one key over one
`asyncio.Lock`. Two parties release that lock, the `_expire` task of a holder and the
`finally` block of the holder itself, and neither looks at who has it.

`leases_mirrored_iff` says when this does no harm: as long as nobody takes the lock while a
holder whose lease has expired is still in its body.
-/

import LiteHorse.Library.AsyncLock
import LiteHorse.Library.Runs
import Mathlib.Logic.Function.Basic

namespace LiteHorse.Storage.LocksMemory

open AsyncLocks Runs

/-- Where an acquirer stands in `_acquire`. -/
inductive Phase where
  | idle
  /-- `lock.acquire` awaits its turn. -/
  | waiting
  | acquired
  /-- In the body of the `async with`, while `_expire` sleeps or after it has run. -/
  | inBody (expired : Bool)
  | left
  deriving DecidableEq

structure MemoryLockState where
  lock : AsyncLock Nat := AsyncLock.free Nat
  phase : Nat → Phase := fun _ => .idle

inductive MemoryLockEvent where
  | start (index : Nat)
  /-- `wait` has elapsed, or the task is cancelled, while it waits for its turn. -/
  | cancel (index : Nat)
  | resumes (index : Nat)
  | entersBody (index : Nat)
  /-- `ttl` has elapsed: the rest of `_expire` is executed. -/
  | expire (index : Nat)
  /-- The body ends in any way: the `finally` block is executed. -/
  | exitsBody (index : Nat)

namespace MemoryLockState

def moveTo (state : MemoryLockState) (index : Nat) (phase : Phase) : MemoryLockState :=
  { state with phase := Function.update state.phase index phase }

/-- `if lock.locked(): lock.release()` -/
def releaseIfLocked (state : MemoryLockState) : MemoryLockState :=
  if state.lock.locked then { state with lock := state.lock.release } else state

end MemoryLockState

def memoryLockStep (state : MemoryLockState) : MemoryLockEvent → Option MemoryLockState
  | .start index =>
    if state.phase index = .idle then
      some ({ state with lock := (state.lock.acquire index).1 }.moveTo index
        (if (state.lock.acquire index).2 then .acquired else .waiting))
    else none
  | .cancel index =>
    if state.phase index = .waiting then some { state with lock := state.lock.cancel index }
    else none
  | .resumes index =>
    if state.phase index = .waiting then
      (state.lock.resume index).map fun (lock, taken) =>
        { state with lock := lock }.moveTo index (if taken then .acquired else .left)
    else none
  | .entersBody index =>
    if state.phase index = .acquired then some (state.moveTo index (.inBody false)) else none
  | .expire index =>
    if state.phase index = .inBody false then
      some (state.releaseIfLocked.moveTo index (.inBody true))
    else none
  | .exitsBody index =>
    match state.phase index with
    | .inBody _ => some (state.releaseIfLocked.moveTo index .left)
    | _ => none

/-- One task at most is in the body with an unexpired lease, and a holder whose lease has
expired leaves the lock as it is when it leaves the body. -/
def LeasesMirrored (state : MemoryLockState) : Prop :=
  (∀ first second, state.phase first = .inBody false → state.phase second = .inBody false →
    first = second) ∧
  ∀ index next, state.phase index = .inBody true →
    memoryLockStep state (.exitsBody index) = some next → next.lock.locked = state.lock.locked

/-- The task takes the lock in this step. -/
def TakesLock (state : MemoryLockState) : MemoryLockEvent → Prop
  | .start index => state.phase index = .idle ∧ (state.lock.acquire index).2 = true
  | .resumes index => state.phase index = .waiting ∧
      ∃ lock, state.lock.resume index = some (lock, true)
  | .cancel _ | .entersBody _ | .expire _ | .exitsBody _ => False

/-- A task takes the lock while a holder whose lease has expired is in its body. -/
def TakesUnderExpired (state : MemoryLockState) (event : MemoryLockEvent) : Prop :=
  TakesLock state event ∧ ∃ index, state.phase index = .inBody true

/-! ### What one step keeps -/

/-- The lock is the acquirer's: it was taken, and neither party has released it. -/
def Phase.owns : Phase → Bool
  | .acquired | .inBody false => true
  | .inBody true | .idle | .waiting | .left => false

structure MemoryLockInvariant (state : MemoryLockState) : Prop where
  held : HeldBy state.lock fun index => (state.phase index).owns = true
  expiredFree : ∀ index, state.phase index = .inBody true → state.lock.locked = false

section Steps

variable {state next : MemoryLockState} {index : Nat} {phase : Phase}

theorem phase_moveTo (state : MemoryLockState) (index other : Nat) (phase : Phase) :
    (state.moveTo index phase).phase other = if other = index then phase else state.phase other :=
  Function.update_apply _ _ _ _

theorem owns_moveTo (state : MemoryLockState) (other : Nat) :
    ((state.moveTo index phase).phase other).owns =
      if other = index then phase.owns else (state.phase other).owns := by
  rw [phase_moveTo]
  exact apply_ite Phase.owns _ _ _

/-- A move between two phases of which both own the lock or neither. -/
theorem owns_moveTo_same (same : phase.owns = (state.phase index).owns) (other : Nat) :
    ((state.moveTo index phase).phase other).owns = (state.phase other).owns := by
  rw [owns_moveTo]
  split
  · next isIndex => rw [isIndex, same]
  · rfl

theorem owns_moveTo_owner (owns : phase.owns = true) (other : Nat) :
    ((state.moveTo index phase).phase other).owns = true ↔
      other = index ∨ (state.phase other).owns = true := by
  rw [owns_moveTo]
  split
  · next isIndex => exact iff_of_true owns (Or.inl isIndex)
  · next notIndex => rw [or_iff_right notIndex]

theorem owns_moveTo_leaver (notOwns : phase.owns = false) (other : Nat) :
    ((state.moveTo index phase).phase other).owns = true ↔
      other ≠ index ∧ (state.phase other).owns = true := by
  rw [owns_moveTo]
  split
  · next isIndex =>
    rw [notOwns]
    exact iff_of_false Bool.false_ne_true fun stays => stays.1 isIndex
  · next notIndex => rw [and_iff_right notIndex]

/-- A move that brings nobody into an expired lease. -/
theorem expired_moveTo (notExpired : phase ≠ .inBody true) {other : Nat}
    (expired : (state.moveTo index phase).phase other = .inBody true) :
    state.phase other = .inBody true := by
  rw [phase_moveTo] at expired
  split at expired
  · exact absurd expired notExpired
  · exact expired

theorem locked_releaseIfLocked (state : MemoryLockState) :
    state.releaseIfLocked.lock.locked = false := by
  unfold MemoryLockState.releaseIfLocked
  split
  · rfl
  · next free => exact eq_false_of_ne_true free

theorem phase_releaseIfLocked (state : MemoryLockState) :
    state.releaseIfLocked.phase = state.phase := by
  unfold MemoryLockState.releaseIfLocked
  split <;> rfl

/-- A move of an acquirer that does not touch the flag or its owner. -/
theorem MemoryLockInvariant.moveTo (invariant : MemoryLockInvariant state) (lock : AsyncLock Nat)
    (sameLocked : lock.locked = state.lock.locked) (same : phase.owns = (state.phase index).owns)
    (notExpired : phase ≠ .inBody true) :
    MemoryLockInvariant ({ state with lock := lock }.moveTo index phase) where
  held := by
    refine invariant.held.frame sameLocked fun other => ?_
    exact iff_of_eq (congrArg (· = true) (owns_moveTo_same same other))
  expiredFree other expired :=
    sameLocked.trans (invariant.expiredFree other (expired_moveTo notExpired expired))

/-- A task takes the lock, and no expired holder is in its body. -/
theorem MemoryLockInvariant.take (invariant : MemoryLockInvariant state) (lock : AsyncLock Nat)
    (wasFree : state.lock.locked = false) (locked : lock.locked = true)
    (noExpired : ¬ ∃ index, state.phase index = .inBody true) :
    MemoryLockInvariant ({ state with lock := lock }.moveTo index .acquired) where
  held := invariant.held.take wasFree locked (owns_moveTo_owner rfl)
  expiredFree other expired :=
    absurd ⟨other, expired_moveTo (by decide) expired⟩ noExpired

/-- The owner releases the lock. -/
theorem MemoryLockInvariant.leave (invariant : MemoryLockInvariant state)
    (owned : (state.phase index).owns = true) (notOwns : phase.owns = false) :
    MemoryLockInvariant (state.releaseIfLocked.moveTo index phase) where
  held := by
    refine invariant.held.leave owned (locked_releaseIfLocked state) fun other => ?_
    rw [owns_moveTo_leaver notOwns, phase_releaseIfLocked]
  expiredFree _ _ := locked_releaseIfLocked state

/-- The step lemma. -/
theorem memoryLockInvariant_step (event : MemoryLockEvent) (invariant : MemoryLockInvariant state)
    (outside : ¬ TakesUnderExpired state event)
    (taken : memoryLockStep state event = some next) : MemoryLockInvariant next := by
  cases event with
  | start index =>
    rw [memoryLockStep, Option.ite_none_right_eq_some] at taken
    obtain ⟨isIdle, taken⟩ := taken
    rw [← Option.some.inj taken]
    cases takes : (state.lock.acquire index).2 with
    | true =>
      obtain ⟨wasFree, locked⟩ := AsyncLock.acquire_taken takes
      exact invariant.take _ wasFree locked fun expired => outside ⟨⟨isIdle, takes⟩, expired⟩
    | false =>
      exact invariant.moveTo _ (AsyncLock.acquire_waits takes) (by rw [isIdle]; rfl) (by decide)
  | cancel index =>
    rw [memoryLockStep, Option.ite_none_right_eq_some] at taken
    cases taken.2
    exact ⟨invariant.held.frame rfl fun _ => Iff.rfl, invariant.expiredFree⟩
  | resumes index =>
    rw [memoryLockStep, Option.ite_none_right_eq_some] at taken
    obtain ⟨waits, taken⟩ := taken
    obtain ⟨⟨lock, takes⟩, resumed, rfl⟩ := Option.map_eq_some_iff.mp taken
    cases takes with
    | true =>
      obtain ⟨wasFree, locked⟩ := AsyncLock.resume_taken resumed
      exact invariant.take lock wasFree locked fun expired =>
        outside ⟨⟨waits, lock, resumed⟩, expired⟩
    | false =>
      exact invariant.moveTo lock (AsyncLock.resume_raises resumed) (by rw [waits]; rfl)
        (by decide)
  | entersBody index =>
    rw [memoryLockStep, Option.ite_none_right_eq_some] at taken
    cases taken.2
    exact invariant.moveTo state.lock rfl (by rw [taken.1]; rfl) (by decide)
  | expire index =>
    rw [memoryLockStep, Option.ite_none_right_eq_some] at taken
    cases taken.2
    exact invariant.leave (by rw [taken.1]; rfl) rfl
  | exitsBody index =>
    simp only [memoryLockStep] at taken
    split at taken
    · next expired isInBody =>
      cases taken
      cases expired with
      | false => exact invariant.leave (by rw [isInBody]; rfl) rfl
      | true =>
        -- the lock is free, so the holder that leaves late releases nothing
        have isFree := invariant.expiredFree index isInBody
        have unchanged : state.releaseIfLocked = state := by
          rw [MemoryLockState.releaseIfLocked, isFree]
          rfl
        rw [unchanged]
        exact invariant.moveTo state.lock rfl (by rw [isInBody]; rfl) (by decide)
    · cases taken

theorem MemoryLockInvariant.leasesMirrored (invariant : MemoryLockInvariant state) :
    LeasesMirrored state := by
  refine ⟨fun first second firstInside secondInside => ?_, fun index next expired taken => ?_⟩
  · exact invariant.held.unique (by rw [firstInside]; rfl) (by rw [secondInside]; rfl)
  · simp only [memoryLockStep, expired, Option.some.injEq] at taken
    rw [← taken, invariant.expiredFree index expired]
    exact locked_releaseIfLocked state

/-- A lock that is taken under an expired holder is one that this holder releases. -/
theorem not_leasesMirrored_of_locked (locked : state.lock.locked = true)
    (expired : state.phase index = .inBody true) : ¬ LeasesMirrored state := by
  intro mirrored
  have taken : memoryLockStep state (.exitsBody index) =
      some (state.releaseIfLocked.moveTo index .left) := by
    simp only [memoryLockStep, expired]
  have same : (state.releaseIfLocked.moveTo index .left).lock.locked = state.lock.locked :=
    mirrored.2 index _ expired taken
  rw [locked] at same
  exact absurd same (ne_of_eq_of_ne (locked_releaseIfLocked state) Bool.false_ne_true)

theorem takesUnderExpired_breaks (event : MemoryLockEvent)
    (inside : TakesUnderExpired state event) :
    ∃ next, memoryLockStep state event = some next ∧ ¬ LeasesMirrored next := by
  obtain ⟨takes, holder, expired⟩ := inside
  have stays (lock : AsyncLock Nat) (index : Nat) (notExpired : state.phase index ≠ .inBody true) :
      ({ state with lock := lock }.moveTo index .acquired).phase holder = .inBody true := by
    refine (Function.update_of_ne ?_ _ _).trans expired
    rintro rfl
    exact notExpired expired
  cases event with
  | start index =>
    obtain ⟨isIdle, takes⟩ := takes
    refine ⟨{ state with lock := (state.lock.acquire index).1 }.moveTo index .acquired, ?_, ?_⟩
    · simp only [memoryLockStep, isIdle, takes, if_true]
    · exact not_leasesMirrored_of_locked (AsyncLock.acquire_taken takes).2
        (stays _ index (by rw [isIdle]; decide))
  | resumes index =>
    obtain ⟨waits, lock, resumed⟩ := takes
    refine ⟨{ state with lock := lock }.moveTo index .acquired, ?_, ?_⟩
    · simp only [memoryLockStep, waits, resumed, if_true, Option.map_some]
    · exact not_leasesMirrored_of_locked (AsyncLock.resume_taken resumed).2
        (stays _ index (by rw [waits]; decide))
  | cancel _ => exact takes.elim
  | entersBody _ => exact takes.elim
  | expire _ => exact takes.elim
  | exitsBody _ => exact takes.elim

theorem memoryLockInvariant_initial : MemoryLockInvariant {} where
  held := ⟨none, rfl, fun _ => iff_of_false Bool.false_ne_true (fun same => by cases same)⟩
  expiredFree _ expired := by cases expired

end Steps

/-- The leases are those of the Redis lock exactly in the runs in which nobody takes the lock
while a holder whose lease has expired is still in its body. -/
theorem leases_mirrored_iff (events : List MemoryLockEvent) :
    Always memoryLockStep LeasesMirrored {} events ↔
      StepsMeet memoryLockStep (fun state event => ¬ TakesUnderExpired state event) {} events := by
  have preserved : ∀ state event next, MemoryLockInvariant state →
      ¬ TakesUnderExpired state event → memoryLockStep state event = some next →
        MemoryLockInvariant next :=
    fun state event next => memoryLockInvariant_step event
  exact always_iff_of_invariant memoryLockStep preserved
    (fun state invariant => invariant.leasesMirrored)
    (fun state event _ inside => takesUnderExpired_breaks event (not_not.mp inside))
    memoryLockInvariant_initial

/-- A holder leaves its body late and releases the lock of the next one, and a third task
enters. -/
def lateExit : List MemoryLockEvent :=
  [.start 0, .entersBody 0, .expire 0, .start 1, .entersBody 1, .exitsBody 0, .start 2,
    .entersBody 2]

theorem late_exit_not_mirrored :
    ¬ ∀ events : List MemoryLockEvent, Always memoryLockStep LeasesMirrored {} events := by
  intro assumed
  have bothInside : (exec memoryLockStep {} lateExit).map
      (fun last => (last.phase 1, last.phase 2)) = some (.inBody false, .inBody false) := by
    decide
  obtain ⟨last, run, phases⟩ := Option.map_eq_some_iff.mp bothInside
  rw [Prod.mk.injEq] at phases
  have same : 1 = 2 := ((assumed lateExit).last _ run).1 1 2 phases.1 phases.2
  cases same

end LiteHorse.Storage.LocksMemory
