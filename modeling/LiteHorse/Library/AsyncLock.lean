/-
This file is about the lock of an event loop: a flag, and a queue of waiters with a future
each. Releasing resolves the future of the first waiter; the flag is set again only when that
waiter takes its next step, or when a task finds the lock free with every waiter cancelled.

Two facts about the queue are fields of the lock: only the first waiter can be resolved, and
while it is, the lock is free. So a waiter that resumes always finds the lock free, whoever
was cancelled in the meantime. `HeldBy` says who owns a lock that carries no name itself.
-/

import Mathlib.Data.List.Basic
import Mathlib.Tactic.Common

namespace LiteHorse.AsyncLocks

/-- The future that a waiter awaits. -/
inductive Future where
  | pending
  | resolved
  | cancelled
  deriving DecidableEq

structure Waiter (Task : Type*) where
  task : Task
  future : Future := .pending
  /-- The task was cancelled when its future was already done. -/
  mustCancel : Bool := false

namespace Waiter

variable {Task : Type*}

/-- `set_result`, unless the future is done. -/
def resolve (waiter : Waiter Task) : Waiter Task :=
  if waiter.future = .pending then { waiter with future := .resolved } else waiter

/-- `Task.cancel`: a pending future is cancelled, a done one leaves the cancellation to the next
step of the task. -/
def cancel (waiter : Waiter Task) : Waiter Task :=
  if waiter.future = .pending then { waiter with future := .cancelled }
  else { waiter with mustCancel := true }

theorem resolved_of_done {waiter : Waiter Task} (done : waiter.future ≠ .pending)
    (notCancelled : ¬ (waiter.future = .cancelled ∨ waiter.mustCancel = true)) :
    waiter.future = .resolved := by
  cases future : waiter.future with
  | pending => exact absurd future done
  | resolved => rfl
  | cancelled => exact absurd (Or.inl future) notCancelled

theorem future_cancel_ne_resolved {waiter : Waiter Task} (notResolved : waiter.future ≠ .resolved) :
    waiter.cancel.future ≠ .resolved := by
  unfold cancel
  split
  · intro same
    cases same
  · exact notResolved

end Waiter

/-- `_wake_up_first` -/
def wakeUpFirst {Task : Type*} : List (Waiter Task) → List (Waiter Task)
  | [] => []
  | first :: rest => first.resolve :: rest

theorem tail_wakeUpFirst {Task : Type*} (waiters : List (Waiter Task)) :
    (wakeUpFirst waiters).tail = waiters.tail := by
  cases waiters <;> rfl

structure AsyncLock (Task : Type*) where
  locked : Bool
  waiters : List (Waiter Task)
  onlyFirst : ∀ waiter ∈ waiters.tail, waiter.future ≠ .resolved
  resolvedFree : ∀ waiter ∈ waiters, waiter.future = .resolved → locked = false

/-! ### Lists of waiters of which only the first is resolved -/

section Queue

variable {Task : Type*} {waiters : List (Waiter Task)}

theorem onlyFirst_append (onlyFirst : ∀ waiter ∈ waiters.tail, waiter.future ≠ .resolved)
    {new : Waiter Task} (notResolved : new.future ≠ .resolved) :
    ∀ waiter ∈ (waiters ++ [new]).tail, waiter.future ≠ .resolved := by
  cases waiters with
  | nil =>
    intro waiter member
    cases member
  | cons first rest =>
    intro waiter member
    rcases List.mem_append.mp member with earlier | last
    · exact onlyFirst waiter earlier
    · rw [List.mem_singleton.mp last]
      exact notResolved

theorem onlyFirst_map {change : Waiter Task → Waiter Task}
    (keeps : ∀ waiter, waiter.future ≠ .resolved → (change waiter).future ≠ .resolved)
    (onlyFirst : ∀ waiter ∈ waiters.tail, waiter.future ≠ .resolved) :
    ∀ waiter ∈ (waiters.map change).tail, waiter.future ≠ .resolved := by
  intro waiter member
  rw [← List.map_tail] at member
  obtain ⟨old, oldMember, rfl⟩ := List.mem_map.mp member
  exact keeps old (onlyFirst old oldMember)

theorem onlyFirst_eraseP (leaves : Waiter Task → Bool)
    (onlyFirst : ∀ waiter ∈ waiters.tail, waiter.future ≠ .resolved) :
    ∀ waiter ∈ (waiters.eraseP leaves).tail, waiter.future ≠ .resolved := by
  intro waiter member
  refine onlyFirst waiter ?_
  cases waiters with
  | nil => exact member
  | cons first rest =>
    rw [List.eraseP_cons] at member
    cases isFirst : leaves first with
    | true =>
      rw [isFirst] at member
      exact List.mem_of_mem_tail member
    | false =>
      rw [isFirst] at member
      exact List.mem_of_mem_eraseP member

/-- A resolved waiter that is found is the first, and with it every resolved waiter leaves. -/
theorem not_resolved_of_eraseP {leaves : Waiter Task → Bool}
    (onlyFirst : ∀ waiter ∈ waiters.tail, waiter.future ≠ .resolved) {found : Waiter Task}
    (isFound : waiters.find? leaves = some found) (resolved : found.future = .resolved) :
    ∀ waiter ∈ waiters.eraseP leaves, waiter.future ≠ .resolved := by
  cases waiters with
  | nil => cases isFound
  | cons first rest =>
    rw [List.find?_cons] at isFound
    rw [List.eraseP_cons]
    split at isFound
    · next isFirst =>
      rw [isFirst]
      exact onlyFirst
    · exact absurd resolved (onlyFirst found (List.mem_of_find?_eq_some isFound))

end Queue

/-! ### The operations -/

namespace AsyncLock

variable {Task : Type*}

/-- A lock that is free and has no waiters. -/
def free (Task : Type*) : AsyncLock Task where
  locked := false
  waiters := []
  onlyFirst _ member := by cases member
  resolvedFree _ member := by cases member

/-- `Lock.acquire` up to its first await: the task takes the lock, or it waits. -/
def acquire (lock : AsyncLock Task) (task : Task) : AsyncLock Task × Bool :=
  if free : lock.locked = false ∧ ∀ waiter ∈ lock.waiters, waiter.future = .cancelled then
    ({ lock with
        locked := true
        resolvedFree := fun waiter member resolved => by
          rw [free.2 waiter member] at resolved
          cases resolved }, true)
  else
    ({ lock with
        waiters := lock.waiters ++ [{ task := task }]
        onlyFirst := onlyFirst_append lock.onlyFirst (fun same => by cases same)
        resolvedFree := fun waiter member resolved => by
          rcases List.mem_append.mp member with earlier | last
          · exact lock.resolvedFree waiter earlier resolved
          · rw [List.mem_singleton.mp last] at resolved
            cases resolved }, false)

theorem acquire_taken {lock : AsyncLock Task} {task : Task}
    (taken : (lock.acquire task).2 = true) :
    lock.locked = false ∧ (lock.acquire task).1.locked = true := by
  unfold acquire at taken ⊢
  split at taken
  · next free =>
    rw [dif_pos free]
    exact ⟨free.1, rfl⟩
  · cases taken

theorem acquire_waits {lock : AsyncLock Task} {task : Task}
    (waits : (lock.acquire task).2 = false) :
    (lock.acquire task).1.locked = lock.locked := by
  unfold acquire at waits ⊢
  split at waits
  · cases waits
  · next free => rw [dif_neg free]

/-- `Lock.release` of a lock that is locked. -/
def release (lock : AsyncLock Task) : AsyncLock Task where
  locked := false
  waiters := wakeUpFirst lock.waiters
  onlyFirst := by
    rw [tail_wakeUpFirst]
    exact lock.onlyFirst
  resolvedFree _ _ _ := rfl

variable [DecidableEq Task]

/-- The task that waits is cancelled. -/
def cancel (lock : AsyncLock Task) (task : Task) : AsyncLock Task where
  locked := lock.locked
  waiters := lock.waiters.map fun waiter => if waiter.task = task then waiter.cancel else waiter
  onlyFirst := by
    refine onlyFirst_map (fun waiter notResolved => ?_) lock.onlyFirst
    split
    · exact Waiter.future_cancel_ne_resolved notResolved
    · exact notResolved
  resolvedFree waiter member resolved := by
    obtain ⟨old, oldMember, rfl⟩ := List.mem_map.mp member
    refine lock.resolvedFree old oldMember ?_
    by_contra notResolved
    split at resolved
    · exact Waiter.future_cancel_ne_resolved notResolved resolved
    · exact notResolved resolved

/-- The queue when the waiter of the task leaves it. -/
def without (lock : AsyncLock Task) (task : Task) : List (Waiter Task) :=
  lock.waiters.eraseP fun waiter => decide (waiter.task = task)

/-- `CancelledError` leaves the call: a lock that is free is left to the next waiter. -/
def giveUp (lock : AsyncLock Task) (task : Task) : AsyncLock Task where
  locked := lock.locked
  waiters := if lock.locked then lock.without task else wakeUpFirst (lock.without task)
  onlyFirst := by
    split
    · exact onlyFirst_eraseP _ lock.onlyFirst
    · rw [tail_wakeUpFirst]
      exact onlyFirst_eraseP _ lock.onlyFirst
  resolvedFree waiter member resolved := by
    split at member
    · exact lock.resolvedFree waiter (List.mem_of_mem_eraseP member) resolved
    · next isFree => exact eq_false_of_ne_true isFree

/-- The resolved waiter takes the lock. -/
def takeOver (lock : AsyncLock Task) (task : Task) {waiter : Waiter Task}
    (found : lock.waiters.find? (fun waiter => decide (waiter.task = task)) = some waiter)
    (resolved : waiter.future = .resolved) : AsyncLock Task where
  locked := true
  waiters := lock.without task
  onlyFirst := onlyFirst_eraseP _ lock.onlyFirst
  resolvedFree other member otherResolved :=
    absurd otherResolved (not_resolved_of_eraseP lock.onlyFirst found resolved other member)

/-- The waiter's future is done, and the rest of `Lock.acquire` is executed. -/
def resume (lock : AsyncLock Task) (task : Task) : Option (AsyncLock Task × Bool) :=
  match found : lock.waiters.find? fun waiter => decide (waiter.task = task) with
  | none => none
  | some waiter =>
    if pending : waiter.future = .pending then none
    else if ends : waiter.future = .cancelled ∨ waiter.mustCancel = true then
      some (lock.giveUp task, false)
    else some (lock.takeOver task found (Waiter.resolved_of_done pending ends), true)

variable {lock next : AsyncLock Task} {task : Task}

/-- A waiter that resumes takes a lock that is free. -/
theorem resume_taken (taken : lock.resume task = some (next, true)) :
    lock.locked = false ∧ next.locked = true := by
  unfold resume at taken
  split at taken
  · cases taken
  · next waiter found =>
    split at taken
    · cases taken
    · next pending =>
      split at taken
      · cases taken
      · next ends =>
        cases taken
        exact ⟨lock.resolvedFree waiter (List.mem_of_find?_eq_some found)
          (Waiter.resolved_of_done pending ends), rfl⟩

theorem resume_raises (raises : lock.resume task = some (next, false)) :
    next.locked = lock.locked := by
  unfold resume at raises
  split at raises
  · cases raises
  · split at raises
    · cases raises
    · split at raises
      · cases raises
        rfl
      · cases raises

end AsyncLock

/-! ### Who owns the lock -/

section Owner

variable {Task : Type*} {lock next : AsyncLock Task} {owns nextOwns : Task → Prop} {task : Task}

/-- The lock is locked exactly while one of the tasks owns it. -/
def HeldBy (lock : AsyncLock Task) (owns : Task → Prop) : Prop :=
  ∃ owner : Option Task, lock.locked = owner.isSome ∧ ∀ task, owns task ↔ owner = some task

theorem HeldBy.unique (held : HeldBy lock owns) {first second : Task} (ownsFirst : owns first)
    (ownsSecond : owns second) : first = second := by
  obtain ⟨owner, _, isOwner⟩ := held
  exact Option.some.inj (((isOwner first).mp ownsFirst).symm.trans ((isOwner second).mp ownsSecond))

theorem HeldBy.locked (held : HeldBy lock owns) (isOwner : owns task) : lock.locked = true := by
  obtain ⟨owner, locked, same⟩ := held
  rw [locked, (same task).mp isOwner]
  rfl

theorem HeldBy.frame (held : HeldBy lock owns) (sameLocked : next.locked = lock.locked)
    (sameOwns : ∀ other, nextOwns other ↔ owns other) : HeldBy next nextOwns := by
  obtain ⟨owner, locked, isOwner⟩ := held
  exact ⟨owner, sameLocked.trans locked, fun other => (sameOwns other).trans (isOwner other)⟩

/-- A task takes a free lock. -/
theorem HeldBy.take (held : HeldBy lock owns) (wasFree : lock.locked = false)
    (locked : next.locked = true) (newOwns : ∀ other, nextOwns other ↔ other = task ∨ owns other) :
    HeldBy next nextOwns := by
  refine ⟨some task, locked, fun other => ?_⟩
  have noOwner : ¬ owns other := fun isOwner => by
    rw [held.locked isOwner] at wasFree
    cases wasFree
  rw [newOwns other, or_iff_left noOwner, Option.some_inj]
  exact eq_comm

/-- The owner leaves a lock. -/
theorem HeldBy.leave (held : HeldBy lock owns) (owned : owns task) (free : next.locked = false)
    (newOwns : ∀ other, nextOwns other ↔ other ≠ task ∧ owns other) : HeldBy next nextOwns := by
  refine ⟨none, free, fun other => ?_⟩
  rw [newOwns other]
  refine iff_of_false (fun stays => ?_) (fun same => by cases same)
  exact stays.1 (held.unique stays.2 owned)

end Owner

end LiteHorse.AsyncLocks
