/-
This file is about the queue of an event loop, one without a bound. A task that gets an item from
an empty queue waits, with a new future each time it does. Putting an item resolves the future of
the first waiter that is not done, and that waiter looks at the queue again when it takes its next
step: in between another task can have taken the item.

That no wake-up is lost is a field of the queue: while a waiter's future is pending, there are no
more items than waiters that are resolved and have not taken their step yet.
-/

import LiteHorse.Library.AsyncLock
import Mathlib.Data.List.Basic

namespace LiteHorse.AsyncQueues

open AsyncLocks

section Waiters

variable {Task : Type*}

def isPending (waiter : Waiter Task) : Bool := waiter.future = .pending

def isResolved (waiter : Waiter Task) : Bool := waiter.future = .resolved

/-- `_wakeup_next` -/
def wakeNext : List (Waiter Task) → List (Waiter Task)
  | [] => []
  | first :: rest =>
    if first.future = .pending then { first with future := .resolved } :: rest
    else first :: wakeNext rest

theorem wakeNext_of_noPending {waiters : List (Waiter Task)}
    (noPending : waiters.any isPending = false) :
    wakeNext waiters = waiters := by
  induction waiters with
  | nil => rfl
  | cons first rest inductionHypothesis =>
    rw [List.any_cons, Bool.or_eq_false_iff] at noPending
    unfold wakeNext
    rw [if_neg (of_decide_eq_false noPending.1), inductionHypothesis noPending.2]

/-- One more waiter is resolved if there is one to wake. -/
theorem countP_wakeNext {waiters : List (Waiter Task)}
    (somePending : waiters.any isPending = true) :
    (wakeNext waiters).countP isResolved = waiters.countP isResolved + 1 := by
  induction waiters with
  | nil => cases somePending
  | cons first rest inductionHypothesis =>
    unfold wakeNext
    split
    next pending =>
      have notResolved : isResolved first = false := by
        unfold isResolved
        rw [pending]
        rfl
      rw [List.countP_cons, List.countP_cons, notResolved]
      rfl
    next notPending =>
      rw [List.any_cons, Bool.or_eq_true] at somePending
      have inRest := somePending.resolve_left fun pending => notPending (of_decide_eq_true pending)
      rw [List.countP_cons, List.countP_cons, inductionHypothesis inRest, Nat.add_right_comm]

theorem any_of_wakeNext {waiters : List (Waiter Task)}
    (somePending : (wakeNext waiters).any isPending = true) : waiters.any isPending = true := by
  by_contra noPending
  rw [wakeNext_of_noPending (eq_false_of_ne_true noPending)] at somePending
  exact noPending somePending

theorem map_task_wakeNext (waiters : List (Waiter Task)) :
    (wakeNext waiters).map Waiter.task = waiters.map Waiter.task := by
  induction waiters with
  | nil => rfl
  | cons first rest inductionHypothesis =>
    unfold wakeNext
    split
    · rfl
    · rw [List.map_cons, List.map_cons, inductionHypothesis]

theorem task_cancel (waiter : Waiter Task) : waiter.cancel.task = waiter.task := by
  unfold Waiter.cancel
  split
  · rfl
  · rfl

theorem isPending_of_cancel {waiter : Waiter Task} (pending : isPending waiter.cancel = true) :
    isPending waiter = true := by
  unfold Waiter.cancel at pending
  split at pending
  · cases pending
  · exact pending

theorem isResolved_cancel (waiter : Waiter Task) :
    isResolved waiter.cancel = isResolved waiter := by
  unfold Waiter.cancel
  split
  next pending =>
    unfold isResolved
    rw [pending]
    rfl
  next => rfl

theorem find_eq_some_of_distinct [DecidableEq Task] {waiters : List (Waiter Task)}
    (distinct : (waiters.map Waiter.task).Nodup) {waiter : Waiter Task}
    (member : waiter ∈ waiters) :
    waiters.find? (fun other => decide (other.task = waiter.task)) = some waiter := by
  induction waiters with
  | nil => cases member
  | cons first rest inductionHypothesis =>
    rw [List.map_cons, List.nodup_cons] at distinct
    rw [List.find?_cons]
    rcases List.mem_cons.mp member with rfl | inRest
    · rw [decide_eq_true rfl]
    · have notFirst : first.task ≠ waiter.task :=
        fun same => distinct.1 (same ▸ List.mem_map_of_mem inRest)
      rw [decide_eq_false notFirst]
      exact inductionHypothesis distinct.2 inRest

/-- What leaves a list leaves its count. -/
theorem countP_eraseP_add {Item : Type*} {items : List Item} {leaves : Item → Bool} {found : Item}
    (isFound : items.find? leaves = some found) (counted : Item → Bool) :
    items.countP counted =
      (items.eraseP leaves).countP counted + if counted found then 1 else 0 := by
  induction items with
  | nil => cases isFound
  | cons first rest inductionHypothesis =>
    rw [List.find?_cons] at isFound
    rw [List.eraseP_cons]
    split at isFound
    next isFirst =>
      cases isFound
      rw [isFirst]
      exact List.countP_cons
    next notFirst =>
      rw [notFirst, cond_false, List.countP_cons, List.countP_cons, inductionHypothesis isFound]
      exact Nat.add_right_comm _ _ _

theorem any_of_eraseP {Item : Type*} {items : List Item} {leaves property : Item → Bool}
    (someLeft : (items.eraseP leaves).any property = true) : items.any property = true := by
  obtain ⟨item, member, holds⟩ := List.any_eq_true.mp someLeft
  exact List.any_eq_true.mpr ⟨item, List.mem_of_mem_eraseP member, holds⟩

end Waiters

structure AsyncQueue (Task Item : Type*) where
  items : List Item
  waiters : List (Waiter Task)
  noneMissed : waiters.any isPending = true → items.length ≤ waiters.countP isResolved

/-! ### The operations -/

/-- What a waiter does in its next step. -/
inductive Resumed (Item : Type*) where
  | taken (item : Item)
  | waits
  | raised

namespace AsyncQueue

variable {Task Item : Type*}

def empty (Task Item : Type*) : AsyncQueue Task Item where
  items := []
  waiters := []
  noneMissed _ := Nat.le_refl 0

def put (queue : AsyncQueue Task Item) (item : Item) : AsyncQueue Task Item where
  items := queue.items ++ [item]
  waiters := wakeNext queue.waiters
  noneMissed somePending := by
    rw [countP_wakeNext (any_of_wakeNext somePending), List.length_append]
    exact Nat.succ_le_succ (queue.noneMissed (any_of_wakeNext somePending))

/-- `get_nowait`; `none` when the queue is empty. -/
def getNowait (queue : AsyncQueue Task Item) : Option (Item × AsyncQueue Task Item) :=
  match items : queue.items with
  | [] => none
  | first :: rest =>
    some (first, {
      items := rest
      waiters := queue.waiters
      noneMissed := fun somePending => by
        have bound := queue.noneMissed somePending
        rw [items, List.length_cons] at bound
        exact Nat.le_of_succ_le bound })

/-- The task waits at an empty queue. -/
def await (queue : AsyncQueue Task Item) (task : Task) : AsyncQueue Task Item where
  items := []
  waiters := queue.waiters ++ [{ task := task }]
  noneMissed _ := Nat.zero_le _

/-- `Queue.get` up to its first await: the item, if the task does not wait. -/
def get (queue : AsyncQueue Task Item) (task : Task) : Option Item × AsyncQueue Task Item :=
  match queue.getNowait with
  | some (item, next) => (some item, next)
  | none => (none, queue.await task)

variable [DecidableEq Task]

/-- The task that waits is cancelled. -/
def cancel (queue : AsyncQueue Task Item) (task : Task) : AsyncQueue Task Item where
  items := queue.items
  waiters := queue.waiters.map fun waiter => if waiter.task = task then waiter.cancel else waiter
  noneMissed somePending := by
    obtain ⟨waiter, member, pending⟩ := List.any_eq_true.mp somePending
    obtain ⟨old, oldMember, rfl⟩ := List.mem_map.mp member
    have wasPending : isPending old = true := by
      split at pending
      · exact isPending_of_cancel pending
      · exact pending
    refine Nat.le_trans (queue.noneMissed (List.any_eq_true.mpr ⟨old, oldMember, wasPending⟩)) ?_
    rw [List.countP_map]
    refine Nat.le_of_eq (List.countP_congr fun waiter _ => ?_)
    show _ ↔ isResolved (if waiter.task = task then waiter.cancel else waiter) = true
    split
    · rw [isResolved_cancel]
    · rfl

/-- The waiters when that of the task leaves. -/
def without (queue : AsyncQueue Task Item) (task : Task) : List (Waiter Task) :=
  queue.waiters.eraseP fun waiter => decide (waiter.task = task)

variable (queue : AsyncQueue Task Item) {task : Task} {waiter : Waiter Task}

/-- The task takes the first item in its step. -/
def takeOver (task : Task) (first : Item) (rest : List Item) (items : queue.items = first :: rest)
    (found : queue.waiters.find? (fun waiter => decide (waiter.task = task)) = some waiter) :
    AsyncQueue Task Item where
  items := rest
  waiters := queue.without task
  noneMissed somePending := by
    have bound := queue.noneMissed (any_of_eraseP somePending)
    rw [items, countP_eraseP_add found isResolved, List.length_cons] at bound
    unfold without
    split at bound
    · exact Nat.le_of_succ_le_succ bound
    · exact Nat.le_of_succ_le bound

/-- `CancelledError` leaves the call of a waiter whose future was cancelled. -/
def giveUp (task : Task)
    (found : queue.waiters.find? (fun waiter => decide (waiter.task = task)) = some waiter)
    (cancelled : waiter.future = .cancelled) : AsyncQueue Task Item where
  items := queue.items
  waiters := queue.without task
  noneMissed somePending := by
    have bound := queue.noneMissed (any_of_eraseP somePending)
    have notResolved : isResolved waiter = false := by
      unfold isResolved
      rw [cancelled]
      rfl
    rwa [countP_eraseP_add found isResolved, notResolved, if_neg Bool.false_ne_true] at bound

/-- `CancelledError` leaves the call of a waiter that was woken: another one is. -/
def passOn (task : Task)
    (found : queue.waiters.find? (fun waiter => decide (waiter.task = task)) = some waiter) :
    AsyncQueue Task Item where
  items := queue.items
  waiters := if queue.items.isEmpty then queue.without task else wakeNext (queue.without task)
  noneMissed somePending := by
    split at somePending
    next isEmpty =>
      rw [List.isEmpty_iff.mp isEmpty]
      exact Nat.zero_le _
    next someItems =>
      have pending := any_of_wakeNext somePending
      have bound := queue.noneMissed (any_of_eraseP pending)
      rw [if_neg someItems, countP_wakeNext pending]
      rw [countP_eraseP_add found isResolved] at bound
      refine Nat.le_trans bound (Nat.add_le_add_left ?_ _)
      split
      · exact Nat.le_refl 1
      · exact Nat.zero_le 1

/-- The waiter's future is done, and the rest of `Queue.get` is executed. -/
def resume (task : Task) : Option (Resumed Item × AsyncQueue Task Item) :=
  match found : queue.waiters.find? fun waiter => decide (waiter.task = task) with
  | none => none
  | some waiter =>
    if waiter.future = .pending then none
    else if cancelled : waiter.future = .cancelled then
      some (.raised, queue.giveUp task found cancelled)
    else if waiter.mustCancel then some (.raised, queue.passOn task found)
    else
      match items : queue.items with
      | [] =>
        some (.waits, {
          items := []
          waiters := queue.without task ++ [{ task := task }]
          noneMissed := fun _ => Nat.zero_le _ })
      | first :: rest => some (.taken first, queue.takeOver task first rest items found)

/-! ### What an operation does to the items -/

variable {queue} {next : AsyncQueue Task Item} {item : Item}

omit [DecidableEq Task] in
theorem items_of_getNowait (taken : queue.getNowait = some (item, next)) :
    queue.items = item :: next.items := by
  unfold getNowait at taken
  split at taken
  next => cases taken
  next items =>
    cases taken
    exact items

omit [DecidableEq Task] in
theorem items_of_getNowait_none (isEmpty : queue.getNowait = none) : queue.items = [] := by
  unfold getNowait at isEmpty
  split at isEmpty
  next items => exact items
  next => cases isEmpty

/-- A step of a waiter takes the first item, or leaves the items as they are. -/
theorem items_of_resume {resumed : Resumed Item}
    (stepped : queue.resume task = some (resumed, next)) :
    (∃ item, resumed = .taken item ∧ queue.items = item :: next.items) ∨
      (∀ item, resumed ≠ .taken item) ∧ next.items = queue.items := by
  unfold resume at stepped
  split at stepped
  next => cases stepped
  next waiter found =>
    split at stepped
    next => cases stepped
    next =>
      split at stepped
      next =>
        cases stepped
        exact Or.inr ⟨fun item same => (by cases same), rfl⟩
      next =>
        split at stepped
        next =>
          cases stepped
          exact Or.inr ⟨fun item same => (by cases same), rfl⟩
        next =>
          split at stepped
          next isEmpty =>
            cases stepped
            exact Or.inr ⟨fun item same => (by cases same), isEmpty.symm⟩
          next items =>
            cases stepped
            exact Or.inl ⟨_, rfl, items⟩

omit [DecidableEq Task] in
/-- Where every waiter that was woken has taken its step and one still waits, nothing is there. -/
theorem items_of_awaited (waits : queue.waiters.any isPending = true)
    (stepped : queue.waiters.any isResolved = false) : queue.items = [] := by
  have bound := queue.noneMissed waits
  have noneResolved : queue.waiters.countP isResolved = 0 :=
    List.countP_eq_zero.mpr fun waiter member => List.any_eq_false.mp stepped waiter member
  rw [noneResolved] at bound
  exact List.eq_nil_of_length_eq_zero (Nat.le_zero.mp bound)

/-! ### Who waits -/

def tasks (queue : AsyncQueue Task Item) : List Task := queue.waiters.map Waiter.task

omit [DecidableEq Task] in
theorem tasks_put (queue : AsyncQueue Task Item) (item : Item) :
    (queue.put item).tasks = queue.tasks := map_task_wakeNext queue.waiters

omit [DecidableEq Task] in
theorem tasks_of_getNowait (taken : queue.getNowait = some (item, next)) :
    next.tasks = queue.tasks := by
  unfold getNowait at taken
  split at taken
  next => cases taken
  next =>
    cases taken
    rfl

omit [DecidableEq Task] in
theorem tasks_await (queue : AsyncQueue Task Item) (task : Task) :
    (queue.await task).tasks = queue.tasks ++ [task] := List.map_append

theorem tasks_cancel (queue : AsyncQueue Task Item) (task : Task) :
    (queue.cancel task).tasks = queue.tasks := by
  refine (List.map_map ..).trans (List.map_congr_left fun waiter _ => ?_)
  show (if waiter.task = task then waiter.cancel else waiter).task = waiter.task
  split
  · exact task_cancel waiter
  · rfl

theorem map_task_without (queue : AsyncQueue Task Item) (task : Task) :
    (queue.without task).map Waiter.task = queue.tasks.erase task := by
  unfold without tasks
  induction queue.waiters with
  | nil => rfl
  | cons first rest inductionHypothesis =>
    rw [List.eraseP_cons, List.map_cons, List.erase_cons]
    by_cases same : first.task = task
    · rw [decide_eq_true same, if_pos (beq_iff_eq.mpr same)]
      rfl
    · rw [decide_eq_false same, if_neg (fun isSame => same (beq_iff_eq.mp isSame)), cond_false,
        List.map_cons, inductionHypothesis]

/-- A task leaves the waiters with its step, unless it waits again. -/
theorem tasks_of_resume {resumed : Resumed Item}
    (stepped : queue.resume task = some (resumed, next)) :
    (resumed = .waits ∧ next.tasks = queue.tasks.erase task ++ [task]) ∨
      (resumed ≠ .waits ∧ next.tasks = queue.tasks.erase task) := by
  rw [← map_task_without]
  unfold resume at stepped
  split at stepped
  next => cases stepped
  next waiter found =>
    split at stepped
    next => cases stepped
    next =>
      split at stepped
      next =>
        cases stepped
        exact Or.inr ⟨fun same => (by cases same), rfl⟩
      next =>
        split at stepped
        next =>
          cases stepped
          refine Or.inr ⟨fun same => (by cases same), ?_⟩
          unfold passOn tasks
          dsimp only
          split
          · rfl
          · exact map_task_wakeNext _
        next =>
          split at stepped
          next =>
            cases stepped
            exact Or.inl ⟨rfl, List.map_append⟩
          next =>
            cases stepped
            exact Or.inr ⟨fun same => (by cases same), rfl⟩

theorem mem_tasks_of_resume {resumed : Resumed Item}
    (stepped : queue.resume task = some (resumed, next)) : task ∈ queue.tasks := by
  unfold resume at stepped
  split at stepped
  next => cases stepped
  next waiter found =>
    have isTask := List.find?_some found
    exact List.mem_map.mpr
      ⟨waiter, List.mem_of_find?_eq_some found, of_decide_eq_true isTask⟩

theorem pending_of_resume_none {waiter : Waiter Task}
    (found : queue.waiters.find? (fun other => decide (other.task = task)) = some waiter)
    (stuck : queue.resume task = none) : waiter.future = .pending := by
  unfold resume at stuck
  split at stuck
  next isNone => cases isNone.symm.trans found
  next other isFound =>
    cases isFound.symm.trans found
    split at stuck
    next pending => exact pending
    next =>
      split at stuck
      next => cases stuck
      next =>
        split at stuck
        next => cases stuck
        next =>
          split at stuck
          · cases stuck
          · cases stuck

/-- Where no waiter can take its step, tasks only wait at an empty queue. -/
theorem items_of_stuck (distinct : queue.tasks.Nodup) (stuck : ∀ task, queue.resume task = none)
    (waits : task ∈ queue.tasks) : queue.items = [] := by
  have allPending : ∀ waiter ∈ queue.waiters, waiter.future = .pending := by
    intro waiter member
    refine pending_of_resume_none ?_ (stuck waiter.task)
    refine find_eq_some_of_distinct distinct member
  obtain ⟨waiter, member, _⟩ := List.mem_map.mp waits
  refine items_of_awaited (List.any_eq_true.mpr ⟨waiter, member, ?_⟩) ?_
  · exact decide_eq_true (allPending waiter member)
  · refine List.any_eq_false.mpr fun other isOther => ?_
    unfold isResolved
    rw [allPending other isOther]
    exact Bool.false_ne_true

end AsyncQueue

end LiteHorse.AsyncQueues
