/-
This file models the message queue of a local deployment: an `asyncio.Queue` that any number of
calls send to and receive from, and the receipt handles of what was received and not deleted.

A `receive` that waits has a task of its own for `Queue.get` (`asyncio.wait_for`), which takes the
first message in one step; the call takes the others in a later step. `queue_kept` is about every
order of the steps. No message is lost or received twice, they are taken in the order they were
sent in, and nobody waits while a message is there. A message that was received does not come back,
whether it is deleted or not: the queue keeps no visibility timeout.
-/

import LiteHorse.Library.AsyncQueue
import LiteHorse.Library.Runs
import Mathlib.Data.Finset.Basic
import Mathlib.Logic.Function.Basic

namespace LiteHorse.Storage.QueueMemory

open AsyncLocks AsyncQueues Runs

structure QueueMessage where
  body : String
  receiptHandle : String

structure MemoryQueue where
  queue : AsyncQueue Nat QueueMessage
  inflight : Finset String

/-- Where a call of `receive` stands. -/
inductive Phase where
  | idle
  /-- The task of `Queue.get` has been made and has not taken a step. -/
  | starting (maxMessages : Int)
  /-- `Queue.get` waits. -/
  | awaiting (maxMessages : Int)
  /-- `Queue.get` has returned. -/
  | got (maxMessages : Int) (first : QueueMessage)
  | returned (maxMessages : Int) (messages : List QueueMessage)

/-- What the handles in flight depend on. -/
inductive Logged where
  | received (messages : List QueueMessage)
  | deleted (receiptHandle : String)

structure State where
  memory : MemoryQueue
  phase : Nat → Phase
  sent : List QueueMessage
  /-- The messages that were taken from the queue, each with the call it was taken for. -/
  taken : List (Nat × QueueMessage)
  log : List Logged

inductive Event where
  /-- The message has the handle that was drawn for it. -/
  | send (message : QueueMessage)
  | receive (call : Nat) (maxMessages waitSeconds : Int)
  | starts (call : Nat)
  /-- `wait_seconds` have elapsed, or the call is cancelled, before `Queue.get` has returned. -/
  | cancel (call : Nat)
  | resumes (call : Nat)
  | finishes (call : Nat)
  | delete (receiptHandle : String)

/-! ### The calls -/

/-- `get_nowait` until there are so many messages, or no more. -/
def drain : Nat → MemoryQueue → List QueueMessage × MemoryQueue
  | 0, memory => ([], memory)
  | count + 1, memory =>
    match memory.queue.getNowait with
    | none => ([], memory)
    | some (message, queue) =>
      let drained := drain count ⟨queue, insert message.receiptHandle memory.inflight⟩
      (message :: drained.1, drained.2)

namespace State

def initial : State where
  memory := ⟨.empty Nat QueueMessage, ∅⟩
  phase _ := .idle
  sent := []
  taken := []
  log := []

/-- A step of a call, which takes messages from the queue. -/
def advance (state : State) (call : Nat) (phase : Phase) (new : List QueueMessage)
    (memory : MemoryQueue) (logged : List Logged) : State where
  memory := memory
  phase := Function.update state.phase call phase
  sent := state.sent
  taken := state.taken ++ new.map (call, ·)
  log := state.log ++ logged

/-- The call is at another point, or still at the same one. -/
def withCall (state : State) (call : Nat) (phase : Phase)
    (queue : AsyncQueue Nat QueueMessage) : State :=
  state.advance call phase [] ⟨queue, state.memory.inflight⟩ []

/-- `Queue.get` takes the first message. -/
def gets (state : State) (call : Nat) (maxMessages : Int) (first : QueueMessage)
    (queue : AsyncQueue Nat QueueMessage) : State :=
  state.advance call (.got maxMessages first) [first] ⟨queue, state.memory.inflight⟩ []

/-- The call returns what it has and what it drains. -/
def returns (state : State) (call : Nat) (maxMessages : Int) (earlier : List QueueMessage)
    (drained : List QueueMessage × MemoryQueue) : State :=
  state.advance call (.returned maxMessages (earlier ++ drained.1)) drained.1 drained.2
    [.received (earlier ++ drained.1)]

end State

def receive (state : State) (call : Nat) (maxMessages waitSeconds : Int) : State :=
  if waitSeconds ≤ 0 then
    state.returns call maxMessages [] (drain maxMessages.toNat state.memory)
  else state.withCall call (.starting maxMessages) state.memory.queue

/-- The first step of the task of `Queue.get`. -/
def start (state : State) (call : Nat) (maxMessages : Int) : State :=
  match state.memory.queue.get call with
  | (some first, queue) => state.gets call maxMessages first queue
  | (none, queue) => state.withCall call (.awaiting maxMessages) queue

/-- A later step of the task of `Queue.get`. A call that is cancelled has no messages, as one whose
time is over. -/
def resumed (state : State) (call : Nat) (maxMessages : Int) :
    Resumed QueueMessage × AsyncQueue Nat QueueMessage → State
  | (.taken first, queue) => state.gets call maxMessages first queue
  | (.waits, queue) => state.withCall call (.awaiting maxMessages) queue
  | (.raised, queue) => state.withCall call (.returned maxMessages []) queue

/-- The rest of `receive` after `Queue.get`. -/
def finish (state : State) (call : Nat) (maxMessages : Int) (first : QueueMessage) : State :=
  state.returns call maxMessages [first]
    (drain (maxMessages - 1).toNat
      ⟨state.memory.queue, insert first.receiptHandle state.memory.inflight⟩)

def step (state : State) : Event → Option State
  | .send message =>
    some { state with
      memory := ⟨state.memory.queue.put message, state.memory.inflight⟩
      sent := state.sent ++ [message] }
  | .receive call maxMessages waitSeconds =>
    match state.phase call with
    | .idle => some (receive state call maxMessages waitSeconds)
    | _ => none
  | .starts call =>
    match state.phase call with
    | .starting maxMessages => some (start state call maxMessages)
    | _ => none
  | .cancel call =>
    match state.phase call with
    | .starting maxMessages =>
      some (state.withCall call (.returned maxMessages []) state.memory.queue)
    | .awaiting maxMessages =>
      some (state.withCall call (.awaiting maxMessages) (state.memory.queue.cancel call))
    | _ => none
  | .resumes call =>
    match state.phase call with
    | .awaiting maxMessages =>
      (state.memory.queue.resume call).map (resumed state call maxMessages)
    | _ => none
  | .finishes call =>
    match state.phase call with
    | .got maxMessages first => some (finish state call maxMessages first)
    | _ => none
  | .delete receiptHandle =>
    some { state with
      memory := ⟨state.memory.queue, state.memory.inflight.erase receiptHandle⟩
      log := state.log ++ [.deleted receiptHandle] }

/-! ### What is kept -/

namespace Phase

def messages : Phase → List QueueMessage
  | idle | starting _ | awaiting _ => []
  | got _ first => [first]
  | returned _ messages => messages

def isAwaiting : Phase → Bool
  | awaiting _ => true
  | idle | starting _ | got _ _ | returned _ _ => false

end Phase

def Logged.messages : Logged → List QueueMessage
  | received messages => messages
  | deleted _ => []

/-- The handle was received and has not been deleted since. -/
def IsOut (log : List Logged) (receiptHandle : String) : Prop :=
  ∃ before messages after, log = before ++ .received messages :: after ∧
    receiptHandle ∈ messages.map QueueMessage.receiptHandle ∧ .deleted receiptHandle ∉ after

/-- The messages taken for a call, in order. -/
def State.takenFor (state : State) (call : Nat) : List QueueMessage :=
  (state.taken.filter fun taken => taken.1 = call).map Prod.snd

structure Kept (state : State) : Prop where
  inOrder : state.sent = state.taken.map Prod.snd ++ state.memory.queue.items
  /-- A call has the messages that were taken for it, and returns them. -/
  calls : ∀ call, (state.phase call).messages = state.takenFor call
  bounded : ∀ call maxMessages messages, state.phase call = .returned maxMessages messages →
    (messages.length : Int) ≤ max maxMessages 1
  inflight : ∀ receiptHandle,
    receiptHandle ∈ state.memory.inflight ↔ IsOut state.log receiptHandle
  /-- Where no call that waits can take its step, calls wait at an empty queue only. -/
  quiet : (∀ call, step state (.resumes call) = none) →
    ∀ call maxMessages, state.phase call = .awaiting maxMessages → state.memory.queue.items = []

/-! ### What is out -/

section Out

variable {log : List Logged} {receiptHandle : String}

/-- The last entry is the one that received the handle, or it has not deleted it. -/
theorem isOut_concat (last : Logged) :
    IsOut (log ++ [last]) receiptHandle ↔
      receiptHandle ∈ last.messages.map QueueMessage.receiptHandle ∨
        IsOut log receiptHandle ∧ last ≠ .deleted receiptHandle := by
  constructor
  · rintro ⟨before, messages, after, same, member, notDeleted⟩
    rcases List.eq_nil_or_concat after with rfl | ⟨front, final, rfl⟩
    · cases (List.append_inj' same rfl).2
      exact Or.inl member
    · rw [List.concat_eq_append] at same notDeleted
      rw [← List.cons_append, ← List.append_assoc] at same
      obtain ⟨sameLog, sameLast⟩ := List.append_inj' same rfl
      cases sameLast
      have notInFront : .deleted receiptHandle ∉ front :=
        fun inFront => notDeleted (List.mem_append_left _ inFront)
      refine Or.inr ⟨⟨before, messages, front, sameLog, member, notInFront⟩, ?_⟩
      rintro rfl
      exact notDeleted (List.mem_append_right _ List.mem_cons_self)
  · rintro (member | ⟨⟨before, messages, after, rfl, member, notDeleted⟩, notLast⟩)
    · cases last with
      | received messages => exact ⟨log, messages, [], rfl, member, List.not_mem_nil⟩
      | deleted other => cases member
    · refine ⟨before, messages, after ++ [last], ?_, member, fun isDeleted => ?_⟩
      · rw [List.append_assoc, List.cons_append]
      · rcases List.mem_append.mp isDeleted with inAfter | isLast
        · exact notDeleted inAfter
        · exact notLast (List.mem_singleton.mp isLast).symm

theorem isOut_received (messages : List QueueMessage) :
    IsOut (log ++ [.received messages]) receiptHandle ↔
      IsOut log receiptHandle ∨ receiptHandle ∈ messages.map QueueMessage.receiptHandle := by
  have notDeleted : Logged.received messages ≠ .deleted receiptHandle :=
    fun same => (by cases same)
  rw [isOut_concat, and_iff_left notDeleted]
  exact or_comm

theorem isOut_deleted (other : String) :
    IsOut (log ++ [.deleted other]) receiptHandle ↔
      receiptHandle ≠ other ∧ IsOut log receiptHandle := by
  have noMessages :
      receiptHandle ∉ (Logged.deleted other).messages.map QueueMessage.receiptHandle :=
    List.not_mem_nil
  rw [isOut_concat, or_iff_right noMessages, and_comm]
  refine and_congr_left fun _ => not_congr ?_
  rw [Logged.deleted.injEq]
  exact eq_comm

end Out

/-! ### What is drained -/

/-- Messages are taken from the front of the queue, and their handles are in flight. -/
structure Drains (memory : MemoryQueue) (drained : List QueueMessage × MemoryQueue) : Prop where
  items : memory.queue.items = drained.1 ++ drained.2.queue.items
  inflight : ∀ receiptHandle, receiptHandle ∈ drained.2.inflight ↔
    receiptHandle ∈ memory.inflight ∨ receiptHandle ∈ drained.1.map QueueMessage.receiptHandle
  tasks : drained.2.queue.tasks = memory.queue.tasks

theorem Drains.nothing (memory : MemoryQueue) : Drains memory ([], memory) where
  items := rfl
  inflight _ := (or_iff_left List.not_mem_nil).symm
  tasks := rfl

theorem drains_drain (count : Nat) (memory : MemoryQueue) : Drains memory (drain count memory) := by
  induction count generalizing memory with
  | zero => exact Drains.nothing memory
  | succ count inductionHypothesis =>
    unfold drain
    cases taken : memory.queue.getNowait with
    | none => exact Drains.nothing memory
    | some front =>
      obtain ⟨first, queue⟩ := front
      have drains := inductionHypothesis ⟨queue, insert first.receiptHandle memory.inflight⟩
      refine ⟨?_, fun receiptHandle => ?_, ?_⟩
      · rw [AsyncQueue.items_of_getNowait taken]
        exact congrArg (first :: ·) drains.items
      · dsimp only
        rw [drains.inflight, Finset.mem_insert, List.map_cons, List.mem_cons]
        exact or_assoc.trans or_left_comm
      · exact drains.tasks.trans (AsyncQueue.tasks_of_getNowait taken)

theorem length_drain_le (count : Nat) (memory : MemoryQueue) :
    (drain count memory).1.length ≤ count := by
  induction count generalizing memory with
  | zero => exact Nat.le_refl 0
  | succ count inductionHypothesis =>
    unfold drain
    split
    · exact Nat.zero_le _
    · exact Nat.succ_le_succ (inductionHypothesis _)

/-! ### What a step keeps -/

/-- The record of a run, and the calls that wait, fit the queue. -/
structure Invariant (state : State) : Prop where
  inOrder : state.sent = state.taken.map Prod.snd ++ state.memory.queue.items
  calls : ∀ call, (state.phase call).messages = state.takenFor call
  bounded : ∀ call maxMessages messages, state.phase call = .returned maxMessages messages →
    (messages.length : Int) ≤ max maxMessages 1
  inflight : ∀ receiptHandle,
    receiptHandle ∈ state.memory.inflight ↔ IsOut state.log receiptHandle
  distinct : state.memory.queue.tasks.Nodup
  awaiting : ∀ call, (state.phase call).isAwaiting = true ↔ call ∈ state.memory.queue.tasks

section Steps

variable {state next : State} {call : Nat} {maxMessages : Int} {phase : Phase}
  {new : List QueueMessage} {memory : MemoryQueue} {logged : List Logged}
  {queue : AsyncQueue Nat QueueMessage}

theorem takenFor_advance (other : Nat) :
    (state.advance call phase new memory logged).takenFor other =
      state.takenFor other ++ if other = call then new else [] := by
  unfold State.takenFor State.advance
  dsimp only
  rw [List.filter_append, List.map_append]
  congr 1
  rw [List.filter_map, List.map_map]
  split
  next same =>
    have all : new.filter ((fun taken : Nat × QueueMessage => taken.1 = call) ∘ (call, ·)) = new :=
      List.filter_eq_self.mpr fun _ _ => decide_eq_true rfl
    rw [same, all]
    exact List.map_id new
  next notSame =>
    rw [List.filter_eq_nil_iff.mpr fun _ _ isSame => notSame (of_decide_eq_true isSame).symm]
    rfl

/-- A step of a call keeps the invariant if the messages it takes are the first of the queue, and
what it has afterwards is what it had and these. -/
theorem Invariant.advance (invariant : Invariant state)
    (items : state.memory.queue.items = new ++ memory.queue.items)
    (messages : phase.messages = (state.phase call).messages ++ new)
    (bounded : ∀ maxMessages messages, phase = .returned maxMessages messages →
      (messages.length : Int) ≤ max maxMessages 1)
    (inflight : ∀ receiptHandle,
      receiptHandle ∈ memory.inflight ↔ IsOut (state.log ++ logged) receiptHandle)
    (distinct : memory.queue.tasks.Nodup)
    (awaiting : phase.isAwaiting = true ↔ call ∈ memory.queue.tasks)
    (others : ∀ other, other ≠ call →
      (other ∈ memory.queue.tasks ↔ other ∈ state.memory.queue.tasks)) :
    Invariant (state.advance call phase new memory logged) where
  inOrder := by
    show state.sent = (state.taken ++ new.map (call, ·)).map Prod.snd ++ memory.queue.items
    have sameNew : (new.map (call, ·)).map Prod.snd = new := by
      rw [List.map_map]
      exact List.map_id new
    rw [List.map_append, sameNew, List.append_assoc, ← items]
    exact invariant.inOrder
  calls other := by
    show (Function.update state.phase call phase other).messages = _
    rw [takenFor_advance, Function.update_apply, ← invariant.calls]
    by_cases same : other = call
    · rw [if_pos same, if_pos same, same]
      exact messages
    · rw [if_neg same, if_neg same, List.append_nil]
  bounded other otherMax otherMessages isReturned := by
    change Function.update state.phase call phase other = _ at isReturned
    rw [Function.update_apply] at isReturned
    split at isReturned
    · exact bounded otherMax otherMessages isReturned
    · exact invariant.bounded other otherMax otherMessages isReturned
  inflight := inflight
  distinct := distinct
  awaiting other := by
    show (Function.update state.phase call phase other).isAwaiting = true ↔
      other ∈ memory.queue.tasks
    rw [Function.update_apply]
    by_cases same : other = call
    · rw [if_pos same, same]
      exact awaiting
    · rw [if_neg same, others other same]
      exact invariant.awaiting other

/-- A step that only changes who waits. -/
theorem Invariant.withCall (invariant : Invariant state)
    (items : queue.items = state.memory.queue.items)
    (messages : phase.messages = (state.phase call).messages)
    (bounded : ∀ maxMessages messages, phase = .returned maxMessages messages →
      (messages.length : Int) ≤ max maxMessages 1)
    (distinct : queue.tasks.Nodup)
    (awaiting : phase.isAwaiting = true ↔ call ∈ queue.tasks)
    (others : ∀ other, other ≠ call →
      (other ∈ queue.tasks ↔ other ∈ state.memory.queue.tasks)) :
    Invariant (state.withCall call phase queue) := by
  refine invariant.advance items.symm ?_ bounded (fun receiptHandle => ?_) distinct awaiting others
  · rw [messages, List.append_nil]
  · rw [List.append_nil]
    exact invariant.inflight receiptHandle

theorem length_nil_le (maxMessages otherMax : Int) (messages : List QueueMessage)
    (isReturned : Phase.returned maxMessages [] = .returned otherMax messages) :
    (messages.length : Int) ≤ max otherMax 1 := by
  cases isReturned
  show (0 : Int) ≤ max maxMessages 1
  omega

/-- `Queue.get` has taken the first message, for a call that waited or was about to. -/
theorem Invariant.gets {first : QueueMessage} (invariant : Invariant state)
    (noMessages : (state.phase call).messages = [])
    (items : state.memory.queue.items = first :: queue.items) (distinct : queue.tasks.Nodup)
    (left : call ∉ queue.tasks)
    (others : ∀ other, other ≠ call →
      (other ∈ queue.tasks ↔ other ∈ state.memory.queue.tasks)) :
    Invariant (state.gets call maxMessages first queue) := by
  refine invariant.advance items ?_ (fun _ _ same => (by cases same)) (fun receiptHandle => ?_)
    distinct (iff_of_false Bool.false_ne_true left) others
  · rw [noMessages]
    rfl
  · rw [List.append_nil]
    exact invariant.inflight receiptHandle

/-- A call that does not wait returns what it has and what it drains. -/
theorem Invariant.returns {earlier : List QueueMessage} (invariant : Invariant state)
    (count : Nat) (queued : memory.queue = state.memory.queue)
    (inflight : ∀ receiptHandle, receiptHandle ∈ memory.inflight ↔
      receiptHandle ∈ earlier.map QueueMessage.receiptHandle ∨
        receiptHandle ∈ state.memory.inflight)
    (has : (state.phase call).messages = earlier)
    (notAwaiting : (state.phase call).isAwaiting = false)
    (bounded : (earlier.length : Int) + count ≤ max maxMessages 1) :
    Invariant (state.returns call maxMessages earlier (drain count memory)) := by
  have drains := drains_drain count memory
  have tasks := drains.tasks.trans (congrArg AsyncQueue.tasks queued)
  have notMember : call ∉ state.memory.queue.tasks := by
    rw [← invariant.awaiting, notAwaiting]
    exact Bool.false_ne_true
  refine invariant.advance ?_ ?_ ?_ (fun receiptHandle => ?_) ?_ ?_ fun other _ => ?_
  · rw [← queued]
    exact drains.items
  · rw [has]
    rfl
  · rintro otherMax messages same
    cases same
    have short := length_drain_le count memory
    rw [List.length_append]
    omega
  · rw [drains.inflight, inflight, isOut_received, ← invariant.inflight, List.map_append,
      List.mem_append]
    exact or_assoc.trans or_left_comm
  · rw [tasks]
    exact invariant.distinct
  · rw [tasks]
    exact iff_of_false Bool.false_ne_true notMember
  · rw [tasks]

theorem Invariant.receive (invariant : Invariant state) (isIdle : state.phase call = .idle)
    (maxMessages waitSeconds : Int) : Invariant (receive state call maxMessages waitSeconds) := by
  have noMessages : (state.phase call).messages = [] := congrArg Phase.messages isIdle
  have notAwaiting : (state.phase call).isAwaiting = false := congrArg Phase.isAwaiting isIdle
  unfold QueueMemory.receive
  split
  next =>
    refine invariant.returns _ rfl (fun _ => ?_) noMessages notAwaiting ?_
    · exact (or_iff_right List.not_mem_nil).symm
    · rw [List.length_nil]
      omega
  next =>
    refine invariant.withCall rfl noMessages.symm (fun _ _ same => (by cases same))
      invariant.distinct ?_ fun _ _ => Iff.rfl
    rw [← invariant.awaiting, notAwaiting]
    rfl

theorem Invariant.start (invariant : Invariant state)
    (isStarting : state.phase call = .starting maxMessages) :
    Invariant (start state call maxMessages) := by
  have noMessages : (state.phase call).messages = [] := congrArg Phase.messages isStarting
  have notMember : call ∉ state.memory.queue.tasks := by
    rw [← invariant.awaiting, isStarting]
    exact Bool.false_ne_true
  unfold QueueMemory.start AsyncQueue.get
  cases taken : state.memory.queue.getNowait with
  | some front =>
    obtain ⟨first, queue⟩ := front
    have tasks := AsyncQueue.tasks_of_getNowait taken
    refine invariant.gets noMessages (AsyncQueue.items_of_getNowait taken) ?_ ?_ fun other _ => ?_
    · exact tasks ▸ invariant.distinct
    · exact tasks ▸ notMember
    · rw [tasks]
  | none =>
    have tasks := AsyncQueue.tasks_await state.memory.queue call
    refine invariant.withCall (AsyncQueue.items_of_getNowait_none taken).symm noMessages.symm
      (fun _ _ same => (by cases same)) ?_ ?_ fun other notSame => ?_
    · rw [tasks, List.nodup_append_comm, List.singleton_append, List.nodup_cons]
      exact ⟨notMember, invariant.distinct⟩
    · rw [tasks]
      exact iff_of_true rfl (List.mem_append_right _ List.mem_cons_self)
    · rw [tasks, List.mem_append, List.mem_singleton, or_iff_left notSame]

theorem Invariant.resumed (invariant : Invariant state)
    (isAwaiting : state.phase call = .awaiting maxMessages)
    {step : Resumed QueueMessage × AsyncQueue Nat QueueMessage}
    (stepped : state.memory.queue.resume call = some step) :
    Invariant (resumed state call maxMessages step) := by
  obtain ⟨outcome, queue⟩ := step
  have noMessages : (state.phase call).messages = [] := congrArg Phase.messages isAwaiting
  have erased : (state.memory.queue.tasks.erase call).Nodup := invariant.distinct.erase call
  have left : call ∉ state.memory.queue.tasks.erase call := invariant.distinct.not_mem_erase
  have others : ∀ other, other ≠ call →
      (other ∈ state.memory.queue.tasks.erase call ↔ other ∈ state.memory.queue.tasks) :=
    fun other notSame => List.mem_erase_of_ne notSame
  rcases AsyncQueue.tasks_of_resume stepped with ⟨rfl, tasks⟩ | ⟨notWaits, tasks⟩
  · rcases AsyncQueue.items_of_resume stepped with ⟨item, same, _⟩ | ⟨_, items⟩
    · cases same
    · refine invariant.withCall items noMessages.symm (fun _ _ same => (by cases same)) ?_ ?_
        fun other notSame => ?_
      · rw [tasks, List.nodup_append_comm, List.singleton_append, List.nodup_cons]
        exact ⟨left, erased⟩
      · rw [tasks]
        exact iff_of_true rfl (List.mem_append_right _ List.mem_cons_self)
      · rw [tasks, List.mem_append, List.mem_singleton, or_iff_left notSame]
        exact others other notSame
  · rw [← tasks] at erased left others
    rcases AsyncQueue.items_of_resume stepped with ⟨first, rfl, items⟩ | ⟨notTaken, items⟩
    · exact invariant.gets noMessages items erased left others
    · cases outcome with
      | taken first => exact absurd rfl (notTaken first)
      | waits => exact absurd rfl notWaits
      | raised =>
        exact invariant.withCall items noMessages.symm (length_nil_le maxMessages) erased
          (iff_of_false Bool.false_ne_true left) others

theorem Invariant.finish {first : QueueMessage} (invariant : Invariant state)
    (hasFirst : state.phase call = .got maxMessages first) :
    Invariant (finish state call maxMessages first) := by
  refine invariant.returns _ rfl (fun receiptHandle => ?_) (congrArg Phase.messages hasFirst)
    (congrArg Phase.isAwaiting hasFirst) ?_
  · rw [List.map_singleton, List.mem_singleton]
    exact Finset.mem_insert
  · rw [List.length_singleton]
    omega

theorem Invariant.cancel_starting (invariant : Invariant state)
    (isStarting : state.phase call = .starting maxMessages) :
    Invariant (state.withCall call (.returned maxMessages []) state.memory.queue) := by
  have noMessages : (state.phase call).messages = [] := congrArg Phase.messages isStarting
  refine invariant.withCall rfl noMessages.symm (length_nil_le maxMessages) invariant.distinct ?_
    fun _ _ => Iff.rfl
  rw [← invariant.awaiting, isStarting]
  rfl

theorem Invariant.cancel_awaiting (invariant : Invariant state)
    (isAwaiting : state.phase call = .awaiting maxMessages) :
    Invariant (state.withCall call (.awaiting maxMessages) (state.memory.queue.cancel call)) := by
  have noMessages : (state.phase call).messages = [] := congrArg Phase.messages isAwaiting
  have tasks := AsyncQueue.tasks_cancel state.memory.queue call
  refine invariant.withCall rfl noMessages.symm (fun _ _ same => (by cases same)) ?_ ?_
    fun other _ => ?_
  · exact tasks ▸ invariant.distinct
  · rw [tasks, ← invariant.awaiting, isAwaiting]
  · rw [tasks]

theorem Invariant.send (invariant : Invariant state) (message : QueueMessage)
    (taken : step state (.send message) = some next) : Invariant next := by
  cases taken
  have tasks := AsyncQueue.tasks_put state.memory.queue message
  refine ⟨?_, invariant.calls, invariant.bounded, invariant.inflight, ?_, fun call => ?_⟩
  · show state.sent ++ [message] =
      state.taken.map Prod.snd ++ (state.memory.queue.items ++ [message])
    rw [invariant.inOrder, List.append_assoc]
  · exact tasks ▸ invariant.distinct
  · exact tasks ▸ invariant.awaiting call

theorem Invariant.delete (invariant : Invariant state) (receiptHandle : String)
    (taken : step state (.delete receiptHandle) = some next) : Invariant next := by
  cases taken
  refine ⟨invariant.inOrder, invariant.calls, invariant.bounded, fun other => ?_,
    invariant.distinct, invariant.awaiting⟩
  refine Finset.mem_erase.trans (Iff.trans ?_ (isOut_deleted receiptHandle).symm)
  exact and_congr_right fun _ => invariant.inflight other

theorem invariant_step (event : Event) (invariant : Invariant state)
    (taken : step state event = some next) : Invariant next := by
  cases event with
  | send message => exact invariant.send message taken
  | delete receiptHandle => exact invariant.delete receiptHandle taken
  | receive call maxMessages waitSeconds =>
    unfold step at taken
    dsimp only at taken
    split at taken
    next isIdle =>
      cases taken
      exact invariant.receive isIdle maxMessages waitSeconds
    next => cases taken
  | starts call =>
    unfold step at taken
    dsimp only at taken
    split at taken
    next isStarting =>
      cases taken
      exact invariant.start isStarting
    next => cases taken
  | cancel call =>
    unfold step at taken
    dsimp only at taken
    split at taken
    next isStarting =>
      cases taken
      exact invariant.cancel_starting isStarting
    next isAwaiting =>
      cases taken
      exact invariant.cancel_awaiting isAwaiting
    next => cases taken
  | resumes call =>
    unfold step at taken
    dsimp only at taken
    split at taken
    next isAwaiting =>
      obtain ⟨outcome, stepped, rfl⟩ := Option.map_eq_some_iff.mp taken
      exact invariant.resumed isAwaiting stepped
    next => cases taken
  | finishes call =>
    unfold step at taken
    dsimp only at taken
    split at taken
    next hasFirst =>
      cases taken
      exact invariant.finish hasFirst
    next => cases taken

theorem phase_of_isAwaiting (isAwaiting : phase.isAwaiting = true) :
    ∃ maxMessages, phase = .awaiting maxMessages := by
  cases phase with
  | awaiting maxMessages => exact ⟨maxMessages, rfl⟩
  | idle => cases isAwaiting
  | starting maxMessages => cases isAwaiting
  | got maxMessages first => cases isAwaiting
  | returned maxMessages messages => cases isAwaiting

theorem Invariant.kept (invariant : Invariant state) : Kept state where
  inOrder := invariant.inOrder
  calls := invariant.calls
  bounded := invariant.bounded
  inflight := invariant.inflight
  quiet stuck call maxMessages isAwaiting := by
    have nobody : ∀ other, state.memory.queue.resume other = none := by
      intro other
      by_contra steps
      obtain ⟨⟨outcome, queue⟩, stepped⟩ := Option.ne_none_iff_exists'.mp steps
      have member := AsyncQueue.mem_tasks_of_resume stepped
      obtain ⟨otherMax, isWaiting⟩ :=
        phase_of_isAwaiting ((invariant.awaiting other).mpr member)
      have noStep := stuck other
      unfold step at noStep
      dsimp only at noStep
      rw [isWaiting, stepped] at noStep
      cases noStep
    refine AsyncQueue.items_of_stuck invariant.distinct nobody ((invariant.awaiting call).mp ?_)
    exact congrArg Phase.isAwaiting isAwaiting

theorem invariant_initial : Invariant State.initial where
  inOrder := rfl
  calls _ := rfl
  bounded _ _ _ isReturned := by cases isReturned
  inflight receiptHandle := by
    refine iff_of_false (Finset.notMem_empty _) ?_
    rintro ⟨before, messages, after, same, _⟩
    cases before with
    | nil => cases same
    | cons first rest => cases same
  distinct := List.nodup_nil
  awaiting _ := iff_of_false Bool.false_ne_true List.not_mem_nil

end Steps

/-- However the steps are interleaved: the messages sent are those taken, in that order, and those
still there, each taken for one call, which returns it; the handles in flight are those received
and not deleted since; no call returns more messages than it asked for, but for a first one; and
where no call that waits can take its step, calls wait at an empty queue only. -/
theorem queue_kept (events : List Event) : Always step Kept State.initial events :=
  (always_invariant step (fun _ event _ invariant taken => invariant_step event invariant taken)
    invariant_initial).mono step fun _ invariant => invariant.kept

end LiteHorse.Storage.QueueMemory
