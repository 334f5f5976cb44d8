/-
This file is about aborting a streamed turn: what `TurnRegistry.abort` does to the two tasks
of `stream_turn_to_sse`, and what it does while the route still waits for the session lock.

The sentinel that ends the generator's loop is put by the runner's coroutine itself, so a task
that is cancelled before its first step leaves a generator that waits for good;
`cannot_get_stuck_iff` says that nothing else does. The handle is registered before its task
exists, and nothing reads `handle.aborted`: `abort_final` names the two situations in which an
accepted abort is not final.
-/

import LiteHorse.Web.TurnStream

namespace LiteHorse.Web.TurnStream

open Runs Channels

variable (turnId : String) (model : Option String)
  (computeCostUsdMicro : String → Int → Int → Int → Int)

/-! ### What a step of the stream can do -/

/-- What one step does to the two tasks, the queue and the records. -/
inductive StreamMoves (state : StreamState) (action : StreamAction) (next : StreamState) :
    Prop where
  /-- Items that do not end the loop are put, if any. -/
  | puts (items : List Item) (goOn : ∀ item ∈ items, item.terminates = false)
    (channel : next.channel = state.channel.send items) (runner : next.runner = state.runner)
    (generator : next.generator = state.generator) (records : next.records = state.records)
  | starts (isStart : action = .runnerStarts) (notStarted : state.runner = .notStarted)
    (runner : next.runner = if state.runnerCancelled then .finished else .running)
    (channel : next.channel = state.channel) (generator : next.generator = state.generator)
    (records : next.records = state.records)
  | exits (exit : RunnerExit) (running : state.runner = .running)
    (channel : next.channel = state.channel.send exit.items) (runner : next.runner = .finished)
    (generator : next.generator = state.generator) (records : next.records = state.records)
  | reads (item : Item) (isReading : state.generator = .reading)
    (received : state.channel.receive = some (item, next.channel))
    (runner : next.runner = state.runner)
    (generator : next.generator = if item.terminates then .awaitingBroker else .reading)
    (records : next.records = state.records ++ itemRecords model computeCostUsdMicro item)
  /-- The generator leaves its loop or moves on in its `finally` block. -/
  | leaves (left : state.generator ≠ .reading ∨ action = .generatorCancelled)
    (notReading : next.generator ≠ .reading) (channel : next.channel = state.channel)
    (runner : next.runner = state.runner)
    (records : next.records = state.records ∨
      ∃ text, next.records = state.records ++ [eventDone turnId text])

section Moves

variable {turnId model computeCostUsdMicro} {state next : StreamState} {action : StreamAction}

/-- A step that puts nothing. -/
theorem StreamMoves.rests (channel : next.channel = state.channel)
    (runner : next.runner = state.runner) (generator : next.generator = state.generator)
    (records : next.records = state.records) :
    StreamMoves turnId model computeCostUsdMicro state action next := by
  refine .puts [] (fun _ member => by cases member) ?_ runner generator records
  rw [channel]
  show _ = (⟨_, state.channel.waiting ++ []⟩ : Channel Item)
  rw [List.append_nil]

theorem moves_finish (left : state.generator ≠ .reading ∨ action = .generatorCancelled) :
    StreamMoves turnId model computeCostUsdMicro state action (state.finish turnId) :=
  .leaves left (fun same => by cases same) rfl rfl (Or.inr ⟨state.finalText, rfl⟩)

theorem moves_afterBroker (left : state.generator ≠ .reading ∨ action = .generatorCancelled) :
    StreamMoves turnId model computeCostUsdMicro state action (state.afterBroker turnId) := by
  unfold StreamState.afterBroker
  split
  · exact moves_finish left
  · exact .leaves left (fun same => by cases same) rfl rfl (Or.inl rfl)

theorem streamStep_moves (action : StreamAction)
    (taken : streamStep turnId model computeCostUsdMicro state action = some next) :
    StreamMoves turnId model computeCostUsdMicro state action next := by
  cases streamStep_cases taken with
  | runnerStarts notStarted => exact .starts rfl notStarted rfl rfl rfl rfl
  | runnerYields event =>
    refine .puts [.event event] (fun item member => ?_) rfl rfl rfl rfl
    rw [List.mem_singleton.mp member]
    rfl
  | runnerExits exit running => exact .exits exit running rfl rfl rfl rfl
  | requestDecision toolCallId tool args =>
    unfold StreamState.requestDecision
    split <;> exact .rests rfl rfl rfl rfl
  | decisionReturns toolCallId => exact .rests rfl rfl rfl rfl
  | brokerStartsCancelled => exact .rests rfl rfl rfl rfl
  | brokerStarts => exact .rests rfl rfl rfl rfl
  | brokerForwards request rest pending =>
    refine .puts [.permission request] (fun item member => ?_) rfl rfl rfl rfl
    rw [List.mem_singleton.mp member]
    rfl
  | brokerStops => exact .rests rfl rfl rfl rfl
  | abort => exact .rests rfl rfl rfl rfl
  | cancelTurn => exact .rests rfl rfl rfl rfl
  | generatorReads item channel isReading received =>
    rw [handle_eq]
    refine .reads item isReading received rfl ?_ rfl
    show (if item.terminates then _ else state.generator) = _
    rw [isReading]
  | generatorCancelled =>
    exact .leaves (Or.inr rfl) (fun same => by cases same) rfl rfl (Or.inl rfl)
  | afterBroker _ waits => exact moves_afterBroker (Or.inl (by rw [waits]; decide))
  | afterRunner _ waits => exact moves_finish (Or.inl (by rw [waits]; decide))

end Moves

/-! ### A generator that waits for good -/

/-- When the runner's task is over, a generator that is still in its loop has an item that
ends the loop to read. -/
def CannotGetStuck (state : StreamState) : Prop :=
  state.runner = .finished → state.generator = .reading → state.channel.EndWaits Item.terminates

/-- The runner's task takes its first step cancelled, with the generator in its loop. -/
def StartsCancelled (state : StreamState) (action : StreamAction) : Prop :=
  action = .runnerStarts ∧ state.runner = .notStarted ∧ state.runnerCancelled = true ∧
    state.generator = .reading

section Stuck

variable {turnId model computeCostUsdMicro} {state next : StreamState}

/-- What every run keeps that does not start a cancelled runner. -/
structure EndFollows (state : StreamState) : Prop where
  finished : CannotGetStuck state
  unfinished : state.runner ≠ .finished → ∀ item ∈ state.channel.waiting, item.terminates = false

theorem mem_waiting_send {items : List Item} {item : Item}
    (goOn : ∀ item ∈ state.channel.waiting, item.terminates = false)
    (itemsGoOn : ∀ item ∈ items, item.terminates = false)
    (member : item ∈ (state.channel.send items).waiting) : item.terminates = false := by
  rcases List.mem_append.mp member with earlier | new
  · exact goOn item earlier
  · exact itemsGoOn item new

/-- The step lemma. -/
theorem endFollows_step (action : StreamAction) (follows : EndFollows state)
    (outside : ¬ StartsCancelled state action)
    (taken : streamStep turnId model computeCostUsdMicro state action = some next) :
    EndFollows next := by
  cases streamStep_moves action taken with
  | puts items goOn channel runner generator _ =>
    refine ⟨fun finished reading => ?_, fun unfinished item member => ?_⟩
    · rw [runner] at finished
      rw [generator] at reading
      rw [channel]
      exact (follows.finished finished reading).send items
    · rw [runner] at unfinished
      rw [channel] at member
      exact mem_waiting_send (follows.unfinished unfinished) goOn member
  | starts isStart notStarted runner channel generator _ =>
    refine ⟨fun finished reading => ?_, fun _ => ?_⟩
    · cases cancelled : state.runnerCancelled with
      | true => exact absurd ⟨isStart, notStarted, cancelled, generator.symm.trans reading⟩ outside
      | false =>
        rw [runner, cancelled] at finished
        cases finished
    · rw [channel]
      exact follows.unfinished (by rw [notStarted]; decide)
  | exits exit running channel runner generator _ =>
    refine ⟨fun _ _ => ?_, fun unfinished => absurd runner unfinished⟩
    rw [channel]
    refine ⟨.sentinel, List.mem_append_right _ ?_, rfl⟩
    cases exit <;> simp [RunnerExit.items]
  | reads item isReading received runner generator _ =>
    have waits := (Channel.receive_eq_some_iff.mp received).1
    refine ⟨fun finished reading => ?_, fun unfinished other member => ?_⟩
    · rw [runner] at finished
      cases ends : item.terminates with
      | true =>
        rw [generator, ends] at reading
        cases reading
      | false => exact (follows.finished finished isReading).receive received ends
    · rw [runner] at unfinished
      refine follows.unfinished unfinished other ?_
      rw [waits]
      exact List.mem_cons_of_mem _ member
  | leaves _ notReading channel runner _ =>
    refine ⟨fun _ reading => absurd reading notReading, fun unfinished => ?_⟩
    rw [runner] at unfinished
    rw [channel]
    exact follows.unfinished unfinished

/-- A runner that is cancelled before its first step leaves the generator nothing to stop at. -/
theorem not_cannotGetStuck_of_startsCancelled {action : StreamAction} (follows : EndFollows state)
    (inside : StartsCancelled state action) :
    ∃ next, streamStep turnId model computeCostUsdMicro state action = some next ∧
      ¬ CannotGetStuck next := by
  obtain ⟨rfl, notStarted, cancelled, reading⟩ := inside
  refine ⟨{ state with runner := .finished }, ?_, fun cannot => ?_⟩
  · simp only [streamStep, notStarted, cancelled, if_true]
  · obtain ⟨item, member, ends⟩ := cannot rfl reading
    rw [follows.unfinished (by rw [notStarted]; decide) item member] at ends
    cases ends

/-- A generator with nothing to stop at: the runner's task is over and no item that waits ends
the loop. -/
def Stuck (state : StreamState) : Prop :=
  state.runner = .finished ∧ state.generator = .reading ∧
    ∀ item ∈ state.channel.waiting, item.terminates = false

/-- Nothing but a cancellation of the generator itself ends the wait. -/
theorem stuck_step (action : StreamAction) (stuck : Stuck state)
    (notCancelled : action ≠ .generatorCancelled)
    (taken : streamStep turnId model computeCostUsdMicro state action = some next) :
    Stuck next := by
  obtain ⟨finished, reading, goOn⟩ := stuck
  cases streamStep_moves action taken with
  | puts items itemsGoOn channel runner generator _ =>
    refine ⟨runner.trans finished, generator.trans reading, fun item member => ?_⟩
    rw [channel] at member
    exact mem_waiting_send goOn itemsGoOn member
  | starts _ notStarted _ _ _ _ =>
    rw [finished] at notStarted
    cases notStarted
  | exits _ running _ _ _ _ =>
    rw [finished] at running
    cases running
  | reads item _ received runner generator _ =>
    have waits := (Channel.receive_eq_some_iff.mp received).1
    rw [waits] at goOn
    refine ⟨runner.trans finished, ?_,
      fun other member => goOn other (List.mem_cons_of_mem _ member)⟩
    rw [generator, goOn item List.mem_cons_self]
    rfl
  | leaves left _ _ _ _ => exact absurd (left.resolve_right notCancelled) (not_not_intro reading)

end Stuck

/-- The generator always has something to stop at exactly in the runs in which the runner's task
is not cancelled before its first step. -/
theorem cannot_get_stuck_iff (actions : List StreamAction) :
    Always (streamStep turnId model computeCostUsdMicro) CannotGetStuck {} actions ↔
      StepsMeet (streamStep turnId model computeCostUsdMicro)
        (fun state action => ¬ StartsCancelled state action) {} actions := by
  have initial : EndFollows {} :=
    ⟨fun finished => (by cases finished), fun _ _ member => (by cases member)⟩
  have preserved : ∀ state action next, EndFollows state → ¬ StartsCancelled state action →
      streamStep turnId model computeCostUsdMicro state action = some next → EndFollows next :=
    fun state action next => endFollows_step action
  exact always_iff_of_invariant (streamStep turnId model computeCostUsdMicro) preserved
    (fun state follows => follows.finished)
    (fun state action follows inside =>
      not_cannotGetStuck_of_startsCancelled follows (not_not.mp inside)) initial

/-- A generator that is stuck waits, with the session's lock held, until it is cancelled. -/
theorem stuck_waits {state : StreamState} (stuck : Stuck state) (actions : List StreamAction)
    (notCancelled : StepsMeet (streamStep turnId model computeCostUsdMicro)
      (fun _ action => action ≠ .generatorCancelled) state actions) :
    Always (streamStep turnId model computeCostUsdMicro) Stuck state actions :=
  always_of_invariant (streamStep turnId model computeCostUsdMicro)
    (fun _ action _ => stuck_step action) stuck notCancelled

/-- An abort that comes before the first step of the runner's task. -/
theorem abort_before_start_gets_stuck :
    ¬ ∀ (turnId : String) (model : Option String)
      (computeCostUsdMicro : String → Int → Int → Int → Int) (actions : List StreamAction),
        Always (streamStep turnId model computeCostUsdMicro) CannotGetStuck {} actions := by
  intro always
  have run := always "turn_0" none (fun _ _ _ _ => 0) [.abort, .runnerStarts]
  obtain ⟨item, member, _⟩ := (run.2 _ rfl).2 _ rfl rfl rfl
  cases member

/-! ### The streaming route -/

/-- `_outer`: it waits for the session's lock, streams, or has yielded what a lock timeout
yields; then the handle is removed. -/
inductive RoutePhase where
  | waitingForLock
  | streaming
  | timedOut
  | removed
  deriving DecidableEq

/-- A call of `post_abort`. -/
inductive AbortCall where
  | notCalled
  /-- In `registry.abort`, at `await handle.task`. -/
  | awaitingTask
  | returned (aborted : Bool)
  deriving DecidableEq

/-- A turn of `post_turn_stream` and the calls of `post_abort` on it. The stream's state is
that of the tasks once they exist. -/
structure RouteState where
  phase : RoutePhase := .waitingForLock
  /-- `handle.aborted`, which nothing reads. -/
  aborted : Bool := false
  /-- `handle.task` is set. -/
  hasTask : Bool := false
  stream : StreamState := {}
  timeoutRecords : List SseEvent := []
  calls : Nat → AbortCall := fun _ => .notCalled
  /-- How many records there were when `registry.abort` first returned `True`. -/
  accepted : Option Nat := none
  /-- The runner was started after that. -/
  startedAfter : Bool := false

inductive RouteAction where
  | lockAcquired
  | lockTimeout (message : String)
  /-- A step of the stream's tasks and of its generator. -/
  | stream (action : StreamAction)
  /-- The `finally` block of `_outer`. -/
  | removes
  | callAbort (index : Nat)
  | abortReturns (index : Nat)

namespace RouteState

def records (state : RouteState) : List SseEvent := state.stream.records ++ state.timeoutRecords

/-- `registry.abort` returns `True` to a call, and `broker.cancel_turn` follows. -/
def accept (state : RouteState) (index : Nat) : RouteState :=
  { state with
    aborted := true
    stream := state.stream.cancelTurn
    calls := Function.update state.calls index (.returned true)
    accepted := some (state.accepted.getD state.records.length) }

end RouteState

/-- The action is one of `post_abort`. -/
def StreamAction.ofPostAbort : StreamAction → Bool
  | .abort | .cancelTurn => true
  | _ => false

def routeStep (state : RouteState) : RouteAction → Option RouteState
  | .lockAcquired =>
    if state.phase = .waitingForLock then
      some { state with phase := .streaming, hasTask := true }
    else none
  | .lockTimeout message =>
    if state.phase = .waitingForLock then
      some { state with
        phase := .timedOut
        timeoutRecords := [eventError "UNAVAILABLE" message, eventDone turnId ""] }
    else none
  | .stream action =>
    if state.hasTask = true ∧ action.ofPostAbort = false then
      (streamStep turnId model computeCostUsdMicro state.stream action).map fun stream =>
        { state with
          stream := stream
          startedAfter := state.startedAfter || (state.accepted.isSome &&
            state.stream.runner = .notStarted && stream.runner = .running) }
    else none
  | .removes =>
    if state.phase = .waitingForLock ∨ state.phase = .timedOut ∨
        (state.phase = .streaming ∧ state.stream.generator = .finished) then
      some { state with phase := .removed }
    else none
  | .callAbort index =>
    if state.calls index ≠ .notCalled then none
    else if state.phase = .removed then
      some { state with
        stream := state.stream.cancelTurn
        calls := Function.update state.calls index (.returned false) }
    else if state.hasTask = true ∧ state.stream.runner ≠ .finished then
      some { state with
        aborted := true
        stream := { state.stream with runnerCancelled := true }
        calls := Function.update state.calls index .awaitingTask }
    else some (state.accept index)
  | .abortReturns index =>
    if state.calls index = .awaitingTask ∧ state.stream.runner = .finished then
      some (state.accept index)
    else none

/-- Since an abort was accepted the runner was not started, and every record is an error or
`done`. -/
def AbortFinal (state : RouteState) : Prop :=
  ∀ count, state.accepted = some count → state.startedAfter = false ∧
    ∀ record ∈ state.records.drop count, record.name = "error" ∨ record.name = "done"

/-- The generator yields nothing for what it has to read before it leaves its loop. -/
def NothingToYield (stream : StreamState) : Prop :=
  stream.generator = .reading → ∃ body last rest,
    stream.channel.waiting = body ++ last :: rest ∧ last.terminates = true ∧
      ∀ item ∈ body, item.terminates = false ∧ itemRecords model computeCostUsdMicro item = []

/-- The abort of a turn that waits for its lock is not noticed when the lock is acquired; an
abort is accepted while the queue holds items that the generator still translates. -/
def AbortUnnoticed (state : RouteState) : RouteAction → Prop
  | .lockAcquired => state.phase = .waitingForLock ∧ state.accepted.isSome = true
  | .callAbort index => state.calls index = .notCalled ∧ state.hasTask = true ∧
      state.stream.runner = .finished ∧ ¬ NothingToYield model computeCostUsdMicro state.stream
  | .abortReturns index => state.calls index = .awaitingTask ∧ state.hasTask = true ∧
      state.stream.runner = .finished ∧ ¬ NothingToYield model computeCostUsdMicro state.stream
  | .lockTimeout _ | .stream _ | .removes => False

/-- What every run keeps in which every accepted abort is noticed. -/
structure Noticed (state : RouteState) : Prop where
  notStarted : state.startedAfter = false
  waiting : state.phase = .waitingForLock → state.hasTask = false ∧ state.timeoutRecords = []
  timeout : state.hasTask = true → state.timeoutRecords = []
  records : ∀ count, state.accepted = some count →
    ∀ record ∈ state.records.drop count, record.name = "error" ∨ record.name = "done"
  stream : state.accepted.isSome = true → state.hasTask = true →
    state.stream.runner = .finished ∧ NothingToYield model computeCostUsdMicro state.stream

section Final

variable {turnId model computeCostUsdMicro} {state next : RouteState}

theorem Noticed.abortFinal (noticed : Noticed model computeCostUsdMicro state) :
    AbortFinal state :=
  fun count accepted => ⟨noticed.notStarted, noticed.records count accepted⟩

/-- Records that are added at the end. -/
theorem mem_drop_append {records added : List SseEvent} {count : Nat}
    (earlier : ∀ record ∈ records.drop count, record.name = "error" ∨ record.name = "done")
    (new : ∀ record ∈ added, record.name = "error" ∨ record.name = "done") :
    ∀ record ∈ (records ++ added).drop count, record.name = "error" ∨ record.name = "done" := by
  intro record member
  rw [List.drop_append] at member
  rcases List.mem_append.mp member with before | after
  · exact earlier record before
  · exact new record (List.mem_of_mem_drop after)

/-- An item that ends the loop yields an error at most. -/
theorem itemRecords_of_terminates {item : Item} (ends : item.terminates = true) :
    ∀ record ∈ itemRecords model computeCostUsdMicro item, record.name = "error" := by
  intro record member
  cases item with
  | event | permission => cases ends
  | sentinel => cases member
  | error | aborted =>
    rw [List.mem_singleton.mp member]
    rfl

/-- The step lemma of the stream once its runner is over and there is nothing left to yield. -/
theorem nothingToYield_step {stream left : StreamState} {action : StreamAction}
    (finished : stream.runner = .finished)
    (nothing : NothingToYield model computeCostUsdMicro stream)
    (taken : streamStep turnId model computeCostUsdMicro stream action = some left) :
    left.runner = .finished ∧ NothingToYield model computeCostUsdMicro left ∧
      ∃ added, left.records = stream.records ++ added ∧
        ∀ record ∈ added, record.name = "error" ∨ record.name = "done" := by
  cases streamStep_moves action taken with
  | puts items goOn channel runner generator records =>
    refine ⟨runner.trans finished, fun reading => ?_, [], ?_, fun _ member => (by cases member)⟩
    · obtain ⟨body, last, rest, waits, ends, silent⟩ := nothing (generator.symm.trans reading)
      refine ⟨body, last, rest ++ items, ?_, ends, silent⟩
      rw [channel]
      show stream.channel.waiting ++ items = _
      rw [waits, List.append_assoc, List.cons_append]
    · rw [records, List.append_nil]
  | starts _ notStarted =>
    rw [finished] at notStarted
    cases notStarted
  | exits _ running =>
    rw [finished] at running
    cases running
  | reads item isReading received runner generator records =>
    obtain ⟨body, last, rest, waits, ends, silent⟩ := nothing isReading
    rw [(Channel.receive_eq_some_iff.mp received).1] at waits
    cases body with
    | nil =>
      obtain ⟨rfl, _⟩ := List.cons.inj waits
      refine ⟨runner.trans finished, fun reading => ?_, _, records, fun record member =>
        Or.inl (itemRecords_of_terminates ends record member)⟩
      rw [generator, ends] at reading
      cases reading
    | cons head body =>
      obtain ⟨rfl, later⟩ := List.cons.inj waits
      refine ⟨runner.trans finished, fun _ => ?_, _, records, ?_⟩
      · exact ⟨body, last, rest, later, ends, fun other member =>
          silent other (List.mem_cons_of_mem _ member)⟩
      · rw [(silent item List.mem_cons_self).2]
        intro record member
        cases member
  | leaves _ notReading _ runner records =>
    refine ⟨runner.trans finished, fun reading => absurd reading notReading, ?_⟩
    rcases records with same | ⟨text, done⟩
    · exact ⟨[], by rw [same, List.append_nil], fun _ member => (by cases member)⟩
    · refine ⟨_, done, fun record member => Or.inr ?_⟩
      rw [List.mem_singleton.mp member]
      rfl

/-- An accepted abort that is noticed. -/
theorem Noticed.accept (noticed : Noticed model computeCostUsdMicro state) (index : Nat)
    (stream : state.hasTask = true → state.stream.runner = .finished ∧
      NothingToYield model computeCostUsdMicro state.stream) :
    Noticed model computeCostUsdMicro (state.accept index) where
  notStarted := noticed.notStarted
  waiting := noticed.waiting
  timeout := noticed.timeout
  records count accepted := by
    show ∀ record ∈ state.records.drop count, _
    have isCount : state.accepted.getD state.records.length = count := Option.some.inj accepted
    cases before : state.accepted with
    | none =>
      rw [before, Option.getD_none] at isCount
      rw [← isCount, List.drop_length]
      intro record member
      cases member
    | some earlier =>
      rw [before, Option.getD_some] at isCount
      exact noticed.records count (isCount ▸ before)
  stream _ hasTask := stream hasTask

/-- The step lemma. -/
theorem noticed_step (action : RouteAction) (noticed : Noticed model computeCostUsdMicro state)
    (notices : ¬ AbortUnnoticed model computeCostUsdMicro state action)
    (taken : routeStep turnId model computeCostUsdMicro state action = some next) :
    Noticed model computeCostUsdMicro next := by
  cases action with
  | lockAcquired =>
    rw [routeStep, Option.ite_none_right_eq_some] at taken
    obtain ⟨waits, taken⟩ := taken
    cases taken
    refine ⟨noticed.notStarted, fun waiting => (by cases waiting),
      fun _ => (noticed.waiting waits).2, noticed.records, fun accepted => ?_⟩
    exact absurd ⟨waits, accepted⟩ notices
  | lockTimeout message =>
    rw [routeStep, Option.ite_none_right_eq_some] at taken
    obtain ⟨waits, taken⟩ := taken
    cases taken
    obtain ⟨noTask, noRecords⟩ := noticed.waiting waits
    refine ⟨noticed.notStarted, fun waiting => (by cases waiting), fun hasTask => ?_,
      fun count accepted => ?_, noticed.stream⟩
    · rw [noTask] at hasTask
      cases hasTask
    · have earlier := noticed.records count accepted
      rw [RouteState.records, noRecords, List.append_nil] at earlier
      refine mem_drop_append earlier fun record member => ?_
      rcases List.mem_cons.mp member with rfl | member
      · exact Or.inl rfl
      · rw [List.mem_singleton.mp member]
        exact Or.inr rfl
  | stream action =>
    rw [routeStep, Option.ite_none_right_eq_some] at taken
    obtain ⟨⟨hasTask, _⟩, taken⟩ := taken
    obtain ⟨stream, step, rfl⟩ := Option.map_eq_some_iff.mp taken
    cases accepted : state.accepted with
    | none =>
      refine ⟨?_, noticed.waiting, noticed.timeout, fun count isCount => ?_, fun isAccepted => ?_⟩
      · show (state.startedAfter || _) = false
        rw [noticed.notStarted]
        rfl
      · cases isCount
      · cases isAccepted
    | some earlier =>
      obtain ⟨finished, nothing⟩ := noticed.stream (by rw [accepted]; rfl) hasTask
      obtain ⟨leftFinished, leftNothing, added, records, new⟩ :=
        nothingToYield_step finished nothing step
      refine ⟨?_, noticed.waiting, noticed.timeout, fun count isCount => ?_,
        fun _ _ => ⟨leftFinished, leftNothing⟩⟩
      · show (state.startedAfter || _) = false
        rw [noticed.notStarted, finished]
        rfl
      · have before := noticed.records count (accepted.trans isCount)
        rw [RouteState.records, noticed.timeout hasTask, List.append_nil] at before
        rw [RouteState.records, noticed.timeout hasTask, List.append_nil]
        show ∀ record ∈ stream.records.drop count, _
        rw [records]
        exact mem_drop_append before new
  | removes =>
    rw [routeStep, Option.ite_none_right_eq_some] at taken
    obtain ⟨_, taken⟩ := taken
    cases taken
    exact ⟨noticed.notStarted, fun waiting => (by cases waiting), noticed.timeout,
      noticed.records, noticed.stream⟩
  | callAbort index =>
    rw [routeStep] at taken
    split at taken
    · cases taken
    · next notCalled =>
      have notCalled := not_not.mp notCalled
      split at taken
      · cases taken
        exact ⟨noticed.notStarted, noticed.waiting, noticed.timeout, noticed.records,
          noticed.stream⟩
      · split at taken
        · cases taken
          exact ⟨noticed.notStarted, noticed.waiting, noticed.timeout, noticed.records,
            noticed.stream⟩
        · next noTask =>
          cases taken
          refine noticed.accept index fun hasTask => ?_
          have finished : state.stream.runner = .finished := by
            by_contra unfinished
            exact noTask ⟨hasTask, unfinished⟩
          refine ⟨finished, ?_⟩
          by_contra yields
          exact notices ⟨notCalled, hasTask, finished, yields⟩
  | abortReturns index =>
    rw [routeStep, Option.ite_none_right_eq_some] at taken
    obtain ⟨⟨awaits, finished⟩, taken⟩ := taken
    cases taken
    refine noticed.accept index fun hasTask => ⟨finished, ?_⟩
    by_contra yields
    exact notices ⟨awaits, hasTask, finished, yields⟩

end Final

/-- Where every accepted abort is noticed, an accepted abort is final. -/
theorem abort_final (actions : List RouteAction)
    (noticed : StepsMeet (routeStep turnId model computeCostUsdMicro)
      (fun state action => ¬ AbortUnnoticed model computeCostUsdMicro state action) {} actions) :
    Always (routeStep turnId model computeCostUsdMicro) AbortFinal {} actions := by
  have initial : Noticed model computeCostUsdMicro {} :=
    ⟨rfl, fun _ => ⟨rfl, rfl⟩, fun _ => rfl, fun _ accepted => (by cases accepted),
      fun accepted => (by cases accepted)⟩
  have invariant := always_of_invariant (routeStep turnId model computeCostUsdMicro)
    (fun state action next => noticed_step action) initial noticed
  exact invariant.mono _ fun _ invariant => invariant.abortFinal

/-- A turn that is aborted while its runner runs. -/
def abortedWhileRunning : List RouteAction :=
  [.lockAcquired, .stream .runnerStarts, .callAbort 0, .stream (.runnerExits .cancelled),
    .abortReturns 0, .stream .generatorReads]

theorem abortedWhileRunning_final :
    Always (routeStep "turn_0" none fun _ _ _ _ => 0) AbortFinal {} abortedWhileRunning := by
  refine abort_final "turn_0" none (fun _ _ _ _ => 0) abortedWhileRunning ?_
  refine StepsMeet.cons _ (fun unnoticed => ?_) rfl (StepsMeet.cons _ not_false rfl
    (StepsMeet.cons _ (fun unnoticed => ?_) rfl (StepsMeet.cons _ not_false rfl
      (StepsMeet.cons _ (fun unnoticed => ?_) rfl (StepsMeet.cons _ not_false rfl trivial)))))
  · cases unnoticed.2
  · cases unnoticed.2.2.1
  · exact unnoticed.2.2.2 fun _ =>
      ⟨[], .aborted, [.sentinel], rfl, rfl, fun _ member => (by cases member)⟩

/-- An abort that is accepted while the turn waits for its lock: the runner starts afterwards. -/
theorem abort_while_waiting_not_final :
    ¬ ∀ (turnId : String) (model : Option String)
      (computeCostUsdMicro : String → Int → Int → Int → Int) (actions : List RouteAction),
        Always (routeStep turnId model computeCostUsdMicro) AbortFinal {} actions := by
  intro final
  have run := final "turn_0" none (fun _ _ _ _ => 0)
    [.callAbort 0, .lockAcquired, .stream .runnerStarts]
  have started := (((run.2 _ rfl).2 _ rfl).2 _ rfl 0 rfl).1
  cases started

end LiteHorse.Web.TurnStream
