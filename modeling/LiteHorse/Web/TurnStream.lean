/-
This file is about `stream_turn_to_sse`: a generator that reads one queue, into which a task
that drains the runner and a task that drains the permission broker put their items. The
generator stops at the first `None`, error or abort, ends the two tasks and yields `done`.

The steps are the points at which asyncio switches: a put into the unbounded queue does not
suspend, so a task's puts belong to the step that leads to them. A task that is cancelled
before its first step ends without running at all. The last section says what a generator
that was drained to its end has yielded.

An object's address, from which an id is made for a tool call that has none, is part of the
event; what a turn costs is a floating-point computation over a price table and a parameter.
-/

import LiteHorse.Library.Channel
import LiteHorse.Library.Interleaving
import LiteHorse.Web.Idempotency

namespace LiteHorse.Web.TurnStream

open Python Runs Channels Interleaving

/-! ### Events and records -/

/-- The summary of a finished turn, with the attributes the stream looks for. -/
structure RunResult where
  finalOutput : Option String
  inputTokens : Option Int := none
  outputTokens : Option Int := none
  cachedInputTokens : Option Int := none

/-- What a runner yields, by the name of the class. An attribute that is missing is `none`. -/
inductive StreamEvent where
  | streamDelta (text : Option String)
  | streamToolCall (id name : Option String) (arguments : Option Json) (address : Nat)
  | streamToolOutput (id name output : Option String) (address : Nat)
  | streamDone (result : RunResult)
  | other (className : String)

structure PermissionRequest where
  toolCallId : String
  tool : String
  args : Json

/-- An exception: its `str` and the name of its class. -/
structure PyException where
  text : String
  className : String

structure TurnUsage where
  model : Option String := none
  inputTokens : Int := 0
  outputTokens : Int := 0
  cachedInputTokens : Int := 0
  costUsdMicro : Int := 0

def eventDelta (text : String) : SseEvent := ⟨"delta", [("text", .str text)]⟩

def eventToolCall (id name : String) (args : Json) : SseEvent :=
  ⟨"tool_call", [("id", .str id), ("name", .str name), ("args", args)]⟩

def eventToolOutput (id output : String) : SseEvent :=
  ⟨"tool_output", [("id", .str id), ("output", .str output)]⟩

def eventPermissionRequest (toolCallId tool : String) (args : Json) : SseEvent :=
  ⟨"permission_request", [("tool_call_id", .str toolCallId), ("tool", .str tool), ("args", args)]⟩

def eventUsage (inputTokens outputTokens costUsdMicro : Int) : SseEvent :=
  ⟨"usage", [("input_tokens", .int inputTokens), ("output_tokens", .int outputTokens),
    ("cost_usd_micro", .int costUsdMicro)]⟩

/-- `value or default` of a text that may be missing. -/
def orElse (value : Option String) (default : String) : String :=
  match value with
  | some text => if text = "" then default else text
  | none => default

def synthesiseToolCallId (name : Option String) (address : Nat) : String :=
  "tc_" ++ name.getD "tool" ++ "_" ++ hexDigits 4 (address % 65536)

def translateEvent : StreamEvent → List SseEvent
  | .streamDelta text => if text.getD "" = "" then [] else [eventDelta (text.getD "")]
  | .streamToolCall id name arguments address =>
    [eventToolCall (orElse id (synthesiseToolCallId name address)) (name.getD "tool")
      (arguments.getD (.str ""))]
  | .streamToolOutput id name output address =>
    [eventToolOutput (orElse id (synthesiseToolCallId name address)) (output.getD "")]
  | .streamDone _ => []
  | .other _ => []

/-- An item of the queue. The `None` that ends the runner's task is the sentinel. -/
inductive Item where
  | event (event : StreamEvent)
  | permission (request : PermissionRequest)
  | error (exception : PyException)
  | aborted
  | sentinel

/-- The generator breaks out of its loop at this item. -/
def Item.terminates : Item → Bool
  | .error _ | .aborted | .sentinel => true
  | .event _ | .permission _ => false

section Records

variable (model : Option String) (computeCostUsdMicro : String → Int → Int → Int → Int)

/-- The usage of a turn that is done. -/
def usageOf (result : RunResult) : TurnUsage where
  model := if model.getD "" = "" then none else model
  inputTokens := result.inputTokens.getD 0
  outputTokens := result.outputTokens.getD 0
  cachedInputTokens := result.cachedInputTokens.getD 0
  costUsdMicro := computeCostUsdMicro (model.getD "") (result.inputTokens.getD 0)
    (result.outputTokens.getD 0) (result.cachedInputTokens.getD 0)

def usageRecord (result : RunResult) : SseEvent :=
  let usage := usageOf model computeCostUsdMicro result
  eventUsage usage.inputTokens usage.outputTokens usage.costUsdMicro

/-- The record of usage that follows a `StreamDone`. -/
def usageRecords : StreamEvent → List SseEvent
  | .streamDone result => [usageRecord model computeCostUsdMicro result]
  | .streamDelta _ | .streamToolCall .. | .streamToolOutput .. | .other _ => []

def eventRecords (event : StreamEvent) : List SseEvent :=
  translateEvent event ++ usageRecords model computeCostUsdMicro event

def permissionRecord (request : PermissionRequest) : SseEvent :=
  eventPermissionRequest request.toolCallId request.tool request.args

/-- `str(exc) or exc.__class__.__name__`. -/
def PyException.message (exception : PyException) : String :=
  orElse (some exception.text) exception.className

/-- What the generator yields for an item. -/
def itemRecords : Item → List SseEvent
  | .event event => eventRecords model computeCostUsdMicro event
  | .permission request => [permissionRecord request]
  | .error exception => [eventError "INTERNAL" exception.message]
  | .aborted => [eventError "UNAVAILABLE" "turn aborted"]
  | .sentinel => []

end Records

/-! ### The tasks -/

inductive RunnerTask where
  | notStarted
  | running
  | finished
  deriving DecidableEq

/-- How the runner's iteration ends. -/
inductive RunnerExit where
  | returned
  | raised (exception : PyException)
  | cancelled

/-- The last puts of `_drain_runner`. -/
def RunnerExit.items : RunnerExit → List Item
  | .returned => [.sentinel]
  | .raised exception => [.error exception, .sentinel]
  | .cancelled => [.aborted, .sentinel]

/-- The broker's task waits for a request of the registered turn state, or of a state that
`cancel_turn` has taken out of the registry since. -/
inductive BrokerTask where
  | notStarted
  | waiting (removed : Option (List PermissionRequest))
  | finished

/-- A `_TurnState` of the broker: the requests that are not decided and the queue. -/
structure PermissionState where
  requests : List String := []
  queue : List PermissionRequest := []

inductive Generator where
  | reading
  /-- In the `finally` block, at `await broker_task`. -/
  | awaitingBroker
  /-- In the `finally` block, at `await runner_task`. -/
  | awaitingRunner
  | finished
  deriving DecidableEq

structure StreamState where
  runner : RunnerTask := .notStarted
  runnerCancelled : Bool := false
  broker : BrokerTask := .notStarted
  brokerCancelled : Bool := false
  turn : Option PermissionState := none
  channel : Channel Item := {}
  generator : Generator := .reading
  finalText : String := ""
  usage : TurnUsage := {}
  records : List SseEvent := []
  /-- What the runner has yielded. -/
  yielded : List StreamEvent := []
  /-- How the runner's iteration has ended. -/
  exit : Option RunnerExit := none
  /-- The requests that were registered. -/
  registered : List PermissionRequest := []
  /-- The task that drains the generator was cancelled while the generator waited. -/
  generatorCancelled : Bool := false

inductive StreamAction where
  | runnerStarts
  | runnerYields (event : StreamEvent)
  | runnerExits (exit : RunnerExit)
  | requestDecision (toolCallId tool : String) (args : Json)
  /-- The caller of `request_decision` goes on: the request is decided or failed. -/
  | decisionReturns (toolCallId : String)
  | brokerStarts
  | brokerForwards
  | brokerStops
  /-- `handle.task.cancel()` in `TurnRegistry.abort`. -/
  | abort
  | cancelTurn
  | generatorReads
  | generatorCancelled
  | brokerAwaited
  | runnerAwaited

namespace StreamState

def put (state : StreamState) (items : List Item) : StreamState :=
  { state with channel := state.channel.send items }

/-- `self._turns.setdefault(turn_id, _TurnState())`. -/
def turnState (state : StreamState) : PermissionState := state.turn.getD {}

/-- `request_decision`, up to the point where it waits. A request for a tool call that is not
decided yet waits with the earlier one. -/
def requestDecision (state : StreamState) (request : PermissionRequest) : StreamState :=
  if request.toolCallId ∈ state.turnState.requests then
    { state with turn := some state.turnState }
  else
    { state with
      turn := some ⟨state.turnState.requests ++ [request.toolCallId],
        state.turnState.queue ++ [request]⟩
      registered := state.registered ++ [request] }

/-- `pending_events`, up to the point where it waits. -/
def pendingEvents (state : StreamState) : StreamState :=
  { state with broker := .waiting none, turn := some state.turnState }

/-- The queue the broker's task waits on. -/
def pendingQueue (state : StreamState) : List PermissionRequest :=
  match state.broker with
  | .waiting (some removed) => removed
  | .waiting none => state.turnState.queue
  | .notStarted | .finished => []

/-- The next request is taken from the queue the broker's task waits on. -/
def takePending (state : StreamState) (rest : List PermissionRequest) : StreamState :=
  { state with
    turn :=
      match state.broker with
      | .waiting none => some { state.turnState with queue := rest }
      | .waiting (some _) | .notStarted | .finished => state.turn }

def cancelTurn (state : StreamState) : StreamState :=
  { state with
    turn := none
    broker :=
      match state.broker with
      | .waiting none => .waiting (some state.turnState.queue)
      | other => other }

/-- The generator leaves its loop: `broker_task.cancel()`. -/
def leaveLoop (state : StreamState) : StreamState :=
  { state with generator := .awaitingBroker, brokerCancelled := true }

/-- The generator's last step: `broker.cancel_turn` and the record `done`. -/
def finish (turnId : String) (state : StreamState) : StreamState :=
  { state.cancelTurn with
    generator := .finished
    records := state.records ++ [eventDone turnId state.finalText] }

/-- The generator after `await broker_task`. -/
def afterBroker (turnId : String) (state : StreamState) : StreamState :=
  if state.runner = .finished then state.finish turnId
  else { state with generator := .awaitingRunner, runnerCancelled := true }

section Read

variable (model : Option String) (computeCostUsdMicro : String → Int → Int → Int → Int)

/-- The `final_text` and the usage after an item. -/
def noteDone (state : StreamState) : Item → StreamState
  | .event (.streamDone result) =>
    { state with
      finalText := result.finalOutput.getD ""
      usage := usageOf model computeCostUsdMicro result }
  | _ => state

/-- The generator handles an item that it has read. -/
def handle (state : StreamState) (item : Item) : StreamState :=
  let noted := state.noteDone model computeCostUsdMicro item
  let yielded :=
    { noted with records := state.records ++ itemRecords model computeCostUsdMicro item }
  if item.terminates then yielded.leaveLoop else yielded

end Read

end StreamState

variable (turnId : String) (model : Option String)
  (computeCostUsdMicro : String → Int → Int → Int → Int)

def streamStep (state : StreamState) : StreamAction → Option StreamState
  | .runnerStarts =>
    match state.runner with
    | .notStarted =>
      some { state with runner := if state.runnerCancelled then .finished else .running }
    | _ => none
  | .runnerYields event =>
    match state.runner with
    | .running =>
      some { state.put [.event event] with yielded := state.yielded ++ [event] }
    | _ => none
  | .runnerExits exit =>
    match state.runner with
    | .running => some { state.put exit.items with runner := .finished, exit := some exit }
    | _ => none
  | .requestDecision toolCallId tool args =>
    some (state.requestDecision ⟨toolCallId, tool, args⟩)
  | .decisionReturns toolCallId =>
    some { state with
      turn := state.turn.map fun turn =>
        { turn with requests := turn.requests.filter fun other => other ≠ toolCallId } }
  | .brokerStarts =>
    match state.broker with
    | .notStarted =>
      if state.brokerCancelled then some { state with broker := .finished }
      else some state.pendingEvents
    | _ => none
  | .brokerForwards =>
    match state.brokerCancelled, state.pendingQueue with
    | false, request :: rest =>
      some ((state.takePending rest).put [.permission request]).pendingEvents
    | _, _ => none
  | .brokerStops =>
    match state.brokerCancelled, state.broker with
    | true, .waiting _ => some { state with broker := .finished }
    | _, _ => none
  | .abort =>
    some { state with runnerCancelled := state.runnerCancelled || state.runner ≠ .finished }
  | .cancelTurn => some state.cancelTurn
  | .generatorReads =>
    match state.generator, state.channel.receive with
    | .reading, some (item, channel) =>
      some ({ state with channel := channel }.handle model computeCostUsdMicro item)
    | _, _ => none
  | .generatorCancelled =>
    match state.generator with
    | .reading => some { state.leaveLoop with generatorCancelled := true }
    | .awaitingBroker => some (state.afterBroker turnId)
    | .awaitingRunner => some (state.finish turnId)
    | .finished => none
  | .brokerAwaited =>
    match state.generator, state.broker with
    | .awaitingBroker, .finished => some (state.afterBroker turnId)
    | _, _ => none
  | .runnerAwaited =>
    match state.generator, state.runner with
    | .awaitingRunner, .finished => some (state.finish turnId)
    | _, _ => none

/-! ### What a drained generator has yielded -/

def Item.eventOf : Item → Option StreamEvent
  | .event yielded => some yielded
  | .permission _ | .error _ | .aborted | .sentinel => none

def Item.permissionOf : Item → Option PermissionRequest
  | .permission request => some request
  | .event _ | .error _ | .aborted | .sentinel => none

/-- The item is put by the runner's task. -/
def Item.ofRunner : Item → Bool
  | .permission _ => false
  | .event _ | .error _ | .aborted | .sentinel => true

def StreamEvent.doneResult : StreamEvent → Option RunResult
  | .streamDone result => some result
  | .streamDelta _ | .streamToolCall .. | .streamToolOutput .. | .other _ => none

/-- The `final_output` of the last `StreamDone`, or the empty string. -/
def finalOutput (events : List StreamEvent) : String :=
  ((events.filterMap StreamEvent.doneResult).getLast?.bind RunResult.finalOutput).getD ""

/-- The error record of an exit. -/
def RunnerExit.errors : RunnerExit → List SseEvent
  | .returned => []
  | .raised exception => [eventError "INTERNAL" exception.message]
  | .cancelled => [eventError "UNAVAILABLE" "turn aborted"]

/-- The records of one kind. -/
def named (name : String) (records : List SseEvent) : List SseEvent :=
  records.filter fun record => record.name = name

/-- The records are an interleaving of the translated events, which are a prefix of what the
runner has yielded, with registered permission requests, then an error record at most, then
`done`. Unless the generator itself was cancelled they are all the runner's events, and the
error is that of its exit. -/
def OutputProtocol (state : StreamState) : Prop :=
  ∃ (events : List StreamEvent) (permissions : List PermissionRequest)
    (body errors : List SseEvent),
    state.records = body ++ errors ++ [eventDone turnId (finalOutput events)] ∧
    Shuffle (events.flatMap (eventRecords model computeCostUsdMicro))
      (permissions.map permissionRecord) body ∧
    events <+: state.yielded ∧
    permissions.Sublist state.registered ∧
    (state.generatorCancelled = false →
      ∃ exit, state.exit = some exit ∧ events = state.yielded ∧ errors = exit.errors) ∧
    named "usage" state.records =
      (events.filterMap StreamEvent.doneResult).map (usageRecord model computeCostUsdMicro) ∧
    named "error" state.records = errors ∧ errors.length ≤ 1 ∧
    named "done" state.records = [eventDone turnId (finalOutput events)]

section Records

variable {turnId model computeCostUsdMicro}

theorem named_append (name : String) (first second : List SseEvent) :
    named name (first ++ second) = named name first ++ named name second :=
  List.filter_append first second

/-- The items of the loop are an interleaving of what the two tasks have put. -/
theorem shuffle_itemRecords (items : List Item)
    (goOn : ∀ item ∈ items, item.terminates = false) :
    Shuffle ((items.filterMap Item.eventOf).flatMap (eventRecords model computeCostUsdMicro))
      ((items.filterMap Item.permissionOf).map permissionRecord)
      (items.flatMap (itemRecords model computeCostUsdMicro)) := by
  induction items with
  | nil => exact Shuffle.nil
  | cons item rest inductionHypothesis =>
    have later := inductionHypothesis fun other member => goOn other (List.mem_cons_of_mem _ member)
    cases item with
    | event event => exact later.prepend_left _
    | permission request => exact later.right _
    | error exception => cases goOn (.error exception) List.mem_cons_self
    | aborted => cases goOn .aborted List.mem_cons_self
    | sentinel => cases goOn .sentinel List.mem_cons_self

theorem named_eventRecords (name : String) (event : StreamEvent)
    (other : name = "error" ∨ name = "done") :
    named name (eventRecords model computeCostUsdMicro event) = [] := by
  rcases other with rfl | rfl <;>
    cases event <;> simp [named, eventRecords, translateEvent, usageRecords, eventDelta,
      eventToolCall, eventToolOutput, usageRecord, eventUsage, apply_ite]

theorem named_usage_eventRecords (event : StreamEvent) :
    named "usage" (eventRecords model computeCostUsdMicro event) =
      event.doneResult.toList.map (usageRecord model computeCostUsdMicro) := by
  cases event <;> simp [named, eventRecords, translateEvent, usageRecords, eventDelta,
    eventToolCall, eventToolOutput, usageRecord, eventUsage, StreamEvent.doneResult, apply_ite]

/-- The items of the loop yield no error and no `done`. -/
theorem named_itemRecords (name : String) (other : name = "error" ∨ name = "done")
    (items : List Item) (goOn : ∀ item ∈ items, item.terminates = false) :
    named name (items.flatMap (itemRecords model computeCostUsdMicro)) = [] := by
  induction items with
  | nil => rfl
  | cons item rest inductionHypothesis =>
    rw [List.flatMap_cons, named_append,
      inductionHypothesis fun later member => goOn later (List.mem_cons_of_mem _ member),
      List.append_nil]
    cases item with
    | event event => exact named_eventRecords name event other
    | permission request => rcases other with rfl | rfl <;> rfl
    | error exception => cases goOn (.error exception) List.mem_cons_self
    | aborted => cases goOn .aborted List.mem_cons_self
    | sentinel => cases goOn .sentinel List.mem_cons_self

/-- Usage is reported for the `StreamDone` events and for nothing else. -/
theorem named_usage_itemRecords (items : List Item) :
    named "usage" (items.flatMap (itemRecords model computeCostUsdMicro)) =
      ((items.filterMap Item.eventOf).filterMap StreamEvent.doneResult).map
        (usageRecord model computeCostUsdMicro) := by
  induction items with
  | nil => rfl
  | cons item rest inductionHypothesis =>
    rw [List.flatMap_cons, named_append, inductionHypothesis]
    cases item with
    | event event =>
      rw [itemRecords, named_usage_eventRecords,
        List.filterMap_cons_some (b := event) (by rfl), List.filterMap_cons]
      cases event.doneResult <;> rfl
    | permission request => rfl
    | error exception => rfl
    | aborted => rfl
    | sentinel => rfl

end Records

/-! ### What one step keeps -/

/-- The ways in which a step can go, with what the state lets through. -/
inductive StreamSteps (state : StreamState) : StreamAction → StreamState → Prop where
  | runnerStarts (notStarted : state.runner = .notStarted) :
    StreamSteps state .runnerStarts
      { state with runner := if state.runnerCancelled then .finished else .running }
  | runnerYields (event : StreamEvent) (running : state.runner = .running) :
    StreamSteps state (.runnerYields event)
      { state.put [.event event] with yielded := state.yielded ++ [event] }
  | runnerExits (exit : RunnerExit) (running : state.runner = .running) :
    StreamSteps state (.runnerExits exit)
      { state.put exit.items with runner := .finished, exit := some exit }
  | requestDecision (toolCallId tool : String) (args : Json) :
    StreamSteps state (.requestDecision toolCallId tool args)
      (state.requestDecision ⟨toolCallId, tool, args⟩)
  | decisionReturns (toolCallId : String) :
    StreamSteps state (.decisionReturns toolCallId)
      { state with
        turn := state.turn.map fun turn =>
          { turn with requests := turn.requests.filter fun other => other ≠ toolCallId } }
  | brokerStartsCancelled (notStarted : state.broker = .notStarted)
      (cancelled : state.brokerCancelled = true) :
    StreamSteps state .brokerStarts { state with broker := .finished }
  | brokerStarts (notStarted : state.broker = .notStarted) :
    StreamSteps state .brokerStarts state.pendingEvents
  | brokerForwards (request : PermissionRequest) (rest : List PermissionRequest)
      (pending : state.pendingQueue = request :: rest) :
    StreamSteps state .brokerForwards
      ((state.takePending rest).put [.permission request]).pendingEvents
  | brokerStops (removed : Option (List PermissionRequest))
      (cancelled : state.brokerCancelled = true) (waits : state.broker = .waiting removed) :
    StreamSteps state .brokerStops { state with broker := .finished }
  | abort :
    StreamSteps state .abort
      { state with runnerCancelled := state.runnerCancelled || state.runner ≠ .finished }
  | cancelTurn : StreamSteps state .cancelTurn state.cancelTurn
  | generatorReads (item : Item) (channel : Channel Item) (isReading : state.generator = .reading)
      (received : state.channel.receive = some (item, channel)) :
    StreamSteps state .generatorReads
      ({ state with channel := channel }.handle model computeCostUsdMicro item)
  | generatorCancelled (isReading : state.generator = .reading) :
    StreamSteps state .generatorCancelled { state.leaveLoop with generatorCancelled := true }
  /-- `await broker_task` is over, or is cancelled. -/
  | afterBroker {action : StreamAction}
      (isEnd : action = .brokerAwaited ∧ state.broker = .finished ∨ action = .generatorCancelled)
      (waits : state.generator = .awaitingBroker) :
    StreamSteps state action (state.afterBroker turnId)
  /-- `await runner_task` is over, or is cancelled. -/
  | afterRunner {action : StreamAction}
      (isEnd : action = .runnerAwaited ∧ state.runner = .finished ∨ action = .generatorCancelled)
      (waits : state.generator = .awaitingRunner) :
    StreamSteps state action (state.finish turnId)

/-- The requests that the broker's task can still come to, given the queue of the registered
turn state. -/
def BrokerTask.unread (queue : List PermissionRequest) : BrokerTask → List PermissionRequest
  | .waiting (some removed) => removed ++ queue
  | .waiting none | .notStarted => queue
  | .finished => []

def StreamState.unread (state : StreamState) : List PermissionRequest :=
  state.broker.unread state.turnState.queue

/-- The senders: what the runner's task has put are the events and the items of the exit, and
the broker's task has put registered requests in their order. -/
structure Sent (state : StreamState) : Prop where
  runner : state.channel.sent.filter Item.ofRunner =
    state.yielded.map Item.event ++ (state.exit.map RunnerExit.items).getD []
  exit : state.runner ≠ .finished → state.exit = none
  permissions :
    (state.channel.sent.filterMap Item.permissionOf ++ state.unread).Sublist state.registered

/-- The reader: the records are those of the items that were read, and the loop was left at
an item that terminates it or at a cancellation. -/
structure Delivered (state : StreamState) : Prop where
  records : state.records =
    state.channel.read.flatMap (itemRecords model computeCostUsdMicro) ++
      (if state.generator = .finished then [eventDone turnId state.finalText] else [])
  finalText : state.finalText = finalOutput (state.channel.read.filterMap Item.eventOf)
  reading : state.generator = .reading →
    state.generatorCancelled = false ∧ state.channel.Open Item.terminates
  left : state.generator ≠ .reading →
    if state.generatorCancelled then state.channel.Open Item.terminates
    else state.channel.Ended Item.terminates

/-- What every run keeps. -/
structure StreamInvariant (state : StreamState) : Prop where
  sent : Sent state
  delivered : Delivered turnId model computeCostUsdMicro state

section Steps

variable {turnId model computeCostUsdMicro} {state next : StreamState}

/-- The inversion lemma of `streamStep`. -/
theorem streamStep_cases {action : StreamAction}
    (taken : streamStep turnId model computeCostUsdMicro state action = some next) :
    StreamSteps turnId model computeCostUsdMicro state action next := by
  unfold streamStep at taken
  cases action with
  | runnerStarts =>
    dsimp only at taken
    split at taken
    · next notStarted =>
      cases taken
      exact .runnerStarts notStarted
    · cases taken
  | runnerYields event =>
    dsimp only at taken
    split at taken
    · next running =>
      cases taken
      exact .runnerYields event running
    · cases taken
  | runnerExits exit =>
    dsimp only at taken
    split at taken
    · next running =>
      cases taken
      exact .runnerExits exit running
    · cases taken
  | requestDecision toolCallId tool args =>
    cases taken
    exact .requestDecision toolCallId tool args
  | decisionReturns toolCallId =>
    cases taken
    exact .decisionReturns toolCallId
  | brokerStarts =>
    dsimp only at taken
    split at taken
    · next notStarted =>
      split at taken
      · next cancelled =>
        cases taken
        exact .brokerStartsCancelled notStarted cancelled
      · cases taken
        exact .brokerStarts notStarted
    · cases taken
  | brokerForwards =>
    dsimp only at taken
    split at taken
    · next request rest _ pending =>
      cases taken
      exact .brokerForwards request rest pending
    · cases taken
  | brokerStops =>
    dsimp only at taken
    split at taken
    · next removed cancelled waits =>
      cases taken
      exact .brokerStops removed cancelled waits
    · cases taken
  | abort =>
    cases taken
    exact .abort
  | cancelTurn =>
    cases taken
    exact .cancelTurn
  | generatorReads =>
    dsimp only at taken
    split at taken
    · next item channel isReading received =>
      cases taken
      exact .generatorReads item channel isReading received
    · cases taken
  | generatorCancelled =>
    dsimp only at taken
    split at taken
    · next isReading =>
      cases taken
      exact .generatorCancelled isReading
    · next waits =>
      cases taken
      exact .afterBroker (Or.inr rfl) waits
    · next waits =>
      cases taken
      exact .afterRunner (Or.inr rfl) waits
    · cases taken
  | brokerAwaited =>
    dsimp only at taken
    split at taken
    · next waits finished =>
      cases taken
      exact .afterBroker (Or.inl ⟨rfl, finished⟩) waits
    · cases taken
  | runnerAwaited =>
    dsimp only at taken
    split at taken
    · next waits finished =>
      cases taken
      exact .afterRunner (Or.inl ⟨rfl, finished⟩) waits
    · cases taken

/-- A step that puts nothing and registers nothing. -/
theorem Sent.frame (sent : Sent state) (sameSent : next.channel.sent = state.channel.sent)
    (sameYielded : next.yielded = state.yielded) (sameExit : next.exit = state.exit)
    (runs : next.runner ≠ .finished → state.runner ≠ .finished)
    (unread : next.unread.Sublist state.unread)
    (sameRegistered : next.registered = state.registered) :
    Sent next where
  runner := by
    rw [sameSent, sameYielded, sameExit]
    exact sent.runner
  exit running := by
    rw [sameExit]
    exact sent.exit (runs running)
  permissions := by
    rw [sameSent, sameRegistered]
    exact (List.Sublist.append_left unread _).trans sent.permissions

/-- A put of the runner's task. -/
theorem Sent.put (sent : Sent state) (items : List Item)
    (sameSent : next.channel.sent = state.channel.sent ++ items)
    (ofRunner : items.filter Item.ofRunner = items)
    (noPermission : items.filterMap Item.permissionOf = [])
    (runner : state.yielded.map Item.event ++ items =
      next.yielded.map Item.event ++ (next.exit.map RunnerExit.items).getD [])
    (running : state.runner = .running) (exit : next.runner ≠ .finished → next.exit = none)
    (sameUnread : next.unread = state.unread)
    (sameRegistered : next.registered = state.registered) :
    Sent next where
  runner := by
    have noExit : state.exit = none := sent.exit (by rw [running]; decide)
    have before := sent.runner
    rw [noExit, Option.map_none, Option.getD_none, List.append_nil] at before
    rw [sameSent, List.filter_append, before, ofRunner, runner]
  exit := exit
  permissions := by
    rw [sameSent, List.filterMap_append, noPermission, List.append_nil, sameUnread, sameRegistered]
    exact sent.permissions

/-- A new request goes to the end of the registered turn state's queue. -/
theorem unread_append (broker : BrokerTask) (queue : List PermissionRequest)
    (request : PermissionRequest) :
    (broker.unread (queue ++ [request])).Sublist (broker.unread queue ++ [request]) := by
  cases broker with
  | notStarted => exact List.Sublist.refl _
  | waiting removed =>
    cases removed with
    | none => exact List.Sublist.refl _
    | some removed =>
      unfold BrokerTask.unread
      rw [List.append_assoc]
  | finished => exact List.nil_sublist _

theorem Sent.requestDecision (sent : Sent state) (request : PermissionRequest) :
    Sent (state.requestDecision request) := by
  by_cases known : request.toolCallId ∈ state.turnState.requests
  · rw [StreamState.requestDecision, if_pos known]
    exact sent.frame rfl rfl rfl id (List.Sublist.refl _) rfl
  · rw [StreamState.requestDecision, if_neg known]
    refine ⟨sent.runner, sent.exit, ?_⟩
    refine (List.Sublist.append_left (unread_append _ _ _) _).trans ?_
    rw [← List.append_assoc]
    exact List.Sublist.append_right sent.permissions _

/-- A removed turn state keeps its queue for the broker's task. -/
theorem unread_cancelTurn (state : StreamState) :
    state.cancelTurn.unread.Sublist state.unread := by
  unfold StreamState.unread StreamState.cancelTurn
  cases state.broker with
  | notStarted => exact List.nil_sublist _
  | waiting removed =>
    cases removed with
    | none =>
      show List.Sublist (state.turnState.queue ++ []) state.turnState.queue
      rw [List.append_nil]
    | some removed => exact List.Sublist.append_left (List.nil_sublist _) _
  | finished => exact List.nil_sublist _

/-- The broker's task moves the next request it waits for into the queue. -/
theorem Sent.brokerForwards (sent : Sent state) {request : PermissionRequest}
    {rest : List PermissionRequest} (pending : state.pendingQueue = request :: rest) :
    Sent ((state.takePending rest).put [.permission request]).pendingEvents := by
  have sameSent : ((state.takePending rest).put [.permission request]).pendingEvents.channel.sent =
      state.channel.sent ++ [.permission request] := Channel.sent_send _ _
  have unread : (request :: ((state.takePending rest).put
      [.permission request]).pendingEvents.unread).Sublist state.unread := by
    unfold StreamState.pendingQueue at pending
    unfold StreamState.unread StreamState.pendingEvents StreamState.put StreamState.takePending
      StreamState.turnState
    split at pending
    · next removed waits =>
      rw [waits, pending]
      exact (List.sublist_append_right _ _).cons_cons _
    · next waits =>
      rw [waits]
      show List.Sublist (request :: rest) state.turnState.queue
      rw [pending]
    · cases pending
    · cases pending
  refine ⟨?_, sent.exit, ?_⟩
  · rw [sameSent, List.filter_append]
    refine Eq.trans ?_ sent.runner
    exact List.append_nil _
  · rw [sameSent, List.filterMap_append, List.append_assoc]
    exact (List.Sublist.append_left unread _).trans sent.permissions

/-- A step of which the reader sees nothing. -/
theorem Delivered.frame (delivered : Delivered turnId model computeCostUsdMicro state)
    (read : next.channel.read = state.channel.read) (records : next.records = state.records)
    (finalText : next.finalText = state.finalText)
    (generator : next.generator = state.generator)
    (cancelled : next.generatorCancelled = state.generatorCancelled) :
    Delivered turnId model computeCostUsdMicro next := by
  obtain ⟨sameRecords, sameText, reading, left⟩ := delivered
  unfold Channel.Open at reading
  unfold Channel.Open Channel.Ended Channel.body at left
  refine ⟨?_, ?_, ?_, ?_⟩
  · rw [records, read, generator, finalText]
    exact sameRecords
  · rw [finalText, read]
    exact sameText
  · unfold Channel.Open
    rw [generator, cancelled, read]
    exact reading
  · unfold Channel.Open Channel.Ended Channel.body
    rw [generator, cancelled, read]
    exact left

/-- What handling an item changes. -/
theorem handle_eq (state : StreamState) (item : Item) :
    state.handle model computeCostUsdMicro item =
      { state with
        finalText := (state.noteDone model computeCostUsdMicro item).finalText
        usage := (state.noteDone model computeCostUsdMicro item).usage
        records := state.records ++ itemRecords model computeCostUsdMicro item
        generator := if item.terminates then .awaitingBroker else state.generator
        brokerCancelled := item.terminates || state.brokerCancelled } := by
  cases item with
  | event event => cases event <;> rfl
  | permission request => rfl
  | error exception => rfl
  | aborted => rfl
  | sentinel => rfl

theorem finalText_noteDone (state : StreamState) (item : Item) (items : List Item)
    (finalText : state.finalText = finalOutput (items.filterMap Item.eventOf)) :
    (state.noteDone model computeCostUsdMicro item).finalText =
      finalOutput ((items ++ [item]).filterMap Item.eventOf) := by
  rw [List.filterMap_append]
  cases item with
  | event event =>
    cases event with
    | streamDone result =>
      simp [StreamState.noteDone, finalOutput, Item.eventOf, StreamEvent.doneResult]
    | streamDelta | streamToolCall | streamToolOutput | other =>
      simpa [StreamState.noteDone, finalOutput, Item.eventOf, StreamEvent.doneResult]
        using finalText
  | permission | error | aborted | sentinel =>
    show state.finalText = finalOutput (items.filterMap Item.eventOf ++ [])
    rw [List.append_nil, finalText]

/-- The generator handles the next item. -/
theorem Delivered.handle (delivered : Delivered turnId model computeCostUsdMicro state)
    (isReading : state.generator = .reading) {item : Item} {channel : Channel Item}
    (received : state.channel.receive = some (item, channel)) :
    Delivered turnId model computeCostUsdMicro
      ({ state with channel := channel }.handle model computeCostUsdMicro item) := by
  obtain ⟨notCancelled, isOpen⟩ := delivered.reading isReading
  have read : channel.read = state.channel.read ++ [item] :=
    (Channel.receive_eq_some_iff.mp received).2
  rw [handle_eq]
  refine ⟨?_, ?_, fun staysReading => ?_, fun left => ?_⟩
  · have notFinished : (if item.terminates then Generator.awaitingBroker else state.generator) ≠
        .finished := by
      rw [isReading]
      cases item.terminates <;> decide
    have before := delivered.records
    rw [isReading, if_neg (by decide), List.append_nil] at before
    rw [if_neg notFinished, List.append_nil, read, List.flatMap_append, ← before,
      List.flatMap_singleton]
  · rw [read]
    exact finalText_noteDone { state with channel := channel } item state.channel.read
      delivered.finalText
  · refine ⟨notCancelled, isOpen.receive received ?_⟩
    cases ends : item.terminates with
    | false => rfl
    | true =>
      simp only [ends, if_true] at staysReading
      cases staysReading
  · have ends : item.terminates = true := by
      by_contra goesOn
      exact left (by simp only [goesOn, isReading]; rfl)
    simp only [notCancelled, Bool.false_eq_true, if_false]
    exact (isOpen.ended received ends).2

/-- The generator's last step. -/
theorem Delivered.finish (delivered : Delivered turnId model computeCostUsdMicro state)
    (left : state.generator ≠ .reading) (notFinished : state.generator ≠ .finished) :
    Delivered turnId model computeCostUsdMicro (state.finish turnId) where
  records := by
    have before := delivered.records
    rw [if_neg notFinished, List.append_nil] at before
    simp only [StreamState.finish, StreamState.cancelTurn, if_true, before]
  finalText := delivered.finalText
  reading isReading := by cases isReading
  left _ := delivered.left left

/-- The generator moves on inside its `finally` block. -/
theorem Delivered.awaits (delivered : Delivered turnId model computeCostUsdMicro state)
    (left : state.generator ≠ .reading) (notFinished : state.generator ≠ .finished)
    (records : next.records = state.records) (finalText : next.finalText = state.finalText)
    (channel : next.channel = state.channel)
    (cancelled : next.generatorCancelled = state.generatorCancelled)
    (nextLeft : next.generator ≠ .reading) (nextNotFinished : next.generator ≠ .finished) :
    Delivered turnId model computeCostUsdMicro next where
  records := by
    have before := delivered.records
    rw [if_neg notFinished] at before
    rw [if_neg nextNotFinished, records, channel, before]
  finalText := by
    rw [finalText, channel]
    exact delivered.finalText
  reading isReading := absurd isReading nextLeft
  left _ := by
    rw [cancelled, channel]
    exact delivered.left left

theorem Delivered.afterBroker (delivered : Delivered turnId model computeCostUsdMicro state)
    (waits : state.generator = .awaitingBroker) :
    Delivered turnId model computeCostUsdMicro (state.afterBroker turnId) := by
  have left : state.generator ≠ .reading := by rw [waits]; decide
  have notFinished : state.generator ≠ .finished := by rw [waits]; decide
  unfold StreamState.afterBroker
  split
  · exact delivered.finish left notFinished
  · exact delivered.awaits left notFinished rfl rfl rfl rfl (fun same => by cases same)
      fun same => by cases same

/-- The generator is cancelled in its loop. -/
theorem Delivered.cancelled (delivered : Delivered turnId model computeCostUsdMicro state)
    (isReading : state.generator = .reading) :
    Delivered turnId model computeCostUsdMicro
      { state.leaveLoop with generatorCancelled := true } where
  records := by
    have before := delivered.records
    rw [isReading] at before
    exact before
  finalText := delivered.finalText
  reading same := by cases same
  left _ := (delivered.reading isReading).2

theorem Sent.afterBroker (sent : Sent state) : Sent (state.afterBroker turnId) := by
  unfold StreamState.afterBroker
  split
  · exact sent.frame rfl rfl rfl id (unread_cancelTurn state) rfl
  · exact sent.frame rfl rfl rfl id (List.Sublist.refl _) rfl

/-- The step lemma. -/
theorem streamInvariant_step (action : StreamAction)
    (invariant : StreamInvariant turnId model computeCostUsdMicro state)
    (taken : streamStep turnId model computeCostUsdMicro state action = some next) :
    StreamInvariant turnId model computeCostUsdMicro next := by
  obtain ⟨sent, delivered⟩ := invariant
  cases streamStep_cases taken with
  | runnerStarts notStarted =>
    refine ⟨sent.frame rfl rfl rfl ?_ (List.Sublist.refl _) rfl,
      delivered.frame rfl rfl rfl rfl rfl⟩
    intro _
    rw [notStarted]
    decide
  | runnerYields event running =>
    refine ⟨sent.put [.event event] (Channel.sent_send _ _) rfl rfl ?_ running
      (fun _ => sent.exit (by rw [running]; decide)) rfl rfl, delivered.frame rfl rfl rfl rfl rfl⟩
    have noExit : state.exit = none := sent.exit (by rw [running]; decide)
    show _ = (state.yielded ++ [event]).map Item.event ++ (state.exit.map _).getD []
    rw [noExit, List.map_append]
    exact (List.append_nil _).symm
  | runnerExits exit running =>
    refine ⟨sent.put exit.items (Channel.sent_send _ _) ?_ ?_ rfl running
      (fun notFinished => absurd rfl notFinished) rfl rfl, delivered.frame rfl rfl rfl rfl rfl⟩
    · cases exit <;> rfl
    · cases exit <;> rfl
  | requestDecision toolCallId tool args =>
    refine ⟨sent.requestDecision _, ?_⟩
    unfold StreamState.requestDecision
    split <;> exact delivered.frame rfl rfl rfl rfl rfl
  | decisionReturns toolCallId =>
    refine ⟨sent.frame rfl rfl rfl id ?_ rfl, delivered.frame rfl rfl rfl rfl rfl⟩
    unfold StreamState.unread StreamState.turnState
    cases state.turn <;> exact List.Sublist.refl _
  | brokerStartsCancelled =>
    exact ⟨sent.frame rfl rfl rfl id (List.nil_sublist _) rfl,
      delivered.frame rfl rfl rfl rfl rfl⟩
  | brokerStarts notStarted =>
    refine ⟨sent.frame rfl rfl rfl id ?_ rfl, delivered.frame rfl rfl rfl rfl rfl⟩
    unfold StreamState.unread
    rw [notStarted]
    exact List.Sublist.refl _
  | brokerForwards request rest pending =>
    exact ⟨sent.brokerForwards pending, delivered.frame rfl rfl rfl rfl rfl⟩
  | brokerStops =>
    exact ⟨sent.frame rfl rfl rfl id (List.nil_sublist _) rfl,
      delivered.frame rfl rfl rfl rfl rfl⟩
  | abort =>
    exact ⟨sent.frame rfl rfl rfl id (List.Sublist.refl _) rfl,
      delivered.frame rfl rfl rfl rfl rfl⟩
  | cancelTurn =>
    exact ⟨sent.frame rfl rfl rfl id (unread_cancelTurn state) rfl,
      delivered.frame rfl rfl rfl rfl rfl⟩
  | generatorReads item channel isReading received =>
    refine ⟨?_, delivered.handle isReading received⟩
    rw [handle_eq]
    exact sent.frame (Channel.sent_receive received) rfl rfl id (List.Sublist.refl _) rfl
  | generatorCancelled isReading =>
    exact ⟨sent.frame rfl rfl rfl id (List.Sublist.refl _) rfl, delivered.cancelled isReading⟩
  | afterBroker _ waits => exact ⟨sent.afterBroker, delivered.afterBroker waits⟩
  | afterRunner _ waits =>
    exact ⟨sent.frame rfl rfl rfl id (unread_cancelTurn state) rfl,
      delivered.finish (by rw [waits]; decide) (by rw [waits]; decide)⟩

/-- Nothing was put, nothing was read. -/
theorem streamInvariant_initial : StreamInvariant turnId model computeCostUsdMicro {} where
  sent := ⟨rfl, fun _ => rfl, List.Sublist.refl _⟩
  delivered := ⟨rfl, rfl, fun _ => ⟨rfl, fun _ member => by cases member⟩,
    fun left => absurd rfl left⟩

/-- What the runner's task sends before the items of its exit are the events. -/
theorem takeWhile_runnerItems (events : List StreamEvent) (exit : Option RunnerExit) :
    (events.map Item.event ++ (exit.map RunnerExit.items).getD []).takeWhile
        (fun item => !item.terminates) = events.map Item.event := by
  rw [List.takeWhile_append_of_pos fun item member => by
    obtain ⟨event, _, rfl⟩ := List.mem_map.mp member
    rfl]
  cases exit with
  | none => exact List.append_nil _
  | some exit => cases exit <;> exact List.append_nil _

theorem filterMap_eventOf_map (events : List StreamEvent) :
    (events.map Item.event).filterMap Item.eventOf = events := by
  rw [List.filterMap_map]
  exact List.filterMap_some

theorem filterMap_eventOf_ofRunner (items : List Item) :
    (items.filter Item.ofRunner).filterMap Item.eventOf = items.filterMap Item.eventOf := by
  rw [List.filterMap_filter]
  congr 1
  funext item
  cases item <;> rfl

theorem ofRunner_of_terminates (item : Item) (ends : item.terminates = true) :
    item.ofRunner = true := by
  cases item <;> first | rfl | cases ends

/-- The events of the loop are a prefix of what the runner has yielded. -/
theorem Sent.events_prefix (sent : Sent state) :
    (state.channel.body Item.terminates).filterMap Item.eventOf <+: state.yielded := by
  have isPrefix := state.channel.body_prefix Item.ofRunner ofRunner_of_terminates
  rw [sent.runner, takeWhile_runnerItems] at isPrefix
  have events := isPrefix.filterMap Item.eventOf
  rw [filterMap_eventOf_map, filterMap_eventOf_ofRunner] at events
  exact events

/-- The permissions of the loop were registered, in this order. -/
theorem Sent.permissions_sublist (sent : Sent state) :
    ((state.channel.body Item.terminates).filterMap Item.permissionOf).Sublist
      state.registered := by
  have ofBody : (state.channel.body Item.terminates).Sublist state.channel.sent :=
    (List.takeWhile_sublist _).trans (List.sublist_append_left _ _)
  exact ((ofBody.filterMap _).trans (List.sublist_append_left _ _)).trans sent.permissions

/-- When the loop was left at an item that ends it, the runner has exited, the events of the
loop are all it has yielded, and the item is the first of its exit. -/
theorem Sent.exit_of_ended (sent : Sent state) (model : Option String)
    (computeCostUsdMicro : String → Int → Int → Int → Int) {last : Item}
    (ends : last.terminates = true)
    (read : state.channel.read = state.channel.body Item.terminates ++ [last]) :
    ∃ exit, state.exit = some exit ∧
      (state.channel.body Item.terminates).filterMap Item.eventOf = state.yielded ∧
      itemRecords model computeCostUsdMicro last = exit.errors := by
  have ended : state.channel.Ended Item.terminates := ⟨last, ends, read⟩
  have sameEvents := ended.body_eq Item.ofRunner ofRunner_of_terminates
  rw [sent.runner, takeWhile_runnerItems] at sameEvents
  have all := sent.runner
  rw [Channel.sent, read, List.append_assoc, List.filter_append, sameEvents,
    List.cons_append, List.filter_cons_of_pos (ofRunner_of_terminates last ends)] at all
  have exitItems := List.append_cancel_left all
  have events := congrArg (List.filterMap Item.eventOf) sameEvents
  rw [filterMap_eventOf_map, filterMap_eventOf_ofRunner] at events
  cases exits : state.exit with
  | none =>
    rw [exits] at exitItems
    cases exitItems
  | some exit =>
    rw [exits] at exitItems
    refine ⟨exit, rfl, events, ?_⟩
    cases exit with
    | returned =>
      rw [(List.cons.inj exitItems).1]
      rfl
    | raised exception =>
      rw [(List.cons.inj exitItems).1]
      rfl
    | cancelled =>
      rw [(List.cons.inj exitItems).1]
      rfl

theorem RunnerExit.errors_cases (exit : RunnerExit) :
    exit.errors.length ≤ 1 ∧ named "usage" exit.errors = [] ∧
      named "error" exit.errors = exit.errors ∧ named "done" exit.errors = [] := by
  cases exit with
  | returned => exact ⟨Nat.zero_le 1, rfl, rfl, rfl⟩
  | raised exception => exact ⟨le_rfl, rfl, rfl, rfl⟩
  | cancelled => exact ⟨le_rfl, rfl, rfl, rfl⟩

/-- The protocol from what was read in the loop and the errors that follow it. -/
theorem outputProtocol_of_body (sent : Sent state) (errors : List SseEvent)
    (records : state.records =
      (state.channel.body Item.terminates).flatMap (itemRecords model computeCostUsdMicro) ++
        errors ++ [eventDone turnId
          (finalOutput ((state.channel.body Item.terminates).filterMap Item.eventOf))])
    (errorsNamed : errors.length ≤ 1 ∧ named "usage" errors = [] ∧
      named "error" errors = errors ∧ named "done" errors = [])
    (exited : state.generatorCancelled = false → ∃ exit, state.exit = some exit ∧
      (state.channel.body Item.terminates).filterMap Item.eventOf = state.yielded ∧
      errors = exit.errors) :
    OutputProtocol turnId model computeCostUsdMicro state := by
  have goOn : ∀ item ∈ state.channel.body Item.terminates, item.terminates = false := by
    intro item member
    simpa using List.mem_takeWhile_imp (p := fun item => !Item.terminates item) member
  obtain ⟨short, usage, error, done⟩ := errorsNamed
  refine ⟨_, _, _, errors, records, shuffle_itemRecords _ goOn, sent.events_prefix,
    sent.permissions_sublist, exited, ?_, ?_, short, ?_⟩
  · rw [records, named_append, named_append, usage, named_usage_itemRecords, List.append_nil]
    exact List.append_nil _
  · rw [records, named_append, named_append, error, named_itemRecords "error" (Or.inl rfl) _ goOn]
    exact List.append_nil _
  · rw [records, named_append, named_append, done, named_itemRecords "done" (Or.inr rfl) _ goOn]
    rfl

/-- A generator that has finished has followed the protocol. -/
theorem StreamInvariant.outputProtocol
    (invariant : StreamInvariant turnId model computeCostUsdMicro state)
    (finished : state.generator = .finished) :
    OutputProtocol turnId model computeCostUsdMicro state := by
  obtain ⟨sent, delivered⟩ := invariant
  have left := delivered.left (by rw [finished]; decide)
  have records := delivered.records
  rw [if_pos finished, delivered.finalText] at records
  cases cancelled : state.generatorCancelled with
  | true =>
    rw [cancelled, if_pos rfl] at left
    refine outputProtocol_of_body sent [] ?_ ⟨Nat.zero_le 1, rfl, rfl, rfl⟩ ?_
    · rw [records, left.body_eq, List.append_nil]
    · intro notCancelled
      rw [cancelled] at notCancelled
      cases notCancelled
  | false =>
    rw [cancelled, if_neg (by decide)] at left
    obtain ⟨last, ends, read⟩ := left
    obtain ⟨exit, exits, events, errors⟩ :=
      sent.exit_of_ended model computeCostUsdMicro ends read
    have noEvent : last.eventOf = none := by
      cases last <;> first | rfl | cases ends
    refine outputProtocol_of_body sent exit.errors ?_ exit.errors_cases fun _ =>
      ⟨exit, exits, events, rfl⟩
    rw [records, read, List.flatMap_append, List.filterMap_append, List.flatMap_singleton, errors,
      List.filterMap_cons_none noEvent, List.filterMap_nil, List.append_nil]

end Steps

/-- In every run of the runner's task, the broker's task, the callers of the broker, aborts and
the generator, a generator that has finished has followed the protocol. -/
theorem stream_output_protocol (actions : List StreamAction) :
    Always (streamStep turnId model computeCostUsdMicro)
      (fun state => state.generator = .finished →
        OutputProtocol turnId model computeCostUsdMicro state) {} actions := by
  have invariant : Always (streamStep turnId model computeCostUsdMicro)
      (StreamInvariant turnId model computeCostUsdMicro) {} actions :=
    always_invariant (streamStep turnId model computeCostUsdMicro)
      (fun state action next => streamInvariant_step action) streamInvariant_initial
  exact invariant.mono _ fun state invariant => invariant.outputProtocol

/-- A turn that asks for one permission and is then aborted, up to `done`. -/
example : (exec (streamStep "turn_0" none fun _ _ _ _ => 0) {}
    [.brokerStarts, .runnerStarts, .runnerYields (.streamDelta (some "a")), .generatorReads,
      .requestDecision "call" "shell" .null, .brokerForwards, .generatorReads, .abort,
      .runnerExits .cancelled, .cancelTurn, .generatorReads, .brokerStops,
      .brokerAwaited]).map (fun state => (state.generator, state.records.map SseEvent.name)) =
    some (.finished, ["delta", "permission_request", "error", "done"]) := by
  decide

end LiteHorse.Web.TurnStream
