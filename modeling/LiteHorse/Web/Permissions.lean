/-
This file models the permission broker: the requests of the turns of a process, the decisions
that the HTTP handler resolves them with, and the channel on which a decision reaches the
brokers of the other processes.

A request is registered in the state of its turn, which `cancel_turn` takes out of the registry,
and stays there until its first waiter goes on. `decisions_reach_waiters` says what holds in
every run of any number of processes. Cancelling is a matter of one process: a request of another
process can still be decided.
-/

import LiteHorse.Library.Futures
import LiteHorse.Library.Runs
import LiteHorse.Web.TurnStream

namespace LiteHorse.Web.Permissions

open Futures Python Runs TurnStream

/-! ### The broker of one process -/

abbrev StateId := Nat

abbrev RequestId := Nat

abbrev WaiterId := Nat

/-- A `_TurnState`. The turn it was made for is not among its fields in the code. -/
structure TurnState where
  turnId : String
  requests : String → Option RequestId
  queue : List RequestId

/-- A running `request_decision`, with the state that its `finally` block removes the request
from; a call that has found the request there has none. -/
structure Waiter where
  turnId : String
  toolCallId : String
  request : RequestId
  home : Option StateId
  /-- The task was cancelled and will see it when it goes on. -/
  interrupted : Bool

/-- The turn of a request and its data. -/
abbrev Label := String × PermissionRequest

structure Broker where
  turns : String → Option StateId
  states : StateId → TurnState
  requests : Table RequestId Label String
  waiters : WaiterId → Option Waiter
  nextState : StateId
  nextRequest : RequestId

namespace Broker

variable (broker : Broker)

def initial : Broker where
  turns := fun _ => none
  states := fun _ => { turnId := "", requests := fun _ => none, queue := [] }
  requests := fun _ => none
  waiters := fun _ => none
  nextState := 0
  nextRequest := 0

/-- `self._turns.setdefault(turn_id, _TurnState())` -/
def setDefault (turnId : String) : Broker × StateId :=
  match broker.turns turnId with
  | some state => (broker, state)
  | none =>
    ({ broker with
        turns := Function.update broker.turns turnId (some broker.nextState)
        states := Function.update broker.states broker.nextState
          { turnId, requests := fun _ => none, queue := [] }
        nextState := broker.nextState + 1 },
      broker.nextState)

/-- A new request in a state, and its first waiter. -/
def register (state : StateId) (waiter : WaiterId) (turnId : String)
    (request : PermissionRequest) : Broker :=
  let home := broker.states state
  { broker with
    states := Function.update broker.states state
      { home with
        requests := Function.update home.requests request.toolCallId (some broker.nextRequest)
        queue := home.queue ++ [broker.nextRequest] }
    requests := Function.update broker.requests broker.nextRequest
      (some { label := (turnId, request), future := .pending })
    waiters := Function.update broker.waiters waiter
      (some { turnId, toolCallId := request.toolCallId, request := broker.nextRequest,
              home := some state, interrupted := false })
    nextRequest := broker.nextRequest + 1 }

/-- A waiter for a request that is there already. -/
def join (waiter : WaiterId) (turnId toolCallId : String) (request : RequestId) : Broker :=
  { broker with
    waiters := Function.update broker.waiters waiter
      (some { turnId, toolCallId, request, home := none, interrupted := false }) }

/-- `request_decision`, up to the point where it waits. -/
def requestDecision (waiter : WaiterId) (turnId : String) (request : PermissionRequest) : Broker :=
  let found := broker.setDefault turnId
  match (found.1.states found.2).requests request.toolCallId with
  | some earlier => found.1.join waiter turnId request.toolCallId earlier
  | none => found.1.register found.2 waiter turnId request

/-- `pending_events`, which takes the next request of the queue if there is one. -/
def pendingEvents (turnId : String) : Broker :=
  let found := broker.setDefault turnId
  let state := found.1.states found.2
  { found.1 with
    states := Function.update found.1.states found.2 { state with queue := state.queue.tail } }

/-- The request that a decision is for, unless it is decided or cancelled. -/
def undecided (turnId toolCallId : String) : Option (RequestId × Cell Label String) :=
  (broker.turns turnId).bind fun state =>
    ((broker.states state).requests toolCallId).bind fun request =>
      (broker.requests request).bind fun cell =>
        match cell.future with
        | .pending => some (request, cell)
        | _ => none

/-- `_resolve_local`, with the request that has been decided. -/
def resolveLocal (turnId toolCallId decision : String) : Broker × Option RequestId :=
  match broker.undecided turnId toolCallId with
  | none => (broker, none)
  | some (request, cell) =>
    ({ broker with
        requests := Function.update broker.requests request
          (some { cell with future := .result decision }) },
      some request)

/-- `cancel_turn` -/
def cancelTurn (turnId : String) : Broker :=
  match broker.turns turnId with
  | none => broker
  | some state =>
    { broker with
      turns := Function.update broker.turns turnId none
      requests := cancelAll (fun request cell =>
        (broker.states state).requests cell.label.2.toolCallId = some request) broker.requests }

/-- The task of a waiter is cancelled, which cancels the future it waits for. -/
def cancelTask (waiter : WaiterId) : Option Broker :=
  (broker.waiters waiter).map fun running =>
    { broker with
      requests := cancelAll (fun request _ => request = running.request) broker.requests
      waiters := Function.update broker.waiters waiter (some { running with interrupted := true }) }

/-- The broker once a waiter has left: the first one removes the request. -/
def leave (waiter : WaiterId) (running : Waiter) : Broker :=
  { broker with
    states :=
      match running.home with
      | none => broker.states
      | some state =>
        Function.update broker.states state
          { broker.states state with
            requests :=
              Function.update (broker.states state).requests running.toolCallId none }
    waiters := Function.update broker.waiters waiter none }

/-- A waiter whose future is done goes on, and returns a decision or raises. -/
def wake (waiter : WaiterId) : Option (Broker × Waiter × Option String) :=
  (broker.waiters waiter).bind fun running =>
    (broker.requests running.request).bind fun cell =>
      match cell.future with
      | .pending => none
      | .cancelled => some (broker.leave waiter running, running, none)
      | .result decision =>
        some (broker.leave waiter running, running,
          if running.interrupted then none else some decision)

end Broker

/-! ### The processes -/

/-- What `resolve` is called with, and what it publishes. -/
structure Message where
  turnId : String
  toolCallId : String
  decision : String
deriving DecidableEq

/-- `_VALID_DECISIONS` -/
def validDecisions : List String := ["allow", "deny"]

section System

variable (Process : Type)

/-- A decision that `request_decision` has returned to its caller. -/
structure Answer where
  process : Process
  request : RequestId
  message : Message

/-- A call of `cancel_turn`, with the brokers as it finds them. -/
structure Cut where
  process : Process
  turnId : String
  brokers : Process → Broker

/-- The brokers and the channel, and what has happened so far. -/
structure System where
  brokers : Process → Broker
  published : List Message
  /-- What `resolve` was called with. -/
  asked : List Message
  /-- The requests that were given a decision. -/
  settled : List (Process × RequestId)
  /-- Those that a call of `resolve` has returned `True` for. -/
  accepted : List (Process × RequestId)
  returned : List (Answer Process)
  cuts : List (Cut Process)

inductive Event where
  | requestDecision (process : Process) (waiter : WaiterId) (turnId : String)
      (request : PermissionRequest)
  | pendingEvents (process : Process) (turnId : String)
  | resolve (process : Process) (message : Message)
  /-- The subscriber of a process gets a message. -/
  | deliver (process : Process) (message : Message)
  | cancelTurn (process : Process) (turnId : String)
  | cancelTask (process : Process) (waiter : WaiterId)
  | wake (process : Process) (waiter : WaiterId)

end System

section Step

variable {Process : Type}

def System.initial : System Process where
  brokers := fun _ => .initial
  published := []
  asked := []
  settled := []
  accepted := []
  returned := []
  cuts := []

variable [DecidableEq Process] (hasRedis : Bool) (state : System Process)

def System.setBroker (process : Process) (broker : Broker) : System Process :=
  { state with brokers := Function.update state.brokers process broker }

/-- A decision is applied in one process. -/
def System.decide (process : Process) (message : Message) : System Process × Option RequestId :=
  let resolved := (state.brokers process).resolveLocal message.turnId message.toolCallId
    message.decision
  ({ state.setBroker process resolved.1 with
      settled := state.settled ++ resolved.2.toList.map fun request => (process, request) },
    resolved.2)

/-- `resolve`, of a decision that is valid. -/
def System.resolve (process : Process) (message : Message) : System Process :=
  let delivered := state.decide process message
  { delivered.1 with
    asked := state.asked ++ [message]
    accepted := state.accepted ++ delivered.2.toList.map fun request => (process, request)
    published :=
      if delivered.2.isNone && hasRedis then state.published ++ [message] else state.published }

def systemStep : Event Process → Option (System Process)
  | .requestDecision process waiter turnId request =>
    if ((state.brokers process).waiters waiter).isSome then none
    else some (state.setBroker process
      ((state.brokers process).requestDecision waiter turnId request))
  | .pendingEvents process turnId =>
    some (state.setBroker process ((state.brokers process).pendingEvents turnId))
  | .resolve process message =>
    if message.decision ∈ validDecisions then some (state.resolve hasRedis process message)
    else some state
  | .deliver process message =>
    if message ∈ state.published then some (state.decide process message).1 else none
  | .cancelTurn process turnId =>
    some { state.setBroker process ((state.brokers process).cancelTurn turnId) with
      cuts := state.cuts ++ [{ process, turnId, brokers := state.brokers }] }
  | .cancelTask process waiter =>
    ((state.brokers process).cancelTask waiter).map (state.setBroker process)
  | .wake process waiter =>
    ((state.brokers process).wake waiter).map fun woken =>
      { state.setBroker process woken.1 with
        returned := state.returned ++ woken.2.2.toList.map fun decision =>
          { process, request := woken.2.1.request,
            message := { turnId := woken.2.1.turnId, toolCallId := woken.2.1.toolCallId,
                         decision } } }

end Step

/-! ### What is promised -/

/-- What holds of the decisions that were returned. `sees` says for which processes a call of
`cancel_turn` counts. -/
structure Faithful {Process : Type} (sees : Process → Process → Prop) (state : System Process) :
    Prop where
  asked : ∀ answer ∈ state.returned, answer.message ∈ state.asked
  settledOnce : state.settled.Nodup
  acceptedOnce : state.accepted.Nodup
  /-- A request that was registered before the cut returns what it had been given by then. -/
  cut : ∀ cut ∈ state.cuts, ∀ answer ∈ state.returned, sees cut.process answer.process →
    answer.message.turnId = cut.turnId →
      ∀ cell, (cut.brokers answer.process).requests answer.request = some cell →
        cell.future = .result answer.message.decision

/-! ### What the steps keep in one process -/

structure BrokerInvariant (broker : Broker) : Prop where
  stateFresh : ∀ turnId state, broker.turns turnId = some state → state < broker.nextState
  stateTurn : ∀ turnId state, broker.turns turnId = some state →
    (broker.states state).turnId = turnId
  requestFresh : ∀ request, broker.nextRequest ≤ request → broker.requests request = none
  /-- A state lists its requests by their tool calls. -/
  listed : ∀ state toolCallId request,
    (broker.states state).requests toolCallId = some request →
      ∃ cell, broker.requests request = some cell ∧
        cell.label.1 = (broker.states state).turnId ∧ cell.label.2.toolCallId = toolCallId
  /-- A request that waits for its decision is where `resolve` looks for it. -/
  pendingListed : ∀ request cell, broker.requests request = some cell → cell.future = .pending →
    ∃ state, broker.turns cell.label.1 = some state ∧
      (broker.states state).requests cell.label.2.toolCallId = some request
  waiting : ∀ waiter running, broker.waiters waiter = some running →
    ∃ cell, broker.requests running.request = some cell ∧
      cell.label.1 = running.turnId ∧ cell.label.2.toolCallId = running.toolCallId
  /-- The first waiter finds its own request when it removes it. -/
  home : ∀ waiter running state, broker.waiters waiter = some running →
    running.home = some state → state < broker.nextState ∧
      (broker.states state).requests running.toolCallId = some running.request
  oneFirst : ∀ waiter running other otherRunning, broker.waiters waiter = some running →
    broker.waiters other = some otherRunning → running.home.isSome → otherRunning.home.isSome →
      running.request = otherRunning.request → waiter = other

section Brokers

variable {broker : Broker} {turnId toolCallId decision : String} {waiter : WaiterId}
  {request : PermissionRequest} {state : StateId}

theorem brokerInvariant_initial : BrokerInvariant .initial where
  stateFresh := fun _ _ same => nomatch same
  stateTurn := fun _ _ same => nomatch same
  requestFresh := fun _ _ => rfl
  listed := fun _ _ _ same => nomatch same
  pendingListed := fun _ _ same => nomatch same
  waiting := fun _ _ same => nomatch same
  home := fun _ _ _ same => nomatch same
  oneFirst := fun _ _ _ _ same => nomatch same

theorem BrokerInvariant.registered (invariant : BrokerInvariant broker) {id : RequestId}
    {cell : Cell Label String} (isCell : broker.requests id = some cell) :
    id < broker.nextRequest := by
  by_contra isFresh
  rw [invariant.requestFresh id (not_lt.mp isFresh)] at isCell
  cases isCell

variable (broker turnId) in
/-- The state of a turn, made if there is none. -/
theorem setDefault_turns :
    (broker.setDefault turnId).1.turns turnId = some (broker.setDefault turnId).2 := by
  unfold Broker.setDefault
  cases isState : broker.turns turnId with
  | none => exact Function.update_self ..
  | some state => exact isState

variable (broker turnId) in
theorem setDefault_requests : (broker.setDefault turnId).1.requests = broker.requests := by
  unfold Broker.setDefault
  cases broker.turns turnId with
  | none => rfl
  | some state => rfl

theorem BrokerInvariant.setDefault (invariant : BrokerInvariant broker) (turnId : String) :
    BrokerInvariant (broker.setDefault turnId).1 := by
  unfold Broker.setDefault
  cases isState : broker.turns turnId with
  | some state => exact invariant
  | none =>
    have older : ∀ state < broker.nextState, Function.update broker.states broker.nextState
        { turnId, requests := fun _ => none, queue := [] } state = broker.states state :=
      fun state isOlder => Function.update_of_ne (Nat.ne_of_lt isOlder) ..
    refine {
      stateFresh := fun other state isTurn => ?_
      stateTurn := fun other state isTurn => ?_
      requestFresh := invariant.requestFresh
      listed := fun state toolCallId request isListed => ?_
      pendingListed := fun request cell isCell isPending => ?_
      waiting := invariant.waiting
      home := fun waiter running state isRunning isHome => ?_
      oneFirst := invariant.oneFirst }
    · rcases of_update_some isTurn with ⟨_, rfl⟩ | ⟨_, isTurn⟩
      · exact Nat.lt_succ_self _
      · exact Nat.lt_succ_of_lt (invariant.stateFresh other state isTurn)
    · rcases of_update_some isTurn with ⟨rfl, rfl⟩ | ⟨_, isTurn⟩
      · dsimp only
        rw [Function.update_self]
      · dsimp only
        rw [older state (invariant.stateFresh other state isTurn)]
        exact invariant.stateTurn other state isTurn
    · dsimp only at isListed ⊢
      by_cases same : state = broker.nextState
      · rw [same, Function.update_self] at isListed
        cases isListed
      · rw [Function.update_of_ne same] at isListed ⊢
        exact invariant.listed state toolCallId request isListed
    · obtain ⟨state, isTurn, isListed⟩ := invariant.pendingListed request cell isCell isPending
      have different : cell.label.1 ≠ turnId := by
        intro same
        rw [same, isState] at isTurn
        cases isTurn
      refine ⟨state, (Function.update_of_ne different ..).trans isTurn, ?_⟩
      dsimp only
      rw [older state (invariant.stateFresh _ state isTurn)]
      exact isListed
    · obtain ⟨isOlder, isListed⟩ := invariant.home waiter running state isRunning isHome
      refine ⟨Nat.lt_succ_of_lt isOlder, ?_⟩
      dsimp only
      rw [older state isOlder]
      exact isListed

/-- A change of a state that keeps its turn. -/
theorem turnId_update {states : StateId → TurnState} {changed : TurnState}
    (sameTurn : changed.turnId = (states state).turnId) (other : StateId) :
    (Function.update states state changed other).turnId = (states other).turnId := by
  by_cases same : other = state
  · rw [same, Function.update_self, sameTurn]
  · rw [Function.update_of_ne same]

/-- A change of a queue. -/
theorem BrokerInvariant.setQueue (invariant : BrokerInvariant broker) (state : StateId)
    (queue : List RequestId) :
    BrokerInvariant { broker with
      states := Function.update broker.states state { broker.states state with queue } } := by
  have sameRequests : ∀ other, (Function.update broker.states state
      { broker.states state with queue } other).requests = (broker.states other).requests := by
    intro other
    by_cases same : other = state
    · rw [same, Function.update_self]
    · rw [Function.update_of_ne same]
  exact {
    stateFresh := invariant.stateFresh
    stateTurn := fun turnId other isTurn =>
      (turnId_update (by rfl) other).trans (invariant.stateTurn turnId other isTurn)
    requestFresh := invariant.requestFresh
    listed := fun other toolCallId request isListed => by
      dsimp only at isListed ⊢
      rw [sameRequests] at isListed
      rw [turnId_update (by rfl) other]
      exact invariant.listed other toolCallId request isListed
    pendingListed := fun request cell isCell isPending => by
      obtain ⟨other, isTurn, isListed⟩ := invariant.pendingListed request cell isCell isPending
      refine ⟨other, isTurn, ?_⟩
      dsimp only
      rw [sameRequests]
      exact isListed
    waiting := invariant.waiting
    home := fun waiter running other isRunning isHome => by
      dsimp only
      rw [sameRequests]
      exact invariant.home waiter running other isRunning isHome
    oneFirst := invariant.oneFirst }

/-- A waiter that joins an earlier request has no request to remove. -/
theorem BrokerInvariant.join (invariant : BrokerInvariant broker) {earlier : RequestId}
    (isTurn : broker.turns turnId = some state)
    (isListed : (broker.states state).requests toolCallId = some earlier) :
    BrokerInvariant (broker.join waiter turnId toolCallId earlier) := by
  refine {
    stateFresh := invariant.stateFresh
    stateTurn := invariant.stateTurn
    requestFresh := invariant.requestFresh
    listed := invariant.listed
    pendingListed := invariant.pendingListed
    waiting := fun other running isRunning => ?_
    home := fun other running home isRunning isHome => ?_
    oneFirst := fun other running third thirdRunning isRunning isThird hasHome thirdHome => ?_ }
  · rcases of_update_some isRunning with ⟨_, rfl⟩ | ⟨_, isRunning⟩
    · obtain ⟨cell, isCell, sameTurn, sameCall⟩ := invariant.listed _ _ _ isListed
      exact ⟨cell, isCell, sameTurn.trans (invariant.stateTurn turnId state isTurn), sameCall⟩
    · exact invariant.waiting other running isRunning
  · rcases of_update_some isRunning with ⟨_, rfl⟩ | ⟨_, isRunning⟩
    · cases isHome
    · exact invariant.home other running home isRunning isHome
  · rcases of_update_some isRunning with ⟨_, rfl⟩ | ⟨_, isRunning⟩
    · cases hasHome
    · rcases of_update_some isThird with ⟨_, rfl⟩ | ⟨_, isThird⟩
      · cases thirdHome
      · exact invariant.oneFirst other running third thirdRunning isRunning isThird hasHome
          thirdHome

section Register

variable (broker state waiter turnId request)

/-- The state lists the new request, and otherwise the states list what they did. -/
theorem register_listed_self :
    ((broker.register state waiter turnId request).states state).requests request.toolCallId =
      some broker.nextRequest := by
  unfold Broker.register
  dsimp only
  rw [Function.update_self]
  exact Function.update_self ..

theorem register_listed_of_ne {other : StateId} {toolCallId : String}
    (different : ¬ (other = state ∧ toolCallId = request.toolCallId)) :
    ((broker.register state waiter turnId request).states other).requests toolCallId =
      (broker.states other).requests toolCallId := by
  unfold Broker.register
  dsimp only
  by_cases same : other = state
  · have otherCall : toolCallId ≠ request.toolCallId := fun isCall => different ⟨same, isCall⟩
    rw [same, Function.update_self]
    exact Function.update_of_ne otherCall ..
  · rw [Function.update_of_ne same]

theorem register_turnId (other : StateId) :
    ((broker.register state waiter turnId request).states other).turnId =
      (broker.states other).turnId := turnId_update (by rfl) other

end Register

/-- A new request is listed in the state of its turn, and its waiter is the first. -/
theorem BrokerInvariant.register (invariant : BrokerInvariant broker)
    (isTurn : broker.turns turnId = some state)
    (notListed : (broker.states state).requests request.toolCallId = none) :
    BrokerInvariant (broker.register state waiter turnId request) := by
  have newCell : (broker.register state waiter turnId request).requests broker.nextRequest =
      some { label := (turnId, request), future := .pending } := Function.update_self ..
  have oldCell : ∀ id cell, broker.requests id = some cell →
      (broker.register state waiter turnId request).requests id = some cell := by
    intro id cell isCell
    have different : id ≠ broker.nextRequest := Nat.ne_of_lt (invariant.registered isCell)
    exact (Function.update_of_ne different ..).trans isCell
  have stillListed : ∀ other toolCallId id, (broker.states other).requests toolCallId = some id →
      ((broker.register state waiter turnId request).states other).requests toolCallId =
        some id := by
    intro other toolCallId id isListed
    refine (register_listed_of_ne _ _ _ _ _ fun both => ?_).trans isListed
    rw [both.1, both.2, notListed] at isListed
    cases isListed
  have notNew : ∀ other running, broker.waiters other = some running →
      running.request ≠ broker.nextRequest := by
    intro other running isRunning
    obtain ⟨cell, isCell, _⟩ := invariant.waiting other running isRunning
    exact Nat.ne_of_lt (invariant.registered isCell)
  refine {
    stateFresh := invariant.stateFresh
    stateTurn := fun other otherState isState =>
      (register_turnId ..).trans (invariant.stateTurn other otherState isState)
    requestFresh := fun id isFresh => ?_
    listed := fun other toolCallId id isListed => ?_
    pendingListed := fun id cell isCell isPending => ?_
    waiting := fun other running isRunning => ?_
    home := fun other running home isRunning isHome => ?_
    oneFirst := fun other running third thirdRunning isRunning isThird hasHome thirdHome
      same => ?_ }
  · have different : id ≠ broker.nextRequest := Nat.ne_of_gt isFresh
    exact (Function.update_of_ne different ..).trans
      (invariant.requestFresh id (Nat.le_of_succ_le isFresh))
  · rw [register_turnId]
    by_cases isNew : other = state ∧ toolCallId = request.toolCallId
    · rw [isNew.1, isNew.2, register_listed_self, Option.some.injEq] at isListed
      refine ⟨_, isListed ▸ newCell, ?_, isNew.2.symm⟩
      rw [isNew.1]
      exact (invariant.stateTurn turnId state isTurn).symm
    · rw [register_listed_of_ne _ _ _ _ _ isNew] at isListed
      obtain ⟨cell, isCell, facts⟩ := invariant.listed other toolCallId id isListed
      exact ⟨cell, oldCell id cell isCell, facts⟩
  · rcases of_update_some isCell with ⟨rfl, rfl⟩ | ⟨_, wasCell⟩
    · exact ⟨state, isTurn, register_listed_self ..⟩
    · obtain ⟨other, isState, isListed⟩ := invariant.pendingListed id cell wasCell isPending
      exact ⟨other, isState, stillListed _ _ _ isListed⟩
  · rcases of_update_some isRunning with ⟨_, rfl⟩ | ⟨_, wasRunning⟩
    · exact ⟨_, newCell, rfl, rfl⟩
    · obtain ⟨cell, isCell, facts⟩ := invariant.waiting other running wasRunning
      exact ⟨cell, oldCell _ cell isCell, facts⟩
  · rcases of_update_some isRunning with ⟨_, rfl⟩ | ⟨_, wasRunning⟩
    · rw [← Option.some.inj isHome]
      exact ⟨invariant.stateFresh turnId state isTurn, register_listed_self ..⟩
    · obtain ⟨isOlder, isListed⟩ := invariant.home other running home wasRunning isHome
      exact ⟨isOlder, stillListed _ _ _ isListed⟩
  · rcases of_update_some isRunning with ⟨rfl, rfl⟩ | ⟨_, wasRunning⟩
    · rcases of_update_some isThird with ⟨rfl, rfl⟩ | ⟨_, wasThird⟩
      · rfl
      · exact absurd same.symm (notNew third thirdRunning wasThird)
    · rcases of_update_some isThird with ⟨rfl, rfl⟩ | ⟨_, wasThird⟩
      · exact absurd same (notNew other running wasRunning)
      · exact invariant.oneFirst other running third thirdRunning wasRunning wasThird hasHome
          thirdHome same

/-- What is done to cells that stay under their labels, where no cell becomes pending. The waiters
may leave or be interrupted. -/
theorem BrokerInvariant.change (invariant : BrokerInvariant broker)
    {turns : String → Option StateId} {requests : Table RequestId Label String}
    {waiters : WaiterId → Option Waiter}
    (fewerTurns : ∀ turnId state, turns turnId = some state → broker.turns turnId = some state)
    (evolves : Evolves broker.requests requests)
    (cells : ∀ request later, requests request = some later →
      ∃ cell, broker.requests request = some cell ∧ cell.label = later.label)
    (pending : ∀ request cell, requests request = some cell → cell.future = .pending →
      ∃ state, turns cell.label.1 = some state ∧
        (broker.states state).requests cell.label.2.toolCallId = some request)
    (sameWaiters : ∀ waiter running, waiters waiter = some running →
      ∃ earlier, broker.waiters waiter = some earlier ∧ earlier.turnId = running.turnId ∧
        earlier.toolCallId = running.toolCallId ∧ earlier.request = running.request ∧
          earlier.home = running.home) :
    BrokerInvariant { broker with turns, requests, waiters } := by
  refine {
    stateFresh := fun turnId state isTurn =>
      invariant.stateFresh turnId state (fewerTurns turnId state isTurn)
    stateTurn := fun turnId state isTurn =>
      invariant.stateTurn turnId state (fewerTurns turnId state isTurn)
    requestFresh := fun request isFresh => ?_
    listed := fun state toolCallId request isListed => ?_
    pendingListed := pending
    waiting := fun waiter running isRunning => ?_
    home := fun waiter running state isRunning isHome => ?_
    oneFirst := fun waiter running other otherRunning isRunning isOther hasHome otherHome same =>
      ?_ }
  · cases isLater : requests request with
    | none => exact isLater
    | some later =>
      obtain ⟨cell, isCell, _⟩ := cells request later isLater
      exact absurd (invariant.registered isCell) (not_lt.mpr isFresh)
  · obtain ⟨cell, isCell, sameTurn, sameCall⟩ := invariant.listed state toolCallId request isListed
    obtain ⟨later, isLater, sameLabel, _⟩ := evolves request cell isCell
    rw [← sameLabel] at sameTurn sameCall
    exact ⟨later, isLater, sameTurn, sameCall⟩
  · obtain ⟨earlier, isEarlier, sameTurn, sameCall, sameRequest, _⟩ :=
      sameWaiters waiter running isRunning
    obtain ⟨cell, isCell, cellTurn, cellCall⟩ := invariant.waiting waiter earlier isEarlier
    obtain ⟨later, isLater, sameLabel, _⟩ := evolves _ cell isCell
    rw [← sameLabel] at cellTurn cellCall
    exact ⟨later, sameRequest ▸ isLater, cellTurn.trans sameTurn, cellCall.trans sameCall⟩
  · obtain ⟨earlier, isEarlier, _, sameCall, sameRequest, sameHome⟩ :=
      sameWaiters waiter running isRunning
    have facts := invariant.home waiter earlier state isEarlier (sameHome.trans isHome)
    rwa [sameCall, sameRequest] at facts
  · obtain ⟨earlier, isEarlier, _, _, sameRequest, sameHome⟩ := sameWaiters waiter running isRunning
    obtain ⟨third, isThird, _, _, thirdRequest, thirdHome⟩ := sameWaiters other otherRunning isOther
    exact invariant.oneFirst waiter earlier other third isEarlier isThird (sameHome ▸ hasHome)
      (thirdHome ▸ otherHome) (sameRequest.trans (same.trans thirdRequest.symm))

/-! ### The operations -/

theorem undecided_some {id : RequestId} {cell : Cell Label String}
    (isUndecided : broker.undecided turnId toolCallId = some (id, cell)) :
    broker.requests id = some cell ∧ cell.future = .pending ∧
      ∃ state, broker.turns turnId = some state ∧
        (broker.states state).requests toolCallId = some id := by
  unfold Broker.undecided at isUndecided
  obtain ⟨state, isTurn, isUndecided⟩ := Option.bind_eq_some_iff.mp isUndecided
  obtain ⟨request, isListed, isUndecided⟩ := Option.bind_eq_some_iff.mp isUndecided
  obtain ⟨found, isCell, isUndecided⟩ := Option.bind_eq_some_iff.mp isUndecided
  split at isUndecided
  next isPending =>
    cases isUndecided
    exact ⟨isCell, isPending, state, isTurn, isListed⟩
  next => cases isUndecided

variable (decision) in
theorem resolveLocal_of_none (noneFound : broker.undecided turnId toolCallId = none) :
    broker.resolveLocal turnId toolCallId decision = (broker, none) := by
  unfold Broker.resolveLocal
  rw [noneFound]

variable (turnId toolCallId decision) in
/-- A decision that is applied is applied to a pending request of the turn and the tool call. -/
theorem resolveLocal_cases (invariant : BrokerInvariant broker) :
    broker.resolveLocal turnId toolCallId decision = (broker, none) ∨
      ∃ id cell, broker.requests id = some cell ∧ cell.future = .pending ∧
        cell.label.1 = turnId ∧ cell.label.2.toolCallId = toolCallId ∧
          broker.resolveLocal turnId toolCallId decision =
            ({ broker with
                requests := Function.update broker.requests id
                  (some { cell with future := .result decision }) },
              some id) := by
  cases isUndecided : broker.undecided turnId toolCallId with
  | none => exact Or.inl (resolveLocal_of_none decision isUndecided)
  | some found =>
    obtain ⟨id, cell⟩ := found
    obtain ⟨isCell, isPending, state, isTurn, isListed⟩ := undecided_some isUndecided
    obtain ⟨listedCell, isListedCell, sameTurn, sameCall⟩ := invariant.listed _ _ _ isListed
    rw [isCell, Option.some.injEq] at isListedCell
    rw [← isListedCell] at sameTurn sameCall
    refine Or.inr ⟨id, cell, isCell, isPending,
      sameTurn.trans (invariant.stateTurn turnId state isTurn), sameCall, ?_⟩
    unfold Broker.resolveLocal
    rw [isUndecided]

/-- A pending request is given its decision. -/
theorem BrokerInvariant.settle (invariant : BrokerInvariant broker) {id : RequestId}
    {cell : Cell Label String} (isCell : broker.requests id = some cell)
    (isPending : cell.future = .pending) (decision : String) :
    BrokerInvariant { broker with
      requests := Function.update broker.requests id
        (some { cell with future := .result decision }) } := by
  refine invariant.change (fun _ _ isTurn => isTurn) (evolves_settle isCell isPending _)
    (fun other later isLater => ?_) (fun other later isLater stillPending => ?_)
    fun _ running isRunning => ⟨running, isRunning, rfl, rfl, rfl, rfl⟩
  · rcases of_update_some isLater with ⟨rfl, rfl⟩ | ⟨_, wasCell⟩
    · exact ⟨cell, isCell, rfl⟩
    · exact ⟨later, wasCell, rfl⟩
  · rcases of_update_some isLater with ⟨_, rfl⟩ | ⟨_, wasCell⟩
    · cases stillPending
    · exact invariant.pendingListed other later wasCell stillPending

/-- What an operation that gives no decision does to the requests. -/
structure Quiet (before after : Broker) : Prop where
  invariant : BrokerInvariant after
  evolves : Evolves before.requests after.requests
  noResult : GivesNoResult before.requests after.requests

theorem BrokerInvariant.requestDecision (invariant : BrokerInvariant broker)
    (waiter : WaiterId) (turnId : String) (request : PermissionRequest) :
    Quiet broker (broker.requestDecision waiter turnId request) := by
  have isTurn := setDefault_turns broker turnId
  have kept := invariant.setDefault turnId
  have sameRequests := setDefault_requests broker turnId
  unfold Broker.requestDecision
  dsimp only
  split
  next earlier isListed =>
    refine ⟨kept.join isTurn isListed, ?_, ?_⟩
    · rw [← sameRequests]
      exact .refl _
    · rw [← sameRequests]
      exact .refl _
  next notListed =>
    have isFree := kept.requestFresh _ le_rfl
    refine ⟨kept.register isTurn notListed, ?_, ?_⟩
    · rw [← sameRequests]
      exact evolves_register isFree _
    · rw [← sameRequests]
      exact quiet_register

theorem BrokerInvariant.pendingEvents (invariant : BrokerInvariant broker) (turnId : String) :
    Quiet broker (broker.pendingEvents turnId) := by
  have sameRequests := setDefault_requests broker turnId
  refine ⟨(invariant.setDefault turnId).setQueue _ _, ?_, ?_⟩
  · rw [← sameRequests]
    exact .refl _
  · rw [← sameRequests]
    exact .refl _

theorem BrokerInvariant.cancelTask (invariant : BrokerInvariant broker) {after : Broker}
    (isCancelled : broker.cancelTask waiter = some after) : Quiet broker after := by
  obtain ⟨running, isRunning, rfl⟩ := Option.map_eq_some_iff.mp isCancelled
  refine ⟨?_, evolves_cancelAll _, quiet_cancelAll _⟩
  refine invariant.change (fun _ _ isTurn => isTurn) (evolves_cancelAll _)
    (fun _ _ isLater => cell_of_cancelAll isLater) (fun id cell isCell isPending => ?_)
    (fun other otherRunning isOther => ?_)
  · exact invariant.pendingListed id cell (pending_of_cancelAll isCell isPending).1 isPending
  · rcases of_update_some isOther with ⟨rfl, rfl⟩ | ⟨_, wasOther⟩
    · exact ⟨running, isRunning, rfl, rfl, rfl, rfl⟩
    · exact ⟨otherRunning, wasOther, rfl, rfl, rfl, rfl⟩

/-- A request that is still pending belongs to another turn, which keeps its state. -/
theorem BrokerInvariant.cancelTurn (invariant : BrokerInvariant broker) (turnId : String) :
    Quiet broker (broker.cancelTurn turnId) := by
  unfold Broker.cancelTurn
  cases isTurn : broker.turns turnId with
  | none => exact ⟨invariant, .refl _, .refl _⟩
  | some state =>
    refine ⟨?_, evolves_cancelAll _, quiet_cancelAll _⟩
    refine invariant.change (fun other otherState isOther => ?_) (evolves_cancelAll _)
      (fun _ _ isLater => cell_of_cancelAll isLater) (fun id cell isCell isPending => ?_)
      (fun _ running isRunning => ⟨running, isRunning, rfl, rfl, rfl, rfl⟩)
    · exact (of_update_none isOther).2
    · obtain ⟨wasCell, notSelected⟩ := pending_of_cancelAll isCell isPending
      obtain ⟨home, isHome, isListed⟩ := invariant.pendingListed id cell wasCell isPending
      refine ⟨home, (Function.update_of_ne (fun same => ?_) ..).trans isHome, isListed⟩
      rw [same, isTurn, Option.some.injEq] at isHome
      rw [← isHome] at isListed
      exact of_decide_eq_false notSelected isListed

/-- A request of the turn that was pending is cancelled. -/
theorem cancelTurn_pending (invariant : BrokerInvariant broker) {id : RequestId}
    {cell : Cell Label String} (isCell : broker.requests id = some cell)
    (isPending : cell.future = .pending) :
    (broker.cancelTurn cell.label.1).requests id = some { cell with future := .cancelled } := by
  obtain ⟨state, isTurn, isListed⟩ := invariant.pendingListed id cell isCell isPending
  unfold Broker.cancelTurn
  rw [isTurn]
  dsimp only
  rw [cancelAll_apply _ isCell, if_pos (decide_eq_true isListed), isPending]
  rfl

section Leave

variable (broker waiter) (running : Waiter)

theorem leave_turnId (other : StateId) :
    ((broker.leave waiter running).states other).turnId = (broker.states other).turnId := by
  unfold Broker.leave
  cases running.home with
  | none => rfl
  | some home => exact turnId_update (by rfl) other

/-- The state that the waiter has made its request in lists it no more. -/
theorem leave_listed (other : StateId) (toolCallId : String) :
    ((broker.leave waiter running).states other).requests toolCallId =
      if running.home = some other ∧ toolCallId = running.toolCallId then none
      else (broker.states other).requests toolCallId := by
  unfold Broker.leave
  cases running.home with
  | none => rfl
  | some home =>
    dsimp only
    by_cases same : other = home
    · rw [same, Function.update_self]
      dsimp only
      by_cases sameCall : toolCallId = running.toolCallId
      · rw [sameCall, Function.update_self, if_pos ⟨rfl, rfl⟩]
      · rw [Function.update_of_ne sameCall, if_neg fun both => sameCall both.2]
    · rw [Function.update_of_ne same, if_neg fun both => same (Option.some.inj both.1).symm]

end Leave

/-- The first waiter removes its own request, which is done. -/
theorem BrokerInvariant.leave (invariant : BrokerInvariant broker) {running : Waiter}
    {cell : Cell Label String} (isRunning : broker.waiters waiter = some running)
    (isCell : broker.requests running.request = some cell) (isDone : cell.future ≠ .pending) :
    BrokerInvariant (broker.leave waiter running) := by
  have stillListed : ∀ other toolCallId id,
      (broker.states other).requests toolCallId = some id →
        (running.home.isSome → id ≠ running.request) →
        ((broker.leave waiter running).states other).requests toolCallId = some id := by
    intro other toolCallId id isListed different
    rw [leave_listed, if_neg]
    · exact isListed
    · rintro ⟨isHome, rfl⟩
      have ownListed := (invariant.home waiter running other isRunning isHome).2
      rw [isListed, Option.some.injEq] at ownListed
      exact different (by rw [isHome]; rfl) ownListed
  refine {
    stateFresh := invariant.stateFresh
    stateTurn := fun turnId state isTurn =>
      (leave_turnId ..).trans (invariant.stateTurn turnId state isTurn)
    requestFresh := invariant.requestFresh
    listed := fun other toolCallId id isListed => ?_
    pendingListed := fun id other isOther isPending => ?_
    waiting := fun other otherRunning isOther =>
      invariant.waiting other otherRunning (of_update_none isOther).2
    home := fun other otherRunning home isOther isHome => ?_
    oneFirst := fun other otherRunning third thirdRunning isOther isThird =>
      invariant.oneFirst other otherRunning third thirdRunning (of_update_none isOther).2
        (of_update_none isThird).2 }
  · rw [leave_listed] at isListed
    rw [leave_turnId]
    split at isListed
    · cases isListed
    · exact invariant.listed other toolCallId id isListed
  · obtain ⟨state, isTurn, isListed⟩ := invariant.pendingListed id other isOther isPending
    refine ⟨state, isTurn, stillListed _ _ _ isListed fun _ same => isDone ?_⟩
    have sameCell := isCell.symm.trans (same ▸ isOther)
    rw [Option.some.inj sameCell]
    exact isPending
  · obtain ⟨different, wasOther⟩ := of_update_none isOther
    obtain ⟨isOlder, isListed⟩ := invariant.home other otherRunning home wasOther isHome
    refine ⟨isOlder, stillListed _ _ _ isListed fun hasHome same => different ?_⟩
    refine invariant.oneFirst other otherRunning waiter running wasOther isRunning ?_ hasHome same
    rw [isHome]
    rfl

theorem wake_cases {after : Broker} {running : Waiter} {returned : Option String}
    (isWoken : broker.wake waiter = some (after, running, returned)) :
    after = broker.leave waiter running ∧ broker.waiters waiter = some running ∧
      ∃ cell, broker.requests running.request = some cell ∧ cell.future ≠ .pending ∧
        ∀ decision, returned = some decision → cell.future = .result decision := by
  obtain ⟨found, isRunning, isWoken⟩ := Option.bind_eq_some_iff.mp isWoken
  obtain ⟨cell, isCell, isWoken⟩ := Option.bind_eq_some_iff.mp isWoken
  split at isWoken
  next => cases isWoken
  next isCancelled =>
    cases isWoken
    refine ⟨rfl, isRunning, cell, isCell, ?_, fun decision same => nomatch same⟩
    rw [isCancelled]
    exact fun same => nomatch same
  next given isGiven =>
    cases isWoken
    refine ⟨rfl, isRunning, cell, isCell, ?_, fun decision same => ?_⟩
    · rw [isGiven]
      exact fun same => nomatch same
    · split at same
      · cases same
      · rw [isGiven, Option.some.inj same]

theorem BrokerInvariant.wake (invariant : BrokerInvariant broker) {after : Broker}
    {running : Waiter} {returned : Option String}
    (isWoken : broker.wake waiter = some (after, running, returned)) : Quiet broker after := by
  obtain ⟨rfl, isRunning, cell, isCell, isDone, _⟩ := wake_cases isWoken
  exact ⟨invariant.leave isRunning isCell isDone, .refl _, .refl _⟩

/-- What a waiter returns is what its request was given. -/
theorem wake_returned (invariant : BrokerInvariant broker) {after : Broker} {running : Waiter}
    (isWoken : broker.wake waiter = some (after, running, some decision)) :
    ∃ cell, broker.requests running.request = some cell ∧ cell.future = .result decision ∧
      cell.label.1 = running.turnId ∧ cell.label.2.toolCallId = running.toolCallId := by
  obtain ⟨_, isRunning, cell, isCell, _, isGiven⟩ := wake_cases isWoken
  obtain ⟨other, isOther, labels⟩ := invariant.waiting waiter running isRunning
  rw [isCell, Option.some.injEq] at isOther
  exact ⟨cell, isCell, isGiven decision rfl, isOther ▸ labels⟩

end Brokers

/-! ### What the steps keep in the system -/

section Systems

variable {Process : Type} {state : System Process}

structure SystemInvariant (state : System Process) : Prop where
  broker : ∀ process, BrokerInvariant (state.brokers process)
  published : ∀ message ∈ state.published, message ∈ state.asked
  decided : ∀ process request cell decision,
    (state.brokers process).requests request = some cell → cell.future = .result decision →
      ⟨cell.label.1, cell.label.2.toolCallId, decision⟩ ∈ state.asked
  settledDone : ∀ settled ∈ state.settled, ∃ cell decision,
    (state.brokers settled.1).requests settled.2 = some cell ∧ cell.future = .result decision
  settledOnce : state.settled.Nodup
  accepted : state.accepted.Sublist state.settled
  returned : ∀ answer ∈ state.returned, ∃ cell,
    (state.brokers answer.process).requests answer.request = some cell ∧
      cell.future = .result answer.message.decision ∧ cell.label.1 = answer.message.turnId ∧
        cell.label.2.toolCallId = answer.message.toolCallId
  evolved : ∀ cut ∈ state.cuts, ∀ process,
    Evolves (cut.brokers process).requests (state.brokers process).requests
  /-- A request of the turn that was pending at the cut is cancelled. -/
  cut : ∀ cut ∈ state.cuts, ∀ request cell,
    (cut.brokers cut.process).requests request = some cell → cell.label.1 = cut.turnId →
      cell.future = .pending → ∃ later,
        (state.brokers cut.process).requests request = some later ∧ later.future = .cancelled

theorem systemInvariant_initial : SystemInvariant (System.initial : System Process) where
  broker := fun _ => brokerInvariant_initial
  published := fun _ member => nomatch member
  decided := fun _ _ _ _ same => nomatch same
  settledDone := fun _ member => nomatch member
  settledOnce := List.nodup_nil
  accepted := List.Sublist.refl _
  returned := fun _ member => nomatch member
  evolved := fun _ member => nomatch member
  cut := fun _ member => nomatch member

/-- What was returned is what the request still holds, and a request that was pending at a cut of
its own process is cancelled. -/
theorem SystemInvariant.faithful (invariant : SystemInvariant state) : Faithful Eq state where
  asked := fun answer isAnswer => by
    obtain ⟨cell, isCell, isGiven, sameTurn, sameCall⟩ := invariant.returned answer isAnswer
    have asked := invariant.decided _ _ cell _ isCell isGiven
    rwa [sameTurn, sameCall] at asked
  settledOnce := invariant.settledOnce
  acceptedOnce := invariant.accepted.nodup invariant.settledOnce
  cut := fun cut isCut answer isAnswer sameProcess sameTurn cell wasCell => by
    obtain ⟨now, isNow, isGiven, nowTurn, _⟩ := invariant.returned answer isAnswer
    obtain ⟨later, isLater, sameLabel, isPending | same⟩ :=
      invariant.evolved cut isCut answer.process answer.request cell wasCell
    · rw [← sameProcess] at wasCell isNow isLater
      rw [isNow, Option.some.injEq] at isLater
      have isTurn : cell.label.1 = cut.turnId := by
        rw [← sameLabel, ← isLater, nowTurn, sameTurn]
      obtain ⟨ended, isEnded, isCancelled⟩ :=
        invariant.cut cut isCut _ cell wasCell isTurn isPending
      rw [isNow, Option.some.injEq] at isEnded
      rw [← isEnded, isGiven] at isCancelled
      cases isCancelled
    · rw [isNow, Option.some.injEq] at isLater
      rw [← same, ← isLater]
      exact isGiven

/-- Brokers that evolve, as long as every decision that they give was asked for. -/
theorem SystemInvariant.evolve (invariant : SystemInvariant state) {brokers : Process → Broker}
    (kept : ∀ process, BrokerInvariant (brokers process))
    (evolves : ∀ process, Evolves (state.brokers process).requests (brokers process).requests)
    (decided : ∀ process request cell decision, (brokers process).requests request = some cell →
      cell.future = .result decision →
        ⟨cell.label.1, cell.label.2.toolCallId, decision⟩ ∈ state.asked) :
    SystemInvariant { state with brokers } where
  broker := kept
  published := invariant.published
  decided := decided
  settledDone := fun settled member => by
    obtain ⟨cell, decision, isCell, isGiven⟩ := invariant.settledDone settled member
    obtain ⟨later, isLater, _, still⟩ := (evolves settled.1).result isCell isGiven
    exact ⟨later, decision, isLater, still⟩
  settledOnce := invariant.settledOnce
  accepted := invariant.accepted
  returned := fun answer member => by
    obtain ⟨cell, isCell, isGiven, labels⟩ := invariant.returned answer member
    obtain ⟨later, isLater, sameLabel, still⟩ := (evolves answer.process).result isCell isGiven
    exact ⟨later, isLater, still, sameLabel ▸ labels⟩
  evolved := fun cut member process =>
    (invariant.evolved cut member process).trans (evolves process)
  cut := fun cut member request cell isCell isTurn isPending => by
    obtain ⟨ended, isEnded, isCancelled⟩ :=
      invariant.cut cut member request cell isCell isTurn isPending
    obtain ⟨later, isLater, _, stillPending | same⟩ := evolves cut.process request ended isEnded
    · rw [isCancelled] at stillPending
      cases stillPending
    · exact ⟨later, isLater, same.trans isCancelled⟩

variable [DecidableEq Process] {process : Process}

variable (state process) in
/-- The broker of a process after one was set. -/
theorem brokers_setBroker (broker : Broker) (other : Process) :
    (other = process ∧ (state.setBroker process broker).brokers other = broker) ∨
      (state.setBroker process broker).brokers other = state.brokers other := by
  unfold System.setBroker
  dsimp only
  by_cases same : other = process
  · rw [same, Function.update_self]
    exact Or.inl ⟨rfl, rfl⟩
  · exact Or.inr (Function.update_of_ne same ..)

/-- The broker of one process evolves, with decisions that were asked for. -/
theorem SystemInvariant.changeBroker (invariant : SystemInvariant state) {broker : Broker}
    (kept : BrokerInvariant broker)
    (evolves : Evolves (state.brokers process).requests broker.requests)
    (decided : ∀ request cell decision, broker.requests request = some cell →
      cell.future = .result decision →
        ⟨cell.label.1, cell.label.2.toolCallId, decision⟩ ∈ state.asked) :
    SystemInvariant (state.setBroker process broker) := by
  show SystemInvariant { state with brokers := (state.setBroker process broker).brokers }
  refine invariant.evolve (fun other => ?_) (fun other => ?_) fun other => ?_
  · rcases brokers_setBroker state process broker other with ⟨_, isSet⟩ | isOther
    · rw [isSet]
      exact kept
    · rw [isOther]
      exact invariant.broker other
  · rcases brokers_setBroker state process broker other with ⟨rfl, isSet⟩ | isOther
    · rw [isSet]
      exact evolves
    · rw [isOther]
      exact .refl _
  · rcases brokers_setBroker state process broker other with ⟨_, isSet⟩ | isOther
    · rw [isSet]
      exact decided
    · rw [isOther]
      exact invariant.decided other

theorem SystemInvariant.setBroker (invariant : SystemInvariant state) {broker : Broker}
    (quiet : Quiet (state.brokers process) broker) :
    SystemInvariant (state.setBroker process broker) := by
  refine invariant.changeBroker quiet.invariant quiet.evolves
    fun request cell decision isCell isGiven => ?_
  obtain ⟨earlier, wasCell, wasGiven, sameLabel⟩ :=
    quiet.noResult request cell decision isCell isGiven
  rw [← sameLabel]
  exact invariant.decided process request earlier decision wasCell wasGiven

/-- A pending request is given a decision that was asked for. -/
theorem SystemInvariant.settle (invariant : SystemInvariant state) {id : RequestId}
    {cell : Cell Label String} {decision : String}
    (isCell : (state.brokers process).requests id = some cell) (isPending : cell.future = .pending)
    (wasAsked : ⟨cell.label.1, cell.label.2.toolCallId, decision⟩ ∈ state.asked) :
    SystemInvariant { state.setBroker process
        { state.brokers process with
          requests := Function.update (state.brokers process).requests id
            (some { cell with future := .result decision }) } with
      settled := state.settled ++ [(process, id)] } := by
  have evolved := invariant.changeBroker
    ((invariant.broker process).settle isCell isPending decision)
    (evolves_settle isCell isPending (.result decision))
    fun request later given isLater isGiven => by
      rcases of_update_some isLater with ⟨_, rfl⟩ | ⟨_, wasCell⟩
      · rw [← Future.result.inj isGiven]
        exact wasAsked
      · exact invariant.decided process request later given wasCell isGiven
  have notSettled : (process, id) ∉ state.settled := by
    intro member
    obtain ⟨other, given, isOther, isGiven⟩ := invariant.settledDone _ member
    rw [isCell, Option.some.injEq] at isOther
    rw [← isOther, isPending] at isGiven
    cases isGiven
  have isSettled : Function.update (state.brokers process).requests id
      (some { cell with future := .result decision }) id =
        some { cell with future := .result decision } := Function.update_self ..
  exact { evolved with
    settledDone := fun settled member => by
      rcases List.mem_append.mp member with before | now
      · exact evolved.settledDone settled before
      · rw [List.mem_singleton.mp now]
        refine ⟨{ cell with future := .result decision }, decision, ?_, rfl⟩
        dsimp only [System.setBroker]
        rw [Function.update_self]
        exact isSettled
    settledOnce := by
      refine List.nodup_append.mpr ⟨invariant.settledOnce, List.pairwise_singleton _ _, ?_⟩
      intro settled before now isNow same
      rw [List.mem_singleton.mp isNow] at same
      exact notSettled (same ▸ before)
    accepted := invariant.accepted.trans (List.sublist_append_left _ _) }

variable (process) in
/-- A decision that is applied was asked for. -/
theorem SystemInvariant.decide (invariant : SystemInvariant state) {message : Message}
    (wasAsked : message ∈ state.asked) : SystemInvariant (state.decide process message).1 := by
  unfold System.decide
  dsimp only
  rcases resolveLocal_cases message.turnId message.toolCallId message.decision
    (invariant.broker process) with
      unchanged | ⟨id, cell, isCell, isPending, sameTurn, sameCall, isResolved⟩
  · rw [unchanged, Option.toList_none, List.map_nil, List.append_nil]
    exact invariant.setBroker ⟨invariant.broker process, .refl _, .refl _⟩
  · rw [isResolved]
    refine invariant.settle isCell isPending ?_
    rw [sameTurn, sameCall]
    exact wasAsked

/-- A call of `resolve` asks, decides and publishes. -/
theorem SystemInvariant.resolve (invariant : SystemInvariant state) (hasRedis : Bool)
    (message : Message) : SystemInvariant (state.resolve hasRedis process message) := by
  have asking : SystemInvariant { state with asked := state.asked ++ [message] } :=
    { invariant with
      published := fun other member => List.mem_append_left _ (invariant.published other member)
      decided := fun other request cell decision isCell isGiven =>
        List.mem_append_left _ (invariant.decided other request cell decision isCell isGiven) }
  have isAsked : message ∈ state.asked ++ [message] :=
    List.mem_append_right _ (List.mem_singleton_self message)
  have decided := asking.decide process isAsked
  exact { decided with
    published := fun other member => by
      unfold System.resolve at member
      dsimp only at member
      split at member
      · rcases List.mem_append.mp member with before | now
        · exact List.mem_append_left _ (invariant.published other before)
        · exact List.mem_append_right _ now
      · exact List.mem_append_left _ (invariant.published other member)
    accepted := invariant.accepted.append (List.Sublist.refl _) }

/-- `cancel_turn` is noted with the brokers as it has found them. -/
theorem SystemInvariant.cutTurn (invariant : SystemInvariant state) (turnId : String) :
    SystemInvariant { state.setBroker process ((state.brokers process).cancelTurn turnId) with
      cuts := state.cuts ++ [{ process, turnId, brokers := state.brokers }] } := by
  have quiet := (invariant.broker process).cancelTurn turnId
  have kept := invariant.setBroker quiet
  have isCut : (state.setBroker process ((state.brokers process).cancelTurn turnId)).brokers
      process = (state.brokers process).cancelTurn turnId := Function.update_self ..
  exact { kept with
    evolved := fun cut member other => by
      rcases List.mem_append.mp member with before | now
      · exact kept.evolved cut before other
      · rw [List.mem_singleton.mp now]
        dsimp only
        by_cases same : other = process
        · rw [same, isCut]
          exact quiet.evolves
        · dsimp only [System.setBroker]
          rw [Function.update_of_ne same]
          exact .refl _
    cut := fun cut member request cell isCell isTurn isPending => by
      rcases List.mem_append.mp member with before | now
      · exact kept.cut cut before request cell isCell isTurn isPending
      · rw [List.mem_singleton.mp now] at isCell isTurn ⊢
        dsimp only at isCell isTurn ⊢
        rw [isCut, ← isTurn]
        exact ⟨_, cancelTurn_pending (invariant.broker process) isCell isPending, rfl⟩ }

theorem SystemInvariant.wake (invariant : SystemInvariant state) {waiter : WaiterId}
    {broker : Broker} {running : Waiter} {returned : Option String}
    (isWoken : (state.brokers process).wake waiter = some (broker, running, returned)) :
    SystemInvariant { state.setBroker process broker with
      returned := state.returned ++ returned.toList.map fun decision =>
        { process, request := running.request,
          message := { turnId := running.turnId, toolCallId := running.toolCallId,
                       decision } } } := by
  have quiet := (invariant.broker process).wake isWoken
  have kept := invariant.setBroker quiet
  exact { kept with
    returned := fun answer member => by
      rcases List.mem_append.mp member with before | now
      · exact kept.returned answer before
      · obtain ⟨decision, isReturned, rfl⟩ := List.mem_map.mp now
        rw [Option.mem_toList] at isReturned
        cases isReturned
        obtain ⟨cell, isCell, isGiven, labels⟩ := wake_returned (invariant.broker process) isWoken
        obtain ⟨later, isLater, sameLabel, still⟩ := quiet.evolves.result isCell isGiven
        refine ⟨later, ?_, still, sameLabel ▸ labels⟩
        dsimp only [System.setBroker]
        rw [Function.update_self]
        exact isLater }

variable (hasRedis : Bool)

theorem systemInvariant_step (event : Event Process) {next : System Process}
    (invariant : SystemInvariant state) (taken : systemStep hasRedis state event = some next) :
    SystemInvariant next := by
  cases event with
  | requestDecision process waiter turnId request =>
    simp only [systemStep] at taken
    split at taken
    · cases taken
    · cases taken
      exact invariant.setBroker ((invariant.broker process).requestDecision waiter turnId request)
  | pendingEvents process turnId =>
    cases taken
    exact invariant.setBroker ((invariant.broker process).pendingEvents turnId)
  | resolve process message =>
    simp only [systemStep] at taken
    split at taken
    · cases taken
      exact invariant.resolve hasRedis message
    · cases taken
      exact invariant
  | deliver process message =>
    simp only [systemStep] at taken
    split at taken
    next isPublished =>
      cases taken
      exact invariant.decide process (invariant.published message isPublished)
    next => cases taken
  | cancelTurn process turnId =>
    cases taken
    exact invariant.cutTurn turnId
  | cancelTask process waiter =>
    obtain ⟨broker, isCancelled, rfl⟩ := Option.map_eq_some_iff.mp taken
    exact invariant.setBroker ((invariant.broker process).cancelTask isCancelled)
  | wake process waiter =>
    obtain ⟨⟨broker, running, returned⟩, isWoken, rfl⟩ := Option.map_eq_some_iff.mp taken
    exact invariant.wake isWoken

end Systems

/-- In every run of any number of processes a returned decision was asked for under its turn and
tool call, a request is decided at most once and by at most one call of `resolve`, and a request
that was registered in a process before it cancels the turn returns what it had been given by
then. -/
theorem decisions_reach_waiters {Process : Type} [DecidableEq Process] (hasRedis : Bool)
    (events : List (Event Process)) :
    Always (systemStep hasRedis) (Faithful Eq) (System.initial : System Process) events :=
  (always_invariant _ (fun _ event _ invariant taken =>
    systemInvariant_step hasRedis event invariant taken) systemInvariant_initial).mono _
      fun _ invariant => invariant.faithful

/-- A request of one process is decided after another process has cancelled its turn. -/
theorem cancel_stays_in_its_process :
    ¬ ∀ (Process : Type) [DecidableEq Process] (hasRedis : Bool) (events : List (Event Process)),
        Always (systemStep hasRedis) (Faithful fun _ _ => True) (System.initial : System Process)
          events := by
  intro assumed
  have always := assumed Bool true
    [.requestDecision true 0 "turn-1" { toolCallId := "call-1", tool := "memory", args := .null },
      .cancelTurn false "turn-1", .resolve true ⟨"turn-1", "call-1", "allow"⟩, .wake true 0]
  have last := ((((always.2 _ rfl).2 _ rfl).2 _ rfl).2 _ rfl).head
  have given :=
    last.cut _ (List.mem_singleton_self _) _ (List.mem_singleton_self _) trivial rfl _ rfl
  cases given

end LiteHorse.Web.Permissions
