/-
This file is about who controls a turn. The routes that abort a turn and that decide its tool
calls take any authenticated user: the registry and the broker know turns by their ids and nothing
of the users who have started them.

`owner_controls_iff` says when a request of another user leaves a turn as it is: when the request
finds nothing of the turn to act on.
-/

import LiteHorse.Web.Permissions

namespace LiteHorse.Web.TurnOwner

open Futures Permissions Runs

/-! ### The registry of turns -/

/-- An asyncio task, with how often it was asked to stop. -/
structure TurnTask where
  done : Bool
  cancels : Nat

/-- A `_TurnHandle`, without its queue and usage. -/
structure TurnHandle where
  task : Option TurnTask
  aborted : Bool

/-- `TurnRegistry.abort`, of a turn that is there. -/
def TurnHandle.abort (handle : TurnHandle) : TurnHandle where
  task := handle.task.map fun task =>
    if task.done then task else { task with cancels := task.cancels + 1 }
  aborted := true

section Routes

variable (Process User : Type)

/-- The turns of all processes. The code keeps no record of the users who have started them. -/
structure Turns where
  system : System Process
  registries : Process → String → Option TurnHandle
  startedBy : String → Option User

inductive TurnEvent where
  /-- `registry.new()` for a turn of a user, whose id is fresh. -/
  | start (process : Process) (user : User) (turnId : String)
  | spawn (process : Process) (turnId : String)
  | taskDone (process : Process) (turnId : String)
  | remove (process : Process) (turnId : String)
  /-- What the turns and the subscribers do with the broker. -/
  | broker (event : Event Process)
  | postDecision (process : Process) (user : User) (message : Message)
  | postAbort (process : Process) (user : User) (turnId : String)

end Routes

section Step

variable {Process User : Type} [DecidableEq Process] (hasRedis : Bool)

def Turns.initial : Turns Process User where
  system := .initial
  registries := fun _ _ => none
  startedBy := fun _ => none

/-- A handle is changed in the registry of a process. -/
def Turns.setHandle (turns : Turns Process User) (process : Process) (turnId : String)
    (handle : Option TurnHandle) : Turns Process User :=
  { turns with
    registries := Function.update turns.registries process
      (Function.update (turns.registries process) turnId handle) }

/-- `broker.cancel_turn` -/
def cancelBroker (system : System Process) (process : Process) (turnId : String) :
    System Process :=
  { system.setBroker process ((system.brokers process).cancelTurn turnId) with
    cuts := system.cuts ++ [{ process, turnId, brokers := system.brokers }] }

/-- `post_abort`: what is not in the registry is cancelled in the broker too. -/
def postAbort (turns : Turns Process User) (process : Process) (turnId : String) :
    Turns Process User :=
  { turns.setHandle process turnId ((turns.registries process turnId).map TurnHandle.abort) with
    system := cancelBroker turns.system process turnId }

def turnStep (turns : Turns Process User) : TurnEvent Process User → Option (Turns Process User)
  | .start process user turnId =>
    if (turns.startedBy turnId).isSome then none
    else some { turns.setHandle process turnId (some { task := none, aborted := false }) with
      startedBy := Function.update turns.startedBy turnId (some user) }
  | .spawn process turnId =>
    (turns.registries process turnId).map fun handle =>
      turns.setHandle process turnId
        (some { handle with task := some { done := false, cancels := 0 } })
  | .taskDone process turnId =>
    (turns.registries process turnId).map fun handle =>
      turns.setHandle process turnId
        (some { handle with task := handle.task.map fun task => { task with done := true } })
  | .remove process turnId => some (turns.setHandle process turnId none)
  | .broker event =>
    (systemStep hasRedis turns.system event).map fun system => { turns with system }
  | .postDecision process _ message =>
    if message.decision ∈ validDecisions then
      some { turns with system := turns.system.resolve hasRedis process message }
    else some turns
  | .postAbort process _ turnId => some (postAbort turns process turnId)

/-! ### What another user may not do -/

/-- A request of a user for a turn that another user has started. -/
def IsForeign (turns : Turns Process User) (turnId : String) : TurnEvent Process User → Prop
  | .postDecision _ user message =>
    message.turnId = turnId ∧ ∃ owner, turns.startedBy turnId = some owner ∧ owner ≠ user
  | .postAbort _ user other =>
    other = turnId ∧ ∃ owner, turns.startedBy turnId = some owner ∧ owner ≠ user
  | _ => False

/-- The handle of the turn is as it was, its pending requests are pending, and no decision for it
was published. -/
structure Untouched (before after : Turns Process User) (turnId : String) : Prop where
  handle : ∀ process, after.registries process turnId = before.registries process turnId
  pending : ∀ process request cell,
    (before.system.brokers process).requests request = some cell → cell.label.1 = turnId →
      cell.future = .pending →
        (after.system.brokers process).requests request = some cell
  published : (after.system.published.filter fun message => message.turnId = turnId) =
    before.system.published.filter fun message => message.turnId = turnId

/-- The step leaves the turns of other users as they are. -/
def OwnersControl (turns : Turns Process User) (event : TurnEvent Process User) : Prop :=
  ∀ next, turnStep hasRedis turns event = some next →
    ∀ turnId, IsForeign turns turnId event → Untouched turns next turnId

/-- The request finds nothing of the other user's turn to act on. -/
def FindsNothing (turns : Turns Process User) : TurnEvent Process User → Prop
  | .postDecision process user message =>
    (∃ owner, turns.startedBy message.turnId = some owner ∧ owner ≠ user) →
      message.decision ∉ validDecisions ∨ (hasRedis = false ∧
        (turns.system.brokers process).undecided message.turnId message.toolCallId = none)
  | .postAbort process user turnId =>
    (∃ owner, turns.startedBy turnId = some owner ∧ owner ≠ user) →
      (∀ handle ∈ turns.registries process turnId,
          handle.aborted = true ∧ ∀ task ∈ handle.task, task.done = true) ∧
        ∀ request cell, (turns.system.brokers process).requests request = some cell →
          cell.label.1 = turnId → cell.future ≠ .pending
  | _ => True

end Step

/-! ### What the steps keep -/

section Invariant

variable {Process User : Type} [DecidableEq Process] {hasRedis : Bool} {turns : Turns Process User}

/-- The brokers only take steps of their own. -/
theorem systemInvariant_turnStep {event : TurnEvent Process User} {next : Turns Process User}
    (invariant : SystemInvariant turns.system) (taken : turnStep hasRedis turns event = some next) :
    SystemInvariant next.system := by
  cases event with
  | start process user turnId =>
    simp only [turnStep] at taken
    split at taken
    · cases taken
    · cases taken
      exact invariant
  | spawn process turnId =>
    obtain ⟨handle, _, rfl⟩ := Option.map_eq_some_iff.mp taken
    exact invariant
  | taskDone process turnId =>
    obtain ⟨handle, _, rfl⟩ := Option.map_eq_some_iff.mp taken
    exact invariant
  | remove process turnId =>
    cases taken
    exact invariant
  | broker event =>
    obtain ⟨system, isNext, rfl⟩ := Option.map_eq_some_iff.mp taken
    exact systemInvariant_step hasRedis event invariant isNext
  | postDecision process user message =>
    simp only [turnStep] at taken
    split at taken
    · cases taken
      exact invariant.resolve hasRedis message
    · cases taken
      exact invariant
  | postAbort process user turnId =>
    cases taken
    exact invariant.cutTurn turnId

/-! ### Requests of other users -/

omit [DecidableEq Process] in
theorem untouched_refl (turnId : String) : Untouched turns turns turnId where
  handle := fun _ => rfl
  pending := fun _ _ _ isCell _ _ => isCell
  published := rfl

/-- A handle that is aborted and has no task left to stop is as it was. -/
theorem abort_eq_iff (handle : TurnHandle) :
    handle.abort = handle ↔
      handle.aborted = true ∧ ∀ task ∈ handle.task, task.done = true := by
  obtain ⟨task, aborted⟩ := handle
  unfold TurnHandle.abort
  rw [TurnHandle.mk.injEq]
  refine ⟨fun ⟨sameTask, isAborted⟩ => ⟨isAborted.symm, fun running isTask => ?_⟩,
    fun ⟨isAborted, isDone⟩ => ⟨?_, isAborted.symm⟩⟩
  · have isSome : task = some running := isTask
    rw [isSome, Option.map_some, Option.some.injEq] at sameTask
    by_contra notDone
    rw [if_neg notDone] at sameTask
    exact absurd (congrArg TurnTask.cancels sameTask) (Nat.succ_ne_self _)
  · cases task with
    | none => rfl
    | some running => exact congrArg some (if_pos (isDone running rfl))

/-- A decision that finds no request reaches the turn through the channel alone. -/
theorem untouched_resolve_of_none {process : Process} {message : Message}
    (noneFound :
      (turns.system.brokers process).undecided message.turnId message.toolCallId = none) :
    Untouched turns { turns with system := turns.system.resolve hasRedis process message }
        message.turnId ↔ hasRedis = false := by
  have unchanged := resolveLocal_of_none message.decision noneFound
  have isPublished : (turns.system.resolve hasRedis process message).published =
      if hasRedis then turns.system.published ++ [message] else turns.system.published := by
    unfold System.resolve System.decide
    rw [unchanged]
    rfl
  have isBrokers : (turns.system.resolve hasRedis process message).brokers =
      turns.system.brokers := by
    unfold System.resolve System.decide
    rw [unchanged]
    exact Function.update_eq_self ..
  refine ⟨fun untouched => ?_, fun isAlone => ⟨fun _ => rfl, ?_, ?_⟩⟩
  · by_contra isWired
    have published := untouched.published
    dsimp only at published
    rw [isPublished, if_pos (Bool.of_not_eq_false isWired), List.filter_append,
      List.append_right_eq_self, List.filter_eq_nil_iff] at published
    exact published message (List.mem_singleton_self message) (decide_eq_true rfl)
  · intro other request cell isCell _ _
    dsimp only
    rw [isBrokers]
    exact isCell
  · dsimp only
    rw [isPublished, isAlone]
    rfl

/-- A decision that finds a request decides it. -/
theorem not_untouched_resolve (invariant : SystemInvariant turns.system) {process : Process}
    {message : Message} {request : RequestId} {cell : Cell Permissions.Label String}
    (isFound : (turns.system.brokers process).undecided message.turnId message.toolCallId =
      some (request, cell)) :
    ¬ Untouched turns { turns with system := turns.system.resolve hasRedis process message }
        message.turnId := by
  intro untouched
  obtain ⟨isCell, isPending, state, isTurn, isListed⟩ := undecided_some isFound
  obtain ⟨listed, isListedCell, sameTurn, _⟩ := (invariant.broker process).listed _ _ _ isListed
  rw [isCell, Option.some.injEq] at isListedCell
  rw [(invariant.broker process).stateTurn _ _ isTurn, ← isListedCell] at sameTurn
  have still := untouched.pending process request cell isCell sameTurn isPending
  unfold System.resolve System.decide System.setBroker Broker.resolveLocal at still
  rw [isFound] at still
  dsimp only at still
  rw [Function.update_self] at still
  dsimp only at still
  rw [Function.update_self, Option.some.injEq] at still
  rw [← still] at isPending
  cases isPending

/-- A decision reaches the turn unless it finds no request and no channel. -/
theorem untouched_resolve_iff (invariant : SystemInvariant turns.system) (process : Process)
    (message : Message) :
    Untouched turns { turns with system := turns.system.resolve hasRedis process message }
        message.turnId ↔
      hasRedis = false ∧
        (turns.system.brokers process).undecided message.turnId message.toolCallId = none := by
  cases isUndecided :
      (turns.system.brokers process).undecided message.turnId message.toolCallId with
  | none =>
    rw [untouched_resolve_of_none isUndecided]
    exact (and_iff_left rfl).symm
  | some found =>
    exact iff_of_false (not_untouched_resolve invariant isUndecided) fun both => nomatch both.2

/-- An abort reaches the turn unless the handle has nothing left to abort and no request waits. -/
theorem untouched_postAbort_iff (invariant : SystemInvariant turns.system) (process : Process)
    (turnId : String) :
    Untouched turns (postAbort turns process turnId) turnId ↔
      (∀ handle ∈ turns.registries process turnId,
          handle.aborted = true ∧ ∀ task ∈ handle.task, task.done = true) ∧
        ∀ request cell, (turns.system.brokers process).requests request = some cell →
          cell.label.1 = turnId → cell.future ≠ .pending := by
  have isHandle : (postAbort turns process turnId).registries process turnId =
      (turns.registries process turnId).map TurnHandle.abort := by
    unfold postAbort Turns.setHandle
    dsimp only
    rw [Function.update_self, Function.update_self]
  have isBroker : ((postAbort turns process turnId).system.brokers process) =
      (turns.system.brokers process).cancelTurn turnId := Function.update_self ..
  refine ⟨fun untouched =>
      ⟨fun handle isThere => ?_, fun request cell isCell isTurn isPending => ?_⟩,
    fun ⟨isOver, noPending⟩ => ⟨fun other => ?_, ?_, rfl⟩⟩
  · have same := untouched.handle process
    rw [isHandle, Option.mem_def.mp isThere, Option.map_some, Option.some.injEq] at same
    exact (abort_eq_iff handle).mp same
  · have still := untouched.pending process request cell isCell isTurn isPending
    rw [isBroker, ← isTurn, cancelTurn_pending (invariant.broker process) isCell isPending,
      Option.some.injEq] at still
    rw [← still] at isPending
    cases isPending
  · by_cases same : other = process
    · rw [same, isHandle]
      cases isThere : turns.registries process turnId with
      | none => rfl
      | some handle => exact congrArg some ((abort_eq_iff handle).mpr (isOver handle isThere))
    · exact congrFun (Function.update_of_ne same ..) turnId
  · intro other request cell isCell isTurn isPending
    by_cases same : other = process
    · exact absurd isPending (noPending request cell (same ▸ isCell) isTurn)
    · exact (congrArg (fun broker : Broker => broker.requests request)
        (Function.update_of_ne same ..)).trans isCell

/-- A step leaves the turns of other users as they are exactly if its request finds nothing of
theirs. -/
theorem ownersControl_iff (invariant : SystemInvariant turns.system)
    (event : TurnEvent Process User) :
    OwnersControl hasRedis turns event ↔ FindsNothing hasRedis turns event := by
  have free (foreign : ∀ turnId, ¬ IsForeign turns turnId event) :
      OwnersControl hasRedis turns event := fun _ _ turnId isForeign =>
    absurd isForeign (foreign turnId)
  cases event with
  | start process user turnId => exact iff_of_true (free fun _ => id) trivial
  | spawn process turnId => exact iff_of_true (free fun _ => id) trivial
  | taskDone process turnId => exact iff_of_true (free fun _ => id) trivial
  | remove process turnId => exact iff_of_true (free fun _ => id) trivial
  | broker event => exact iff_of_true (free fun _ => id) trivial
  | postDecision process user message =>
    by_cases isValid : message.decision ∈ validDecisions
    · have taken : turnStep hasRedis turns (.postDecision process user message) =
          some { turns with system := turns.system.resolve hasRedis process message } :=
        if_pos isValid
      refine ⟨fun controls foreign => Or.inr ?_, ?_⟩
      · exact (untouched_resolve_iff invariant process message).mp
          (controls _ taken _ ⟨rfl, foreign⟩)
      · rintro finds next isNext turnId ⟨rfl, foreign⟩
        rw [taken, Option.some.injEq] at isNext
        rw [← isNext]
        exact (untouched_resolve_iff invariant process message).mpr
          ((finds foreign).resolve_left (not_not_intro isValid))
    · refine iff_of_true (fun next isNext turnId _ => ?_) fun _ => Or.inl isValid
      have taken : turnStep hasRedis turns (.postDecision process user message) = some turns :=
        if_neg isValid
      rw [taken, Option.some.injEq] at isNext
      rw [← isNext]
      exact untouched_refl turnId
  | postAbort process user turnId =>
    refine ⟨fun controls foreign => ?_, ?_⟩
    · exact (untouched_postAbort_iff invariant process turnId).mp (controls _ rfl _ ⟨rfl, foreign⟩)
    · rintro finds next isNext other ⟨rfl, foreign⟩
      cases isNext
      exact (untouched_postAbort_iff invariant process turnId).mpr (finds foreign)

end Invariant

/-- In every run, for turns of any users in any number of processes, the requests of other users
leave a turn as it is exactly if all of them find nothing of it. -/
theorem owner_controls_iff {Process User : Type} [DecidableEq Process] (hasRedis : Bool)
    (events : List (TurnEvent Process User)) :
    StepsMeet (turnStep hasRedis) (OwnersControl hasRedis) .initial events ↔
      StepsMeet (turnStep hasRedis) (FindsNothing hasRedis) .initial events := by
  have preserved : ∀ (turns : Turns Process User) event next, SystemInvariant turns.system →
      turnStep hasRedis turns event = some next → SystemInvariant next.system :=
    fun _ _ _ invariant taken => systemInvariant_turnStep invariant taken
  exact stepsMeet_congr _ preserved (fun _ event invariant => ownersControl_iff invariant event)
    systemInvariant_initial

/-- Bob aborts the turn that Alice has started. -/
theorem stranger_aborts_turn :
    ¬ ∀ (Process User : Type) [DecidableEq Process] (hasRedis : Bool)
        (events : List (TurnEvent Process User)),
        StepsMeet (turnStep hasRedis) (OwnersControl hasRedis) .initial events := by
  intro assumed
  have controls := assumed Unit Bool false
    [.start () true "turn-1", .spawn () "turn-1", .postAbort () false "turn-1"]
  have untouched := ((controls.2 _ rfl).2 _ rfl).1 _ rfl "turn-1" ⟨rfl, true, rfl, Bool.noConfusion⟩
  cases untouched.handle ()

end LiteHorse.Web.TurnOwner
