/-
This file is about the `Idempotency-Key` of a turn. Requests that carry one user, one key
and one session run as processes over a shared Redis and the session's lock: a request
reads the cache, passes the limits, waits for the lock, invokes the turn runner, and stores
its response after it has given the lock back.

The cache is read before the lock is taken and written after it is released, and the JSON
and the streaming route read only their own kind of payload. The file therefore names the
reads that can be trusted (`ReadSettled`): those that find a response of their route's kind,
or that miss while no turn was started and nobody else is about to start one. Runs of such
reads invoke the runner at most once and answer with what that invocation stored.

A chunk of a stream is kept as the event it encodes.
-/

import LiteHorse.Python
import LiteHorse.Library.Runs
import Mathlib.Logic.Function.Basic

namespace LiteHorse.Web

open Python Runs

/-! ### The cache -/

/-- One SSE record: `encode_event` of a name and its data. -/
structure SseEvent where
  name : String
  data : List (String × Json)

def eventError (kind message : String) : SseEvent :=
  ⟨"error", [("kind", .str kind), ("message", .str message)]⟩

def eventDone (turnId finalText : String) : SseEvent :=
  ⟨"done", [("turn_id", .str turnId), ("final_text", .str finalText)]⟩

structure TurnOut where
  turnId : String
  finalText : String
  events : List SseEvent

/-- What is stored under a key: the body of a JSON response or the bytes of a stream, marked
with its kind. -/
inductive Payload where
  | json (body : TurnOut)
  | sse (chunks : List SseEvent)

abbrev Redis := String → Option Payload

def idempotencyKey (userId idemKey : String) : String :=
  "idem:" ++ userId ++ ":" ++ idemKey

def getCachedJson (redis : Redis) (userId idemKey : String) : Option TurnOut :=
  if idemKey = "" then none
  else
    match redis (idempotencyKey userId idemKey) with
    | some (.json body) => some body
    | _ => none

def getCachedStream (redis : Redis) (userId idemKey : String) : Option (List SseEvent) :=
  if idemKey = "" then none
  else
    match redis (idempotencyKey userId idemKey) with
    | some (.sse chunks) => some chunks
    | _ => none

/-- `store_cached_json` and `store_cached_stream`: the two differ in the kind they write. -/
def storeCached (redis : Redis) (userId idemKey : String) (payload : Payload) : Redis :=
  if idemKey = "" then redis
  else Function.update redis (idempotencyKey userId idemKey) (some payload)

/-! ### The two routes -/

/-- `POST /v1/turns` and `POST /v1/turns:stream`. -/
inductive Endpoint where
  | json
  | stream

/-- A request with the user, key and session at hand: its route, and the turn id its handle
is given. -/
structure KeyedRequest where
  endpoint : Endpoint
  turnId : String

/-- The read of the route: each looks for its own kind. -/
def getCached (endpoint : Endpoint) (redis : Redis) (userId idemKey : String) : Option Payload :=
  match endpoint with
  | .json => (getCachedJson redis userId idemKey).map Payload.json
  | .stream => (getCachedStream redis userId idemKey).map Payload.sse

/-- `json.loads(data).get("final_text", "") or ""`. -/
def doneText (data : List (String × Json)) : String :=
  match getField data "final_text" with
  | some (.str text) => text
  | _ => ""

/-- The text of the last `done` event. -/
def finalText (events : List SseEvent) : String :=
  events.foldl (fun text event => if event.name = "done" then doneText event.data else text) ""

/-- The response the route makes of the events of a turn. -/
def KeyedRequest.payload (request : KeyedRequest) (events : List SseEvent) : Payload :=
  match request.endpoint with
  | .json => .json ⟨request.turnId, finalText events, events⟩
  | .stream => .sse events

/-- Where a request stands. -/
inductive Phase where
  | arriving
  | admitted
  | locked
  | running
  | closing (payload : Payload)
  | answered (payload : Payload)
  | failed

/-- Who has the lock: one of the requests, or another turn of the session. -/
inductive Holder where
  | request (index : Nat)
  | other
  deriving DecidableEq

structure TurnState where
  redis : Redis
  lock : Option Holder
  phase : Nat → Phase
  invocations : List Nat

/-- Nothing is stored, the lock is free, every request is still to come. -/
def TurnState.initial : TurnState where
  redis _ := none
  lock := none
  phase _ := .arriving
  invocations := []

/-- The steps of the requests, numbered, and of the others that use the lock. -/
inductive TurnEvent where
  /-- Read the cache. -/
  | read (index : Nat)
  /-- A limit refuses the request. -/
  | reject (index : Nat)
  | acquire (index : Nat)
  /-- The lock is not free in time. -/
  | lockTimeout (index : Nat) (message : String)
  /-- Taking the lock raises something else. -/
  | lockError (index : Nat)
  /-- The runner is called. -/
  | invoke (index : Nat)
  /-- The turn, or the client's connection, ends after these events; the lock is released. -/
  | finish (index : Nat) (events : List SseEvent)
  | store (index : Nat)
  /-- The request raises or its process dies, with or without releasing the lock. -/
  | abort (index : Nat) (releases : Bool)
  /-- Another turn of the session takes the lock. -/
  | otherAcquire
  /-- The lock is given back by another turn, or its lease runs out. -/
  | lockFreed

def TurnState.setPhase (state : TurnState) (index : Nat) (phase : Phase) : TurnState :=
  { state with phase := Function.update state.phase index phase }

/-- The release script: only the lock's own holder gives it back. -/
def TurnState.release (state : TurnState) (index : Nat) : TurnState :=
  if state.lock = some (.request index) then { state with lock := none } else state

section Requests

variable (userId idemKey : String) (requests : Nat → KeyedRequest)

/-- The routes have no handler for a lock that fails, except that the stream's `finally`
stores what it has sent. -/
def lockFailed (request : KeyedRequest) (sent : List SseEvent) : Phase :=
  match request.endpoint with
  | .json => .failed
  | .stream => .closing (.sse sent)

def turnStep (state : TurnState) : TurnEvent → Option TurnState
  | .read index =>
    match state.phase index with
    | .arriving =>
      match getCached (requests index).endpoint state.redis userId idemKey with
      | some payload => some (state.setPhase index (.answered payload))
      | none => some (state.setPhase index .admitted)
    | _ => none
  | .reject index =>
    match state.phase index with
    | .admitted => some (state.setPhase index .failed)
    | _ => none
  | .acquire index =>
    match state.phase index, state.lock with
    | .admitted, none => some { state.setPhase index .locked with lock := some (.request index) }
    | _, _ => none
  | .lockTimeout index message =>
    match state.phase index with
    | .admitted =>
      some (state.setPhase index (lockFailed (requests index)
        [eventError "UNAVAILABLE" message, eventDone (requests index).turnId ""]))
    | _ => none
  | .lockError index =>
    match state.phase index with
    | .admitted => some (state.setPhase index (lockFailed (requests index) []))
    | _ => none
  | .invoke index =>
    match state.phase index with
    | .locked =>
      some { state.setPhase index .running with invocations := state.invocations ++ [index] }
    | _ => none
  | .finish index events =>
    match state.phase index with
    | .running =>
      some ((state.setPhase index (.closing ((requests index).payload events))).release index)
    | _ => none
  | .store index =>
    match state.phase index with
    | .closing payload =>
      some { state.setPhase index (.answered payload) with
        redis := storeCached state.redis userId idemKey payload }
    | _ => none
  | .abort index releases =>
    match state.phase index with
    | .admitted | .locked | .running | .closing _ =>
      let aborted := state.setPhase index .failed
      some (if releases then aborted.release index else aborted)
    | _ => none
  | .otherAcquire =>
    match state.lock with
    | none => some { state with lock := some .other }
    | some _ => none
  | .lockFreed => some { state with lock := none }

/-! ### At most one invocation -/

/-- A stream that holds nothing of a turn: empty, or the error of a lock that was not free
in time. -/
def WithoutTurn (payload : Payload) : Prop :=
  payload = .sse [] ∨
    ∃ message turnId, payload = .sse [eventError "UNAVAILABLE" message, eventDone turnId ""]

/-- The payload is the one response of the one invocation, or holds nothing of a turn. -/
def Recorded (state : TurnState) (payload : Payload) : Prop :=
  (∃ index, state.invocations = [index] ∧ state.phase index = .answered payload) ∨
    WithoutTurn payload

/-- The runner was invoked at most once, and every request that was answered with a turn got
the response that invocation stored. -/
def AtMostOnce (state : TurnState) : Prop :=
  state.invocations.length ≤ 1 ∧
    ∀ index payload, state.phase index = .answered payload → Recorded state payload

/-- The request has missed the cache and has yet to invoke the runner. -/
def Phase.Pending : Phase → Prop
  | .admitted | .locked => True
  | _ => False

/-- A read that can be trusted: it finds a payload of its route's kind, or the runner was
not invoked yet and no other request is about to invoke it. -/
def ReadSettled (state : TurnState) : TurnEvent → Prop
  | .read index =>
    (getCached (requests index).endpoint state.redis userId idemKey).isSome = true ∨
      (state.invocations = [] ∧ ∀ other, other ≠ index → ¬ (state.phase other).Pending)
  | _ => True

/-- What every run of trusted reads keeps. -/
structure Settled (state : TurnState) : Prop where
  atMostOne : state.invocations.length ≤ 1
  pendingAlone : ∀ index, (state.phase index).Pending →
    state.invocations = [] ∧ ∀ other, (state.phase other).Pending → other = index
  running : ∀ index, state.phase index = .running → state.invocations = [index]
  closing : ∀ index payload, state.phase index = .closing payload →
    state.invocations = [index] ∨ WithoutTurn payload
  cached : ∀ payload, state.redis (idempotencyKey userId idemKey) = some payload →
    Recorded state payload
  answered : ∀ index payload, state.phase index = .answered payload → Recorded state payload

/-! ### What one step keeps -/

theorem release_phase (state : TurnState) (index : Nat) :
    (state.release index).phase = state.phase := by
  unfold TurnState.release
  split <;> rfl

theorem release_invocations (state : TurnState) (index : Nat) :
    (state.release index).invocations = state.invocations := by
  unfold TurnState.release
  split <;> rfl

theorem release_redis (state : TurnState) (index : Nat) :
    (state.release index).redis = state.redis := by
  unfold TurnState.release
  split <;> rfl

/-- What an aborted request leaves: its phase is `failed`, the lock aside nothing else
changes. -/
theorem abort_taken (state next : TurnState) (index : Nat) (releases : Bool)
    (taken : turnStep userId idemKey requests state (.abort index releases) = some next) :
    (∀ payload, state.phase index ≠ .answered payload) ∧
      next.phase = (state.setPhase index .failed).phase ∧
      next.invocations = state.invocations ∧ next.redis = state.redis := by
  have aborted : (∀ payload, state.phase index ≠ .answered payload) ∧
      (if releases then (state.setPhase index .failed).release index
        else state.setPhase index .failed) = next := by
    simp only [turnStep] at taken
    split at taken <;> cases taken <;> simp_all
  obtain ⟨unanswered, rfl⟩ := aborted
  refine ⟨unanswered, ?_⟩
  cases releases with
  | true => exact ⟨release_phase _ index, release_invocations _ index, release_redis _ index⟩
  | false => exact ⟨rfl, rfl, rfl⟩

theorem getCached_some {endpoint : Endpoint} {redis : Redis} {payload : Payload}
    (found : getCached endpoint redis userId idemKey = some payload) :
    redis (idempotencyKey userId idemKey) = some payload := by
  cases endpoint with
  | json =>
    simp only [getCached, getCachedJson, Option.map_eq_some_iff] at found
    obtain ⟨body, read, rfl⟩ := found
    split at read
    · cases read
    · split at read
      · next stored =>
        cases read
        exact stored
      · cases read
  | stream =>
    simp only [getCached, getCachedStream, Option.map_eq_some_iff] at found
    obtain ⟨chunks, read, rfl⟩ := found
    split at read
    · cases read
    · split at read
      · next stored =>
        cases read
        exact stored
      · cases read

theorem storeCached_some {redis : Redis} {payload stored : Payload}
    (found : storeCached redis userId idemKey payload (idempotencyKey userId idemKey) =
      some stored) :
    stored = payload ∨ redis (idempotencyKey userId idemKey) = some stored := by
  unfold storeCached at found
  split at found
  · exact Or.inr found
  · rw [Function.update_self, Option.some.injEq] at found
    exact Or.inl found.symm

theorem setPhase_self (state : TurnState) (index : Nat) (phase : Phase) :
    (state.setPhase index phase).phase index = phase :=
  Function.update_self _ _ _

theorem setPhase_other (state : TurnState) (index other : Nat) (phase : Phase)
    (different : other ≠ index) :
    (state.setPhase index phase).phase other = state.phase other :=
  Function.update_of_ne different _ _

/-- A phase after one request has moved is its new phase or an old one. -/
theorem setPhase_cases (state : TurnState) (index other : Nat) (phase : Phase) :
    (other = index ∧ (state.setPhase index phase).phase other = phase) ∨
      (other ≠ index ∧ (state.setPhase index phase).phase other = state.phase other) := by
  by_cases same : other = index
  · left
    refine ⟨same, ?_⟩
    rw [same]
    exact setPhase_self state index phase
  · exact Or.inr ⟨same, setPhase_other state index other phase same⟩

/-- An answer stays on record while other requests move. -/
theorem Recorded.setPhase {state next : TurnState} {payload : Payload}
    (recorded : Recorded state payload) (index : Nat) (phase : Phase)
    (unanswered : ∀ payload, state.phase index ≠ .answered payload)
    (samePhase : next.phase = (state.setPhase index phase).phase)
    (sameLog : next.invocations = state.invocations) : Recorded next payload := by
  rcases recorded with ⟨owner, only, answer⟩ | nothing
  · have different : owner ≠ index := by
      intro same
      exact unanswered payload (same ▸ answer)
    refine Or.inl ⟨owner, sameLog.trans only, ?_⟩
    rw [samePhase, setPhase_other state index owner phase different]
    exact answer
  · exact Or.inr nothing

/-- The step lemma for the steps that move one request and do not invoke. The new phase and
what is stored have to keep what `Settled` says of them. -/
theorem settled_move {state next : TurnState} (settled : Settled userId idemKey state)
    (index : Nat) (phase : Phase)
    (unanswered : ∀ payload, state.phase index ≠ .answered payload)
    (pending : phase.Pending →
      state.invocations = [] ∧ ∀ other, (state.phase other).Pending → other = index)
    (running : phase ≠ .running)
    (closing : ∀ payload, phase = .closing payload →
      state.invocations = [index] ∨ WithoutTurn payload)
    (answered : ∀ payload, phase = .answered payload → Recorded next payload)
    (cached : ∀ payload, next.redis (idempotencyKey userId idemKey) = some payload →
      state.redis (idempotencyKey userId idemKey) = some payload ∨ Recorded next payload)
    (samePhase : next.phase = (state.setPhase index phase).phase)
    (sameLog : next.invocations = state.invocations) :
    Settled userId idemKey next where
  atMostOne := sameLog ▸ settled.atMostOne
  pendingAlone := by
    intro other isPending
    rw [samePhase] at isPending
    rw [sameLog, samePhase]
    rcases setPhase_cases state index other phase with ⟨same, new⟩ | ⟨different, old⟩
    · rw [new] at isPending
      refine ⟨(pending isPending).1, fun third thirdPending => ?_⟩
      rcases setPhase_cases state index third phase with ⟨thirdSame, _⟩ | ⟨_, thirdOld⟩
      · exact thirdSame.trans same.symm
      · rw [thirdOld] at thirdPending
        exact ((pending isPending).2 third thirdPending).trans same.symm
    · rw [old] at isPending
      obtain ⟨none, alone⟩ := settled.pendingAlone other isPending
      refine ⟨none, fun third thirdPending => ?_⟩
      rcases setPhase_cases state index third phase with ⟨_, thirdNew⟩ | ⟨_, thirdOld⟩
      · rw [thirdNew] at thirdPending
        exact absurd ((pending thirdPending).2 other isPending) different
      · rw [thirdOld] at thirdPending
        exact alone third thirdPending
  running := by
    intro other isRunning
    rw [samePhase] at isRunning
    rw [sameLog]
    rcases setPhase_cases state index other phase with ⟨_, new⟩ | ⟨_, old⟩
    · exact absurd (new.symm.trans isRunning) running
    · exact settled.running other (old.symm.trans isRunning)
  closing := by
    intro other payload isClosing
    rw [samePhase] at isClosing
    rw [sameLog]
    rcases setPhase_cases state index other phase with ⟨same, new⟩ | ⟨_, old⟩
    · rw [same]
      exact closing payload (new.symm.trans isClosing)
    · exact settled.closing other payload (old.symm.trans isClosing)
  cached := by
    intro payload stored
    rcases cached payload stored with old | recorded
    · exact (settled.cached payload old).setPhase index phase unanswered samePhase sameLog
    · exact recorded
  answered := by
    intro other payload answer
    rw [samePhase] at answer
    rcases setPhase_cases state index other phase with ⟨_, new⟩ | ⟨_, old⟩
    · exact answered payload (new.symm.trans answer)
    · exact (settled.answered other payload (old.symm.trans answer)).setPhase index phase
        unanswered samePhase sameLog

/-- Before the first invocation nothing that is stored or answered holds a turn. -/
theorem withoutTurn_of_recorded {state : TurnState} (none : state.invocations = [])
    {payload : Payload} (recorded : Recorded state payload) : WithoutTurn payload := by
  rcases recorded with ⟨owner, only, _⟩ | nothing
  · rw [none] at only
    cases only
  · exact nothing

/-- The step lemma for a request that comes nearer to invoking the runner: nobody has invoked
it and no other request is about to. -/
theorem settled_pending {state next : TurnState} (settled : Settled userId idemKey state)
    (index : Nat) (phase : Phase) (unanswered : ∀ payload, state.phase index ≠ .answered payload)
    (isPending : phase.Pending)
    (alone : state.invocations = [] ∧ ∀ other, (state.phase other).Pending → other = index)
    (samePhase : next.phase = (state.setPhase index phase).phase)
    (sameLog : next.invocations = state.invocations) (sameRedis : next.redis = state.redis) :
    Settled userId idemKey next := by
  refine settled_move userId idemKey settled index phase unanswered (fun _ => alone) ?_ ?_ ?_ ?_
    samePhase sameLog
  · rintro rfl
    exact isPending
  · rintro payload rfl
    exact isPending.elim
  · rintro payload rfl
    exact isPending.elim
  · intro payload stored
    rw [sameRedis] at stored
    exact Or.inl stored

/-- The step lemma for a read that can be trusted. -/
theorem settled_read {state : TurnState} (settled : Settled userId idemKey state) (index : Nat)
    (arriving : state.phase index = .arriving)
    (met : ReadSettled userId idemKey requests state (.read index)) :
    Settled userId idemKey (state.setPhase index
      (match getCached (requests index).endpoint state.redis userId idemKey with
        | some payload => .answered payload
        | none => .admitted)) := by
  have unanswered : ∀ payload, state.phase index ≠ .answered payload := by
    intro payload answer
    cases arriving.symm.trans answer
  split
  · next payload found =>
    have recorded := settled.cached payload (getCached_some userId idemKey found)
    refine settled_move userId idemKey settled index (.answered payload) unanswered
      False.elim Phase.noConfusion ?_ ?_ (fun _ => Or.inl) rfl rfl
    · intro other same
      cases same
    · intro other same
      cases same
      exact recorded.setPhase index _ unanswered rfl rfl
  · next missed =>
    rcases met with found | ⟨none, alone⟩
    · rw [missed] at found
      cases found
    · refine settled_pending userId idemKey settled index .admitted unanswered trivial
        ⟨none, fun other isPending => ?_⟩ rfl rfl rfl
      by_contra different
      exact alone other different isPending

/-- The step lemma for `invoke`: the request was the only one about to. -/
theorem settled_invoke {state : TurnState} (settled : Settled userId idemKey state) (index : Nat)
    (locked : state.phase index = .locked) :
    Settled userId idemKey { state.setPhase index .running with
      invocations := state.invocations ++ [index] } := by
  have isPending : (state.phase index).Pending := by
    rw [locked]
    trivial
  obtain ⟨none, alone⟩ := settled.pendingAlone index isPending
  have log : state.invocations ++ [index] = [index] := by rw [none, List.nil_append]
  refine ⟨by rw [log]; exact Nat.le_refl 1, ?_, ?_, ?_, ?_, ?_⟩
  · intro other otherPending
    exfalso
    rcases setPhase_cases state index other .running with ⟨_, new⟩ | ⟨different, old⟩
    · exact (new ▸ otherPending : Phase.running.Pending)
    · exact different (alone other (old ▸ otherPending))
  · intro other isRunning
    rcases setPhase_cases state index other .running with ⟨same, _⟩ | ⟨_, old⟩
    · rw [same]
      exact log
    · have started := settled.running other (old.symm.trans isRunning)
      rw [none] at started
      cases started
  · intro other payload isClosing
    rcases setPhase_cases state index other .running with ⟨_, new⟩ | ⟨_, old⟩
    · cases new.symm.trans isClosing
    · rcases settled.closing other payload (old.symm.trans isClosing) with started | nothing
      · rw [none] at started
        cases started
      · exact Or.inr nothing
  · intro payload stored
    exact Or.inr (withoutTurn_of_recorded none (settled.cached payload stored))
  · intro other payload answer
    rcases setPhase_cases state index other .running with ⟨_, new⟩ | ⟨_, old⟩
    · cases new.symm.trans answer
    · exact Or.inr (withoutTurn_of_recorded none
        (settled.answered other payload (old.symm.trans answer)))

/-- The step lemma for `store`: what is stored is the response of the one invocation, or
nothing of a turn. -/
theorem settled_store {state : TurnState} (settled : Settled userId idemKey state) (index : Nat)
    (payload : Payload) (closing : state.phase index = .closing payload) :
    Settled userId idemKey { state.setPhase index (.answered payload) with
      redis := storeCached state.redis userId idemKey payload } := by
  have recorded : Recorded { state.setPhase index (.answered payload) with
      redis := storeCached state.redis userId idemKey payload } payload := by
    rcases settled.closing index payload closing with started | nothing
    · exact Or.inl ⟨index, started, setPhase_self state index _⟩
    · exact Or.inr nothing
  refine settled_move userId idemKey settled index (.answered payload) ?_ False.elim ?_ ?_ ?_ ?_
    rfl rfl
  · intro other answer
    cases closing.symm.trans answer
  · exact Phase.noConfusion
  · intro other same
    cases same
  · intro other same
    cases same
    exact recorded
  · intro stored found
    rcases storeCached_some userId idemKey found with rfl | old
    · exact Or.inr recorded
    · exact Or.inl old

/-- The step lemma for a request that fails or ends without an answer: it stops being
pending. -/
theorem settled_stop {state next : TurnState} (settled : Settled userId idemKey state)
    (index : Nat) (phase : Phase) (unanswered : ∀ payload, state.phase index ≠ .answered payload)
    (stopped : phase = .failed ∨ ∃ payload, phase = .closing payload ∧
      (state.invocations = [index] ∨ WithoutTurn payload))
    (samePhase : next.phase = (state.setPhase index phase).phase)
    (sameLog : next.invocations = state.invocations) (sameRedis : next.redis = state.redis) :
    Settled userId idemKey next := by
  refine settled_move userId idemKey settled index phase unanswered ?_ ?_ ?_ ?_ ?_ samePhase
    sameLog
  · rintro isPending
    rcases stopped with rfl | ⟨_, rfl, _⟩
    · exact isPending.elim
    · exact isPending.elim
  · rcases stopped with rfl | ⟨_, rfl, _⟩
    · exact Phase.noConfusion
    · exact Phase.noConfusion
  · rintro payload rfl
    rcases stopped with failed | ⟨_, same, origin⟩
    · cases failed
    · cases same
      exact origin
  · rintro payload rfl
    rcases stopped with failed | ⟨_, closing, _⟩
    · cases failed
    · cases closing
  · intro payload stored
    rw [sameRedis] at stored
    exact Or.inl stored

/-- A request whose lock fails holds nothing of a turn. -/
theorem lockFailed_stopped (request : KeyedRequest) (sent : List SseEvent)
    (nothing : WithoutTurn (.sse sent)) :
    lockFailed request sent = .failed ∨
      ∃ payload, lockFailed request sent = .closing payload ∧ WithoutTurn payload := by
  unfold lockFailed
  cases request.endpoint with
  | json => exact Or.inl rfl
  | stream => exact Or.inr ⟨_, rfl, nothing⟩

/-- The step lemma: a step whose read, if it is one, can be trusted. -/
theorem settled_step (state : TurnState) (event : TurnEvent) (next : TurnState)
    (settled : Settled userId idemKey state) (met : ReadSettled userId idemKey requests state event)
    (taken : turnStep userId idemKey requests state event = some next) :
    Settled userId idemKey next := by
  cases event with
  | read index =>
    simp only [turnStep] at taken
    split at taken
    · next arriving =>
      have read := settled_read userId idemKey requests settled index arriving met
      split at taken <;> next found =>
        cases taken
        rw [found] at read
        exact read
    · cases taken
  | reject index =>
    simp only [turnStep] at taken
    split at taken
    · next admitted =>
      cases taken
      exact settled_stop userId idemKey settled index .failed
        (fun payload answer => by cases admitted.symm.trans answer) (Or.inl rfl) rfl rfl rfl
    · cases taken
  | acquire index =>
    simp only [turnStep] at taken
    split at taken
    · next admitted _ =>
      cases taken
      refine settled_pending userId idemKey settled index .locked
        (fun payload answer => by cases admitted.symm.trans answer) trivial ?_ rfl rfl rfl
      refine settled.pendingAlone index ?_
      rw [admitted]
      trivial
    · cases taken
  | lockTimeout index message =>
    simp only [turnStep] at taken
    split at taken
    · next admitted =>
      cases taken
      refine settled_stop userId idemKey settled index _
        (fun payload answer => by cases admitted.symm.trans answer) ?_ rfl rfl rfl
      exact (lockFailed_stopped (requests index) _ (Or.inr ⟨message, _, rfl⟩)).imp id
        fun ⟨payload, same, nothing⟩ => ⟨payload, same, Or.inr nothing⟩
    · cases taken
  | lockError index =>
    simp only [turnStep] at taken
    split at taken
    · next admitted =>
      cases taken
      refine settled_stop userId idemKey settled index _
        (fun payload answer => by cases admitted.symm.trans answer) ?_ rfl rfl rfl
      exact (lockFailed_stopped (requests index) _ (Or.inl rfl)).imp id
        fun ⟨payload, same, nothing⟩ => ⟨payload, same, Or.inr nothing⟩
    · cases taken
  | invoke index =>
    simp only [turnStep] at taken
    split at taken
    · next locked =>
      cases taken
      exact settled_invoke userId idemKey settled index locked
    · cases taken
  | finish index events =>
    simp only [turnStep] at taken
    split at taken
    · next running =>
      cases taken
      exact settled_stop userId idemKey settled index _
        (fun payload answer => by cases running.symm.trans answer)
        (Or.inr ⟨_, rfl, Or.inl (settled.running index running)⟩)
        (release_phase _ index) (release_invocations _ index) (release_redis _ index)
    · cases taken
  | store index =>
    simp only [turnStep] at taken
    split at taken
    · next payload closing =>
      cases taken
      exact settled_store userId idemKey settled index payload closing
    · cases taken
  | abort index releases =>
    obtain ⟨unanswered, samePhase, sameLog, sameRedis⟩ :=
      abort_taken userId idemKey requests state next index releases taken
    exact settled_stop userId idemKey settled index .failed unanswered (Or.inl rfl) samePhase
      sameLog sameRedis
  | otherAcquire =>
    simp only [turnStep] at taken
    split at taken
    · cases taken
      exact ⟨settled.atMostOne, settled.pendingAlone, settled.running, settled.closing,
        settled.cached, settled.answered⟩
    · cases taken
  | lockFreed =>
    cases taken
    exact ⟨settled.atMostOne, settled.pendingAlone, settled.running, settled.closing,
      settled.cached, settled.answered⟩

/-! ### Runs -/

theorem settled_initial : Settled userId idemKey TurnState.initial where
  atMostOne := Nat.zero_le 1
  pendingAlone _ isPending := isPending.elim
  running _ isRunning := by cases isRunning
  closing _ _ isClosing := by cases isClosing
  cached _ stored := by cases stored
  answered _ _ answer := by cases answer

/-- The run lemma. In every interleaving of requests with one user, key and session whose
reads can be trusted, the runner is invoked at most once and every answer is the response
that invocation stored. -/
theorem atMostOnce_of_settledReads (events : List TurnEvent)
    (settledReads : StepsMeet (turnStep userId idemKey requests)
      (ReadSettled userId idemKey requests) TurnState.initial events) :
    Always (turnStep userId idemKey requests) AtMostOnce TurnState.initial events := by
  have settled := always_of_invariant (turnStep userId idemKey requests)
    (fun state event next invariant met taken =>
      settled_step userId idemKey requests state event next invariant met taken)
    (settled_initial userId idemKey) settledReads
  exact settled.mono _ fun state invariant => ⟨invariant.atMostOne, invariant.answered⟩

/-- A JSON request and its retry: the retry reads after the first one has stored. -/
theorem atMostOnce_sequential_retry :
    Always (turnStep "alice" "key-1" fun index => ⟨.json, "turn-" ++ toString index⟩)
      AtMostOnce TurnState.initial
      [.read 0, .acquire 0, .invoke 0, .finish 0 [eventDone "turn-0" "hello"], .store 0,
        .read 1] := by
  refine atMostOnce_of_settledReads "alice" "key-1" _ _ ?_
  refine StepsMeet.cons _ (Or.inr ⟨rfl, fun _ _ => False.elim⟩) rfl ?_
  refine StepsMeet.cons _ trivial rfl (StepsMeet.cons _ trivial rfl ?_)
  refine StepsMeet.cons _ trivial rfl (StepsMeet.cons _ trivial rfl ?_)
  exact StepsMeet.cons _ (Or.inl rfl) rfl trivial

/-- Two JSON requests that both miss the cache before either has stored: the lock makes them
wait for one another, and then both invoke the runner. -/
theorem concurrent_retry_invokes_twice :
    ¬ Always (turnStep "alice" "key-1" fun index => ⟨.json, "turn-" ++ toString index⟩)
      AtMostOnce TurnState.initial
      [.read 0, .read 1, .acquire 0, .invoke 0, .finish 0 [eventDone "turn-0" "hello"],
        .store 0, .acquire 1, .invoke 1] := by
  intro always
  have twice := (always.last _ rfl).1
  exact absurd twice (by decide)

end Requests

end LiteHorse.Web
