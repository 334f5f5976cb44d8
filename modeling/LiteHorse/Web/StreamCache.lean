/-
This file models `_outer`, the generator of a streaming response, over the turns of
`stream_turn_to_sse` and the cache of responses: the wait for the lock, the chunks that are
buffered and yielded, and the `finally` block, which stores the buffer however the generator
has ended.

A generator ends without a turn when the lock is not free in time or fails, and in the middle
of one when it is closed at a yield. A turn whose task is cancelled while it waits for an item
still yields `done`. The main result says of which runs every stored stream is a whole turn:
those in which neither happens to a request with a key.
-/

import LiteHorse.Web.TurnStream

namespace LiteHorse.Web.StreamCache

open Runs TurnStream

/-! ### Requests -/

/-- A request of `post_turn_stream`, with the turn id its handle is given. -/
structure StreamCall where
  userId : String
  /-- The `Idempotency-Key`, or the empty string. -/
  idemKey : String
  turnId : String
  model : Option String

def StreamCall.key (call : StreamCall) : String := idempotencyKey call.userId call.idemKey

inductive Outer where
  | replayed (chunks : List SseEvent)
  /-- The response has a generator that was not started. -/
  | created
  | locking
  /-- The lock is held; the generator is suspended at a yield or waits for the turn. -/
  | streaming (atYield : Bool)
  /-- In the `finally` block, with the buffer. -/
  | storing (chunks : List SseEvent)
  | ended

structure StreamRequest where
  call : StreamCall
  outer : Outer
  stream : StreamState := {}

structure State where
  redis : Redis
  requests : List StreamRequest

inductive Event where
  | call (call : StreamCall)
  | start (number : Nat)
  | acquired (number : Nat)
  | lockTimeout (number : Nat) (message : String)
  /-- Taking the lock raises something else, or the task is cancelled while it waits for it. -/
  | lockFailed (number : Nat)
  | turn (number : Nat) (action : StreamAction)
  /-- The consumer asks for the next chunk. -/
  | resume (number : Nat)
  /-- The consumer closes the generator. -/
  | close (number : Nat)
  | store (number : Nat)
  /-- The store fails or is cancelled. -/
  | drop (number : Nat)
  | expire (key : String)
  /-- The other route stores a response. -/
  | storeJson (userId idemKey : String) (body : TurnOut)

/-- The step is one of the generator of the turn, which stands still at a yield. -/
def ofGenerator : StreamAction → Bool
  | .generatorReads | .generatorCancelled | .brokerAwaited | .runnerAwaited => true
  | .runnerStarts | .runnerYields _ | .runnerExits _ | .requestDecision _ _ _
  | .decisionReturns _ | .brokerStarts | .brokerForwards | .brokerStops | .abort
  | .cancelTurn => false

/-- The turn of the request can take the step. -/
def Outer.allows (action : StreamAction) : Outer → Bool
  | .streaming atYield => !(ofGenerator action && atYield)
  | .storing _ | .ended => !ofGenerator action
  | .replayed _ | .created | .locking => false

/-- A chunk that the turn yields is buffered and yielded on. -/
def Outer.afterTurn (before next : StreamState) : Outer → Outer
  | .streaming atYield => .streaming (atYield || before.records.length < next.records.length)
  | other => other

namespace State

def set (state : State) (number : Nat) (request : StreamRequest) : State :=
  { state with requests := state.requests.set number request }

/-- The request goes on. -/
def become (state : State) (number : Nat) (request : StreamRequest) (outer : Outer) : State :=
  state.set number { request with outer := outer }

end State

section Steps

variable (computeCostUsdMicro : String → Int → Int → Int → Int)

/-- The steps of one request, apart from those of its turn. -/
def StreamRequest.next (request : StreamRequest) : Event → Option Outer
  | .start _ =>
    match request.outer with
    | .created => some .locking
    | _ => none
  | .acquired _ =>
    match request.outer with
    | .locking => some (.streaming false)
    | _ => none
  | .lockTimeout _ message =>
    match request.outer with
    | .locking =>
      some (.storing [eventError "UNAVAILABLE" message, eventDone request.call.turnId ""])
    | _ => none
  | .lockFailed _ =>
    match request.outer with
    | .locking => some (.storing [])
    | _ => none
  | .resume _ =>
    match request.outer with
    | .streaming true =>
      if request.stream.generator = .finished then some (.storing request.stream.records)
      else some (.streaming false)
    | _ => none
  | .close _ =>
    match request.outer with
    | .streaming true => some (.storing request.stream.records)
    | _ => none
  | .drop _ =>
    match request.outer with
    | .storing _ => some .ended
    | _ => none
  | _ => none

/-- The route, up to the response: a stream in the cache is replayed. -/
def begin (redis : Redis) (call : StreamCall) : StreamRequest :=
  match getCachedStream redis call.userId call.idemKey with
  | some chunks => { call, outer := .replayed chunks }
  | none => { call, outer := .created }

def step (state : State) (event : Event) : Option State :=
  match event with
  | .call call => some { state with requests := state.requests ++ [begin state.redis call] }
  | .start number | .acquired number | .lockTimeout number _ | .lockFailed number
  | .resume number | .close number | .drop number =>
    state.requests[number]?.bind fun request =>
      (request.next event).map (state.become number request)
  | .turn number action =>
    state.requests[number]?.bind fun request =>
      if request.outer.allows action then
        (streamStep request.call.turnId request.call.model computeCostUsdMicro request.stream
          action).map fun next =>
            state.set number { request with
              outer := request.outer.afterTurn request.stream next
              stream := next }
      else none
  | .store number =>
    match state.requests[number]? with
    | some ⟨call, .storing chunks, stream⟩ =>
      some { state.set number ⟨call, .ended, stream⟩ with
        redis := storeCached state.redis call.userId call.idemKey (.sse chunks) }
    | _ => none
  | .expire key => some { state with redis := Function.update state.redis key none }
  | .storeJson userId idemKey body =>
    some { state with redis := storeCached state.redis userId idemKey (.json body) }

/-! ### What is asked of a run -/

/-- The runner was called. -/
def Started (stream : StreamState) : Prop := stream.runner = .running ∨ stream.exit.isSome = true

/-- The chunks are all that the turn of the request has yielded, up to its `done`. If a turn
that was cancelled while it waited counts as cut, it was not. -/
structure Whole (cancelledIsCut : Bool) (request : StreamRequest) (chunks : List SseEvent) :
    Prop where
  started : Started request.stream
  finished : request.stream.generator = .finished
  all : chunks = request.stream.records
  protocol : OutputProtocol request.call.turnId request.call.model computeCostUsdMicro
    request.stream
  notCut : cancelledIsCut = true → request.stream.generatorCancelled = false

/-- What is stored is a whole turn of the request that stores it. -/
def StoresWhole (cancelledIsCut : Bool) (state : State) (event : Event) : Prop :=
  ∀ number request chunks, event = .store number → state.requests[number]? = some request →
    request.outer = .storing chunks → request.call.idemKey ≠ "" →
    Whole computeCostUsdMicro cancelledIsCut request chunks

/-- A request whose key no whole turn has runs the turn. -/
def RetryRuns (cancelledIsCut : Bool) (state : State) (event : Event) : Prop :=
  ∀ call, event = .call call →
    (∀ request ∈ state.requests, request.call.key = call.key →
      ∀ chunks, ¬ Whole computeCostUsdMicro cancelledIsCut request chunks) →
    (begin state.redis call).outer = .created

/-- Every stream in the cache is a whole turn of a request with that key. -/
def State.CachesWhole (cancelledIsCut : Bool) (state : State) : Prop :=
  ∀ key chunks, state.redis key = some (.sse chunks) → ∃ request ∈ state.requests,
    request.call.key = key ∧ Whole computeCostUsdMicro cancelledIsCut request chunks

/-- Nothing is in the cache, and no request was made. -/
def State.initial : State := ⟨fun _ => none, []⟩

def CompletedOnly (cancelledIsCut : Bool) (events : List Event) : Prop :=
  Always (step computeCostUsdMicro) (State.CachesWhole computeCostUsdMicro cancelledIsCut)
      .initial events ∧
    StepsMeet (step computeCostUsdMicro) (StoresWhole computeCostUsdMicro cancelledIsCut)
      .initial events ∧
    StepsMeet (step computeCostUsdMicro) (RetryRuns computeCostUsdMicro cancelledIsCut)
      .initial events

/-- The step is the last of the generator. -/
def EndsTurn (stream : StreamState) (action : StreamAction) : Prop :=
  match stream.generator with
  | .reading | .finished => False
  | .awaitingBroker =>
    (action = .brokerAwaited ∨ action = .generatorCancelled) ∧ stream.runner = .finished
  | .awaitingRunner => action = .runnerAwaited ∨ action = .generatorCancelled

/-- Of a request with a key the lock is taken, and the generator is not closed before it has
yielded `done`. A turn that was cancelled while it waited does not end before its runner was
called and, if that counts as cut, there is none. -/
def Undisturbed (cancelledIsCut : Bool) (state : State) (event : Event) : Prop :=
  ∀ request, request.call.idemKey ≠ "" →
    match event with
    | .lockTimeout number _ | .lockFailed number => state.requests[number]? ≠ some request
    | .close number => state.requests[number]? = some request →
        request.stream.generator = .finished
    | .turn number action => state.requests[number]? = some request →
        (action = .generatorCancelled → request.stream.generator = .reading →
          cancelledIsCut = false) ∧
        (request.stream.generatorCancelled = true → EndsTurn request.stream action →
          Started request.stream)
    | _ => True

end Steps

/-! ### What a step of the turn changes -/

section Turn

variable {turnId : String} {model : Option String}
  {computeCostUsdMicro : String → Int → Int → Int → Int} {stream next : StreamState}
  {action : StreamAction}

theorem afterBroker_frame (turnId : String) (stream : StreamState) :
    (stream.afterBroker turnId).runner = stream.runner ∧
      (stream.afterBroker turnId).exit = stream.exit ∧
      (stream.afterBroker turnId).generatorCancelled = stream.generatorCancelled := by
  unfold StreamState.afterBroker
  split
  · exact ⟨rfl, rfl, rfl⟩
  · exact ⟨rfl, rfl, rfl⟩

theorem runner_of_afterBroker (finished : (stream.afterBroker turnId).generator = .finished) :
    stream.runner = .finished := by
  unfold StreamState.afterBroker at finished
  split at finished
  · assumption
  · cases finished

/-- A step of the generator leaves the runner as it is. Only its cancellation while it waits for
an item marks the turn as cancelled, and it finishes with its last step. -/
theorem generator_cases (isGenerator : ofGenerator action = true)
    (taken : streamStep turnId model computeCostUsdMicro stream action = some next) :
    stream.generator ≠ .finished ∧ next.runner = stream.runner ∧ next.exit = stream.exit ∧
      (next.generatorCancelled = stream.generatorCancelled ∨
        action = .generatorCancelled ∧ stream.generator = .reading) ∧
      (next.generator = .finished → EndsTurn stream action) := by
  cases streamStep_cases taken with
  | generatorReads item channel isReading =>
    rw [handle_eq, isReading]
    refine ⟨by decide, rfl, rfl, Or.inl rfl, fun finished => ?_⟩
    dsimp only at finished
    split at finished
    · cases finished
    · cases finished
  | generatorCancelled isReading =>
    rw [isReading]
    exact ⟨by decide, rfl, rfl, Or.inr ⟨rfl, rfl⟩, fun finished => by cases finished⟩
  | afterBroker isEnd waits =>
    obtain ⟨runner, exit, cancelled⟩ := afterBroker_frame turnId stream
    refine ⟨by rw [waits]; decide, runner, exit, Or.inl cancelled, fun finished => ?_⟩
    rw [EndsTurn, waits]
    exact ⟨isEnd.imp And.left id, runner_of_afterBroker finished⟩
  | afterRunner isEnd waits =>
    refine ⟨by rw [waits]; decide, rfl, rfl, Or.inl rfl, fun _ => ?_⟩
    rw [EndsTurn, waits]
    exact isEnd.imp And.left id
  | _ => cases isGenerator

/-- A step of a task leaves the generator as it is, and a runner that was called stays so. -/
theorem task_cases (isTask : ofGenerator action = false)
    (taken : streamStep turnId model computeCostUsdMicro stream action = some next) :
    next.records = stream.records ∧ next.generator = stream.generator ∧
      next.generatorCancelled = stream.generatorCancelled ∧ (Started stream → Started next) := by
  cases streamStep_cases taken with
  | runnerStarts notStarted =>
    refine ⟨rfl, rfl, rfl, ?_⟩
    rintro (running | exited)
    · rw [notStarted] at running
      cases running
    · exact Or.inr exited
  | runnerExits exit => exact ⟨rfl, rfl, rfl, fun _ => Or.inr rfl⟩
  | requestDecision toolCallId tool args =>
    unfold StreamState.requestDecision
    split
    · exact ⟨rfl, rfl, rfl, id⟩
    · exact ⟨rfl, rfl, rfl, id⟩
  | runnerYields | decisionReturns | brokerStartsCancelled | brokerStarts | brokerForwards
  | brokerStops | abort | cancelTurn => exact ⟨rfl, rfl, rfl, id⟩
  | generatorReads | generatorCancelled => cases isTask
  | afterBroker isEnd | afterRunner isEnd =>
    rcases isEnd with ⟨rfl, _⟩ | rfl
    · cases isTask
    · cases isTask

theorem started_step (started : Started stream)
    (taken : streamStep turnId model computeCostUsdMicro stream action = some next) :
    Started next := by
  cases kind : ofGenerator action with
  | true =>
    obtain ⟨_, runner, exit, _⟩ := generator_cases kind taken
    unfold Started
    rw [runner, exit]
    exact started
  | false => exact (task_cases kind taken).2.2.2 started

/-- Only a cancellation while the generator waits marks the turn as cancelled. -/
theorem generatorCancelled_step
    (taken : streamStep turnId model computeCostUsdMicro stream action = some next) :
    next.generatorCancelled = stream.generatorCancelled ∨
      action = .generatorCancelled ∧ stream.generator = .reading := by
  cases kind : ofGenerator action with
  | true => exact (generator_cases kind taken).2.2.2.1
  | false => exact Or.inl (task_cases kind taken).2.2.1

/-- The generator finishes with its last step, which does not mark the turn as cancelled. -/
theorem endsTurn_of_finished
    (taken : streamStep turnId model computeCostUsdMicro stream action = some next)
    (before : stream.generator ≠ .finished) (finished : next.generator = .finished) :
    EndsTurn stream action ∧ next.generatorCancelled = stream.generatorCancelled := by
  cases kind : ofGenerator action with
  | true =>
    obtain ⟨_, _, _, cancelled, ends⟩ := generator_cases kind taken
    refine ⟨ends finished, ?_⟩
    rcases cancelled with same | ⟨_, isReading⟩
    · exact same
    · have isLast := ends finished
      unfold EndsTurn at isLast
      rw [isReading] at isLast
      exact isLast.elim
  | false => exact absurd ((task_cases kind taken).2.1.symm.trans finished) before

/-- A turn that has finished without being cancelled has called its runner. -/
theorem started_of_finished (invariant : StreamInvariant turnId model computeCostUsdMicro stream)
    (finished : stream.generator = .finished) (notCut : stream.generatorCancelled = false) :
    Started stream := by
  obtain ⟨_, _, _, _, _, _, _, _, exited, _⟩ := invariant.outputProtocol finished
  obtain ⟨exit, exits, _⟩ := exited notCut
  exact Or.inr (by rw [exits]; rfl)

end Turn

/-! ### What every run keeps -/

section Invariant

variable (computeCostUsdMicro : String → Int → Int → Int → Int) (cancelledIsCut : Bool)

/-- Of a request with a key: a turn that has finished has called its runner, and what is about
to be stored is all it has yielded. -/
structure StreamRequest.Sound (request : StreamRequest) : Prop where
  stream : StreamInvariant request.call.turnId request.call.model computeCostUsdMicro
    request.stream
  notCut : request.call.idemKey ≠ "" → cancelledIsCut = true →
    request.stream.generatorCancelled = false
  started : request.call.idemKey ≠ "" → request.stream.generator = .finished →
    Started request.stream
  storing : request.call.idemKey ≠ "" → ∀ chunks, request.outer = .storing chunks →
    request.stream.generator = .finished ∧ chunks = request.stream.records

structure State.Sound (state : State) : Prop where
  requests : ∀ request ∈ state.requests, request.Sound computeCostUsdMicro cancelledIsCut
  caches : state.CachesWhole computeCostUsdMicro cancelledIsCut

variable {computeCostUsdMicro cancelledIsCut} {state next : State} {request : StreamRequest}
  {number : Nat} {event : Event}

theorem StreamRequest.Sound.whole (sound : request.Sound computeCostUsdMicro cancelledIsCut)
    (keyed : request.call.idemKey ≠ "") {chunks : List SseEvent}
    (stores : request.outer = .storing chunks) :
    Whole computeCostUsdMicro cancelledIsCut request chunks := by
  obtain ⟨finished, all⟩ := sound.storing keyed chunks stores
  exact ⟨sound.started keyed finished, finished, all, sound.stream.outputProtocol finished,
    sound.notCut keyed⟩

/-- The other requests stay, and what was a whole turn is one. -/
theorem State.CachesWhole.set (caches : state.CachesWhole computeCostUsdMicro cancelledIsCut)
    (isRequest : state.requests[number]? = some request) {after : StreamRequest}
    (sameCall : after.call = request.call)
    (keeps : ∀ chunks, Whole computeCostUsdMicro cancelledIsCut request chunks →
      Whole computeCostUsdMicro cancelledIsCut after chunks) :
    (state.set number after).CachesWhole computeCostUsdMicro cancelledIsCut := by
  intro key chunks cached
  obtain ⟨other, member, sameKey, whole⟩ := caches key chunks cached
  obtain ⟨position, isOther⟩ := List.mem_iff_getElem?.mp member
  obtain ⟨inside, _⟩ := List.getElem?_eq_some_iff.mp isRequest
  by_cases own : position = number
  · subst own
    cases isRequest.symm.trans isOther
    refine ⟨after, List.mem_set inside after, ?_, keeps chunks whole⟩
    rw [sameCall]
    exact sameKey
  · refine ⟨other, List.mem_of_getElem? (i := position) ?_, sameKey, whole⟩
    exact (List.getElem?_set_ne (Ne.symm own)).trans isOther

theorem State.Sound.set (sound : state.Sound computeCostUsdMicro cancelledIsCut)
    (isRequest : state.requests[number]? = some request) {after : StreamRequest}
    (sameCall : after.call = request.call)
    (isSound : after.Sound computeCostUsdMicro cancelledIsCut)
    (keeps : ∀ chunks, Whole computeCostUsdMicro cancelledIsCut request chunks →
      Whole computeCostUsdMicro cancelledIsCut after chunks) :
    (state.set number after).Sound computeCostUsdMicro cancelledIsCut where
  requests := by
    intro other member
    rcases List.mem_or_eq_of_mem_set member with before | rfl
    · exact sound.requests other before
    · exact isSound
  caches := sound.caches.set isRequest sameCall keeps

/-- A request goes on outside its turn. -/
theorem State.Sound.become (sound : state.Sound computeCostUsdMicro cancelledIsCut)
    (isRequest : state.requests[number]? = some request) {outer : Outer}
    (stores : request.call.idemKey ≠ "" → ∀ chunks, outer = .storing chunks →
      request.stream.generator = .finished ∧ chunks = request.stream.records) :
    (state.become number request outer).Sound computeCostUsdMicro cancelledIsCut := by
  have isSound := sound.requests request (List.mem_of_getElem? isRequest)
  refine sound.set isRequest rfl ⟨isSound.stream, isSound.notCut, isSound.started, stores⟩ ?_
  exact fun chunks whole =>
    ⟨whole.started, whole.finished, whole.all, whole.protocol, whole.notCut⟩

theorem State.Sound.of_next (sound : state.Sound computeCostUsdMicro cancelledIsCut)
    (taken : (state.requests[number]?.bind fun request =>
      (request.next event).map (state.become number request)) = some next)
    (stores : ∀ request chunks, state.requests[number]? = some request →
      request.next event = some (.storing chunks) → request.call.idemKey ≠ "" →
      request.stream.generator = .finished ∧ chunks = request.stream.records) :
    next.Sound computeCostUsdMicro cancelledIsCut := by
  obtain ⟨request, isRequest, taken⟩ := Option.bind_eq_some_iff.mp taken
  obtain ⟨outer, isNext, rfl⟩ := Option.map_eq_some_iff.mp taken
  refine sound.become isRequest fun keyed chunks isStoring => ?_
  exact stores request chunks isRequest (isStoring ▸ isNext) keyed

theorem afterTurn_eq_storing {outer : Outer} {before after : StreamState} {chunks : List SseEvent}
    (stores : outer.afterTurn before after = .storing chunks) : outer = .storing chunks := by
  cases outer with
  | streaming atYield => cases stores
  | _ => exact stores

/-- What a step of the turn keeps of its request. -/
theorem StreamRequest.Sound.turn (sound : request.Sound computeCostUsdMicro cancelledIsCut)
    {action : StreamAction} {stream : StreamState} (allowed : request.outer.allows action = true)
    (taken : streamStep request.call.turnId request.call.model computeCostUsdMicro request.stream
      action = some stream)
    (uncut : request.call.idemKey ≠ "" → action = .generatorCancelled →
      request.stream.generator = .reading → cancelledIsCut = false)
    (calls : request.call.idemKey ≠ "" → request.stream.generatorCancelled = true →
      EndsTurn request.stream action → Started request.stream) :
    StreamRequest.Sound computeCostUsdMicro cancelledIsCut
      { request with
        outer := request.outer.afterTurn request.stream stream
        stream := stream } where
  stream := streamInvariant_step action sound.stream taken
  notCut keyed isCut := by
    rcases generatorCancelled_step taken with same | ⟨cancels, reading⟩
    · exact same.trans (sound.notCut keyed isCut)
    · exact absurd (isCut.symm.trans (uncut keyed cancels reading)) (by decide)
  started keyed finished := by
    have invariant := streamInvariant_step action sound.stream taken
    by_cases before : request.stream.generator = .finished
    · exact started_step (sound.started keyed before) taken
    · obtain ⟨ends, same⟩ := endsTurn_of_finished taken before finished
      cases cut : request.stream.generatorCancelled with
      | false => exact started_of_finished invariant finished (same.trans cut)
      | true => exact started_step (calls keyed cut ends) taken
  storing keyed chunks stores := by
    have before := afterTurn_eq_storing stores
    obtain ⟨finished, all⟩ := sound.storing keyed chunks before
    rw [before] at allowed
    obtain ⟨records, generator, _⟩ := task_cases (Bool.not_eq_true' _ ▸ allowed) taken
    exact ⟨generator.trans finished, all.trans records.symm⟩

/-- A whole turn stays what it is. -/
theorem Whole.turn {chunks : List SseEvent}
    (whole : Whole computeCostUsdMicro cancelledIsCut request chunks) {action : StreamAction}
    {stream : StreamState} {outer : Outer}
    (invariant : StreamInvariant request.call.turnId request.call.model computeCostUsdMicro
      request.stream)
    (taken : streamStep request.call.turnId request.call.model computeCostUsdMicro request.stream
      action = some stream) :
    Whole computeCostUsdMicro cancelledIsCut { request with outer := outer, stream := stream }
      chunks := by
  have isTask : ofGenerator action = false := by
    cases kind : ofGenerator action with
    | true => exact absurd whole.finished (generator_cases kind taken).1
    | false => rfl
  obtain ⟨records, generator, cancelled, started⟩ := task_cases isTask taken
  have finished : stream.generator = .finished := generator.trans whole.finished
  exact {
    started := started whole.started
    finished := finished
    all := whole.all.trans records.symm
    protocol := (streamInvariant_step action invariant taken).outputProtocol finished
    notCut := fun isCut => cancelled.trans (whole.notCut isCut) }

theorem State.Sound.of_turn {action : StreamAction}
    (sound : state.Sound computeCostUsdMicro cancelledIsCut)
    (undisturbed : Undisturbed cancelledIsCut state (.turn number action))
    (taken : step computeCostUsdMicro state (.turn number action) = some next) :
    next.Sound computeCostUsdMicro cancelledIsCut := by
  obtain ⟨request, isRequest, taken⟩ := Option.bind_eq_some_iff.mp taken
  split at taken
  · next allowed =>
    obtain ⟨stream, isNext, rfl⟩ := Option.map_eq_some_iff.mp taken
    have isSound := sound.requests request (List.mem_of_getElem? isRequest)
    refine sound.set isRequest rfl (isSound.turn allowed isNext ?_ ?_) fun chunks whole =>
      whole.turn isSound.stream isNext
    · exact fun keyed => (undisturbed request keyed isRequest).1
    · exact fun keyed => (undisturbed request keyed isRequest).2
  · cases taken

/-- What is in the cache after a store was there before or was stored. -/
theorem storeCached_cases {redis : Redis} {userId idemKey key : String} {payload found : Payload}
    (cached : storeCached redis userId idemKey payload key = some found) :
    redis key = some found ∨
      idemKey ≠ "" ∧ key = idempotencyKey userId idemKey ∧ found = payload := by
  unfold storeCached at cached
  split at cached
  · exact Or.inl cached
  · next keyed =>
    by_cases own : key = idempotencyKey userId idemKey
    · subst own
      rw [Function.update_self] at cached
      exact Or.inr ⟨keyed, rfl, (Option.some.inj cached).symm⟩
    · rw [Function.update_of_ne own] at cached
      exact Or.inl cached

theorem State.Sound.of_store (sound : state.Sound computeCostUsdMicro cancelledIsCut)
    (taken : step computeCostUsdMicro state (.store number) = some next) :
    next.Sound computeCostUsdMicro cancelledIsCut := by
  unfold step at taken
  dsimp only at taken
  split at taken
  · next call chunks stream isRequest =>
    cases taken
    have isSound := sound.requests _ (List.mem_of_getElem? isRequest)
    have settled : (state.become number ⟨call, .storing chunks, stream⟩ .ended).Sound
        computeCostUsdMicro cancelledIsCut :=
      sound.become isRequest fun _ _ same => by cases same
    refine ⟨settled.requests, fun key found cached => ?_⟩
    rcases storeCached_cases cached with before | ⟨keyed, rfl, isStored⟩
    · exact settled.caches key found before
    · cases isStored
      obtain ⟨inside, _⟩ := List.getElem?_eq_some_iff.mp isRequest
      have whole := isSound.whole keyed rfl
      exact ⟨⟨call, .ended, stream⟩, List.mem_set inside _, rfl,
        ⟨whole.started, whole.finished, whole.all, whole.protocol, whole.notCut⟩⟩
  · cases taken

theorem sound_begin (redis : Redis) (call : StreamCall) :
    (begin redis call).Sound computeCostUsdMicro cancelledIsCut := by
  unfold begin
  split
  · exact {
      stream := streamInvariant_initial
      notCut := fun _ _ => rfl
      started := fun _ finished => by cases finished
      storing := fun _ _ stores => by cases stores }
  · exact {
      stream := streamInvariant_initial
      notCut := fun _ _ => rfl
      started := fun _ finished => by cases finished
      storing := fun _ _ stores => by cases stores }

/-- A step that only changes what other routes have in the cache. -/
theorem State.Sound.of_redis (sound : state.Sound computeCostUsdMicro cancelledIsCut)
    {redis : Redis} (before : ∀ key chunks, redis key = some (.sse chunks) →
      state.redis key = some (.sse chunks)) :
    State.Sound computeCostUsdMicro cancelledIsCut { state with redis := redis } where
  requests := sound.requests
  caches key chunks cached := sound.caches key chunks (before key chunks cached)

theorem State.Sound.of_call (sound : state.Sound computeCostUsdMicro cancelledIsCut)
    (call : StreamCall) :
    State.Sound computeCostUsdMicro cancelledIsCut
      { state with requests := state.requests ++ [begin state.redis call] } where
  requests := by
    intro request member
    rcases List.mem_append.mp member with before | isNew
    · exact sound.requests request before
    · rw [List.mem_singleton.mp isNew]
      exact sound_begin state.redis call
  caches key chunks cached := by
    obtain ⟨request, member, whole⟩ := sound.caches key chunks cached
    exact ⟨request, List.mem_append_left _ member, whole⟩

/-- What leads to the `finally` block, and with which buffer. -/
theorem next_storing {chunks : List SseEvent}
    (isNext : request.next event = some (.storing chunks)) :
    match event with
    | .lockTimeout _ _ | .lockFailed _ => True
    | .resume _ => request.stream.generator = .finished ∧ chunks = request.stream.records
    | .close _ => chunks = request.stream.records
    | _ => False := by
  unfold StreamRequest.next at isNext
  cases event with
  | lockTimeout number message => trivial
  | lockFailed number => trivial
  | resume number =>
    dsimp only at isNext ⊢
    split at isNext
    · split at isNext
      · next finished =>
        cases isNext
        exact ⟨finished, rfl⟩
      · cases isNext
    · cases isNext
  | close number =>
    dsimp only at isNext ⊢
    split at isNext
    · cases isNext
      rfl
    · cases isNext
  | start number | acquired number | drop number =>
    dsimp only at isNext
    split at isNext
    · cases isNext
    · cases isNext
  | call _ | turn _ _ | store _ | expire _ | storeJson _ _ _ => cases isNext

theorem State.Sound.of_step (sound : state.Sound computeCostUsdMicro cancelledIsCut)
    (undisturbed : Undisturbed cancelledIsCut state event)
    (taken : step computeCostUsdMicro state event = some next) :
    next.Sound computeCostUsdMicro cancelledIsCut := by
  cases event with
  | call call =>
    cases taken
    exact sound.of_call call
  | start number =>
    exact sound.of_next taken fun request chunks _ isNext _ => (next_storing isNext).elim
  | acquired number =>
    exact sound.of_next taken fun request chunks _ isNext _ => (next_storing isNext).elim
  | lockTimeout number message =>
    exact sound.of_next taken fun request chunks isRequest _ keyed =>
      absurd isRequest (undisturbed request keyed)
  | lockFailed number =>
    exact sound.of_next taken fun request chunks isRequest _ keyed =>
      absurd isRequest (undisturbed request keyed)
  | turn number action => exact sound.of_turn undisturbed taken
  | resume number =>
    exact sound.of_next taken fun request chunks _ isNext _ => next_storing isNext
  | close number =>
    exact sound.of_next taken fun request chunks isRequest isNext keyed =>
      ⟨undisturbed request keyed isRequest, next_storing isNext⟩
  | store number => exact sound.of_store taken
  | drop number =>
    exact sound.of_next taken fun request chunks _ isNext _ => (next_storing isNext).elim
  | expire key =>
    cases taken
    refine sound.of_redis fun other chunks cached => ?_
    by_cases own : other = key
    · subst own
      rw [Function.update_self] at cached
      cases cached
    · rwa [Function.update_of_ne own] at cached
  | storeJson userId idemKey body =>
    cases taken
    refine sound.of_redis fun key chunks cached => ?_
    rcases storeCached_cases cached with before | ⟨_, _, isStored⟩
    · exact before
    · cases isStored

theorem State.Sound.storesWhole (sound : state.Sound computeCostUsdMicro cancelledIsCut)
    (event : Event) : StoresWhole computeCostUsdMicro cancelledIsCut state event := by
  rintro number request chunks rfl isRequest stores keyed
  exact (sound.requests request (List.mem_of_getElem? isRequest)).whole keyed stores

theorem State.CachesWhole.retryRuns (caches : state.CachesWhole computeCostUsdMicro cancelledIsCut)
    (event : Event) : RetryRuns computeCostUsdMicro cancelledIsCut state event := by
  rintro call rfl noWhole
  unfold begin
  split
  · next chunks cached =>
    have found : getCached .stream state.redis call.userId call.idemKey = some (.sse chunks) := by
      rw [getCached, cached]
      rfl
    have inRedis : state.redis call.key = some (.sse chunks) := getCached_some _ _ found
    obtain ⟨request, member, sameKey, whole⟩ := caches call.key chunks inRedis
    exact absurd whole (noWhole request member sameKey chunks)
  · rfl

end Invariant

theorem sound_initial (computeCostUsdMicro : String → Int → Int → Int → Int)
    (cancelledIsCut : Bool) : State.Sound computeCostUsdMicro cancelledIsCut .initial where
  requests _ member := absurd member List.not_mem_nil
  caches _ _ cached := by cases cached

/-- In every undisturbed run every stream in the cache is a whole turn, what a request stores
is its own whole turn, and a request whose key has none runs the turn. -/
theorem completed_only (computeCostUsdMicro : String → Int → Int → Int → Int)
    (cancelledIsCut : Bool) (events : List Event)
    (undisturbed : StepsMeet (step computeCostUsdMicro)
      (Undisturbed cancelledIsCut) .initial events) :
    CompletedOnly computeCostUsdMicro cancelledIsCut events := by
  have initial := sound_initial computeCostUsdMicro cancelledIsCut
  have preserved : ∀ (state : State) event next,
      state.Sound computeCostUsdMicro cancelledIsCut →
      Undisturbed cancelledIsCut state event →
      step computeCostUsdMicro state event = some next →
      next.Sound computeCostUsdMicro cancelledIsCut :=
    fun state event next sound undisturbed taken => sound.of_step undisturbed taken
  refine ⟨?_, ?_, ?_⟩
  · exact (always_of_invariant _ preserved initial undisturbed).mono _ fun state sound =>
      sound.caches
  · exact stepsMeet_of_invariant _ preserved (fun state event sound _ => sound.storesWhole event)
      initial undisturbed
  · exact stepsMeet_of_invariant _ preserved
      (fun state event sound _ => sound.caches.retryRuns event) initial undisturbed

/-! ### Runs -/

/-- The lock is not missed, and the generator is neither closed nor cancelled while it waits. -/
def Event.quiet : Event → Bool
  | .lockTimeout _ _ | .lockFailed _ | .close _ | .turn _ .generatorCancelled => false
  | _ => true

theorem undisturbed_of_quiet {computeCostUsdMicro : String → Int → Int → Int → Int}
    {state : State} (sound : state.Sound computeCostUsdMicro true) {event : Event}
    (quiet : event.quiet = true) : Undisturbed true state event := by
  intro request keyed
  cases event with
  | lockTimeout number message => cases quiet
  | lockFailed number => cases quiet
  | close number => cases quiet
  | turn number action =>
    have notCancel : action ≠ .generatorCancelled := by
      rintro rfl
      cases quiet
    intro isRequest
    have isSound := sound.requests request (List.mem_of_getElem? isRequest)
    refine ⟨fun cancels => absurd cancels notCancel, fun isCut _ => ?_⟩
    exact absurd (isCut.symm.trans (isSound.notCut keyed rfl)) (by decide)
  | call call => trivial
  | start number => trivial
  | acquired number => trivial
  | resume number => trivial
  | store number => trivial
  | drop number => trivial
  | expire key => trivial
  | storeJson userId idemKey body => trivial

theorem stepsMeet_of_quiet (computeCostUsdMicro : String → Int → Int → Int → Int)
    {events : List Event} (quiet : ∀ event ∈ events, event.quiet = true) :
    StepsMeet (step computeCostUsdMicro) (Undisturbed true) .initial events :=
  stepsMeet_of_invariant _
    (fun state _ _ (sound : state.Sound computeCostUsdMicro true) quiet taken =>
      sound.of_step (undisturbed_of_quiet sound quiet) taken)
    (fun _ _ sound quiet => undisturbed_of_quiet sound quiet)
    (sound_initial computeCostUsdMicro true)
    (stepsMeet_of_mem _ (fun event member _ => quiet event member) _)

def aliceCall (turnId : String) : StreamCall := ⟨"alice", "key-1", turnId, none⟩

/-- A turn that runs to its end, and a retry of it. -/
def finishedTurn : List Event :=
  [.call (aliceCall "turn-1"), .start 0, .acquired 0, .turn 0 .runnerStarts,
    .turn 0 (.runnerYields (.streamDelta (some "a"))), .turn 0 .generatorReads, .resume 0,
    .turn 0 (.runnerExits .returned), .turn 0 .generatorReads, .turn 0 .brokerStarts,
    .turn 0 .brokerAwaited, .resume 0, .store 0, .call (aliceCall "turn-2")]

theorem finishedTurn_completed : CompletedOnly (fun _ _ _ _ => 0) true finishedTurn := by
  refine completed_only (fun _ _ _ _ => 0) true finishedTurn (stepsMeet_of_quiet _ ?_)
  exact List.all_eq_true.mp rfl

/-- The client goes away after the first chunk. -/
def closedEarly : List Event :=
  [.call (aliceCall "turn-1"), .start 0, .acquired 0, .turn 0 .runnerStarts,
    .turn 0 (.runnerYields (.streamDelta (some "a"))), .turn 0 .generatorReads, .close 0, .store 0]

/-- The lock is not free in time. -/
def lockMissed : List Event :=
  [.call (aliceCall "turn-1"), .start 0, .lockTimeout 0 "busy", .store 0]

theorem not_completedOnly_of_unfinished {events : List Event} {last : State}
    (chunks : List SseEvent) (run : exec (step fun _ _ _ _ => 0) .initial events = some last)
    (stored : last.redis (aliceCall "turn-1").key = some (.sse chunks))
    (unfinished : last.requests.all (fun request =>
      decide (request.stream.generator = .reading)) = true) :
    ¬ CompletedOnly (fun _ _ _ _ => 0) false events := by
  rintro ⟨caches, _⟩
  obtain ⟨request, member, _, whole⟩ := caches.last _ run _ chunks stored
  have reading := of_decide_eq_true (List.all_eq_true.mp unfinished request member)
  cases reading.symm.trans whole.finished

/-- Both times the buffer is stored: a chunk of a turn that was cut, and the error of a turn
that was never run. -/
theorem unfinished_streams_are_stored :
    ¬ CompletedOnly (fun _ _ _ _ => 0) false closedEarly ∧
      ¬ CompletedOnly (fun _ _ _ _ => 0) false lockMissed := by
  constructor
  · exact not_completedOnly_of_unfinished [eventDelta "a"] rfl rfl rfl
  · exact not_completedOnly_of_unfinished
      [eventError "UNAVAILABLE" "busy", eventDone "turn-1" ""] rfl rfl rfl

end LiteHorse.Web.StreamCache
