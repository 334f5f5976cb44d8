/-
This file is about calls that read a shared store, work out a change and write it, each in a
transaction that takes no lock when it reads. A read sees what is committed, a write waits for
the transaction of an earlier write to end, and a commit makes the write visible.

Between a call's read and its write others may commit, and the write then goes over theirs.
`always_serial` says when this does no harm: if every write finds the store reading as it did
when the call read it, the store is in every state what the calls that succeeded make of it
when they run one after the other.
-/

import LiteHorse.Library.Runs
import Mathlib.Logic.Function.Basic

namespace LiteHorse.ReadModifyWrite

open Runs

/-- How calls use the store: what a call reads of it, what it makes of that, and what its write
makes of the store. A call that makes nothing of what it read succeeds without a write. -/
structure Access (Store Seen Call Draft Raised : Type) where
  read : Call → Store → Seen
  plan : Call → Seen → Except Raised (Option Draft)
  write : Call → Draft → Store → Except Raised Store

section Alone

variable {Store Seen Call Draft Raised : Type} (access : Access Store Seen Call Draft Raised)

/-- The store after a call that runs alone. -/
def Access.effect (call : Call) (store : Store) : Except Raised Store :=
  match access.plan call (access.read call store) with
  | .error raised => .error raised
  | .ok none => .ok store
  | .ok (some draft) => access.write call draft store

/-- Calls one after the other, each of which has to succeed. -/
def Access.next (store : Store) (call : Call) : Option Store := (access.effect call store).toOption

theorem Access.next_of_effect {call : Call} {store next : Store}
    (succeeds : access.effect call store = .ok next) : access.next store call = some next := by
  unfold Access.next
  rw [succeeds]
  rfl

end Alone

/-! ### The interleaved calls -/

/-- Where a call stands. -/
inductive Phase (Store Seen Call Raised : Type) where
  | idle
  | reading (call : Call) (seen : Seen)
  | written (call : Call) (seen : Seen) (store : Store)
  | returned (call : Call) (result : Except Raised Unit)

inductive Event (Id Call : Type) where
  | get (id : Id) (call : Call)
  | put (id : Id)
  | commit (id : Id)

structure State (Store Seen Call Raised Id : Type) where
  store : Store
  phase : Id → Phase Store Seen Call Raised
  /-- Whose write is not committed. -/
  writer : Option Id
  /-- The calls that have succeeded, in the order they took effect. -/
  served : List (Id × Call)

section System

variable {Store Seen Call Draft Raised Id : Type}

/-- No call has started. -/
def State.initial (store : Store) : State Store Seen Call Raised Id where
  store := store
  phase := fun _ => .idle
  writer := none
  served := []

variable [DecidableEq Id]

def State.move (state : State Store Seen Call Raised Id) (id : Id)
    (phase : Phase Store Seen Call Raised) : State Store Seen Call Raised Id :=
  { state with phase := Function.update state.phase id phase }

/-- The call returns without an error. -/
def State.serve (state : State Store Seen Call Raised Id) (id : Id) (call : Call) :
    State Store Seen Call Raised Id :=
  { state.move id (.returned call (.ok ())) with served := state.served ++ [(id, call)] }

variable (access : Access Store Seen Call Draft Raised)

def get (state : State Store Seen Call Raised Id) (id : Id) (call : Call) :
    Option (State Store Seen Call Raised Id) :=
  match state.phase id with
  | .idle =>
    let seen := access.read call state.store
    match access.plan call seen with
    | .error raised => some (state.move id (.returned call (.error raised)))
    | .ok none => some (state.serve id call)
    | .ok (some _) => some (state.move id (.reading call seen))
  | _ => none

def put (state : State Store Seen Call Raised Id) (id : Id) :
    Option (State Store Seen Call Raised Id) :=
  match state.phase id, state.writer with
  | .reading call seen, none =>
    match access.plan call seen with
    | .ok (some draft) =>
      match access.write call draft state.store with
      | .error raised => some (state.move id (.returned call (.error raised)))
      | .ok store => some { state.move id (.written call seen store) with writer := some id }
    | _ => none
  | _, _ => none

def commit (state : State Store Seen Call Raised Id) (id : Id) :
    Option (State Store Seen Call Raised Id) :=
  match state.phase id with
  | .written call _ store => some { state.serve id call with store, writer := none }
  | _ => none

def step (state : State Store Seen Call Raised Id) :
    Event Id Call → Option (State Store Seen Call Raised Id)
  | .get id call => get access state id call
  | .put id => put access state id
  | .commit id => commit state id

/-- A write finds the store reading as it did when the call read it. -/
def Fresh (state : State Store Seen Call Raised Id) : Event Id Call → Prop
  | .put id =>
    ∀ call seen, state.phase id = .reading call seen → access.read call state.store = seen
  | .get _ _ | .commit _ => True

/-! ### What a step does -/

variable {access} {state next : State Store Seen Call Raised Id} {id : Id} {call : Call}

theorem get_cases (taken : get access state id call = some next) :
    (∃ raised, access.plan call (access.read call state.store) = .error raised ∧
        next = state.move id (.returned call (.error raised))) ∨
      (access.plan call (access.read call state.store) = .ok none ∧ next = state.serve id call) ∨
        ∃ draft, access.plan call (access.read call state.store) = .ok (some draft) ∧
          next = state.move id (.reading call (access.read call state.store)) := by
  unfold get at taken
  split at taken
  next =>
    dsimp only at taken
    split at taken
    next raised isPlan =>
      cases taken
      exact Or.inl ⟨raised, isPlan, rfl⟩
    next isPlan =>
      cases taken
      exact Or.inr (Or.inl ⟨isPlan, rfl⟩)
    next draft isPlan =>
      cases taken
      exact Or.inr (Or.inr ⟨draft, isPlan, rfl⟩)
  next => cases taken

theorem put_cases (taken : put access state id = some next) :
    ∃ call seen draft, state.phase id = .reading call seen ∧ state.writer = none ∧
      access.plan call seen = .ok (some draft) ∧
        ((∃ raised, access.write call draft state.store = .error raised ∧
            next = state.move id (.returned call (.error raised))) ∨
          ∃ store, access.write call draft state.store = .ok store ∧
            next = { state.move id (.written call seen store) with writer := some id }) := by
  unfold put at taken
  split at taken
  next call seen isPhase noWriter =>
    split at taken
    next draft isPlan =>
      refine ⟨call, seen, draft, isPhase, noWriter, isPlan, ?_⟩
      split at taken
      next raised refused =>
        cases taken
        exact Or.inl ⟨raised, refused, rfl⟩
      next store stored =>
        cases taken
        exact Or.inr ⟨store, stored, rfl⟩
    next => cases taken
  next => cases taken

theorem commit_cases (taken : commit state id = some next) :
    ∃ call seen store, state.phase id = .written call seen store ∧
      next = { state.serve id call with store, writer := none } := by
  unfold commit at taken
  split at taken
  next call seen store isPhase =>
    cases taken
    exact ⟨call, seen, store, isPhase, rfl⟩
  next => cases taken

theorem get_eq {seen : Seen} {draft : Draft} (isIdle : state.phase id = .idle)
    (isSeen : access.read call state.store = seen)
    (isPlan : access.plan call seen = .ok (some draft)) :
    step access state (.get id call) = some (state.move id (.reading call seen)) := by
  show get access state id call = _
  unfold get
  rw [isIdle]
  dsimp only
  rw [isSeen, isPlan]

theorem put_eq {seen : Seen} {draft : Draft} {store : Store}
    (isReading : state.phase id = .reading call seen) (noWriter : state.writer = none)
    (isPlan : access.plan call seen = .ok (some draft))
    (stored : access.write call draft state.store = .ok store) :
    step access state (.put id) =
      some { state.move id (.written call seen store) with writer := some id } := by
  show put access state id = _
  unfold put
  rw [isReading, noWriter]
  dsimp only
  rw [isPlan]
  dsimp only
  rw [stored]

theorem phase_move_self (phase : Phase Store Seen Call Raised) :
    (state.move id phase).phase id = phase := Function.update_self ..

theorem phase_move_other {other : Id} (different : other ≠ id)
    (phase : Phase Store Seen Call Raised) :
    (state.move id phase).phase other = state.phase other := Function.update_of_ne different ..

/-- A call that moves to another phase leaves the written ones as they were. -/
theorem written_of_move {phase : Phase Store Seen Call Raised} {other : Id} {seen : Seen}
    {store : Store} (notWritten : ∀ call seen store, phase ≠ .written call seen store)
    (isPhase : (state.move id phase).phase other = .written call seen store) :
    other ≠ id ∧ state.phase other = .written call seen store := by
  by_cases same : other = id
  · rw [same, phase_move_self] at isPhase
    exact absurd isPhase (notWritten call seen store)
  · rw [phase_move_other same] at isPhase
    exact ⟨same, isPhase⟩

/-! ### Serial runs -/

/-- The calls that have succeeded lead to the store, and so does the write that is under way. -/
structure Serial (access : Access Store Seen Call Draft Raised) (initial : Store)
    (state : State Store Seen Call Raised Id) : Prop where
  served : exec access.next initial (state.served.map Prod.snd) = some state.store
  pending : ∀ id call seen store, state.phase id = .written call seen store →
    state.writer = some id ∧ access.effect call state.store = .ok store

variable {initial : Store}

omit [DecidableEq Id] in
theorem serial_initial :
    Serial access initial (State.initial initial : State Store Seen Call Raised Id) where
  served := rfl
  pending := fun _ _ _ _ isPhase => by cases isPhase

omit [DecidableEq Id] in
/-- The calls with one more that takes the store to another. -/
theorem exec_serve {served : List (Id × Call)} {store after : Store}
    (serial : exec access.next initial (served.map Prod.snd) = some store)
    (succeeds : access.effect call store = .ok after) :
    exec access.next initial ((served ++ [(id, call)]).map Prod.snd) = some after := by
  rw [List.map_append, exec_append, serial]
  show (access.next store call).bind _ = some after
  rw [access.next_of_effect succeeds]
  rfl

theorem Serial.get (serial : Serial access initial state)
    (taken : get access state id call = some next) : Serial access initial next := by
  rcases get_cases taken with ⟨raised, _, rfl⟩ | ⟨isPlan, rfl⟩ | ⟨draft, _, rfl⟩
  · refine ⟨serial.served, fun other call seen store isPhase => ?_⟩
    obtain ⟨_, isPhase⟩ := written_of_move (fun _ _ _ same => by cases same) isPhase
    exact serial.pending other call seen store isPhase
  · have succeeds : access.effect call state.store = .ok state.store := by
      unfold Access.effect
      rw [isPlan]
    refine ⟨exec_serve serial.served succeeds, fun other call seen store isPhase => ?_⟩
    obtain ⟨_, isPhase⟩ := written_of_move (fun _ _ _ same => by cases same) isPhase
    exact serial.pending other call seen store isPhase
  · refine ⟨serial.served, fun other call seen store isPhase => ?_⟩
    obtain ⟨_, isPhase⟩ := written_of_move (fun _ _ _ same => by cases same) isPhase
    exact serial.pending other call seen store isPhase

/-- Nobody else has a write under way, and the write does what the call does alone. -/
theorem Serial.put (serial : Serial access initial state) (fresh : Fresh access state (.put id))
    (taken : put access state id = some next) : Serial access initial next := by
  obtain ⟨call, seen, draft, isReading, noWriter, isPlan, outcome⟩ := put_cases taken
  have noneWritten : ∀ other call seen store, state.phase other ≠ .written call seen store := by
    intro other call seen store isPhase
    have isWriter := (serial.pending other call seen store isPhase).1
    rw [noWriter] at isWriter
    cases isWriter
  rcases outcome with ⟨raised, _, rfl⟩ | ⟨store, stored, rfl⟩
  · refine ⟨serial.served, fun other call seen store isPhase => ?_⟩
    obtain ⟨_, isPhase⟩ := written_of_move (fun _ _ _ same => by cases same) isPhase
    exact absurd isPhase (noneWritten other call seen store)
  · have succeeds : access.effect call state.store = .ok store := by
      unfold Access.effect
      rw [fresh call seen isReading, isPlan]
      exact stored
    refine ⟨serial.served, fun other otherCall otherSeen otherStore isPhase => ?_⟩
    change (state.move id _).phase other = _ at isPhase
    by_cases same : other = id
    · rw [same, phase_move_self] at isPhase
      cases isPhase
      exact ⟨congrArg some same.symm, succeeds⟩
    · rw [phase_move_other same] at isPhase
      exact absurd isPhase (noneWritten other otherCall otherSeen otherStore)

theorem Serial.commit (serial : Serial access initial state)
    (taken : commit state id = some next) : Serial access initial next := by
  obtain ⟨call, seen, store, isWritten, rfl⟩ := commit_cases taken
  obtain ⟨isWriter, succeeds⟩ := serial.pending id call seen store isWritten
  refine ⟨exec_serve serial.served succeeds, fun other otherCall otherSeen otherStore isPhase => ?_⟩
  obtain ⟨different, isPhase⟩ := written_of_move (fun _ _ _ same => by cases same) isPhase
  have otherWriter := (serial.pending other otherCall otherSeen otherStore isPhase).1
  rw [isWriter] at otherWriter
  exact absurd (Option.some.inj otherWriter).symm different

/-- If every write is fresh, the calls that succeed are serial. -/
theorem always_serial {events : List (Event Id Call)}
    (meet : StepsMeet (step access) (Fresh access) (State.initial initial) events) :
    Always (step access) (Serial access initial) (State.initial initial) events := by
  refine always_of_invariant _ (fun state event next serial fresh taken => ?_) serial_initial meet
  cases event with
  | get id call => exact serial.get taken
  | put id => exact serial.put fresh taken
  | commit id => exact serial.commit taken

end System

end LiteHorse.ReadModifyWrite
