/-
This file is about `RedisSessionLock`: any number of acquirers, each with its key and its token,
over one Redis. `SET NX PX`, the release script and the end of a lease are atomic steps of the
server; what an acquirer does between two awaits is a step of its own.

An acquirer that is cancelled at an await leaves its command in flight, and the server may
still execute it. A lease ends at any moment after it was granted. `lease_safety` says that a
lease which has not ended keeps everybody else out.
-/

import LiteHorse.Library.Lease
import LiteHorse.Library.Runs

set_option linter.unusedSectionVars false

namespace LiteHorse.Storage.LocksRedis

open Leases Runs

/-- Where an acquirer stands in `_acquire`. -/
inductive Phase where
  | idle
  /-- At the condition of the loop. -/
  | looping
  | setSent
  | setReplied (ok : Bool)
  | sleeping
  /-- In the body of the `async with`. -/
  | holding
  | evalSent
  | left
  deriving DecidableEq

/-- What became of the lease of an acquirer. -/
inductive Lease where
  | notGranted
  | running
  | expired
  | released
  deriving DecidableEq

/-- A command in flight that nobody awaits. -/
inductive Orphan where
  | none
  | set
  | eval
  deriving DecidableEq

structure LockState (Key Token : Type*) where
  entries : Entries Key Token
  phase : Nat → Phase
  lease : Nat → Lease
  orphan : Nat → Orphan

def LockState.initial (Key Token : Type*) : LockState Key Token where
  entries _ := none
  phase _ := .idle
  lease _ := .notGranted
  orphan _ := .none

inductive LockEvent where
  | start (index : Nat)
  /-- The deadline has not passed: `SET` is sent. -/
  | sendSet (index : Nat)
  /-- The deadline has passed: `LockTimeoutError`. -/
  | timeout (index : Nat)
  | execSet (index : Nat)
  | setReturns (index : Nat)
  | wake (index : Nat)
  /-- The body ends in any way: the release script is sent. -/
  | exitBody (index : Nat)
  | execEval (index : Nat)
  /-- The acquirer is cancelled, or its connection fails, at an await. -/
  | cancel (index : Nat)
  | execOrphan (index : Nat)
  | expire (index : Nat)

variable {Key Token : Type*} [DecidableEq Key] [DecidableEq Token]

namespace LockState

def moveTo (state : LockState Key Token) (index : Nat) (phase : Phase) : LockState Key Token :=
  { state with phase := Function.update state.phase index phase }

/-- The server executes `SET key token NX PX ttl`. -/
def execSet (key : Nat → Key) (token : Nat → Token) (state : LockState Key Token) (index : Nat) :
    LockState Key Token :=
  { state with
    entries := setNx state.entries (key index) (token index)
    lease := if state.entries (key index) = none then Function.update state.lease index .running
      else state.lease }

/-- The server deletes the entry that the acquirer's `SET` has written, if it is there. -/
def endLease (key : Nat → Key) (token : Nat → Token) (state : LockState Key Token) (index : Nat)
    (lease : Lease) : LockState Key Token :=
  { state with
    entries := deleteIfHeld state.entries (key index) (token index)
    lease := if state.lease index = .running then Function.update state.lease index lease
      else state.lease }

end LockState

variable (key : Nat → Key) (token : Nat → Token)

def lockStep (state : LockState Key Token) : LockEvent → Option (LockState Key Token)
  | .start index =>
    if state.phase index = .idle then some (state.moveTo index .looping) else none
  | .sendSet index =>
    if state.phase index = .looping then some (state.moveTo index .setSent) else none
  | .timeout index =>
    if state.phase index = .looping then some (state.moveTo index .left) else none
  | .execSet index =>
    if state.phase index = .setSent then
      some ((state.execSet key token index).moveTo index
        (.setReplied (state.entries (key index)).isNone))
    else none
  | .setReturns index =>
    match state.phase index with
    | .setReplied true => some (state.moveTo index .holding)
    | .setReplied false => some (state.moveTo index .sleeping)
    | _ => none
  | .wake index =>
    if state.phase index = .sleeping then some (state.moveTo index .looping) else none
  | .exitBody index =>
    if state.phase index = .holding then some (state.moveTo index .evalSent) else none
  | .execEval index =>
    if state.phase index = .evalSent then
      some ((state.endLease key token index .released).moveTo index .left)
    else none
  | .cancel index =>
    match state.phase index with
    | .setSent =>
      some { state.moveTo index .left with orphan := Function.update state.orphan index .set }
    | .evalSent =>
      some { state.moveTo index .left with orphan := Function.update state.orphan index .eval }
    | .setReplied _ | .sleeping => some (state.moveTo index .left)
    | _ => none
  | .execOrphan index =>
    match state.orphan index with
    | .set =>
      some { state.execSet key token index with
        orphan := Function.update state.orphan index .none }
    | .eval =>
      some { state.endLease key token index .released with
        orphan := Function.update state.orphan index .none }
    | .none => none
  | .expire index =>
    if state.lease index = .running then some (state.endLease key token index .expired) else none

/-- The acquirer has the lock, as far as it knows: `SET` has succeeded, and the release script
was not executed. -/
def Phase.hasLock : Phase → Bool
  | .setReplied true | .holding | .evalSent => true
  | .setReplied false | .idle | .looping | .setSent | .sleeping | .left => false

/-- A holder whose lease has not expired. -/
def HoldsLease (state : LockState Key Token) (index : Nat) : Prop :=
  (state.phase index).hasLock = true ∧ state.lease index ≠ .expired

/-- Every key has one holder with an unexpired lease at most, its token is what is stored at the
key, and a release leaves every entry that holds another token. -/
def LeaseSafe (state : LockState Key Token) : Prop :=
  (∀ first second, HoldsLease state first → HoldsLease state second → key first = key second →
    first = second) ∧
  (∀ index, HoldsLease state index → state.entries (key index) = some (token index)) ∧
  ∀ index event next, (event = .execEval index ∨ event = .execOrphan index) →
    lockStep key token state event = some next → ∀ otherKey other,
      state.entries otherKey = some other → other ≠ token index →
        next.entries otherKey = some other

/-! ### What one step can do -/

/-- The event is a step of an acquirer, and not of the server. -/
def LockEvent.ofAcquirer : LockEvent → Bool
  | .start _ | .sendSet _ | .timeout _ | .setReturns _ | .wake _ | .exitBody _ | .cancel _ => true
  | .execSet _ | .execEval _ | .execOrphan _ | .expire _ => false

/-- What a step does to the acquirers and to the server. -/
inductive LockMoves (state : LockState Key Token) : LockEvent → LockState Key Token → Prop where
  /-- An acquirer moves on without the lock. -/
  | goesOn {event : LockEvent} (index : Nat) (phase : Phase)
      (ofAcquirer : event.ofAcquirer = true) (notLeft : state.phase index ≠ .left)
      (noLock : phase.hasLock = false) : LockMoves state event (state.moveTo index phase)
  | enters (index : Nat) (replied : state.phase index = .setReplied true) :
      LockMoves state (.setReturns index) (state.moveTo index .holding)
  | exits (index : Nat) (holding : state.phase index = .holding) :
      LockMoves state (.exitBody index) (state.moveTo index .evalSent)
  /-- An acquirer leaves a command in flight. -/
  | abandons (index : Nat) (orphan : Orphan) :
      LockMoves state (.cancel index)
        { state.moveTo index .left with orphan := Function.update state.orphan index orphan }
  | sets (index : Nat) (sent : state.phase index = .setSent) :
      LockMoves state (.execSet index) ((state.execSet key token index).moveTo index
        (.setReplied (state.entries (key index)).isNone))
  | releases (index : Nat) (sent : state.phase index = .evalSent) :
      LockMoves state (.execEval index)
        ((state.endLease key token index .released).moveTo index .left)
  | orphanSets (index : Nat) (inFlight : state.orphan index = .set) :
      LockMoves state (.execOrphan index)
        { state.execSet key token index with
          orphan := Function.update state.orphan index .none }
  | orphanReleases (index : Nat) (inFlight : state.orphan index = .eval) :
      LockMoves state (.execOrphan index)
        { state.endLease key token index .released with
          orphan := Function.update state.orphan index .none }
  | expires (index : Nat) (isRunning : state.lease index = .running) :
      LockMoves state (.expire index) (state.endLease key token index .expired)

theorem lockStep_moves {state next : LockState Key Token} (event : LockEvent)
    (taken : lockStep key token state event = some next) :
    LockMoves key token state event next := by
  have notLeft {index : Nat} {phase : Phase} (isPhase : state.phase index = phase)
      (other : phase ≠ .left) : state.phase index ≠ .left := isPhase ▸ other
  cases event with
  | start index =>
    rw [lockStep, Option.ite_none_right_eq_some] at taken
    cases taken.2
    exact .goesOn index .looping rfl (notLeft taken.1 (by decide)) rfl
  | sendSet index =>
    rw [lockStep, Option.ite_none_right_eq_some] at taken
    cases taken.2
    exact .goesOn index .setSent rfl (notLeft taken.1 (by decide)) rfl
  | timeout index =>
    rw [lockStep, Option.ite_none_right_eq_some] at taken
    cases taken.2
    exact .goesOn index .left rfl (notLeft taken.1 (by decide)) rfl
  | execSet index =>
    rw [lockStep, Option.ite_none_right_eq_some] at taken
    cases taken.2
    exact .sets index taken.1
  | setReturns index =>
    simp only [lockStep] at taken
    split at taken
    · next replied =>
      cases taken
      exact .enters index replied
    · next replied =>
      cases taken
      exact .goesOn index .sleeping rfl (notLeft replied (by decide)) rfl
    · cases taken
  | wake index =>
    rw [lockStep, Option.ite_none_right_eq_some] at taken
    cases taken.2
    exact .goesOn index .looping rfl (notLeft taken.1 (by decide)) rfl
  | exitBody index =>
    rw [lockStep, Option.ite_none_right_eq_some] at taken
    cases taken.2
    exact .exits index taken.1
  | execEval index =>
    rw [lockStep, Option.ite_none_right_eq_some] at taken
    cases taken.2
    exact .releases index taken.1
  | cancel index =>
    simp only [lockStep] at taken
    split at taken
    · cases taken
      exact .abandons index .set
    · cases taken
      exact .abandons index .eval
    · next ok replied =>
      cases taken
      exact .goesOn index .left rfl (notLeft replied (by intro same; cases same)) rfl
    · next sleeps =>
      cases taken
      exact .goesOn index .left rfl (notLeft sleeps (by decide)) rfl
    · cases taken
  | execOrphan index =>
    simp only [lockStep] at taken
    split at taken
    · next isSet =>
      cases taken
      exact .orphanSets index isSet
    · next isEval =>
      cases taken
      exact .orphanReleases index isEval
    · cases taken
  | expire index =>
    rw [lockStep, Option.ite_none_right_eq_some] at taken
    cases taken.2
    exact .expires index taken.1

/-! ### What one step keeps -/

/-- The token has been granted a lease of the key that runs. -/
def Running (state : LockState Key Token) (owner : Token) (ofKey : Key) : Prop :=
  ∃ index, state.lease index = .running ∧ token index = owner ∧ key index = ofKey

structure LockInvariant (state : LockState Key Token) : Prop where
  backed : Backed (Running key token state) state.entries
  granted : ∀ index, (state.phase index).hasLock = true →
    state.lease index = .running ∨ state.lease index = .expired
  orphaned : ∀ index, state.orphan index ≠ .none → state.phase index = .left

section Steps

variable {key token} {state next : LockState Key Token}

theorem phase_moveTo (state : LockState Key Token) (index other : Nat) (phase : Phase) :
    (state.moveTo index phase).phase other =
      if other = index then phase else state.phase other :=
  Function.update_apply _ _ _ _

/-- A step of an acquirer that has not left. -/
theorem LockInvariant.moveTo (invariant : LockInvariant key token state) (index : Nat)
    (phase : Phase) (notLeft : state.phase index ≠ .left)
    (granted : phase.hasLock = true →
      state.lease index = .running ∨ state.lease index = .expired) :
    LockInvariant key token (state.moveTo index phase) where
  backed := invariant.backed
  granted other has := by
    rw [phase_moveTo] at has
    split at has
    · next same =>
      rw [same]
      exact granted has
    · exact invariant.granted other has
  orphaned other isOrphan := by
    have hasLeft := invariant.orphaned other isOrphan
    rw [phase_moveTo, if_neg, hasLeft]
    rintro rfl
    exact notLeft hasLeft

/-- The command of an acquirer that leaves stays in flight. -/
theorem LockInvariant.abandon (invariant : LockInvariant key token state) (index : Nat)
    (orphan : Orphan) :
    LockInvariant key token
      { state.moveTo index .left with orphan := Function.update state.orphan index orphan } where
  backed := invariant.backed
  granted other has := by
    rw [show _ = (state.moveTo index .left).phase other from rfl, phase_moveTo] at has
    split at has
    · cases has
    · exact invariant.granted other has
  orphaned other isOrphan := by
    rw [show _ = (state.moveTo index .left).phase other from rfl, phase_moveTo]
    split
    · rfl
    · next notSame =>
      exact invariant.orphaned other
        fun none => isOrphan ((Function.update_of_ne notSame _ _).trans none)

/-- A command in flight that was executed. -/
theorem LockInvariant.settle (invariant : LockInvariant key token state) (index : Nat) :
    LockInvariant key token
      { state with orphan := Function.update state.orphan index .none } where
  backed := invariant.backed
  granted := invariant.granted
  orphaned other isOrphan := by
    refine invariant.orphaned other fun none => isOrphan ?_
    show Function.update state.orphan index .none other = .none
    by_cases same : other = index
    · rw [same, Function.update_self]
    · rw [Function.update_of_ne same, none]

/-- A `SET` that the server executes. -/
theorem LockInvariant.execSet (invariant : LockInvariant key token state) (index : Nat) :
    LockInvariant key token (state.execSet key token index) := by
  by_cases free : state.entries (key index) = none
  · refine ⟨invariant.backed.setNx free fun owner ofKey runs => ?_, fun other has => ?_,
      invariant.orphaned⟩
    · obtain ⟨other, isRunning, isOwner, isKey⟩ := runs
      simp only [LockState.execSet, if_pos free] at isRunning
      by_cases same : other = index
      · rw [same] at isOwner isKey
        exact Or.inl ⟨isOwner.symm, isKey.symm⟩
      · rw [Function.update_of_ne same] at isRunning
        exact Or.inr ⟨other, isRunning, isOwner, isKey⟩
    · simp only [LockState.execSet, if_pos free]
      by_cases same : other = index
      · rw [same, Function.update_self]
        exact Or.inl rfl
      · rw [Function.update_of_ne same]
        exact invariant.granted other has
  · obtain ⟨other, held⟩ := Option.ne_none_iff_exists'.mp free
    have unchanged : state.execSet key token index = state := by
      unfold LockState.execSet
      rw [setNx_of_some held, if_neg free]
    rw [unchanged]
    exact invariant

/-- A lease that was granted runs. -/
theorem lease_execSet {index : Nat} (free : state.entries (key index) = none) :
    (state.execSet key token index).lease index = .running := by
  simp only [LockState.execSet, if_pos free, Function.update_self]

theorem lease_endLease (state : LockState Key Token) (index other : Nat) (lease : Lease) :
    (state.endLease key token index lease).lease other =
      if other = index ∧ state.lease index = .running then lease else state.lease other := by
  unfold LockState.endLease
  by_cases isRunning : state.lease index = .running
  · simp only [isRunning, if_true, and_true, Function.update_apply]
  · simp only [isRunning, if_false, and_false]

/-- The end of a lease, by expiry or by the release of an acquirer that has the lock no more. -/
theorem LockInvariant.endLease (invariant : LockInvariant key token state)
    (unique : Function.Injective token) (index : Nat) (lease : Lease)
    (notRunning : lease ≠ .running)
    (expires : (state.phase index).hasLock = true → lease = .expired) :
    LockInvariant key token (state.endLease key token index lease) := by
  have stillRunning : ∀ other, (state.endLease key token index lease).lease other = .running →
      state.lease other = .running ∧ other ≠ index := by
    intro other isRunning
    rw [lease_endLease] at isRunning
    split at isRunning
    · exact absurd isRunning notRunning
    · next stays =>
      refine ⟨isRunning, ?_⟩
      rintro rfl
      exact stays ⟨rfl, isRunning⟩
  refine ⟨invariant.backed.deleteIfHeld fun owner ofKey runs => ?_, fun other has => ?_,
    invariant.orphaned⟩
  · obtain ⟨other, isRunning, rfl, isKey⟩ := runs
    obtain ⟨wasRunning, notSame⟩ := stillRunning other isRunning
    exact ⟨⟨other, wasRunning, rfl, isKey⟩, fun same => notSame (unique same)⟩
  · rw [lease_endLease]
    split
    · next ends =>
      rw [ends.1] at has
      exact Or.inr (expires has)
    · exact invariant.granted other has

/-- The step lemma. -/
theorem lockInvariant_step (unique : Function.Injective token) (event : LockEvent)
    (invariant : LockInvariant key token state)
    (taken : lockStep key token state event = some next) : LockInvariant key token next := by
  have leaves (index : Nat) (notLeft : state.phase index ≠ .left) (phase : Phase)
      (noLock : phase.hasLock = false) : LockInvariant key token (state.moveTo index phase) :=
    invariant.moveTo index phase notLeft fun has => by
      rw [noLock] at has
      cases has
  cases lockStep_moves key token event taken with
  | goesOn index phase ofAcquirer notLeft noLock => exact leaves index notLeft phase noLock
  | enters index replied =>
    exact invariant.moveTo index .holding (by rw [replied]; decide)
      fun _ => invariant.granted index (by rw [replied]; rfl)
  | exits index holding =>
    exact invariant.moveTo index .evalSent (by rw [holding]; decide)
      fun _ => invariant.granted index (by rw [holding]; rfl)
  | abandons index orphan => exact invariant.abandon index orphan
  | sets index sent =>
    refine (invariant.execSet index).moveTo index _ (fun hasLeft => ?_) fun has => ?_
    · rw [show state.phase index = .left from hasLeft] at sent
      cases sent
    · cases free : state.entries (key index) with
      | none => exact Or.inl (lease_execSet free)
      | some other =>
        rw [free] at has
        cases has
  | releases index sent =>
    have hasLeft := leaves index (by rw [sent]; decide) .left rfl
    refine hasLeft.endLease unique index .released (by decide) fun has => ?_
    rw [phase_moveTo, if_pos rfl] at has
    cases has
  | orphanSets index inFlight => exact (invariant.execSet index).settle index
  | orphanReleases index inFlight =>
    have hasLeft := invariant.orphaned index (by rw [inFlight]; decide)
    refine (invariant.endLease unique index .released (by decide) fun has => ?_).settle index
    rw [hasLeft] at has
    cases has
  | expires index isRunning =>
    exact invariant.endLease unique index .expired (by decide) fun _ => rfl

/-- A release deletes no entry of another token. -/
theorem release_keeps {index : Nat} {event : LockEvent}
    (isRelease : event = .execEval index ∨ event = .execOrphan index)
    (taken : lockStep key token state event = some next) {otherKey : Key} {other : Token}
    (held : state.entries otherKey = some other) (notOwn : other ≠ token index) :
    next.entries otherKey = some other := by
  rcases isRelease with rfl | rfl
  · cases lockStep_moves key token _ taken with
    | goesOn _ _ ofAcquirer => cases ofAcquirer
    | releases => exact deleteIfHeld_of_ne held notOwn
  · cases lockStep_moves key token _ taken with
    | goesOn _ _ ofAcquirer => cases ofAcquirer
    | orphanReleases => exact deleteIfHeld_of_ne held notOwn
    | orphanSets =>
      show setNx _ _ _ otherKey = _
      unfold setNx
      split
      · next free =>
        rw [Function.update_of_ne, held]
        rintro rfl
        rw [free] at held
        cases held
      · exact held

theorem LockInvariant.leaseSafe (invariant : LockInvariant key token state)
    (unique : Function.Injective token) : LeaseSafe key token state := by
  have runs : ∀ index, HoldsLease state index → state.lease index = .running :=
    fun index holds => (invariant.granted index holds.1).resolve_right holds.2
  refine ⟨fun first second holdsFirst holdsSecond sameKey => ?_, fun index holds => ?_,
    fun index event next isRelease taken otherKey other => release_keeps isRelease taken⟩
  · have isFirst : Running key token state (token first) (key second) :=
      ⟨first, runs first holdsFirst, rfl, sameKey⟩
    exact unique (invariant.backed.unique isFirst ⟨second, runs second holdsSecond, rfl, rfl⟩)
  · exact invariant.backed _ _ ⟨index, runs index holds, rfl, rfl⟩

theorem lockInvariant_initial : LockInvariant key token (LockState.initial Key Token) where
  backed _ _ := by
    rintro ⟨index, isRunning, _⟩
    cases isRunning
  granted index has := by cases has
  orphaned index isOrphan := absurd rfl isOrphan

end Steps

/-- With unique tokens, in every run of any number of acquirers on any keys the leases are
safe. -/
theorem lease_safety (unique : Function.Injective token) (events : List LockEvent) :
    Always (lockStep key token) (LeaseSafe key token) (LockState.initial Key Token) events := by
  have invariant : Always (lockStep key token) (LockInvariant key token)
      (LockState.initial Key Token) events :=
    always_invariant (lockStep key token) (fun state event next => lockInvariant_step unique event)
      lockInvariant_initial
  exact invariant.mono _ fun _ invariant => invariant.leaseSafe unique

/-- The lease of a holder expires, another acquirer takes the key, and the first one releases
late. -/
def lateRelease : List LockEvent :=
  [.start 0, .sendSet 0, .execSet 0, .setReturns 0, .expire 0, .start 1, .sendSet 1, .execSet 1,
    .setReturns 1, .exitBody 0, .execEval 0]

theorem lateRelease_safe :
    Always (lockStep (fun _ => "turn-lock:user:session") (id : Nat → Nat))
        (LeaseSafe (fun _ => "turn-lock:user:session") id) (LockState.initial String Nat)
        lateRelease ∧
      (exec (lockStep (fun _ => "turn-lock:user:session") (id : Nat → Nat))
        (LockState.initial String Nat) lateRelease).map
          (fun state => state.entries "turn-lock:user:session") = some (some 1) :=
  ⟨lease_safety (fun _ => "turn-lock:user:session") id Function.injective_id lateRelease,
    by decide⟩

end LiteHorse.Storage.LocksRedis
