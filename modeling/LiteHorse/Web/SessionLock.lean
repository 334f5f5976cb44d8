/-
This file is about the turns of a session: `post_turn` and `post_turn_stream` run a turn in the
body of a `RedisSessionLock` with `ttl=300.0` and `wait=30.0`, and nothing renews the lease
while the turn goes on.

The runs are those of the lock with a clock: a lease ends 300 s after Redis has executed the
`SET`, whatever its holder does. `turns_disjoint` says that this is all that can go wrong.
-/

import LiteHorse.Storage.LocksRedis

set_option linter.unusedSectionVars false

namespace LiteHorse.Web.SessionLock

open Runs Storage.LocksRedis

/-- `_session_lock_key` -/
def sessionLockKey (userId sessionKey : String) : String := userId ++ ":" ++ sessionKey

/-- The key that `_maybe_acquire_lock` passes to the lock. -/
def turnLockKey (userId sessionKey : String) : String :=
  "turn-lock:" ++ sessionLockKey userId sessionKey

/-- `ttl=300.0`, as `max(1, int(ttl * 1000))`. -/
def ttlMs : Nat := max 1 (300 * 1000)

/-- `wait=30.0`, in milliseconds. -/
def waitMs : Nat := 30 * 1000

/-- The lock of the turns, with the time, the deadline of each acquirer, and the time at which
Redis executed its last `SET`. -/
structure TurnsState (Token : Type*) where
  locks : LockState String Token
  now : Nat := 0
  deadline : Nat → Nat := fun _ => 0
  setAt : Nat → Nat := fun _ => 0

inductive TurnsEvent where
  | elapse (milliseconds : Nat)
  | lock (event : LockEvent)

variable {Token : Type*} [DecidableEq Token]

/-- What the clock says about a step of the lock. -/
def TurnsState.inTime (state : TurnsState Token) : LockEvent → Bool
  | .sendSet index => state.now < state.deadline index
  | .timeout index => state.deadline index ≤ state.now
  | .expire index => state.setAt index + ttlMs ≤ state.now
  | _ => true

/-- The clock's readings after a step of the lock. -/
def TurnsState.noteTime (state : TurnsState Token) : LockEvent → TurnsState Token
  | .start index =>
    { state with deadline := Function.update state.deadline index (state.now + waitMs) }
  | .execSet index => { state with setAt := Function.update state.setAt index state.now }
  | .execOrphan index =>
    if state.locks.orphan index = .set then
      { state with setAt := Function.update state.setAt index state.now }
    else state
  | _ => state

section System

variable (userId sessionKey : Nat → String) (token : Nat → Token)

/-- The key of each turn. -/
def keyOf (index : Nat) : String := turnLockKey (userId index) (sessionKey index)

def turnsStep (state : TurnsState Token) : TurnsEvent → Option (TurnsState Token)
  | .elapse milliseconds => some { state with now := state.now + milliseconds }
  | .lock event =>
    if state.inTime event then
      (lockStep (keyOf userId sessionKey) token state.locks event).map fun locks =>
        { state.noteTime event with locks := locks }
    else none

/-- No two runners execute for one user and session. -/
def TurnsDisjoint (state : TurnsState Token) : Prop :=
  ∀ first second, state.locks.phase first = .holding → state.locks.phase second = .holding →
    userId first = userId second → sessionKey first = sessionKey second → first = second

end System

/-- The turn has its lock and is not over. -/
def Occupies (phase : Storage.LocksRedis.Phase) : Prop :=
  phase = .setReplied true ∨ phase = .holding

/-- The time comes at which the lease of a turn ends that is not over. -/
def OutlivesLease (state : TurnsState Token) : TurnsEvent → Prop
  | .elapse milliseconds => ∃ index, Occupies (state.locks.phase index) ∧
      state.setAt index + ttlMs ≤ state.now + milliseconds
  | .lock _ => False

/-! ### What one step keeps -/

/-- A turn that has its lock and is not over is within its lease. -/
def InLease (state : TurnsState Token) : Prop :=
  ∀ index, Occupies (state.locks.phase index) →
    state.locks.lease index ≠ .expired ∧ state.now < state.setAt index + ttlMs

section Steps

variable {userId sessionKey : Nat → String} {token : Nat → Token} {state next : TurnsState Token}

/-- A step that brings no turn into its session and leaves the leases of those that are in. -/
theorem InLease.frame (inLease : InLease state) (sameNow : next.now = state.now)
    (occupied : ∀ index, Occupies (next.locks.phase index) →
      Occupies (state.locks.phase index) ∧
        next.locks.lease index = state.locks.lease index ∧
        next.setAt index = state.setAt index) : InLease next := by
  intro index occupies
  obtain ⟨before, sameLease, sameTime⟩ := occupied index occupies
  rw [sameLease, sameTime, sameNow]
  exact inLease index before

/-- A move to a phase that does not occupy the session. -/
theorem occupies_of_moveTo (locks : LockState String Token) {index other : Nat}
    {phase : Storage.LocksRedis.Phase}
    (free : ¬ Occupies phase) (occupies : Occupies ((locks.moveTo other phase).phase index)) :
    Occupies (locks.phase index) ∧ index ≠ other := by
  rw [phase_moveTo] at occupies
  split at occupies
  · exact absurd occupies free
  · next notSame => exact ⟨occupies, notSame⟩

theorem not_occupies_of_noLock {phase : Storage.LocksRedis.Phase} (noLock : phase.hasLock = false) :
    ¬ Occupies phase := by
  rintro (rfl | rfl) <;> cases noLock

/-- A step of an acquirer that leaves it outside its session. -/
theorem InLease.moveTo (inLease : InLease state) (index : Nat) (phase : Storage.LocksRedis.Phase)
    (free : ¬ Occupies phase) (sameNow : next.now = state.now)
    (sameTime : next.setAt = state.setAt)
    (locks : next.locks.phase = (state.locks.moveTo index phase).phase)
    (leases : next.locks.lease = state.locks.lease) : InLease next := by
  refine inLease.frame sameNow fun other occupies => ?_
  rw [locks] at occupies
  refine ⟨(occupies_of_moveTo state.locks free occupies).1, ?_, ?_⟩
  · rw [leases]
  · rw [sameTime]

/-- Only the acquirer itself is granted a lease. -/
theorem lease_execSet_of_ne (key : Nat → String) (token : Nat → Token)
    (locks : LockState String Token) {index other : Nat} (notSame : other ≠ index) :
    (locks.execSet key token index).lease other = locks.lease other := by
  unfold LockState.execSet
  split
  · exact Function.update_of_ne notSame _ _
  · rfl

/-- A `SET` that is granted starts a lease, one that is refused leaves its turn outside. -/
theorem InLease.execSet (inLease : InLease state) (key : Nat → String) (index : Nat) :
    InLease { state with
      setAt := Function.update state.setAt index state.now
      locks := (state.locks.execSet key token index).moveTo index
        (.setReplied (state.locks.entries (key index)).isNone) } := by
  intro other occupies
  by_cases same : other = index
  · subst same
    show ((state.locks.execSet key token other).lease other ≠ .expired) ∧
      state.now < Function.update state.setAt other state.now other + ttlMs
    rw [Function.update_self]
    refine ⟨?_, Nat.lt_add_of_pos_right (by decide)⟩
    rw [phase_moveTo, if_pos rfl] at occupies
    cases free : state.locks.entries (key other) with
    | none =>
      rw [lease_execSet free]
      decide
    | some owner =>
      rw [free] at occupies
      exact absurd occupies (not_occupies_of_noLock rfl)
  · rw [phase_moveTo, if_neg same] at occupies
    show ((state.locks.execSet key token index).lease other ≠ .expired) ∧
      state.now < Function.update state.setAt index state.now other + ttlMs
    rw [lease_execSet_of_ne key token _ same, Function.update_of_ne same]
    exact inLease other occupies

/-- Only the lease of the acquirer itself ends. -/
theorem lease_endLease_of_ne (key : Nat → String) (token : Nat → Token)
    (locks : LockState String Token) {index other : Nat} (lease : Lease) (notSame : other ≠ index) :
    (locks.endLease key token index lease).lease other = locks.lease other := by
  rw [lease_endLease, if_neg]
  rintro ⟨same, _⟩
  exact notSame same

/-- An acquirer's own step notes at most its deadline. -/
theorem noteTime_of_acquirer (state : TurnsState Token) {event : LockEvent}
    (ofAcquirer : event.ofAcquirer = true) :
    (state.noteTime event).now = state.now ∧ (state.noteTime event).setAt = state.setAt := by
  cases event with
  | execSet => cases ofAcquirer
  | execOrphan => cases ofAcquirer
  | start | sendSet | timeout | setReturns | wake | exitBody | execEval | cancel | expire =>
    exact ⟨rfl, rfl⟩

/-- The step lemma for the lock. -/
theorem inLease_lockStep (invariant : LockInvariant (keyOf userId sessionKey) token state.locks)
    (event : LockEvent) (inLease : InLease state) (inTime : state.inTime event = true)
    {locks : LockState String Token}
    (taken : lockStep (keyOf userId sessionKey) token state.locks event = some locks) :
    InLease { state.noteTime event with locks := locks } := by
  -- an acquirer with a command in flight has left, so it is not the one that occupies
  have left {index : Nat} (isOrphan : state.locks.orphan index ≠ .none) {other : Nat}
      (occupies : Occupies (state.locks.phase other)) : other ≠ index := by
    rintro rfl
    rw [invariant.orphaned other isOrphan] at occupies
    exact not_occupies_of_noLock rfl occupies
  cases lockStep_moves (keyOf userId sessionKey) token event taken with
  | goesOn index phase ofAcquirer notLeft noLock =>
    obtain ⟨sameNow, sameTime⟩ := noteTime_of_acquirer state ofAcquirer
    exact inLease.moveTo index phase (not_occupies_of_noLock noLock) sameNow sameTime rfl rfl
  | enters index replied =>
    refine inLease.frame rfl fun other occupies => ⟨?_, rfl, rfl⟩
    rw [phase_moveTo] at occupies
    split at occupies
    · next same =>
      rw [same]
      exact Or.inl replied
    · exact occupies
  | exits index holding =>
    refine inLease.moveTo index .evalSent ?_ rfl rfl rfl rfl
    rintro (same | same) <;> cases same
  | abandons index orphan =>
    exact inLease.moveTo index .left (not_occupies_of_noLock rfl) rfl rfl rfl rfl
  | sets index sent => exact inLease.execSet (keyOf userId sessionKey) index
  | releases index sent =>
    refine inLease.frame rfl fun other occupies => ?_
    obtain ⟨before, notSame⟩ := occupies_of_moveTo
      (state.locks.endLease (keyOf userId sessionKey) token index .released)
      (not_occupies_of_noLock rfl) occupies
    exact ⟨before, lease_endLease_of_ne (keyOf userId sessionKey) token state.locks .released
      notSame, rfl⟩
  | orphanSets index inFlight =>
    have notOrphan {other : Nat} (occupies : Occupies (state.locks.phase other)) :
        other ≠ index := left (by rw [inFlight]; decide) occupies
    simp only [TurnsState.noteTime, if_pos inFlight]
    refine inLease.frame rfl fun other occupies => ⟨occupies, ?_, ?_⟩
    · exact lease_execSet_of_ne (keyOf userId sessionKey) token _ (notOrphan occupies)
    · exact Function.update_of_ne (notOrphan occupies) _ _
  | orphanReleases index inFlight =>
    have notSet : state.locks.orphan index ≠ .set := by rw [inFlight]; decide
    simp only [TurnsState.noteTime, if_neg notSet]
    refine inLease.frame rfl fun other occupies => ⟨occupies, ?_, rfl⟩
    refine lease_endLease_of_ne (keyOf userId sessionKey) token _ _ ?_
    exact left (by rw [inFlight]; decide) occupies
  | expires index isRunning =>
    refine inLease.frame rfl fun other occupies => ⟨occupies, ?_, rfl⟩
    refine lease_endLease_of_ne (keyOf userId sessionKey) token _ _ ?_
    rintro rfl
    have ended : state.setAt other + ttlMs ≤ state.now := of_decide_eq_true inTime
    exact absurd (inLease other occupies).2 (Nat.not_lt.mpr ended)

/-- What every run keeps in which no turn outlives its lease. -/
structure TurnsInvariant (userId sessionKey : Nat → String) (token : Nat → Token)
    (state : TurnsState Token) : Prop where
  locks : LockInvariant (keyOf userId sessionKey) token state.locks
  inLease : InLease state

/-- The step lemma. -/
theorem turnsInvariant_step (unique : Function.Injective token) (event : TurnsEvent)
    (invariant : TurnsInvariant userId sessionKey token state)
    (within : ¬ OutlivesLease state event)
    (taken : turnsStep userId sessionKey token state event = some next) :
    TurnsInvariant userId sessionKey token next := by
  cases event with
  | elapse milliseconds =>
    cases taken
    refine ⟨invariant.locks, fun index occupies => ⟨(invariant.inLease index occupies).1, ?_⟩⟩
    by_contra ended
    exact within ⟨index, occupies, Nat.not_lt.mp ended⟩
  | lock event =>
    rw [turnsStep, Option.ite_none_right_eq_some] at taken
    obtain ⟨inTime, taken⟩ := taken
    obtain ⟨locks, step, rfl⟩ := Option.map_eq_some_iff.mp taken
    exact ⟨lockInvariant_step unique event invariant.locks step,
      inLease_lockStep invariant.locks event invariant.inLease inTime step⟩

/-- Turns that are within their leases are disjoint. -/
theorem TurnsInvariant.disjoint (unique : Function.Injective token)
    (invariant : TurnsInvariant userId sessionKey token state) :
    TurnsDisjoint userId sessionKey state := by
  intro first second firstRuns secondRuns sameUser sameSession
  have holds : ∀ index, state.locks.phase index = .holding → HoldsLease state.locks index := by
    intro index runs
    exact ⟨by rw [runs]; rfl, (invariant.inLease index (Or.inr runs)).1⟩
  have sameKey : keyOf userId sessionKey first = keyOf userId sessionKey second := by
    rw [keyOf, keyOf, sameUser, sameSession]
  exact (invariant.locks.leaseSafe unique).1 first second (holds first firstRuns)
    (holds second secondRuns) sameKey

end Steps

def TurnsState.initial (Token : Type*) : TurnsState Token where
  locks := LockState.initial String Token

/-- Where no turn outlives its lease, turns of one session never overlap. -/
theorem turns_disjoint (userId sessionKey : Nat → String) (token : Nat → Token)
    (unique : Function.Injective token) (events : List TurnsEvent)
    (within : StepsMeet (turnsStep userId sessionKey token)
      (fun state event => ¬ OutlivesLease state event) (TurnsState.initial Token) events) :
    Always (turnsStep userId sessionKey token) (TurnsDisjoint userId sessionKey)
      (TurnsState.initial Token) events := by
  have initial : TurnsInvariant userId sessionKey token (TurnsState.initial Token) :=
    ⟨lockInvariant_initial, fun index occupies => absurd occupies (not_occupies_of_noLock rfl)⟩
  have invariant := always_of_invariant (turnsStep userId sessionKey token)
    (fun state event next => turnsInvariant_step unique event) initial within
  exact invariant.mono _ fun _ invariant => invariant.disjoint unique

/-- Two turns of one session. -/
def twoTurnsStep : TurnsState Nat → TurnsEvent → Option (TurnsState Nat) :=
  turnsStep (fun _ => "user") (fun _ => "web") id

/-- A turn that takes its time, and one that waits for it. -/
def waitingTurn : List TurnsEvent :=
  [.lock (.start 0), .lock (.sendSet 0), .lock (.execSet 0), .lock (.setReturns 0),
    .lock (.start 1), .lock (.sendSet 1), .lock (.execSet 1), .lock (.setReturns 1),
    .lock (.exitBody 0), .lock (.execEval 0), .elapse 400000]

theorem waitingTurn_disjoint :
    Always twoTurnsStep (TurnsDisjoint (fun _ => "user") (fun _ => "web"))
      (TurnsState.initial Nat) waitingTurn := by
  refine turns_disjoint (fun _ => "user") (fun _ => "web") id Function.injective_id waitingTurn ?_
  iterate 10 refine StepsMeet.cons _ id rfl ?_
  refine StepsMeet.cons _ ?_ rfl trivial
  rintro ⟨index, occupies, _⟩
  match index with
  | 0 => exact not_occupies_of_noLock rfl occupies
  | 1 => exact not_occupies_of_noLock rfl occupies
  | _ + 2 => exact not_occupies_of_noLock rfl occupies

/-- A turn that takes more than 300 s, and one that begins after its lease. -/
def longTurn : List TurnsEvent :=
  [.lock (.start 0), .lock (.sendSet 0), .lock (.execSet 0), .lock (.setReturns 0),
    .elapse 300000, .lock (.expire 0), .lock (.start 1), .lock (.sendSet 1), .lock (.execSet 1),
    .lock (.setReturns 1)]

theorem long_turn_overlaps :
    ¬ ∀ (userId sessionKey : Nat → String) (token : Nat → Nat), Function.Injective token →
      ∀ events : List TurnsEvent, Always (turnsStep userId sessionKey token)
        (TurnsDisjoint userId sessionKey) (TurnsState.initial Nat) events := by
  intro assumed
  have always := assumed (fun _ => "user") (fun _ => "web") id Function.injective_id longTurn
  have bothRun : (exec twoTurnsStep (TurnsState.initial Nat) longTurn).map
      (fun last => (last.locks.phase 0, last.locks.phase 1)) = some (.holding, .holding) := by
    decide +kernel
  obtain ⟨last, run, phases⟩ := Option.map_eq_some_iff.mp bothRun
  rw [Prod.mk.injEq] at phases
  have same : 0 = 1 := always.last _ run 0 1 phases.1 phases.2 rfl rfl
  cases same

end LiteHorse.Web.SessionLock
