/-
This file is about a cache whose entries are good for a fixed time. A call that finds no entry
young enough asks the source, and the entry it stores later is as old as the call, not as the
answer.

Calls overlap as they like, and an answer may be stored long after the source gave it, over a
younger entry too. The age of an entry nevertheless bounds how long ago the source had its value:
what the source no longer has is returned by no call that begins a lifetime later
(`forgets_of_meet`).
-/

import LiteHorse.Library.Runs
import Mathlib.Algebra.Order.Group.Defs

namespace LiteHorse.TtlCache

open Runs

/-- A cached value, with the time that the call which stored it had begun. -/
structure Entry (Value Time : Type*) where
  stamp : Time
  value : Value

/-- Where a call stands. `served` is the moment between the answer of the source and its arrival. -/
inductive Phase (Key Value Time : Type*) where
  | idle
  | asking (key : Key) (started : Time)
  | served (key : Key) (started : Time) (value : Value)
  | returned (key : Key) (started : Time) (value : Value)
  | failed (key : Key)

structure State (Id Key Value Time : Type*) where
  now : Time
  /-- What the source has. -/
  source : Key → Value
  cache : Key → Option (Entry Value Time)
  phase : Id → Phase Key Value Time

inductive Event (Id Key Value Time : Type*) where
  | wait (later : Time)
  | publish (key : Key) (value : Value)
  | call (id : Id) (key : Key)
  | serve (id : Id)
  | receive (id : Id)
  /-- The source raises, or the call is cancelled while it waits. -/
  | fail (id : Id)

variable {Id Key Value Time : Type*}

def State.initial (now : Time) (source : Key → Value) : State Id Key Value Time where
  now := now
  source := source
  cache := fun _ => none
  phase := fun _ => .idle

section System

variable [DecidableEq Id] [DecidableEq Key] [AddCommGroup Time] [LinearOrder Time]
  [IsOrderedAddMonoid Time] (ttl : Time)

def State.move (state : State Id Key Value Time) (id : Id) (phase : Phase Key Value Time) :
    State Id Key Value Time :=
  { state with phase := Function.update state.phase id phase }

/-- The entry that a call may return. -/
def State.fresh (state : State Id Key Value Time) (key : Key) : Option (Entry Value Time) :=
  (state.cache key).filter fun entry => state.now - entry.stamp < ttl

def call (state : State Id Key Value Time) (id : Id) (key : Key) :
    Option (State Id Key Value Time) :=
  match state.phase id with
  | .idle =>
    match state.fresh ttl key with
    | some entry => some (state.move id (.returned key state.now entry.value))
    | none => some (state.move id (.asking key state.now))
  | _ => none

def serve (state : State Id Key Value Time) (id : Id) : Option (State Id Key Value Time) :=
  match state.phase id with
  | .asking key started => some (state.move id (.served key started (state.source key)))
  | _ => none

def receive (state : State Id Key Value Time) (id : Id) : Option (State Id Key Value Time) :=
  match state.phase id with
  | .served key started value =>
    some { state.move id (.returned key started value) with
      cache := Function.update state.cache key (some { stamp := started, value := value }) }
  | _ => none

def fail (state : State Id Key Value Time) (id : Id) : Option (State Id Key Value Time) :=
  match state.phase id with
  | .asking key _ | .served key _ _ => some (state.move id (.failed key))
  | _ => none

def step (state : State Id Key Value Time) : Event Id Key Value Time →
    Option (State Id Key Value Time)
  | .wait later => if state.now ≤ later then some { state with now := later } else none
  | .publish key value => some { state with source := Function.update state.source key value }
  | .call id key => call ttl state id key
  | .serve id => serve state id
  | .receive id => receive state id
  | .fail id => fail state id

end System

theorem cases_of_update [DecidableEq Key] {cache : Key → Option (Entry Value Time)}
    {key other : Key} {entry stored : Entry Value Time}
    (isCached : Function.update cache other (some stored) key = some entry) :
    entry = stored ∧ other = key ∨ cache key = some entry := by
  by_cases same : key = other
  · rw [same, Function.update_self, Option.some.injEq] at isCached
    exact Or.inl ⟨isCached.symm, same.symm⟩
  · rw [Function.update_of_ne same] at isCached
    exact Or.inr isCached

/-! ### How old an entry is -/

section Forgetting

variable [AddCommGroup Time] [LinearOrder Time] (ttl : Time) (bad : Value → Prop) (key : Key)
  (since : Time)

/-- The call had a bad value from the source when it began, by a given time. -/
def Phase.Sound : Phase Key Value Time → Prop
  | .served other started value => other = key → bad value → started ≤ since
  | .returned other started value => other = key → bad value → started < since + ttl
  | .idle | .asking _ _ | .failed _ => True

/-- The source has no bad value, and what is left of those it had is old. -/
structure Sound (state : State Id Key Value Time) : Prop where
  clock : since ≤ state.now
  source : ¬ bad (state.source key)
  cache : ∀ entry, state.cache key = some entry → bad entry.value → entry.stamp ≤ since
  phase : ∀ id, (state.phase id).Sound ttl bad key since

/-- No call that began a lifetime after has a bad value. -/
def Forgets (state : State Id Key Value Time) : Prop :=
  ∀ id started value, state.phase id = .returned key started value → since + ttl ≤ started →
    ¬ bad value

/-- Nothing that the source publishes from now on is bad. -/
def PublishesGood (_ : State Id Key Value Time) : Event Id Key Value Time → Prop
  | .publish other value => other = key → ¬ bad value
  | .wait _ | .call _ _ | .serve _ | .receive _ | .fail _ => True

variable {ttl bad key since} {state next : State Id Key Value Time} {id : Id}

theorem Sound.forgets (sound : Sound ttl bad key since state) :
    Forgets ttl bad key since state := by
  intro id started value isReturned late isBad
  have early := sound.phase id
  rw [isReturned] at early
  exact not_lt_of_ge late (early rfl isBad)

variable [DecidableEq Id]

theorem Sound.move (sound : Sound ttl bad key since state) {phase : Phase Key Value Time}
    (isSound : phase.Sound ttl bad key since) : Sound ttl bad key since (state.move id phase) where
  clock := sound.clock
  source := sound.source
  cache := sound.cache
  phase := by
    intro other
    show (Function.update state.phase id phase other).Sound ttl bad key since
    by_cases same : other = id
    · rw [same, Function.update_self]
      exact isSound
    · rw [Function.update_of_ne same]
      exact sound.phase other

variable [IsOrderedAddMonoid Time]

/-- What is cached and young enough was stored by a call that began later. -/
theorem Sound.call (sound : Sound ttl bad key since state) {other : Key}
    (taken : call ttl state id other = some next) : Sound ttl bad key since next := by
  unfold TtlCache.call at taken
  split at taken
  next =>
    split at taken
    next entry isFresh =>
      cases taken
      refine sound.move fun same isBad => ?_
      subst same
      obtain ⟨isCached, young⟩ := Option.filter_eq_some_iff.mp isFresh
      have old := sound.cache entry isCached isBad
      calc state.now < ttl + entry.stamp := sub_lt_iff_lt_add.mp (of_decide_eq_true young)
        _ ≤ ttl + since := add_le_add_right old ttl
        _ = since + ttl := add_comm ttl since
    next =>
      cases taken
      exact sound.move trivial
  next => cases taken

omit [IsOrderedAddMonoid Time] in
theorem Sound.serve (sound : Sound ttl bad key since state)
    (taken : serve state id = some next) : Sound ttl bad key since next := by
  unfold TtlCache.serve at taken
  split at taken
  next other started _ =>
    cases taken
    refine sound.move fun same isBad => ?_
    subst same
    exact absurd isBad sound.source
  next => cases taken

variable [DecidableEq Key]

/-- The stored entry is as old as the call. -/
theorem Sound.receive (positive : 0 < ttl) (sound : Sound ttl bad key since state)
    (taken : receive state id = some next) : Sound ttl bad key since next := by
  unfold TtlCache.receive at taken
  split at taken
  next other started value isServed =>
    cases taken
    have early := sound.phase id
    rw [isServed] at early
    have moved : Sound ttl bad key since (state.move id (.returned other started value)) :=
      sound.move fun same isBad =>
        lt_of_le_of_lt (early same isBad) (lt_add_of_pos_right since positive)
    refine { moved with cache := fun entry isCached isBad => ?_ }
    rcases cases_of_update isCached with ⟨rfl, rfl⟩ | isOld
    · exact early rfl isBad
    · exact sound.cache entry isOld isBad
  next => cases taken

omit [DecidableEq Key] [IsOrderedAddMonoid Time] in
theorem Sound.fail (sound : Sound ttl bad key since state)
    (taken : fail state id = some next) : Sound ttl bad key since next := by
  unfold TtlCache.fail at taken
  split at taken
  next =>
    cases taken
    exact sound.move trivial
  next =>
    cases taken
    exact sound.move trivial
  next => cases taken

theorem sound_step (positive : 0 < ttl) {event : Event Id Key Value Time}
    (sound : Sound ttl bad key since state) (good : PublishesGood bad key state event)
    (taken : step ttl state event = some next) : Sound ttl bad key since next := by
  cases event with
  | wait later =>
    obtain ⟨after, isNext⟩ := Option.ite_none_right_eq_some.mp taken
    cases isNext
    exact { sound with clock := sound.clock.trans after }
  | publish other value =>
    cases taken
    refine { sound with source := ?_ }
    show ¬ bad (Function.update state.source other value key)
    by_cases same : key = other
    · subst same
      rw [Function.update_self]
      exact good rfl
    · rw [Function.update_of_ne same]
      exact sound.source
  | call id other => exact sound.call taken
  | serve id => exact sound.serve taken
  | receive id => exact sound.receive positive taken
  | fail id => exact sound.fail taken

end Forgetting

/-! ### The clock of a run -/

section Clock

variable [LinearOrder Time]

/-- The call has begun by a given time. -/
def Phase.Timely (now : Time) : Phase Key Value Time → Prop
  | .asking _ started | .served _ started _ | .returned _ started _ => started ≤ now
  | .idle | .failed _ => True

/-- No entry and no call is from the future. -/
structure Timely (state : State Id Key Value Time) : Prop where
  cache : ∀ key entry, state.cache key = some entry → entry.stamp ≤ state.now
  phase : ∀ id, (state.phase id).Timely state.now

theorem timely_initial (now : Time) (source : Key → Value) :
    Timely (State.initial now source : State Id Key Value Time) where
  cache := fun _ _ isCached => by cases isCached
  phase := fun _ => trivial

theorem Phase.Timely.mono {phase : Phase Key Value Time} {now later : Time}
    (timely : phase.Timely now) (after : now ≤ later) : phase.Timely later := by
  cases phase with
  | idle => trivial
  | asking key started => exact timely.trans after
  | served key started value => exact timely.trans after
  | returned key started value => exact timely.trans after
  | failed key => trivial

variable {state next : State Id Key Value Time} {id : Id} [DecidableEq Id]

theorem Timely.move (timely : Timely state) {phase : Phase Key Value Time}
    (isTimely : phase.Timely state.now) : Timely (state.move id phase) where
  cache := timely.cache
  phase := by
    intro other
    show (Function.update state.phase id phase other).Timely state.now
    by_cases same : other = id
    · rw [same, Function.update_self]
      exact isTimely
    · rw [Function.update_of_ne same]
      exact timely.phase other

variable [DecidableEq Key] [AddCommGroup Time] {ttl : Time}

theorem timely_step {event : Event Id Key Value Time} (timely : Timely state)
    (taken : step ttl state event = some next) : Timely next := by
  cases event with
  | wait later =>
    obtain ⟨after, isNext⟩ := Option.ite_none_right_eq_some.mp taken
    cases isNext
    exact ⟨fun key entry isCached => (timely.cache key entry isCached).trans after,
      fun id => (timely.phase id).mono after⟩
  | publish other value =>
    cases taken
    exact ⟨timely.cache, timely.phase⟩
  | call id other =>
    change call ttl state id other = some next at taken
    unfold call at taken
    split at taken
    next =>
      split at taken
      next =>
        cases taken
        exact timely.move le_rfl
      next =>
        cases taken
        exact timely.move le_rfl
    next => cases taken
  | serve id =>
    change serve state id = some next at taken
    have early := timely.phase id
    unfold serve at taken
    split at taken
    next isAsking =>
      cases taken
      rw [isAsking] at early
      exact timely.move early
    next => cases taken
  | receive id =>
    change receive state id = some next at taken
    have early := timely.phase id
    unfold receive at taken
    split at taken
    next other started value isServed =>
      cases taken
      rw [isServed] at early
      have moved : Timely (state.move id (.returned other started value)) := timely.move early
      refine { moved with cache := fun key entry isCached => ?_ }
      rcases cases_of_update isCached with ⟨rfl, rfl⟩ | isOld
      · exact early
      · exact timely.cache key entry isOld
    next => cases taken
  | fail id =>
    change fail state id = some next at taken
    unfold fail at taken
    split at taken
    next =>
      cases taken
      exact timely.move trivial
    next =>
      cases taken
      exact timely.move trivial
    next => cases taken

end Clock

/-! ### What is forgotten -/

section Forgotten

variable [AddCommGroup Time] [LinearOrder Time] [IsOrderedAddMonoid Time] {ttl : Time}
  {bad : Value → Prop} {key : Key} {state : State Id Key Value Time}

theorem Timely.sound (timely : Timely state) (positive : 0 < ttl)
    (good : ¬ bad (state.source key)) : Sound ttl bad key state.now state where
  clock := le_rfl
  source := good
  cache := fun entry isCached _ => timely.cache key entry isCached
  phase := by
    intro id
    have early := timely.phase id
    cases isPhase : state.phase id with
    | idle => trivial
    | asking other started => trivial
    | served other started value =>
      rw [isPhase] at early
      exact fun _ _ => early
    | returned other started value =>
      rw [isPhase] at early
      exact fun _ _ => lt_of_le_of_lt early (lt_add_of_pos_right state.now positive)
    | failed other => trivial

variable [DecidableEq Id] [DecidableEq Key]

/-- What the source has no more is forgotten after a lifetime: no call that begins later returns
it, however the calls overlap. -/
theorem forgets_of_meet (positive : 0 < ttl) (timely : Timely state)
    (good : ¬ bad (state.source key)) {events : List (Event Id Key Value Time)}
    (meet : StepsMeet (step ttl) (PublishesGood bad key) state events) :
    Always (step ttl) (Forgets ttl bad key state.now) state events := by
  refine Always.mono (step ttl) (fun _ => Sound.forgets) ?_
  exact always_of_invariant (step ttl)
    (fun _ _ _ sound publishesGood taken => sound_step positive sound publishesGood taken)
    (timely.sound positive good) meet

end Forgotten

end LiteHorse.TtlCache
