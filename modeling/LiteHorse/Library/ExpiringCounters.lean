/-
This file is about counters that a server keeps by their keys and forgets a fixed time after they
were last counted up.

Next to the counters stands the tally of what was counted, with the times. A counter is as high as
the tally while it lives (`Tally.live_eq`), so where whoever counts up a key does so before its
counter is forgotten, nothing is forgotten at all (`Tally.hit`).
-/

import Mathlib.Algebra.Order.Monoid.Defs
import Mathlib.Logic.Function.Basic
import Mathlib.Tactic.Common

namespace LiteHorse.ExpiringCounters

structure Counter (Time : Type*) where
  count : Nat
  expires : Time

structure State (Key Time : Type*) where
  now : Time
  counters : Key → Option (Counter Time)

variable {Key Time : Type*} [LinearOrder Time]

def State.initial (now : Time) : State Key Time where
  now := now
  counters := fun _ => none

/-- What a counter is read as. -/
def State.live (state : State Key Time) (key : Key) : Nat :=
  match state.counters key with
  | some counter => if state.now < counter.expires then counter.count else 0
  | none => 0

section Hits

variable [DecidableEq Key] [AddCommMonoid Time] (life : Time)

/-- The counter is counted up, and its life begins anew. -/
def State.hit (state : State Key Time) (key : Key) : State Key Time :=
  { state with
    counters := Function.update state.counters key
      (some { count := state.live key + 1, expires := state.now + life }) }

def State.wait (state : State Key Time) (later : Time) : State Key Time :=
  { state with now := later }

/-! ### The tally -/

/-- How often a key was counted up. -/
def hits (tally : List (Key × Time)) (key : Key) : Nat :=
  tally.countP fun entry => entry.1 = key

/-- What a counter has of the tally. -/
def Tallied (tally : List (Key × Time)) (key : Key) : Option (Counter Time) → Prop
  | none => hits tally key = 0
  | some counter => counter.count = hits tally key ∧
      ∀ entry ∈ tally, entry.1 = key → entry.2 + life ≤ counter.expires

/-- Every counter that is there has counted the whole tally of its key, and lives on from the last
time it was counted up. -/
def Tally (state : State Key Time) (tally : List (Key × Time)) : Prop :=
  ∀ key, Tallied life tally key (state.counters key)

/-- The counter of the key, if it was ever counted up, has not been forgotten. -/
def Remembers (state : State Key Time) (tally : List (Key × Time)) (key : Key) : Prop :=
  ∀ entry ∈ tally, entry.1 = key → state.now < entry.2 + life

variable {life} {state : State Key Time} {tally : List (Key × Time)} {key other : Key}

theorem tally_initial (now : Time) : Tally life (State.initial now : State Key Time) [] :=
  fun _ => rfl

/-- A counter is alive when it was just counted up. -/
theorem live_hit [IsOrderedCancelAddMonoid Time] (positive : 0 < life) :
    (state.hit life key).live key = state.live key + 1 := by
  have isCounter : (state.hit life key).counters key =
      some { count := state.live key + 1, expires := state.now + life } := Function.update_self ..
  rw [State.live, isCounter]
  exact if_pos (lt_add_of_pos_right state.now positive)

omit [AddCommMonoid Time] [LinearOrder Time] in
theorem exists_of_hits (counted : hits tally key ≠ 0) : ∃ entry ∈ tally, entry.1 = key := by
  obtain ⟨entry, member, isKey⟩ := List.countP_pos_iff.mp (Nat.pos_of_ne_zero counted)
  exact ⟨entry, member, of_decide_eq_true isKey⟩

/-- A counter that is remembered is read as the tally. -/
theorem Tally.live_eq (tallied : Tally life state tally)
    (remembers : Remembers life state tally key) : state.live key = hits tally key := by
  have ofKey := tallied key
  unfold State.live
  split
  next counter isCounter =>
    rw [isCounter] at ofKey
    obtain ⟨same, late⟩ := ofKey
    split
    next => exact same
    next forgotten =>
      by_contra differs
      obtain ⟨entry, member, isKey⟩ := exists_of_hits (Ne.symm differs)
      exact forgotten (lt_of_lt_of_le (remembers entry member isKey) (late entry member isKey))
  next isNone =>
    rw [isNone] at ofKey
    exact ofKey.symm

omit [AddCommMonoid Time] [LinearOrder Time] in
theorem hits_concat_self (tally : List (Key × Time)) (key : Key) (time : Time) :
    hits (tally ++ [(key, time)]) key = hits tally key + 1 := by
  unfold hits
  rw [List.countP_append, List.countP_singleton, if_pos (decide_eq_true rfl)]

omit [AddCommMonoid Time] [LinearOrder Time] in
theorem hits_concat_other (tally : List (Key × Time)) (different : other ≠ key) (time : Time) :
    hits (tally ++ [(key, time)]) other = hits tally other := by
  unfold hits
  rw [List.countP_append, List.countP_singleton,
    if_neg (Bool.eq_false_iff.mp (decide_eq_false different.symm)), Nat.add_zero]

theorem Tally.wait (tallied : Tally life state tally) (later : Time) :
    Tally life (state.wait later) tally :=
  tallied

theorem Tally.hit [IsOrderedAddMonoid Time] (tallied : Tally life state tally)
    (remembers : Remembers life state tally key)
    (past : ∀ entry ∈ tally, entry.2 ≤ state.now) :
    Tally life (state.hit life key) (tally ++ [(key, state.now)]) := by
  intro other
  show Tallied life _ other (Function.update state.counters key _ other)
  by_cases same : other = key
  · subst same
    rw [Function.update_self]
    refine ⟨?_, fun entry member _ => ?_⟩
    · rw [hits_concat_self, tallied.live_eq remembers]
    · rcases List.mem_append.mp member with old | new
      · exact add_le_add_left (past entry old) life
      · rw [List.mem_singleton.mp new]
  · rw [Function.update_of_ne same]
    have ofOther := tallied other
    cases isCounter : state.counters other with
    | none =>
      rw [isCounter] at ofOther
      exact (hits_concat_other tally same state.now).trans ofOther
    | some counter =>
      rw [isCounter] at ofOther
      refine ⟨ofOther.1.trans (hits_concat_other tally same state.now).symm, ?_⟩
      intro entry member isOther
      rcases List.mem_append.mp member with old | new
      · exact ofOther.2 entry old isOther
      · rw [List.mem_singleton.mp new] at isOther
        exact absurd isOther.symm same

end Hits

end LiteHorse.ExpiringCounters
