/-
This file is about systems that take one step after another. A system is a step function
`State → Event → Option State`; `none` says that the event is not enabled. The file
defines running a list of events, what it means that every step of a run meets a
condition on the state it is taken in, and what it means that a property holds in every
state a run passes through.

The rules the later files use are `always_of_invariant`, which derives a safety property of
every run whose steps meet a condition from what one step preserves, `stepsMeet_of_always`,
which goes back: where a step outside the condition breaks the property at once, a run that
keeps the property has met the condition, and `always_iff_of_invariant`, which is both.
-/

import Mathlib.Data.List.Basic
import Mathlib.Tactic.Common

namespace LiteHorse.Runs

variable {State Event : Type*} (step : State → Event → Option State)

/-- Run the events in order; `none` when one of them is not enabled. -/
def exec : State → List Event → Option State
  | state, [] => some state
  | state, event :: rest => (step state event).bind fun next => exec next rest

/-- Every step of the run is taken in a state that meets the condition. A run ends at its
first event that is not enabled. -/
def StepsMeet (condition : State → Event → Prop) : State → List Event → Prop
  | _, [] => True
  | state, event :: rest =>
    condition state event ∧ ∀ next, step state event = some next → StepsMeet condition next rest

/-- The property holds in every state the run passes through, the first included. -/
def Always (property : State → Prop) : State → List Event → Prop
  | state, [] => property state
  | state, event :: rest =>
    property state ∧ ∀ next, step state event = some next → Always property next rest

theorem StepsMeet.cons {condition : State → Event → Prop} {state next : State} {event : Event}
    {rest : List Event} (met : condition state event) (taken : step state event = some next)
    (meet : StepsMeet step condition next rest) :
    StepsMeet step condition state (event :: rest) := by
  refine ⟨met, fun other same => ?_⟩
  rw [taken, Option.some.injEq] at same
  exact same ▸ meet

instance decidableStepsMeet (condition : State → Event → Prop)
    [∀ state event, Decidable (condition state event)] :
    ∀ (state : State) (events : List Event), Decidable (StepsMeet step condition state events)
  | _, [] => inferInstanceAs (Decidable True)
  | state, event :: rest =>
    match taken : step state event with
    | none =>
      decidable_of_iff (condition state event)
        ⟨fun met => ⟨met, fun _ other => by rw [taken] at other; cases other⟩, And.left⟩
    | some next =>
      have := decidableStepsMeet condition next rest
      decidable_of_iff (condition state event ∧ StepsMeet step condition next rest)
        ⟨fun ⟨met, meet⟩ => StepsMeet.cons step met taken meet,
          fun meet => ⟨meet.1, meet.2 next taken⟩⟩

theorem exec_cons (state : State) (event : Event) (rest : List Event) :
    exec step state (event :: rest) =
      (step state event).bind fun next => exec step next rest := rfl

theorem exec_append (state : State) (first second : List Event) :
    exec step state (first ++ second) =
      (exec step state first).bind fun next => exec step next second := by
  induction first generalizing state with
  | nil => rfl
  | cons event rest inductionHypothesis =>
    rw [List.cons_append, exec_cons, exec_cons, Option.bind_assoc]
    exact congrArg _ (funext inductionHypothesis)

theorem stepsMeet_append {condition : State → Event → Prop} {state next : State}
    {first second : List Event} (run : exec step state first = some next)
    (meet : StepsMeet step condition state (first ++ second)) :
    StepsMeet step condition state first ∧ StepsMeet step condition next second := by
  induction first generalizing state with
  | nil =>
    cases run
    exact ⟨trivial, meet⟩
  | cons event rest inductionHypothesis =>
    obtain ⟨between, taken, run⟩ := Option.bind_eq_some_iff.mp run
    obtain ⟨meetRest, meetSecond⟩ := inductionHypothesis run (meet.2 between taken)
    exact ⟨StepsMeet.cons step meet.1 taken meetRest, meetSecond⟩

theorem Always.head {property : State → Prop} {state : State} {events : List Event}
    (always : Always step property state events) : property state := by
  cases events with
  | nil => exact always
  | cons event rest => exact always.1

/-- The last state of a run is one of the states it passes through. -/
theorem Always.last {property : State → Prop} {state last : State} {events : List Event}
    (always : Always step property state events) (run : exec step state events = some last) :
    property last := by
  induction events generalizing state with
  | nil =>
    cases run
    exact always
  | cons event rest inductionHypothesis =>
    rw [exec_cons, Option.bind_eq_some_iff] at run
    obtain ⟨next, taken, run⟩ := run
    exact inductionHypothesis (always.2 next taken) run

theorem Always.mono {property weaker : State → Prop} {state : State} {events : List Event}
    (weaken : ∀ reached, property reached → weaker reached)
    (always : Always step property state events) : Always step weaker state events := by
  induction events generalizing state with
  | nil => exact weaken state always
  | cons event rest inductionHypothesis =>
    exact ⟨weaken state always.1, fun next taken => inductionHypothesis (always.2 next taken)⟩

/-- The invariant rule. What every step inside the condition preserves holds in every state
of every run whose steps meet the condition. -/
theorem always_of_invariant {condition : State → Event → Prop} {invariant : State → Prop}
    (preserved : ∀ state event next, invariant state → condition state event →
      step state event = some next → invariant next)
    {state : State} {events : List Event} (initial : invariant state)
    (meet : StepsMeet step condition state events) : Always step invariant state events := by
  induction events generalizing state with
  | nil => exact initial
  | cons event rest inductionHypothesis =>
    refine ⟨initial, fun next taken => ?_⟩
    exact inductionHypothesis (preserved state event next initial meet.1 taken)
      (meet.2 next taken)

/-- What the invariant ensures of every step, every step of the run meets. -/
theorem stepsMeet_of_invariant {condition ensured : State → Event → Prop}
    {invariant : State → Prop}
    (preserved : ∀ state event next, invariant state → condition state event →
      step state event = some next → invariant next)
    (ensures : ∀ state event, invariant state → condition state event → ensured state event)
    {state : State} {events : List Event} (initial : invariant state)
    (meet : StepsMeet step condition state events) : StepsMeet step ensured state events := by
  induction events generalizing state with
  | nil => trivial
  | cons event rest inductionHypothesis =>
    refine ⟨ensures state event initial meet.1, fun next taken => ?_⟩
    exact inductionHypothesis (preserved state event next initial meet.1 taken)
      (meet.2 next taken)

/-- Under an invariant of all steps, conditions that agree are met by the same runs. -/
theorem stepsMeet_congr {condition other : State → Event → Prop} {invariant : State → Prop}
    (preserved : ∀ state event next, invariant state → step state event = some next →
      invariant next)
    (same : ∀ state event, invariant state → (condition state event ↔ other state event))
    {state : State} {events : List Event} (initial : invariant state) :
    StepsMeet step condition state events ↔ StepsMeet step other state events :=
  ⟨stepsMeet_of_invariant step
      (fun state event next holds _ taken => preserved state event next holds taken)
      (fun state event holds => (same state event holds).mp) initial,
    stepsMeet_of_invariant step
      (fun state event next holds _ taken => preserved state event next holds taken)
      (fun state event holds => (same state event holds).mpr) initial⟩

theorem StepsMeet.mono {condition weaker : State → Event → Prop}
    (weaken : ∀ state event, condition state event → weaker state event) {state : State}
    {events : List Event} (meet : StepsMeet step condition state events) :
    StepsMeet step weaker state events := by
  induction events generalizing state with
  | nil => trivial
  | cons event rest inductionHypothesis =>
    exact ⟨weaken state event meet.1, fun next taken => inductionHypothesis (meet.2 next taken)⟩

theorem StepsMeet.and {first second : State → Event → Prop} {state : State}
    {events : List Event} (meetFirst : StepsMeet step first state events)
    (meetSecond : StepsMeet step second state events) :
    StepsMeet step (fun reached event => first reached event ∧ second reached event) state
      events := by
  induction events generalizing state with
  | nil => trivial
  | cons event rest inductionHypothesis =>
    exact ⟨⟨meetFirst.1, meetSecond.1⟩, fun next taken =>
      inductionHypothesis (meetFirst.2 next taken) (meetSecond.2 next taken)⟩

theorem stepsMeet_of_mem {condition : State → Event → Prop} {events : List Event}
    (met : ∀ event ∈ events, ∀ state, condition state event) (state : State) :
    StepsMeet step condition state events := by
  induction events generalizing state with
  | nil => trivial
  | cons event rest inductionHypothesis =>
    obtain ⟨metFirst, metRest⟩ := List.forall_mem_cons.mp met
    exact ⟨metFirst state, fun next _ => inductionHypothesis metRest next⟩

theorem stepsMeet_of_forall {condition : State → Event → Prop}
    (met : ∀ state event, condition state event) (state : State) (events : List Event) :
    StepsMeet step condition state events :=
  stepsMeet_of_mem step (fun event _ state => met state event) state

theorem stepsMeet_true (state : State) (events : List Event) :
    StepsMeet step (fun _ _ => True) state events :=
  stepsMeet_of_forall step (fun _ _ => trivial) state events

/-- The invariant rule for runs without a condition on their steps. -/
theorem always_invariant {invariant : State → Prop}
    (preserved : ∀ state event next, invariant state → step state event = some next →
      invariant next)
    {state : State} {events : List Event} (initial : invariant state) :
    Always step invariant state events :=
  always_of_invariant step
    (fun state event next invariant _ => preserved state event next invariant) initial
    (stepsMeet_true step state events)

/-- The invariant rule for the last state of a run. -/
theorem exec_invariant {invariant : State → Prop}
    (preserved : ∀ state event next, invariant state → step state event = some next →
      invariant next)
    {state last : State} {events : List Event} (initial : invariant state)
    (run : exec step state events = some last) : invariant last :=
  (always_invariant step preserved initial).last step run

/-- The converse rule. Where an invariant carries the run and a step outside the condition
breaks the property in the state it leads to, a run that always has the property has met
the condition in every step. -/
theorem stepsMeet_of_always {condition : State → Event → Prop}
    {invariant property : State → Prop}
    (preserved : ∀ state event next, invariant state → condition state event →
      step state event = some next → invariant next)
    (breaks : ∀ state event, invariant state → ¬ condition state event →
      ∃ next, step state event = some next ∧ ¬ property next)
    {state : State} {events : List Event} (initial : invariant state)
    (always : Always step property state events) : StepsMeet step condition state events := by
  induction events generalizing state with
  | nil => trivial
  | cons event rest inductionHypothesis =>
    have met : condition state event := by
      by_contra unmet
      obtain ⟨next, taken, broken⟩ := breaks state event initial unmet
      exact broken (always.2 next taken).head
    refine ⟨met, fun next taken => ?_⟩
    exact inductionHypothesis (preserved state event next initial met taken)
      (always.2 next taken)

/-- The exact rule under an invariant. Where the steps inside the condition keep an invariant that
ensures the property, and a step outside it breaks the property, a run keeps the property exactly
if all its steps meet the condition. -/
theorem always_iff_of_invariant {condition : State → Event → Prop}
    {invariant property : State → Prop}
    (preserved : ∀ state event next, invariant state → condition state event →
      step state event = some next → invariant next)
    (ensures : ∀ state, invariant state → property state)
    (breaks : ∀ state event, invariant state → ¬ condition state event →
      ∃ next, step state event = some next ∧ ¬ property next)
    {state : State} {events : List Event} (initial : invariant state) :
    Always step property state events ↔ StepsMeet step condition state events := by
  refine ⟨stepsMeet_of_always step preserved breaks initial, fun meet => ?_⟩
  exact (always_of_invariant step preserved initial meet).mono step ensures

/-- The exact rule. Where a step that can always be taken keeps the property exactly if it meets
the condition, a run keeps it exactly if all its steps meet the condition. -/
theorem always_iff_stepsMeet {condition : State → Event → Prop} {property : State → Prop}
    (exactly : ∀ state event, property state →
      ∃ next, step state event = some next ∧ (property next ↔ condition state event))
    {state : State} {events : List Event} (initial : property state) :
    Always step property state events ↔ StepsMeet step condition state events := by
  have preserved : ∀ state event next, property state → condition state event →
      step state event = some next → property next := by
    intro state event next holds met taken
    obtain ⟨other, isNext, keepsIff⟩ := exactly state event holds
    rw [taken, Option.some.injEq] at isNext
    exact isNext ▸ keepsIff.mpr met
  refine always_iff_of_invariant step preserved (fun state holds => holds)
    (fun state event holds unmet => ?_) initial
  obtain ⟨next, taken, keepsIff⟩ := exactly state event holds
  exact ⟨next, taken, fun kept => unmet (keepsIff.mp kept)⟩

/-- The exact rule for a property of the states together with one of the steps. Where a step from
a state with the property meets the condition exactly if it is as it should be and leads to a state
with the property, a run is as it should be exactly if all its steps meet the condition. -/
theorem always_and_stepsMeet_iff {condition ensured : State → Event → Prop}
    {property : State → Prop}
    (exactly : ∀ state event, property state →
      ((ensured state event ∧ ∀ next, step state event = some next → property next) ↔
        condition state event))
    {state : State} {events : List Event} (initial : property state) :
    Always step property state events ∧ StepsMeet step ensured state events ↔
      StepsMeet step condition state events := by
  constructor
  · rintro ⟨always, meet⟩
    induction events generalizing state with
    | nil => trivial
    | cons event rest inductionHypothesis =>
      have keeps : ∀ next, step state event = some next → property next :=
        fun next taken => (always.2 next taken).head
      refine ⟨(exactly state event initial).mp ⟨meet.1, keeps⟩, fun next taken => ?_⟩
      exact inductionHypothesis (keeps next taken) (always.2 next taken) (meet.2 next taken)
  · intro meet
    have preserved : ∀ state event next, property state → condition state event →
        step state event = some next → property next :=
      fun state event next holds met => ((exactly state event holds).mpr met).2 next
    exact ⟨always_of_invariant step preserved initial meet,
      stepsMeet_of_invariant step preserved
        (fun state event holds met => ((exactly state event holds).mpr met).1) initial meet⟩

/-! ### Runs of a system read as runs of another -/

section Map

variable {step} {Other : Type*} {other : State → Other → Option State} (translate : Event → Other)

theorem exec_map (same : ∀ state event, step state event = other state (translate event))
    {state : State} {events : List Event} :
    exec step state events = exec other state (events.map translate) := by
  induction events generalizing state with
  | nil => rfl
  | cons event rest inductionHypothesis =>
    rw [List.map_cons, exec_cons, exec_cons, same state event]
    exact congrArg _ (funext fun next => inductionHypothesis)

theorem always_map (same : ∀ state event, step state event = other state (translate event))
    {property : State → Prop} {state : State} {events : List Event} :
    Always step property state events ↔ Always other property state (events.map translate) := by
  induction events generalizing state with
  | nil => exact Iff.rfl
  | cons event rest inductionHypothesis =>
    rw [List.map_cons]
    unfold Always
    rw [same state event]
    exact and_congr Iff.rfl (forall_congr' fun next => forall_congr' fun _ => inductionHypothesis)

theorem stepsMeet_map (same : ∀ state event, step state event = other state (translate event))
    {condition : State → Event → Prop} {otherCondition : State → Other → Prop}
    (sameCondition : ∀ state event,
      condition state event ↔ otherCondition state (translate event))
    {state : State} {events : List Event} :
    StepsMeet step condition state events ↔
      StepsMeet other otherCondition state (events.map translate) := by
  induction events generalizing state with
  | nil => exact Iff.rfl
  | cons event rest inductionHypothesis =>
    rw [List.map_cons]
    unfold StepsMeet
    rw [same state event]
    exact and_congr (sameCondition state event)
      (forall_congr' fun next => forall_congr' fun _ => inductionHypothesis)

end Map

end LiteHorse.Runs
