/-
This file models the daily cost budget of a user and an agent: the counter and the alert flag of a
day in Redis, the check before a turn, and `record_cost` after it.

A call of `record_cost` goes to Redis at most twice and emits its metric after that, so calls
interleave at three points. `budget_accounted_iff` says what every interleaving leaves: the counter
is the sum of the costs, and the alert is emitted once, provided that four fifths of the budget are
a positive number.
-/

import LiteHorse.Library.RunningTotal
import LiteHorse.Library.Runs

namespace LiteHorse.Web.CostBudget

open RunningTotal Runs

/-! ### The counter of a day -/

/-- The counter and the alert flag of a user, an agent and a day. A key that is not there is
`none`. -/
structure Ledger where
  counter : Option Int
  alerted : Bool

def Ledger.initial : Ledger where
  counter := none
  alerted := false

def getSpentMicro : Option Ledger → Int
  | none => 0
  | some ledger => ledger.counter.getD 0

def checkBudget (redis : Option Ledger) (budgetMicro : Option Int) : Bool :=
  match redis, budgetMicro with
  | some ledger, some budget =>
    if budget ≤ 0 then true else decide (getSpentMicro (some ledger) < budget)
  | _, _ => true

/-- `ALERT_THRESHOLD_PCT` -/
def alertThresholdPct : Int := 80

def threshold (budget : Int) : Int := budget * alertThresholdPct / 100

/-- The write is the one to raise the alert. -/
def raisesAlert (budgetMicro : Option Int) (costMicro total : Int) : Bool :=
  match budgetMicro with
  | none => false
  | some budget =>
    decide (0 < budget) && decide (total - costMicro < threshold budget) &&
      decide (threshold budget ≤ total)

namespace Ledger

variable (ledger : Ledger)

/-- `INCRBY`, with the new total. -/
def incrBy (costMicro : Int) : Ledger × Int :=
  let total := ledger.counter.getD 0 + costMicro
  ({ ledger with counter := some total }, total)

/-- `SET NX` of the alert flag, which succeeds if it is not set. -/
def setAlerted : Ledger × Bool := ({ ledger with alerted := true }, !ledger.alerted)

end Ledger

/-- What a call of `record_cost` leaves behind. -/
structure Recorded where
  redis : Option Ledger
  returned : Int
  /-- How often the call has emitted `cost_budget_alert`. -/
  alerts : Nat

/-- `record_cost`, of a call that no other one interrupts. -/
def recordCost (redis : Option Ledger) (costMicro : Int) (budgetMicro : Option Int) : Recorded :=
  match redis with
  | none => { redis := none, returned := 0, alerts := 0 }
  | some ledger =>
    if costMicro ≤ 0 then { redis := some ledger, returned := 0, alerts := 0 }
    else
      let counted := ledger.incrBy costMicro
      if raisesAlert budgetMicro costMicro counted.2 then
        let flagged := counted.1.setAlerted
        { redis := some flagged.1, returned := counted.2, alerts := if flagged.2 then 1 else 0 }
      else { redis := some counted.1, returned := counted.2, alerts := 0 }

/-! ### Calls that interleave -/

/-- How far a call has come. -/
inductive Phase where
  | waiting
  /-- Before `SET NX`. -/
  | flagging (total : Int)
  /-- Before `emit_metric`. -/
  | emitting (total : Int)
  | returned (total : Int)

/-- The call is not between its start and its return. -/
def Phase.IsQuiet : Phase → Prop
  | .waiting | .returned _ => True
  | .flagging _ | .emitting _ => False

/-- The calls of a day, with the log of the costs that were added. -/
structure BudgetState (Id : Type) where
  ledger : Ledger
  phase : Id → Phase
  log : List (Entry Id)
  emitted : Nat

inductive BudgetEvent (Id : Type) where
  | increment (id : Id) (costMicro : Int)
  | flag (id : Id)
  | emit (id : Id)

section Step

variable {Id : Type} [DecidableEq Id]

def BudgetState.initial : BudgetState Id where
  ledger := .initial
  phase := fun _ => .waiting
  log := []
  emitted := 0

namespace BudgetState

variable (state : BudgetState Id)

def setPhase (id : Id) (phase : Phase) : BudgetState Id :=
  { state with phase := Function.update state.phase id phase }

/-- The start of a call, up to its second way to Redis if there is one. -/
def increment (budgetMicro : Option Int) (id : Id) (costMicro : Int) : BudgetState Id :=
  if costMicro ≤ 0 then state.setPhase id (.returned 0)
  else
    let counted := state.ledger.incrBy costMicro
    { state.setPhase id
        (if raisesAlert budgetMicro costMicro counted.2 then .flagging counted.2
          else .returned counted.2) with
      ledger := counted.1
      log := state.log ++ [{ id, amount := costMicro, total := counted.2 }] }

def flag (id : Id) (total : Int) : BudgetState Id :=
  let flagged := state.ledger.setAlerted
  { state.setPhase id (if flagged.2 then .emitting total else .returned total) with
    ledger := flagged.1 }

def emit (id : Id) (total : Int) : BudgetState Id :=
  { state.setPhase id (.returned total) with emitted := state.emitted + 1 }

end BudgetState

def budgetStep (budgetMicro : Option Int) (state : BudgetState Id) :
    BudgetEvent Id → Option (BudgetState Id)
  | .increment id costMicro =>
    match state.phase id with
    | .waiting => some (state.increment budgetMicro id costMicro)
    | _ => none
  | .flag id =>
    match state.phase id with
    | .flagging total => some (state.flag id total)
    | _ => none
  | .emit id =>
    match state.phase id with
    | .emitting total => some (state.emit id total)
    | _ => none

/-- The event starts a call that adds a cost. -/
def Records (state : BudgetState Id) : BudgetEvent Id → Prop
  | .increment id costMicro => state.phase id = .waiting ∧ 0 < costMicro
  | .flag _ => False
  | .emit _ => False

/-! ### What is promised -/

structure Accounted (budget : Int) (state : BudgetState Id) : Prop where
  counter : getSpentMicro (some state.ledger) = sum state.log
  /-- A total is the sum of the costs up to its own. -/
  running : ∀ entry earlier later, state.log = earlier ++ entry :: later →
    entry.total = sum earlier + entry.amount
  returned : ∀ entry ∈ state.log, ∀ total, state.phase entry.id = .returned total →
    total = entry.total
  distinct : (state.log.map Entry.total).Nodup
  once : state.emitted ≤ 1
  onlyReached : state.emitted ≠ 0 → state.log ≠ [] ∧ threshold budget ≤ sum state.log
  /-- Once no call is under way. -/
  alerted : (∀ id, (state.phase id).IsQuiet) → state.log ≠ [] →
    threshold budget ≤ sum state.log → state.emitted = 1

/-! ### What the steps keep -/

/-- How far the call has come whose cost has crossed the threshold. -/
def Alerting (state : BudgetState Id) (entry : Entry Id) : Prop :=
  (state.phase entry.id = .flagging entry.total ∧ state.ledger.alerted = false ∧
      state.emitted = 0) ∨
    (state.phase entry.id = .emitting entry.total ∧ state.ledger.alerted = true ∧
      state.emitted = 0) ∨
    (state.phase entry.id = .returned entry.total ∧ state.ledger.alerted = true ∧
      state.emitted = 1)

structure BudgetInvariant (budget : Int) (state : BudgetState Id) : Prop where
  counter : getSpentMicro (some state.ledger) = sum state.log
  logged : Log state.log
  others : ∀ id, (∀ entry ∈ state.log, entry.id ≠ id) →
    state.phase id = .waiting ∨ state.phase id = .returned 0
  quiet : ∀ entry ∈ state.log, ¬ entry.Crosses (threshold budget) →
    state.phase entry.id = .returned entry.total
  alerting : ∀ entry ∈ state.log, entry.Crosses (threshold budget) → Alerting state entry
  silent : (∀ entry ∈ state.log, ¬ entry.Crosses (threshold budget)) →
    state.ledger.alerted = false ∧ state.emitted = 0

end Step

section Invariant

variable {Id : Type} [DecidableEq Id] {budget : Int} {state next : BudgetState Id}

omit [DecidableEq Id] in
theorem budgetInvariant_initial :
    BudgetInvariant budget (BudgetState.initial : BudgetState Id) where
  counter := rfl
  logged := .nil
  others := fun _ _ => Or.inl rfl
  quiet := fun _ member => nomatch member
  alerting := fun _ member => nomatch member
  silent := fun _ => ⟨rfl, rfl⟩

/-- Four fifths of a budget are a positive number from two on. -/
theorem threshold_pos_iff : 0 < threshold budget ↔ 2 ≤ budget := by
  unfold threshold alertThresholdPct
  omega

omit [DecidableEq Id] in
/-- The code's test for the alert is that the entry crosses the threshold. -/
theorem raisesAlert_iff {entry : Entry Id} (nonneg : 0 ≤ entry.before) :
    raisesAlert (some budget) entry.amount entry.total = true ↔
      entry.Crosses (threshold budget) := by
  unfold raisesAlert Entry.Crosses
  unfold Entry.before at nonneg ⊢
  simp only [Bool.and_eq_true, decide_eq_true_iff]
  have positive : 0 < threshold budget ↔ 2 ≤ budget := threshold_pos_iff
  omega

omit [DecidableEq Id] in
theorem BudgetInvariant.phase_ne_waiting (invariant : BudgetInvariant budget state)
    {entry : Entry Id} (member : entry ∈ state.log) : state.phase entry.id ≠ .waiting := by
  intro isWaiting
  by_cases crosses : entry.Crosses (threshold budget)
  · rcases invariant.alerting entry member crosses with ⟨same, _⟩ | ⟨same, _⟩ | ⟨same, _⟩
    all_goals
      rw [isWaiting] at same
      cases same
  · have same := invariant.quiet entry member crosses
    rw [isWaiting] at same
    cases same

omit [DecidableEq Id] in
/-- A call that has added a cost returns its total. -/
theorem BudgetInvariant.returned (invariant : BudgetInvariant budget state) {entry : Entry Id}
    (member : entry ∈ state.log) {total : Int}
    (isReturned : state.phase entry.id = .returned total) :
    total = entry.total := by
  by_cases crosses : entry.Crosses (threshold budget)
  · rcases invariant.alerting entry member crosses with ⟨same, _⟩ | ⟨same, _⟩ | ⟨same, _⟩
    all_goals
      rw [isReturned] at same
      cases same
    rfl
  · have same := invariant.quiet entry member crosses
    rw [isReturned] at same
    cases same
    rfl

omit [DecidableEq Id] in
/-- A call that has not returned its total is the one that has crossed the threshold. -/
theorem BudgetInvariant.entry_of_phase (invariant : BudgetInvariant budget state) {id : Id}
    (notWaiting : state.phase id ≠ .waiting)
    (notReturned : ∀ total, state.phase id ≠ .returned total) :
    ∃ entry ∈ state.log, entry.id = id ∧ entry.Crosses (threshold budget) ∧
      Alerting state entry := by
  by_cases isLogged : ∃ entry ∈ state.log, entry.id = id
  · obtain ⟨entry, member, rfl⟩ := isLogged
    have crosses : entry.Crosses (threshold budget) := by
      by_contra noCross
      exact notReturned _ (invariant.quiet entry member noCross)
    exact ⟨entry, member, rfl, crosses, invariant.alerting entry member crosses⟩
  · push Not at isLogged
    rcases invariant.others id isLogged with isWaiting | isReturned
    · exact absurd isWaiting notWaiting
    · exact absurd isReturned (notReturned 0)

/-- The call that has crossed the threshold goes on; every other one is as it was. -/
theorem BudgetInvariant.advance (invariant : BudgetInvariant budget state) {entry : Entry Id}
    (member : entry ∈ state.log) (crosses : entry.Crosses (threshold budget))
    (sameCounter : next.ledger.counter = state.ledger.counter) (sameLog : next.log = state.log)
    {phase : Phase} (isPhase : next.phase = Function.update state.phase entry.id phase)
    (alerting : Alerting next entry) : BudgetInvariant budget next where
  counter := by
    unfold getSpentMicro
    dsimp only
    rw [sameCounter, sameLog]
    exact invariant.counter
  logged := sameLog ▸ invariant.logged
  others := fun id notLogged => by
    rw [sameLog] at notLogged
    rw [isPhase, Function.update_of_ne (notLogged entry member).symm]
    exact invariant.others id notLogged
  quiet := fun other otherMember noCross => by
    rw [sameLog] at otherMember
    have different : other.id ≠ entry.id := fun same =>
      noCross (invariant.logged.eq_of_id_eq otherMember member same ▸ crosses)
    rw [isPhase, Function.update_of_ne different]
    exact invariant.quiet other otherMember noCross
  alerting := fun other otherMember otherCrosses => by
    rw [sameLog] at otherMember
    rw [invariant.logged.eq_of_crosses otherMember member otherCrosses crosses]
    exact alerting
  silent := fun noCross => absurd crosses (noCross entry (sameLog ▸ member))

omit [DecidableEq Id] in
theorem Alerting.frame {entry : Entry Id} (alerting : Alerting state entry)
    (samePhase : next.phase entry.id = state.phase entry.id)
    (sameFlag : next.ledger.alerted = state.ledger.alerted)
    (sameEmitted : next.emitted = state.emitted) : Alerting next entry := by
  unfold Alerting
  rw [samePhase, sameFlag, sameEmitted]
  exact alerting

/-- A call that adds nothing returns zero. -/
theorem BudgetInvariant.skip (invariant : BudgetInvariant budget state) {id : Id}
    (fresh : ∀ entry ∈ state.log, entry.id ≠ id) :
    BudgetInvariant budget (state.setPhase id (.returned 0)) where
  counter := invariant.counter
  logged := invariant.logged
  others := fun other notLogged => by
    unfold BudgetState.setPhase
    dsimp only
    by_cases same : other = id
    · rw [same, Function.update_self]
      exact Or.inr rfl
    · rw [Function.update_of_ne same]
      exact invariant.others other notLogged
  quiet := fun entry member noCross =>
    (Function.update_of_ne (fresh entry member) ..).trans (invariant.quiet entry member noCross)
  alerting := fun entry member crosses => (invariant.alerting entry member crosses).frame
    (Function.update_of_ne (fresh entry member) ..) rfl rfl
  silent := invariant.silent

/-- The entry of a cost that is added now. -/
def nextEntry (state : BudgetState Id) (id : Id) (costMicro : Int) : Entry Id where
  id := id
  amount := costMicro
  total := sum state.log + costMicro

theorem BudgetInvariant.increment_eq (invariant : BudgetInvariant budget state) (id : Id)
    {costMicro : Int} (positive : 0 < costMicro) :
    state.increment (some budget) id costMicro =
      { ledger :=
          { counter := some (nextEntry state id costMicro).total
            alerted := state.ledger.alerted }
        phase := Function.update state.phase id
          (if (nextEntry state id costMicro).Crosses (threshold budget) then
            .flagging (nextEntry state id costMicro).total
          else .returned (nextEntry state id costMicro).total)
        log := state.log ++ [nextEntry state id costMicro]
        emitted := state.emitted } := by
  have isTotal : (state.ledger.incrBy costMicro).2 = (nextEntry state id costMicro).total :=
    congrArg (· + costMicro) invariant.counter
  have nonneg : 0 ≤ (nextEntry state id costMicro).before := by
    have start := invariant.logged.sum_nonneg
    unfold nextEntry Entry.before
    dsimp only
    omega
  have raises : raisesAlert (some budget) costMicro (nextEntry state id costMicro).total = true ↔
      (nextEntry state id costMicro).Crosses (threshold budget) := raisesAlert_iff nonneg
  have isLedger : (state.ledger.incrBy costMicro).1 =
      { counter := some (nextEntry state id costMicro).total
        alerted := state.ledger.alerted } := by
    rw [← isTotal]
    rfl
  unfold BudgetState.increment
  rw [if_neg (Int.not_le.mpr positive)]
  dsimp only
  rw [isTotal, isLedger]
  simp only [raises]
  rfl

/-- A cost is added by a call that has not started. -/
theorem BudgetInvariant.increment (invariant : BudgetInvariant budget state) {id : Id}
    (isWaiting : state.phase id = .waiting) (costMicro : Int) :
    BudgetInvariant budget (state.increment (some budget) id costMicro) := by
  have fresh : ∀ entry ∈ state.log, entry.id ≠ id := fun entry member same =>
    invariant.phase_ne_waiting member (same ▸ isWaiting)
  by_cases positive : 0 < costMicro
  · have logged : Log (state.log ++ [nextEntry state id costMicro]) :=
      .concat id costMicro invariant.logged fresh positive
    rw [invariant.increment_eq id positive]
    refine ⟨?_, logged, fun other notLogged => ?_, fun entry member noCross => ?_,
      fun entry member crosses => ?_, fun noCross => ?_⟩
    · show (nextEntry state id costMicro).total = _
      rw [sum_concat]
      rfl
    · have different : other ≠ id := fun same =>
        notLogged _ (mem_concat.mpr (Or.inr rfl)) same.symm
      dsimp only
      rw [Function.update_of_ne different]
      exact invariant.others other fun entry member =>
        notLogged entry (mem_concat.mpr (Or.inl member))
    · rcases mem_concat.mp member with earlier | rfl
      · exact (Function.update_of_ne (fresh entry earlier) ..).trans
          (invariant.quiet entry earlier noCross)
      · exact (Function.update_self ..).trans (if_neg noCross)
    · rcases mem_concat.mp member with earlier | rfl
      · exact (invariant.alerting entry earlier crosses).frame
          (Function.update_of_ne (fresh entry earlier) ..) rfl rfl
      · refine Or.inl ⟨(Function.update_self ..).trans (if_pos crosses), ?_⟩
        refine invariant.silent fun entry earlier otherCrosses => fresh entry earlier ?_
        rw [logged.eq_of_crosses (mem_concat.mpr (Or.inl earlier)) member otherCrosses crosses]
        rfl
    · exact invariant.silent fun entry member => noCross entry (mem_concat.mpr (Or.inl member))
  · unfold BudgetState.increment
    rw [if_pos (Int.not_lt.mp positive)]
    exact invariant.skip fresh

theorem BudgetInvariant.flag (invariant : BudgetInvariant budget state) {id : Id} {total : Int}
    (isFlagging : state.phase id = .flagging total) :
    BudgetInvariant budget (state.flag id total) := by
  obtain ⟨entry, member, rfl, crosses, alerting⟩ := invariant.entry_of_phase
    (fun same => by rw [isFlagging] at same; cases same)
    (fun total same => by rw [isFlagging] at same; cases same)
  rcases alerting with ⟨isPhase, notSet, isSilent⟩ | ⟨isPhase, _⟩ | ⟨isPhase, _⟩
  · rw [isFlagging, Phase.flagging.injEq] at isPhase
    refine invariant.advance member crosses rfl rfl rfl (Or.inr (Or.inl ⟨?_, rfl, isSilent⟩))
    unfold BudgetState.flag Ledger.setAlerted
    dsimp only [BudgetState.setPhase]
    rw [Function.update_self, notSet, isPhase]
    rfl
  · rw [isFlagging] at isPhase
    cases isPhase
  · rw [isFlagging] at isPhase
    cases isPhase

theorem BudgetInvariant.emit (invariant : BudgetInvariant budget state) {id : Id} {total : Int}
    (isEmitting : state.phase id = .emitting total) :
    BudgetInvariant budget (state.emit id total) := by
  obtain ⟨entry, member, rfl, crosses, alerting⟩ := invariant.entry_of_phase
    (fun same => by rw [isEmitting] at same; cases same)
    (fun total same => by rw [isEmitting] at same; cases same)
  rcases alerting with ⟨isPhase, _⟩ | ⟨isPhase, isSet, isSilent⟩ | ⟨isPhase, _⟩
  · rw [isEmitting] at isPhase
    cases isPhase
  · rw [isEmitting, Phase.emitting.injEq] at isPhase
    refine invariant.advance member crosses rfl rfl rfl (Or.inr (Or.inr ⟨?_, isSet, ?_⟩))
    · unfold BudgetState.emit
      dsimp only [BudgetState.setPhase]
      rw [Function.update_self, isPhase]
    · exact congrArg (· + 1) isSilent
  · rw [isEmitting] at isPhase
    cases isPhase

theorem budgetInvariant_step {event : BudgetEvent Id} (invariant : BudgetInvariant budget state)
    (taken : budgetStep (some budget) state event = some next) : BudgetInvariant budget next := by
  cases event with
  | increment id costMicro =>
    simp only [budgetStep] at taken
    split at taken
    next isWaiting =>
      cases taken
      exact invariant.increment isWaiting costMicro
    next => cases taken
  | flag id =>
    simp only [budgetStep] at taken
    split at taken
    next total isFlagging =>
      cases taken
      exact invariant.flag isFlagging
    next => cases taken
  | emit id =>
    simp only [budgetStep] at taken
    split at taken
    next total isEmitting =>
      cases taken
      exact invariant.emit isEmitting
    next => cases taken

omit [DecidableEq Id] in
/-- From a budget of two on, what the steps keep is all that is promised. -/
theorem BudgetInvariant.accounted (invariant : BudgetInvariant budget state)
    (enough : 2 ≤ budget ∨ state.log = []) : Accounted budget state := by
  have base := invariant.logged.totals_nodup
  by_cases someCross : ∃ entry ∈ state.log, entry.Crosses (threshold budget)
  · obtain ⟨entry, member, crosses⟩ := someCross
    have alerting := invariant.alerting entry member crosses
    refine ⟨invariant.counter, fun _ => invariant.logged.total_eq,
      fun _ isLogged _ => invariant.returned isLogged, base, ?_,
      fun _ => ⟨List.ne_nil_of_mem member, ?_⟩, ?_⟩
    · rcases alerting with ⟨_, _, isEmitted⟩ | ⟨_, _, isEmitted⟩ | ⟨_, _, isEmitted⟩
      all_goals omega
    · exact Int.le_trans crosses.2 (invariant.logged.bounds member).2.2
    · intro allQuiet _ _
      have isQuiet := allQuiet entry.id
      rcases alerting with ⟨isPhase, _⟩ | ⟨isPhase, _⟩ | ⟨_, _, isEmitted⟩
      · rw [isPhase] at isQuiet
        cases isQuiet
      · rw [isPhase] at isQuiet
        cases isQuiet
      · exact isEmitted
  · have isSilent := (invariant.silent fun entry member crosses =>
      someCross ⟨entry, member, crosses⟩).2
    refine ⟨invariant.counter, fun _ => invariant.logged.total_eq,
      fun _ isLogged _ => invariant.returned isLogged, base, ?_,
      fun hasEmitted => absurd isSilent hasEmitted, fun _ isLogged reached => ?_⟩
    · omega
    · have positive := threshold_pos_iff.mpr (enough.resolve_right isLogged)
      exact absurd ((invariant.logged.exists_crosses_iff positive).mpr reached) someCross

/-- Below two, a cost that is recorded reaches the threshold and raises no alert. -/
theorem not_accounted_of_records (small : budget < 2) (invariant : BudgetInvariant budget state)
    {event : BudgetEvent Id} (records : Records state event) :
    ∃ next, budgetStep (some budget) state event = some next ∧ ¬ Accounted budget next := by
  cases event with
  | increment id costMicro =>
    obtain ⟨isWaiting, positive⟩ := records
    refine ⟨state.increment (some budget) id costMicro, ?_, fun accounted => ?_⟩
    · simp only [budgetStep, isWaiting]
    · have kept := invariant.increment isWaiting costMicro
      have noThreshold : threshold budget ≤ 0 :=
        Int.not_lt.mp fun positive => absurd (threshold_pos_iff.mp positive) (Int.not_le.mpr small)
      have noCross : ∀ entry ∈ (state.increment (some budget) id costMicro).log,
          ¬ entry.Crosses (threshold budget) := by
        intro entry member crosses
        have start := (kept.logged.bounds member).1
        have before := crosses.1
        omega
      have quiet : ∀ other,
          ((state.increment (some budget) id costMicro).phase other).IsQuiet := by
        intro other
        by_contra notQuiet
        obtain ⟨entry, member, _, crosses, _⟩ := kept.entry_of_phase
          (fun same => notQuiet (by rw [same]; trivial))
          (fun total same => notQuiet (by rw [same]; trivial))
        exact noCross entry member crosses
      have isSilent := (kept.silent noCross).2
      have isEmitted := accounted.alerted quiet ?_
        (Int.le_trans noThreshold kept.logged.sum_nonneg)
      · omega
      · rw [invariant.increment_eq id positive]
        exact List.append_ne_nil_of_right_ne_nil _ (List.cons_ne_nil _ _)
  | flag id => cases records
  | emit id => cases records

/-- A step that records nothing leaves the log as it is. -/
theorem log_of_not_records {event : BudgetEvent Id} (noRecord : ¬ Records state event)
    (taken : budgetStep (some budget) state event = some next) : next.log = state.log := by
  cases event with
  | increment id costMicro =>
    simp only [budgetStep] at taken
    split at taken
    next isWaiting =>
      cases taken
      unfold BudgetState.increment
      rw [if_pos (Int.not_lt.mp fun positive => noRecord ⟨isWaiting, positive⟩)]
      rfl
    next => cases taken
  | flag id =>
    simp only [budgetStep] at taken
    split at taken
    next => cases taken; rfl
    next => cases taken
  | emit id =>
    simp only [budgetStep] at taken
    split at taken
    next => cases taken; rfl
    next => cases taken

end Invariant

/-- A call that has crossed the threshold goes on to its end. -/
theorem exists_run_flag {Id : Type} [DecidableEq Id] {state : BudgetState Id} {id : Id}
    {total : Int} (isFlagging : state.phase id = .flagging total) (budgetMicro : Option Int) :
    ∃ events final, exec (budgetStep budgetMicro) state events = some final ∧
      final.ledger = state.ledger.setAlerted.1 ∧ final.phase id = .returned total ∧
      final.emitted = state.emitted + if state.ledger.setAlerted.2 then 1 else 0 := by
  have flagged : budgetStep budgetMicro state (.flag id) = some (state.flag id total) := by
    simp only [budgetStep, isFlagging]
  have isPhase : (state.flag id total).phase id =
      if state.ledger.setAlerted.2 then .emitting total else .returned total :=
    Function.update_self ..
  by_cases isFirst : state.ledger.setAlerted.2 = true
  · rw [if_pos isFirst] at isPhase ⊢
    have emits : budgetStep budgetMicro (state.flag id total) (.emit id) =
        some ((state.flag id total).emit id total) := by
      simp only [budgetStep, isPhase]
    refine ⟨[.flag id, .emit id], (state.flag id total).emit id total, ?_, rfl,
      Function.update_self .., rfl⟩
    rw [exec_cons, flagged, Option.bind_some, exec_cons, emits]
    rfl
  · rw [if_neg isFirst] at isPhase ⊢
    refine ⟨[.flag id], state.flag id total, ?_, rfl, isPhase, rfl⟩
    rw [exec_cons, flagged]
    rfl

/-- A call that nothing interrupts does what the code of `record_cost` says. -/
theorem exists_run_recordCost {Id : Type} [DecidableEq Id] {state : BudgetState Id} {id : Id}
    (isWaiting : state.phase id = .waiting) (costMicro : Int) (budgetMicro : Option Int) :
    ∃ events final, exec (budgetStep budgetMicro) state events = some final ∧
      some final.ledger = (recordCost (some state.ledger) costMicro budgetMicro).redis ∧
      final.phase id = .returned (recordCost (some state.ledger) costMicro budgetMicro).returned ∧
      final.emitted =
        state.emitted + (recordCost (some state.ledger) costMicro budgetMicro).alerts := by
  have started : ∀ events, exec (budgetStep budgetMicro) state (.increment id costMicro :: events) =
      exec (budgetStep budgetMicro) (state.increment budgetMicro id costMicro) events := by
    intro events
    rw [exec_cons]
    simp only [budgetStep, isWaiting, Option.bind_some]
  unfold BudgetState.increment at started
  unfold recordCost
  dsimp only
  by_cases isFree : costMicro ≤ 0
  · rw [if_pos isFree] at started ⊢
    exact ⟨[.increment id costMicro], _, started [], rfl, Function.update_self .., rfl⟩
  · rw [if_neg isFree] at started ⊢
    by_cases raises : raisesAlert budgetMicro costMicro (state.ledger.incrBy costMicro).2 = true
    · rw [if_pos raises]
      dsimp only at started
      rw [if_pos raises] at started
      let counted := state.ledger.incrBy costMicro
      let crossing : BudgetState Id :=
        { state.setPhase id (.flagging counted.2) with
          ledger := counted.1
          log := state.log ++ [{ id, amount := costMicro, total := counted.2 }] }
      have isFlagging : crossing.phase id = .flagging counted.2 := Function.update_self ..
      obtain ⟨events, final, run, isLedger, isPhase, isEmitted⟩ :=
        exists_run_flag isFlagging budgetMicro
      exact ⟨.increment id costMicro :: events, final, (started events).trans run,
        congrArg some isLedger, isPhase, isEmitted⟩
    · rw [if_neg raises]
      dsimp only at started
      rw [if_neg raises] at started
      exact ⟨[.increment id costMicro], _, started [], rfl, Function.update_self .., rfl⟩

/-- A positive cost is added to the counter. -/
theorem getSpentMicro_recordCost {costMicro : Int} (positive : 0 < costMicro) (ledger : Ledger)
    (budgetMicro : Option Int) :
    getSpentMicro (recordCost (some ledger) costMicro budgetMicro).redis =
      getSpentMicro (some ledger) + costMicro := by
  unfold recordCost
  dsimp only
  rw [if_neg (Int.not_le.mpr positive)]
  split
  · rfl
  · rfl

/-- The check before a turn compares the costs of the day with the budget. -/
theorem checkBudget_iff {Id : Type} {budget : Int} {state : BudgetState Id}
    (accounted : Accounted budget state) :
    checkBudget (some state.ledger) (some budget) = true ↔ budget ≤ 0 ∨ sum state.log < budget := by
  unfold checkBudget
  dsimp only
  rw [accounted.counter]
  split
  next isFree => exact iff_of_true rfl (Or.inl isFree)
  next isCapped =>
    rw [decide_eq_true_iff]
    exact ⟨Or.inr, fun within => within.resolve_left isCapped⟩

/-- In every interleaving of calls with a budget the costs are accounted for and alerted exactly if
the budget is at least two, or no cost is recorded. -/
theorem budget_accounted_iff {Id : Type} [DecidableEq Id] (budget : Int)
    (events : List (BudgetEvent Id)) :
    Always (budgetStep (some budget)) (Accounted budget) .initial events ↔
      StepsMeet (budgetStep (some budget)) (fun state event => 2 ≤ budget ∨ ¬ Records state event)
        .initial events := by
  by_cases enough : 2 ≤ budget
  · refine iff_of_true ?_ (stepsMeet_of_forall _ (fun _ _ => Or.inl enough) _ _)
    refine (always_invariant _ (fun _ _ _ => budgetInvariant_step) budgetInvariant_initial).mono _
      fun _ invariant => invariant.accounted (Or.inl enough)
  · have preserved : ∀ (state : BudgetState Id) event next,
        BudgetInvariant budget state ∧ state.log = [] →
          (2 ≤ budget ∨ ¬ Records state event) →
            budgetStep (some budget) state event = some next →
              BudgetInvariant budget next ∧ next.log = [] :=
      fun _ _ _ ⟨invariant, nothing⟩ noRecord taken =>
        ⟨budgetInvariant_step invariant taken,
          (log_of_not_records (noRecord.resolve_left enough) taken).trans nothing⟩
    have initial : BudgetInvariant budget (BudgetState.initial : BudgetState Id) ∧
        (BudgetState.initial : BudgetState Id).log = [] := ⟨budgetInvariant_initial, rfl⟩
    refine always_iff_of_invariant _ preserved
      (fun state ⟨invariant, nothing⟩ => invariant.accounted (Or.inr nothing))
      (fun state event ⟨invariant, _⟩ unmet => ?_) initial
    exact not_accounted_of_records (Int.not_le.mp enough) invariant
      (not_not.mp (not_or.mp unmet).2)

/-- A budget of one is spent, and no alert is emitted. -/
theorem smallest_budget_is_not_alerted :
    ¬ ∀ (Id : Type) [DecidableEq Id] (budget : Int), 1 ≤ budget → ∀ events : List (BudgetEvent Id),
        Always (budgetStep (some budget)) (Accounted budget) .initial events := by
  intro assumed
  have always := assumed Unit 1 (Int.le_refl 1) [.increment () 5]
  have emitted := (always.2 _ rfl).alerted (fun _ => trivial) (List.cons_ne_nil _ _) (by decide)
  cases emitted

end LiteHorse.Web.CostBudget
