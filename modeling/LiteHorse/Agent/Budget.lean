/-
This file models the budget hook of a run. After every tool call it counts the call and may append
a note to the last tool item of the turn's input: a nudge at every tenth call, and one of two notes
as the calls come near to `max_turns`. The first warning also runs the consolidator, and only that
is awaited, so calls interleave there and nowhere else.

A tier is left behind only when its note lands, and the share of the budget only grows. So each of
the two notes lands at most once, in order, and the consolidator runs at most once
(`always_oneShot`).
-/

import LiteHorse.Library.Runs
import LiteHorse.Python
import Mathlib.Data.List.Nodup

namespace LiteHorse.Agent.Budget

open Python Runs

/-! ### The notes -/

inductive Tier where
  | caution
  | warning
deriving DecidableEq

def nudgeEveryNToolCalls : Nat := 10

/-- What does not change in a run. -/
structure Setting where
  maxTurns : Int
  hasConsolidator : Bool
  /-- What an f-string makes of a value; `none` where it raises, as for too many digits. -/
  format : Json → Option String
  /-- `copy.deepcopy` of the items does not raise. -/
  copyable : List Json → Bool

/-- `_tier_for`. The bounds are those of the quotients that a float rounds to at least 0.9 and
0.7. -/
def tierFor (setting : Setting) (iteration : Nat) : Option Tier :=
  let turns := (max 1 setting.maxTurns).toNat
  if 16212958658533785 * turns < 18014398509481984 * iteration then some .warning
  else if 12610078956637387 * turns ≤ 18014398509481984 * iteration then some .caution
  else none

/-- `_note` -/
def note (setting : Setting) (iteration : Nat) (tier : Tier) : Option String := do
  let shown ← setting.format (.int iteration)
  let turns ← setting.format (.int setting.maxTurns)
  let left ← setting.format (.int (max 0 (setting.maxTurns - iteration)))
  match tier with
  | .warning =>
    return "[BUDGET WARNING: Iteration " ++ shown ++ "/" ++ turns ++ ". Only " ++ left ++
      " iteration(s) left. Provide your final response NOW.]"
  | .caution =>
    return "[BUDGET: Iteration " ++ shown ++ "/" ++ turns ++ ". " ++ left ++
      " iterations left. Start consolidating your work.]"

/-- `_nudge_note` -/
def nudgeNote (setting : Setting) (iteration : Nat) : Option String := do
  let shown ← setting.format (.int iteration)
  return "[NUDGE: You have done " ++ shown ++ " tool calls. If you learned " ++
    "a durable fact — user preference, environmental constant, lesson " ++
    "— consider `memory(action='add', ...)` before continuing.]"

def isTool (fields : List (String × Json)) : Bool :=
  match getField fields "role" with
  | some (.str role) => role = "tool"
  | _ => false

/-- `fields[key] = value` -/
def setField (fields : List (String × Json)) (key : String) (value : Json) :
    List (String × Json) :=
  if (getField fields key).isSome then
    fields.map fun field => if field.1 = key then (key, value) else field
  else fields ++ [(key, value)]

/-- The tool item with the note behind its content, if that can be formatted. -/
def withNote (setting : Setting) (fields : List (String × Json)) (text : String) :
    Option (List (String × Json)) :=
  match (getField fields "content").filter Json.truthy with
  | none => some (setField fields "content" (.str text))
  | some existing =>
    (setting.format existing).map fun shown =>
      setField fields "content" (.str (shown ++ "\n\n" ++ text))

/-- The items with a note in the first tool item. -/
def noteFirst (setting : Setting) (text : String) : List Json → Option (List Json)
  | [] => none
  | .object fields :: rest =>
    if isTool fields then (withNote setting fields text).map fun noted => .object noted :: rest
    else (noteFirst setting text rest).map (.object fields :: ·)
  | item :: rest => (noteFirst setting text rest).map (item :: ·)

/-- `_append_note`. There are no items if the turn's input is no list, and no new ones if the note
does not land. -/
def appendNote (setting : Setting) (items : Option (List Json)) (text : String) :
    Option (List Json) :=
  items.bind fun items => (noteFirst setting text items.reverse).map List.reverse

/-! ### The run -/

inductive PyException where
  | memoryFull
  | unsafeMemoryContent
  | valueError
  | other
deriving DecidableEq

/-- An exception, or one that is no `Exception`, as a cancellation. -/
inductive Thrown where
  | exception (raised : PyException)
  | base
deriving DecidableEq

/-- Where something comes from that `on_tool_end` raises. -/
inductive Escape where
  /-- A number with too many digits for a note. -/
  | format
  /-- The local tenant, which is built where the context has none. -/
  | tenant (thrown : Thrown)
  | consolidator (thrown : Thrown)
  | backend (thrown : Thrown)
deriving DecidableEq

inductive NoteKind where
  | nudge
  | tier (tier : Tier)
deriving DecidableEq

/-- What has happened. -/
inductive Entry where
  | noted (kind : NoteKind) (iteration : Nat)
  | consolidatorRan
  | added (entry : String)
  | returned
  | escaped (escape : Escape)
deriving DecidableEq

/-- What a call of `on_tool_end` awaits. -/
inductive Awaiting where
  | consolidator
  | add (rest : List String)

structure State where
  iteration : Nat
  lastTier : Option Tier
  consolidated : Bool
  turnInput : Option (List Json)
  awaiting : List Awaiting
  log : List Entry

/-- After `on_start`. -/
def started (turnInput : Option (List Json)) : State where
  iteration := 0
  lastTier := none
  consolidated := false
  turnInput := turnInput
  awaiting := []
  log := []

inductive Answer where
  /-- The consolidator's entries, and what resolving the tenant raises. -/
  | entries (entries : List String) (tenant : Option Thrown)
  | added
  | raised (thrown : Thrown)

inductive Event where
  /-- The turn's input becomes another one. -/
  | input (items : Option (List Json))
  | toolEnd
  /-- One of the awaited calls is answered. -/
  | answer (task : Nat) (answer : Answer)

def State.record (state : State) (entry : Entry) : State :=
  { state with log := state.log ++ [entry] }

/-- The next entry is added, or there is none left. -/
def addNext (state : State) (task : Nat) : List String → State
  | [] => { state with awaiting := state.awaiting.eraseIdx task }.record .returned
  | entry :: rest =>
    { state with awaiting := state.awaiting.set task (.add rest) }.record (.added entry)

/-- A call ends that had awaited something. -/
def finish (state : State) (task : Nat) (entry : Entry) : State :=
  { state with awaiting := state.awaiting.eraseIdx task }.record entry

section Run

variable (setting : Setting)

/-- `_consolidate`, up to its first await. -/
def consolidate (state : State) : State :=
  if setting.hasConsolidator && setting.copyable (state.turnInput.getD []) then
    { state with awaiting := state.awaiting ++ [Awaiting.consolidator] }.record .consolidatorRan
  else state.record .returned

/-- A note is appended and recorded, if it lands. -/
def landNote (state : State) (kind : NoteKind) (text : String) : Option State :=
  (appendNote setting state.turnInput text).map fun items =>
    { state with turnInput := some items }.record (.noted kind state.iteration)

/-- `_maybe_emit_nudge`; `none` where it raises. -/
def maybeEmitNudge (state : State) : Option State :=
  if state.iteration % nudgeEveryNToolCalls ≠ 0 then some state
  else
    (nudgeNote setting state.iteration).map fun text =>
      (landNote setting state .nudge text).getD state

/-- The tier's note, where it is another tier than the last one. -/
def noteTier (state : State) (tier : Tier) : State :=
  if some tier = state.lastTier then state.record .returned
  else
    match note setting state.iteration tier with
    | none => state.record (.escaped .format)
    | some text =>
      match landNote setting state (.tier tier) text with
      | none => state.record .returned
      | some noted =>
        let noted := { noted with lastTier := some tier }
        if tier = .warning ∧ noted.consolidated = false then
          consolidate setting { noted with consolidated := true }
        else noted.record .returned

/-- `on_tool_end`, up to its await. -/
def onToolEnd (state : State) : State :=
  let counted := { state with iteration := state.iteration + 1 }
  match maybeEmitNudge setting counted with
  | none => counted.record (.escaped .format)
  | some nudged =>
    match tierFor setting nudged.iteration with
    | none => nudged.record .returned
    | some tier => noteTier setting nudged tier

/-- An awaited call is answered: the rest of `_consolidate`, up to its next await. -/
def onAnswer (state : State) (task : Nat) : Awaiting → Answer → Option State
  | .consolidator, .entries [] _ => some (finish state task .returned)
  | .consolidator, .entries (_ :: _) (some thrown) =>
    some (finish state task (.escaped (.tenant thrown)))
  | .consolidator, .entries (entry :: rest) none => some (addNext state task (entry :: rest))
  | .consolidator, .raised (.exception _) => some (finish state task .returned)
  | .consolidator, .raised .base => some (finish state task (.escaped (.consolidator .base)))
  | .add rest, .added => some (addNext state task rest)
  | .add _, .raised (.exception .other) => some (finish state task .returned)
  | .add rest, .raised (.exception _) => some (addNext state task rest)
  | .add _, .raised .base => some (finish state task (.escaped (.backend .base)))
  | _, _ => none

def step (state : State) : Event → Option State
  | .input items => some { state with turnInput := items }
  | .toolEnd => some (onToolEnd setting state)
  | .answer task answer =>
    state.awaiting[task]?.bind fun awaiting => onAnswer state task awaiting answer

end Run

/-! ### What is kept -/

/-- The tiers of the notes that landed. -/
def tiersOf (log : List Entry) : List Tier :=
  log.filterMap fun
    | .noted (.tier tier) _ => some tier
    | _ => none

/-- The iterations of the nudges that landed. -/
def nudgesOf (log : List Entry) : List Nat :=
  log.filterMap fun
    | .noted .nudge iteration => some iteration
    | _ => none

/-- What comes from the consolidator or the backend and is an exception. -/
def Escape.IsFailure : Escape → Prop
  | .consolidator (.exception _) => True
  | .backend (.exception _) => True
  | _ => False

/-- What is expected of the notes of a run. -/
structure OneShot (log : List Entry) : Prop where
  caution : (tiersOf log).count .caution ≤ 1
  warning : (tiersOf log).count .warning ≤ 1
  order : (tiersOf log).Pairwise fun earlier later => ¬ (earlier = .warning ∧ later = .caution)
  consolidatorOnce : log.count .consolidatorRan ≤ 1
  consolidatorAfter : ∀ front back, log = front ++ .consolidatorRan :: back →
    Tier.warning ∈ tiersOf front
  nudgeOnce : (nudgesOf log).Nodup
  nudgeTenth : ∀ iteration ∈ nudgesOf log, 10 ∣ iteration
  swallowed : ∀ escape, .escaped escape ∈ log → ¬ escape.IsFailure

/-- How the last tier comes from the notes. -/
def TiersFit : Option Tier → List Tier → Prop
  | none, tiers => tiers = []
  | some .caution, tiers => tiers = [.caution]
  | some .warning, tiers => tiers = [.warning] ∨ tiers = [.caution, .warning]

/-- The invariant of a run. -/
structure Kept (setting : Setting) (iteration : Nat) (lastTier : Option Tier) (consolidated : Bool)
    (log : List Entry) : Prop where
  tiers : TiersFit lastTier (tiersOf log)
  past : lastTier = some .warning → tierFor setting iteration = some .warning
  warned : consolidated = true → lastTier = some .warning
  notYet : consolidated = false → .consolidatorRan ∉ log
  consolidatorOnce : log.count .consolidatorRan ≤ 1
  consolidatorAfter : ∀ front back, log = front ++ .consolidatorRan :: back →
    Tier.warning ∈ tiersOf front
  nudgeOnce : (nudgesOf log).Nodup
  nudgeTenth : ∀ nudge ∈ nudgesOf log, 10 ∣ nudge
  nudgePast : ∀ nudge ∈ nudgesOf log, nudge ≤ iteration
  swallowed : ∀ escape, .escaped escape ∈ log → ¬ escape.IsFailure

section Logs

variable {log : List Entry} {entry : Entry}

theorem tiersOf_append (first second : List Entry) :
    tiersOf (first ++ second) = tiersOf first ++ tiersOf second := List.filterMap_append

theorem nudgesOf_append (first second : List Entry) :
    nudgesOf (first ++ second) = nudgesOf first ++ nudgesOf second := List.filterMap_append

/-- Whatever comes last, the consolidator ran behind the same notes. -/
theorem consolidatorAfter_append
    (after : ∀ front back, log = front ++ .consolidatorRan :: back → Tier.warning ∈ tiersOf front)
    (last : entry = .consolidatorRan → Tier.warning ∈ tiersOf log) (front back : List Entry)
    (same : log ++ [entry] = front ++ .consolidatorRan :: back) :
    Tier.warning ∈ tiersOf front := by
  rcases List.eq_nil_or_concat back with rfl | ⟨before, final, rfl⟩
  · obtain ⟨sameLog, sameLast⟩ := List.append_inj' same rfl
    rw [← sameLog]
    exact last (List.cons.inj sameLast).1
  · rw [List.concat_eq_append, ← List.cons_append, ← List.append_assoc] at same
    exact after front before (List.append_inj' same rfl).1

end Logs

section Kept

variable {setting : Setting} {iteration : Nat} {lastTier : Option Tier} {consolidated : Bool}
  {log : List Entry} {entry : Entry}

/-- The share of the budget only grows. -/
theorem tierFor_succ (past : tierFor setting iteration = some .warning) :
    tierFor setting (iteration + 1) = some .warning := by
  unfold tierFor at past ⊢
  dsimp only at past ⊢
  split at past
  next isPast => rw [if_pos (by omega)]
  next =>
    split at past
    · cases past
    · cases past

theorem Kept.oneShot (kept : Kept setting iteration lastTier consolidated log) : OneShot log := by
  have tiers : (tiersOf log).count .caution ≤ 1 ∧ (tiersOf log).count .warning ≤ 1 ∧
      (tiersOf log).Pairwise fun earlier later => ¬ (earlier = .warning ∧ later = .caution) := by
    have fits := kept.tiers
    cases lastTier with
    | none =>
      rw [show tiersOf log = [] from fits]
      decide
    | some tier =>
      cases tier with
      | caution =>
        rw [show tiersOf log = [.caution] from fits]
        decide
      | warning =>
        rcases fits with single | both
        · rw [single]
          decide
        · rw [both]
          decide
  exact ⟨tiers.1, tiers.2.1, tiers.2.2, kept.consolidatorOnce, kept.consolidatorAfter,
    kept.nudgeOnce, kept.nudgeTenth, kept.swallowed⟩

theorem Kept.counted (kept : Kept setting iteration lastTier consolidated log) :
    Kept setting (iteration + 1) lastTier consolidated log :=
  { kept with
    past := fun isWarning => tierFor_succ (kept.past isWarning)
    nudgePast := fun nudge member => Nat.le_succ_of_le (kept.nudgePast nudge member) }

/-- An entry that is no note, no run of the consolidator and no failure of it. -/
def Entry.IsNeutral : Entry → Prop
  | .noted _ _ => False
  | .consolidatorRan => False
  | .escaped escape => ¬ escape.IsFailure
  | _ => True

theorem Kept.neutral (kept : Kept setting iteration lastTier consolidated log)
    (neutral : entry.IsNeutral) :
    Kept setting iteration lastTier consolidated (log ++ [entry]) := by
  have noRun : entry ≠ .consolidatorRan := by
    rintro rfl
    exact neutral
  have noTier : tiersOf [entry] = [] := by
    cases entry with
    | noted kind at_ => exact absurd neutral id
    | consolidatorRan => rfl
    | added text => rfl
    | returned => rfl
    | escaped escape => rfl
  have noNudge : nudgesOf [entry] = [] := by
    cases entry with
    | noted kind at_ => exact absurd neutral id
    | consolidatorRan => rfl
    | added text => rfl
    | returned => rfl
    | escaped escape => rfl
  have sameTiers : tiersOf (log ++ [entry]) = tiersOf log := by
    rw [tiersOf_append, noTier, List.append_nil]
  have sameNudges : nudgesOf (log ++ [entry]) = nudgesOf log := by
    rw [nudgesOf_append, noNudge, List.append_nil]
  have sameCount : (log ++ [entry]).count .consolidatorRan = log.count .consolidatorRan := by
    rw [List.count_append, List.count_singleton, if_neg (beq_iff_eq.not.mpr noRun), Nat.add_zero]
  constructor
  · exact sameTiers ▸ kept.tiers
  · exact kept.past
  · exact kept.warned
  · intro notYet member
    rcases List.mem_append.mp member with before | isLast
    · exact kept.notYet notYet before
    · exact noRun (List.mem_singleton.mp isLast).symm
  · exact sameCount ▸ kept.consolidatorOnce
  · exact consolidatorAfter_append kept.consolidatorAfter fun same => absurd same noRun
  · exact sameNudges ▸ kept.nudgeOnce
  · exact sameNudges ▸ kept.nudgeTenth
  · exact sameNudges ▸ kept.nudgePast
  · intro escape member
    rcases List.mem_append.mp member with before | isLast
    · exact kept.swallowed escape before
    · rw [← List.mem_singleton.mp isLast] at neutral
      exact neutral

theorem mem_of_other {other : Entry} (member : other ∈ log ++ [entry]) (different : other ≠ entry) :
    other ∈ log :=
  (List.mem_append.mp member).resolve_right fun isLast => different (List.mem_singleton.mp isLast)

theorem count_ran_noted (log : List Entry) (kind : NoteKind) (atIteration : Nat) :
    (log ++ [Entry.noted kind atIteration]).count .consolidatorRan =
      log.count .consolidatorRan := by
  rw [List.count_append]
  rfl

theorem Kept.nudged (kept : Kept setting iteration lastTier consolidated log)
    (fresh : ∀ nudge ∈ nudgesOf log, nudge < iteration)
    (tenth : iteration % nudgeEveryNToolCalls = 0) :
    Kept setting iteration lastTier consolidated (log ++ [.noted .nudge iteration]) := by
  have sameTiers : tiersOf (log ++ [.noted .nudge iteration]) = tiersOf log := by
    rw [tiersOf_append]
    exact List.append_nil _
  have moreNudges : nudgesOf (log ++ [.noted .nudge iteration]) = nudgesOf log ++ [iteration] :=
    nudgesOf_append log _
  constructor
  · exact sameTiers ▸ kept.tiers
  · exact kept.past
  · exact kept.warned
  · exact fun notYet member => kept.notYet notYet (mem_of_other member Entry.noConfusion)
  · exact count_ran_noted log _ _ ▸ kept.consolidatorOnce
  · exact consolidatorAfter_append kept.consolidatorAfter Entry.noConfusion
  · rw [moreNudges, List.nodup_append]
    refine ⟨kept.nudgeOnce, List.nodup_singleton _, fun nudge member other isLast => ?_⟩
    rw [List.mem_singleton.mp isLast]
    exact (fresh nudge member).ne
  · rw [moreNudges]
    exact List.forall_mem_append.mpr ⟨kept.nudgeTenth,
      List.forall_mem_singleton.mpr (Nat.dvd_of_mod_eq_zero tenth)⟩
  · rw [moreNudges]
    exact List.forall_mem_append.mpr ⟨kept.nudgePast, List.forall_mem_singleton.mpr le_rfl⟩
  · exact fun escape member => kept.swallowed escape (mem_of_other member Entry.noConfusion)

/-- A tier whose note has not landed yet is the first one, or follows the caution. -/
theorem Kept.tiersFit (kept : Kept setting iteration lastTier consolidated log) {tier : Tier}
    (isTier : tierFor setting iteration = some tier) (isNew : some tier ≠ lastTier) :
    TiersFit (some tier) (tiersOf log ++ [tier]) := by
  have fits := kept.tiers
  cases lastTier with
  | none =>
    rw [show tiersOf log = [] from fits]
    cases tier with
    | caution => rfl
    | warning => exact Or.inl rfl
  | some last =>
    cases last with
    | caution =>
      cases tier with
      | caution => exact absurd rfl isNew
      | warning =>
        rw [show tiersOf log = [.caution] from fits]
        exact Or.inr rfl
    | warning => exact absurd (isTier.symm.trans (kept.past rfl)) isNew

theorem Kept.tiered (kept : Kept setting iteration lastTier consolidated log) {tier : Tier}
    (isTier : tierFor setting iteration = some tier) (isNew : some tier ≠ lastTier) :
    Kept setting iteration (some tier) consolidated
      (log ++ [.noted (.tier tier) iteration]) := by
  have moreTiers : tiersOf (log ++ [.noted (.tier tier) iteration]) = tiersOf log ++ [tier] :=
    tiersOf_append log _
  have sameNudges : nudgesOf (log ++ [.noted (.tier tier) iteration]) = nudgesOf log := by
    rw [nudgesOf_append]
    exact List.append_nil _
  constructor
  · rw [moreTiers]
    exact kept.tiersFit isTier isNew
  · exact fun isWarning => isTier.trans isWarning
  · intro isConsolidated
    have isPast := kept.past (kept.warned isConsolidated)
    exact isTier.symm.trans isPast
  · exact fun notYet member => kept.notYet notYet (mem_of_other member Entry.noConfusion)
  · exact count_ran_noted log _ _ ▸ kept.consolidatorOnce
  · exact consolidatorAfter_append kept.consolidatorAfter Entry.noConfusion
  · exact sameNudges ▸ kept.nudgeOnce
  · exact sameNudges ▸ kept.nudgeTenth
  · exact sameNudges ▸ kept.nudgePast
  · exact fun escape member => kept.swallowed escape (mem_of_other member Entry.noConfusion)

/-- The note of the warning is there once it is the last tier. -/
theorem warning_mem_tiersOf (kept : Kept setting iteration (some .warning) consolidated log) :
    Tier.warning ∈ tiersOf log := by
  rcases kept.tiers with single | both
  · rw [single]
    exact List.mem_singleton_self _
  · rw [both]
    exact List.mem_cons_of_mem _ (List.mem_singleton_self _)

theorem Kept.ran (kept : Kept setting iteration (some .warning) false log) :
    Kept setting iteration (some .warning) true (log ++ [.consolidatorRan]) := by
  have sameTiers : tiersOf (log ++ [.consolidatorRan]) = tiersOf log := by
    rw [tiersOf_append]
    exact List.append_nil _
  have sameNudges : nudgesOf (log ++ [.consolidatorRan]) = nudgesOf log := by
    rw [nudgesOf_append]
    exact List.append_nil _
  constructor
  · exact sameTiers ▸ kept.tiers
  · exact kept.past
  · exact fun _ => rfl
  · exact fun isFalse => absurd isFalse Bool.noConfusion
  · rw [List.count_append, List.count_eq_zero.mpr (kept.notYet rfl)]
    exact le_rfl
  · exact consolidatorAfter_append kept.consolidatorAfter fun _ => warning_mem_tiersOf kept
  · exact sameNudges ▸ kept.nudgeOnce
  · exact sameNudges ▸ kept.nudgeTenth
  · exact sameNudges ▸ kept.nudgePast
  · exact fun escape member => kept.swallowed escape (mem_of_other member Entry.noConfusion)

theorem Kept.marked (kept : Kept setting iteration (some .warning) false log) :
    Kept setting iteration (some .warning) true log :=
  { kept with
    warned := fun _ => rfl
    notYet := fun isFalse => absurd isFalse Bool.noConfusion }

end Kept

/-! ### Runs -/

section Steps

variable {setting : Setting} {state next : State}

def State.Kept (setting : Setting) (state : State) : Prop :=
  Budget.Kept setting state.iteration state.lastTier state.consolidated state.log

theorem kept_started (setting : Setting) (turnInput : Option (List Json)) :
    (started turnInput).Kept setting where
  tiers := rfl
  past := fun isWarning => by cases isWarning
  warned := fun isTrue => by cases isTrue
  notYet := fun _ => List.not_mem_nil
  consolidatorOnce := Nat.zero_le _
  consolidatorAfter := fun front back same => by cases front <;> cases same
  nudgeOnce := List.nodup_nil
  nudgeTenth := List.forall_mem_nil _
  nudgePast := List.forall_mem_nil _
  swallowed := fun _ member => absurd member List.not_mem_nil

theorem kept_consolidate
    (kept : Budget.Kept setting state.iteration (some .warning) false state.log) :
    (consolidate setting
      { state with lastTier := some .warning, consolidated := true }).Kept setting := by
  unfold consolidate
  split
  next => exact kept.ran
  next => exact kept.marked.neutral trivial

/-- What landing a note does, whatever the items. -/
theorem landNote_eq_some {kind : NoteKind} {text : String} {noted : State}
    (landed : landNote setting state kind text = some noted) :
    noted.iteration = state.iteration ∧ noted.lastTier = state.lastTier ∧
      noted.consolidated = state.consolidated ∧
      noted.log = state.log ++ [.noted kind state.iteration] := by
  obtain ⟨items, _, rfl⟩ := Option.map_eq_some_iff.mp landed
  exact ⟨rfl, rfl, rfl, rfl⟩

theorem kept_noteTier (kept : state.Kept setting) {tier : Tier}
    (isTier : tierFor setting state.iteration = some tier) :
    (noteTier setting state tier).Kept setting := by
  unfold noteTier
  split
  next => exact Kept.neutral kept trivial
  next isNew =>
    split
    next => exact Kept.neutral kept id
    next =>
      split
      next => exact Kept.neutral kept trivial
      next noted landed =>
        obtain ⟨sameIteration, _, sameConsolidated, sameLog⟩ := landNote_eq_some landed
        have tiered := Kept.tiered kept isTier isNew
        rw [← sameLog, ← sameIteration, ← sameConsolidated] at tiered
        dsimp only
        split
        next first =>
          obtain ⟨rfl, notYet⟩ := first
          rw [notYet] at tiered
          exact kept_consolidate tiered
        next => exact tiered.neutral trivial

theorem kept_maybeEmitNudge (kept : state.Kept setting)
    (fresh : ∀ nudge ∈ nudgesOf state.log, nudge < state.iteration)
    (emitted : maybeEmitNudge setting state = some next) : next.Kept setting := by
  unfold maybeEmitNudge at emitted
  split at emitted
  next =>
    cases emitted
    exact kept
  next tenth =>
    obtain ⟨text, _, rfl⟩ := Option.map_eq_some_iff.mp emitted
    cases landed : landNote setting state .nudge text with
    | none => exact kept
    | some noted =>
      obtain ⟨sameIteration, sameTier, sameConsolidated, sameLog⟩ := landNote_eq_some landed
      have nudged := Kept.nudged kept fresh (not_not.mp tenth)
      show Budget.Kept setting noted.iteration noted.lastTier noted.consolidated noted.log
      rw [sameIteration, sameTier, sameConsolidated, sameLog]
      exact nudged

theorem kept_onToolEnd (kept : state.Kept setting) : (onToolEnd setting state).Kept setting := by
  have counted : State.Kept setting { state with iteration := state.iteration + 1 } :=
    Kept.counted kept
  have fresh : ∀ nudge ∈ nudgesOf state.log, nudge < state.iteration + 1 :=
    fun nudge member => Nat.lt_succ_of_le (kept.nudgePast nudge member)
  unfold onToolEnd
  dsimp only
  split
  next => exact Kept.neutral counted id
  next nudged isNudged =>
    have keptNudged := kept_maybeEmitNudge counted fresh isNudged
    split
    next => exact Kept.neutral keptNudged trivial
    next tier isTier => exact kept_noteTier keptNudged isTier

theorem kept_addNext (kept : state.Kept setting) (task : Nat) (entries : List String) :
    (addNext state task entries).Kept setting := by
  cases entries with
  | nil => exact Kept.neutral kept trivial
  | cons entry rest => exact Kept.neutral kept trivial

/-- What the consolidator or the backend raises ends the call without an exception, unless it is
none. -/
theorem kept_onAnswer (kept : state.Kept setting) {task : Nat} {awaiting : Awaiting}
    {answer : Answer} (answered : onAnswer state task awaiting answer = some next) :
    next.Kept setting := by
  unfold onAnswer at answered
  split at answered
  · cases answered
    exact Kept.neutral kept trivial
  · cases answered
    exact Kept.neutral kept id
  · cases answered
    exact kept_addNext kept _ _
  · cases answered
    exact Kept.neutral kept trivial
  · cases answered
    exact Kept.neutral kept id
  · cases answered
    exact kept_addNext kept _ _
  · cases answered
    exact Kept.neutral kept trivial
  · cases answered
    exact kept_addNext kept _ _
  · cases answered
    exact Kept.neutral kept id
  · cases answered

theorem kept_step (kept : state.Kept setting) {event : Event}
    (taken : step setting state event = some next) : next.Kept setting := by
  cases event with
  | input items =>
    cases taken
    exact kept
  | toolEnd =>
    cases taken
    exact kept_onToolEnd kept
  | answer task answer =>
    obtain ⟨awaiting, _, answered⟩ := Option.bind_eq_some_iff.mp taken
    exact kept_onAnswer kept answered

/-- In every run, whatever the items are at each call, however the calls interleave and whatever
the consolidator and the backend answer. -/
theorem always_oneShot (setting : Setting) (turnInput : Option (List Json))
    (events : List Event) :
    Always (step setting) (fun state => OneShot state.log) (started turnInput) events :=
  (always_invariant (step setting) (fun _ _ _ kept taken => kept_step kept taken)
    (kept_started setting turnInput)).mono (step setting) fun _ kept => Kept.oneShot kept

end Steps

end LiteHorse.Agent.Budget
