/-
This file is about the data of a user as they are committed and as a transaction sees them: when
the committed agents have one usable default (`Good`), what is known of a transaction that is
under way (`Seen`, `Stands`), which of its writes keep that, and what another transaction may
commit beside it.

Who changes the entry of the index holds the rows whose flags change, and who moves the pointer
holds the default. So the transactions can be told apart by the rows they hold.
-/

import LiteHorse.Repositories.Agents

namespace LiteHorse.Repositories.Agents

open Python RowVersions

/-! ### Committed data -/

/-- The row is flagged as the default. -/
def flagged (row : Option Agent) : Bool := row.any Agent.isDefault

def Snapshot.HasAgents (snapshot : Snapshot) : Prop := ∃ id, (snapshot.row id).isSome = true

/-- The default of committed data: the index has the flagged row, which is not archived, the
pointer follows the index, and a user with agents has one. -/
structure Good (snapshot : Snapshot) : Prop where
  tied : ∀ id, flagged (snapshot.row id) = true ↔ snapshot.entry .oneDefault = some id
  usable : ∀ id agent, snapshot.row id = some agent → agent.isDefault = true →
    agent.archivedAt = none
  pointed : ∀ id, snapshot.entry .oneDefault = some id →
    snapshot.entry .defaultAgentId = some id
  hasDefault : snapshot.HasAgents → (snapshot.entry .oneDefault).isSome = true
  slugs : ∀ slug id, snapshot.entry (.slug slug) = some id → (snapshot.row id).isSome = true

/-- A user with agents has exactly one that is the default, and that one is not archived and is
what `users.default_agent_id` points at. -/
def OneUsableDefault (snapshot : Snapshot) : Prop :=
  snapshot.HasAgents → ∃ id agent, snapshot.row id = some agent ∧ agent.isDefault = true ∧
    agent.archivedAt = none ∧ snapshot.entry .defaultAgentId = some id ∧
      ∀ other otherAgent, snapshot.row other = some otherAgent → otherAgent.isDefault = true →
        other = id

theorem flagged_eq_true {row : Option Agent} :
    flagged row = true ↔ ∃ agent, row = some agent ∧ agent.isDefault = true :=
  Option.any_eq_true ..

theorem Good.oneUsableDefault {snapshot : Snapshot} (good : Good snapshot) :
    OneUsableDefault snapshot := by
  intro hasAgents
  obtain ⟨id, isEntry⟩ := Option.isSome_iff_exists.mp (good.hasDefault hasAgents)
  obtain ⟨agent, isRow, isDefault⟩ := flagged_eq_true.mp ((good.tied id).mpr isEntry)
  refine ⟨id, agent, isRow, isDefault, good.usable id agent isRow isDefault,
    good.pointed id isEntry, fun other otherAgent isOther otherDefault => ?_⟩
  have otherEntry := (good.tied other).mp (flagged_eq_true.mpr ⟨otherAgent, isOther, otherDefault⟩)
  exact Option.some.inj (otherEntry.symm.trans isEntry)

/-! ### What a transaction sees -/

/-- Where a transaction has written. -/
structure Held where
  row : UUID → Bool
  entry : Entry → Bool

namespace Held

def none : Held where
  row := fun _ => false
  entry := fun _ => false

def addRow (held : Held) (id : UUID) : Held :=
  { held with row := Function.update held.row id true }

def addEntry (held : Held) (entry : Entry) : Held :=
  { held with entry := Function.update held.entry entry true }

theorem row_addRow {held : Held} {id other : UUID} :
    (held.addRow id).row other = true ↔ other = id ∨ held.row other = true := by
  show Function.update held.row id true other = true ↔ _
  by_cases same : other = id
  · subst same
    rw [Function.update_self]
    exact iff_of_true rfl (Or.inl rfl)
  · rw [Function.update_of_ne same]
    exact (or_iff_right same).symm

theorem entry_addEntry_self (held : Held) (entry : Entry) :
    (held.addEntry entry).entry entry = true := Function.update_self ..

theorem entry_addEntry_other {held : Held} {entry other : Entry} (different : other ≠ entry) :
    (held.addEntry entry).entry other = held.entry other := Function.update_of_ne different ..

end Held

namespace Snapshot

def setRow (view : Snapshot) (id : UUID) (agent : Agent) : Snapshot :=
  { view with row := Function.update view.row id (some agent) }

def setEntry (view : Snapshot) (entry : Entry) (id : Option UUID) : Snapshot :=
  { view with entry := Function.update view.entry entry id }

theorem row_setRow_self (view : Snapshot) (id : UUID) (agent : Agent) :
    (view.setRow id agent).row id = some agent := Function.update_self ..

theorem row_setRow_other {view : Snapshot} {id other : UUID} (different : other ≠ id)
    (agent : Agent) : (view.setRow id agent).row other = view.row other :=
  Function.update_of_ne different ..

theorem entry_setEntry_self (view : Snapshot) (entry : Entry) (id : Option UUID) :
    (view.setEntry entry id).entry entry = id := Function.update_self ..

theorem entry_setEntry_other {view : Snapshot} {entry other : Entry} (different : other ≠ entry)
    (id : Option UUID) : (view.setEntry entry id).entry other = view.entry other :=
  Function.update_of_ne different ..

end Snapshot

/-- Where a transaction has not written it sees what is committed. What it sees has the default in
the index, and has it usable; its pointer is at the default, which it holds, and its slugs are of
rows that it holds. -/
structure Seen (committed view : Snapshot) (held : Held) : Prop where
  row : ∀ id, held.row id = false → view.row id = committed.row id
  entry : ∀ entry, held.entry entry = false → view.entry entry = committed.entry entry
  tied : ∀ id, flagged (view.row id) = true ↔ view.entry .oneDefault = some id
  usable : ∀ id agent, view.row id = some agent → agent.isDefault = true → agent.archivedAt = none
  kept : ∀ id, held.row id = true → (view.row id).isSome = true
  pointer : held.entry .defaultAgentId = true → ∃ id, view.entry .defaultAgentId = some id ∧
    held.row id = true ∧ flagged (view.row id) = true
  slugs : ∀ slug, held.entry (.slug slug) = true → ∃ id, view.entry (.slug slug) = some id ∧
    held.row id = true

section Writing

variable {committed view : Snapshot} {held : Held} {id : UUID} {agent : Agent}

theorem seen_none (good : Good committed) : Seen committed committed .none where
  row := fun _ _ => rfl
  entry := fun _ _ => rfl
  tied := good.tied
  usable := good.usable
  kept := fun _ isHeld => by cases isHeld
  pointer := fun isHeld => by cases isHeld
  slugs := fun _ isHeld => by cases isHeld

theorem usable_setRow (seen : Seen committed view held)
    (usable : agent.isDefault = true → agent.archivedAt = none) :
    ∀ other otherAgent, (view.setRow id agent).row other = some otherAgent →
      otherAgent.isDefault = true → otherAgent.archivedAt = none := by
  intro other otherAgent isRow
  by_cases same : other = id
  · subst same
    cases (Snapshot.row_setRow_self ..).symm.trans isRow
    exact usable
  · exact seen.usable other otherAgent ((Snapshot.row_setRow_other same agent).symm.trans isRow)

theorem kept_setRow (seen : Seen committed view held) :
    ∀ other, (held.addRow id).row other = true →
      ((view.setRow id agent).row other).isSome = true := by
  intro other isHeld
  by_cases same : other = id
  · subst same
    rw [Snapshot.row_setRow_self]
    rfl
  · rw [Snapshot.row_setRow_other same]
    exact seen.kept other ((Held.row_addRow.mp isHeld).resolve_left same)

theorem row_setRow (seen : Seen committed view held) :
    ∀ other, (held.addRow id).row other = false →
      (view.setRow id agent).row other = committed.row other := by
  intro other notHeld
  have different : other ≠ id := by
    intro same
    rw [Held.row_addRow.mpr (Or.inl same)] at notHeld
    cases notHeld
  rw [Snapshot.row_setRow_other different]
  refine seen.row other ?_
  rw [← notHeld]
  exact (Function.update_of_ne different ..).symm

/-- A written row that keeps its flag. -/
theorem Seen.setRow (seen : Seen committed view held)
    (sameFlag : agent.isDefault = flagged (view.row id))
    (usable : agent.isDefault = true → agent.archivedAt = none) :
    Seen committed (view.setRow id agent) (held.addRow id) := by
  have flags : ∀ other, flagged ((view.setRow id agent).row other) = flagged (view.row other) := by
    intro other
    by_cases same : other = id
    · subst same
      rw [Snapshot.row_setRow_self]
      exact sameFlag
    · rw [Snapshot.row_setRow_other same]
  constructor
  · exact row_setRow seen
  · exact seen.entry
  · intro other
    rw [flags]
    exact seen.tied other
  · exact usable_setRow seen usable
  · exact kept_setRow seen
  · intro isHeld
    obtain ⟨other, isPointer, otherHeld, flag⟩ := seen.pointer isHeld
    refine ⟨other, isPointer, Held.row_addRow.mpr (Or.inr otherHeld), ?_⟩
    rw [flags]
    exact flag
  · intro slug isHeld
    obtain ⟨other, isSlug, otherHeld⟩ := seen.slugs slug isHeld
    exact ⟨other, isSlug, Held.row_addRow.mpr (Or.inr otherHeld)⟩

theorem entry_setEntry (seen : Seen committed view held) {entry : Entry} {value : Option UUID} :
    ∀ other, (held.addEntry entry).entry other = false →
      (view.setEntry entry value).entry other = committed.entry other := by
  intro other notHeld
  have different : other ≠ entry := by
    intro same
    subst same
    cases (Held.entry_addEntry_self held other).symm.trans notHeld
  rw [Snapshot.entry_setEntry_other different]
  exact seen.entry other ((Held.entry_addEntry_other different).symm.trans notHeld)

/-- A row that is written with its flag, and the entry of the index with it. -/
theorem Seen.setDefault (seen : Seen committed view held) {entry : Option UUID}
    (tied : ∀ other, flagged ((view.setRow id agent).row other) = true ↔ entry = some other)
    (usable : agent.isDefault = true → agent.archivedAt = none)
    (unpointed : held.entry .defaultAgentId = false) :
    Seen committed ((view.setRow id agent).setEntry .oneDefault entry)
      ((held.addRow id).addEntry .oneDefault) := by
  constructor
  · exact row_setRow seen
  · exact entry_setEntry seen
  · intro other
    rw [Snapshot.entry_setEntry_self]
    exact tied other
  · exact usable_setRow seen usable
  · exact kept_setRow seen
  · intro isHeld
    change ((held.addRow id).addEntry .oneDefault).entry .defaultAgentId = true at isHeld
    rw [Held.entry_addEntry_other (by decide)] at isHeld
    cases unpointed.symm.trans isHeld
  · intro slug isHeld
    have different : Entry.slug slug ≠ .oneDefault := by rintro ⟨⟩
    rw [Held.entry_addEntry_other different] at isHeld
    obtain ⟨other, isSlug, otherHeld⟩ := seen.slugs slug isHeld
    refine ⟨other, ?_, Held.row_addRow.mpr (Or.inr otherHeld)⟩
    exact (Snapshot.entry_setEntry_other different entry).trans isSlug

/-- A slug that is written for a row that is. -/
theorem Seen.setSlug (seen : Seen committed view held) (slug : String)
    (isHeld : held.row id = true) :
    Seen committed (view.setEntry (.slug slug) (some id)) (held.addEntry (.slug slug)) := by
  have noDefault : Entry.oneDefault ≠ .slug slug := by rintro ⟨⟩
  have noPointer : Entry.defaultAgentId ≠ .slug slug := by rintro ⟨⟩
  constructor
  · exact seen.row
  · exact entry_setEntry seen
  · intro other
    rw [Snapshot.entry_setEntry_other noDefault]
    exact seen.tied other
  · exact seen.usable
  · exact seen.kept
  · intro pointerHeld
    rw [Held.entry_addEntry_other noPointer] at pointerHeld
    rw [Snapshot.entry_setEntry_other noPointer]
    exact seen.pointer pointerHeld
  · intro other otherHeld
    by_cases same : Entry.slug other = .slug slug
    · refine ⟨id, ?_, isHeld⟩
      rw [same]
      exact Snapshot.entry_setEntry_self ..
    · rw [Held.entry_addEntry_other same] at otherHeld
      rw [Snapshot.entry_setEntry_other same]
      exact seen.slugs other otherHeld

/-- A pointer that is written at the default, where the transaction holds that. -/
theorem Seen.setPointer (seen : Seen committed view held) (isHeld : held.row id = true)
    (flag : flagged (view.row id) = true) :
    Seen committed (view.setEntry .defaultAgentId (some id)) (held.addEntry .defaultAgentId) := by
  constructor
  · exact seen.row
  · exact entry_setEntry seen
  · intro other
    rw [Snapshot.entry_setEntry_other (by decide)]
    exact seen.tied other
  · exact seen.usable
  · exact seen.kept
  · intro _
    exact ⟨id, Snapshot.entry_setEntry_self .., isHeld, flag⟩
  · intro slug slugHeld
    have different : Entry.slug slug ≠ .defaultAgentId := by rintro ⟨⟩
    rw [Held.entry_addEntry_other different] at slugHeld
    rw [Snapshot.entry_setEntry_other different]
    exact seen.slugs slug slugHeld

end Writing

/-! ### The commits of a transaction and of the others -/

/-- What a transaction sees beside its own drafts. -/
def Snapshot.over (view : Snapshot) (held : Held) (committed : Snapshot) : Snapshot where
  row id := if held.row id = true then view.row id else committed.row id
  entry entry := if held.entry entry = true then view.entry entry else committed.entry entry

/-- Two transactions have not written in the same place. -/
structure Apart (held otherHeld : Held) : Prop where
  row : ∀ id, held.row id = true → otherHeld.row id = false
  entry : ∀ entry, held.entry entry = true → otherHeld.entry entry = false

section Committing

variable {committed view otherView : Snapshot} {held otherHeld : Held}

/-- No row goes away. -/
theorem Seen.isSome (seen : Seen committed view held) {id : UUID}
    (isThere : (committed.row id).isSome = true) : (view.row id).isSome = true := by
  cases isHeld : held.row id with
  | true => exact seen.kept id isHeld
  | false =>
    rw [seen.row id isHeld]
    exact isThere

theorem Seen.hasAgents (seen : Seen committed view held) (hasAgents : committed.HasAgents) :
    view.HasAgents := by
  obtain ⟨id, isThere⟩ := hasAgents
  exact ⟨id, seen.isSome isThere⟩

/-- A transaction that holds the index only with the pointer commits good data. -/
theorem Seen.good (seen : Seen committed view held) (good : Good committed)
    (settled : held.entry .oneDefault = true → held.entry .defaultAgentId = true)
    (backed : committed.HasAgents ∨ held.entry .oneDefault = true) : Good view := by
  have atPointer : held.entry .defaultAgentId = true → ∃ id,
      view.entry .defaultAgentId = some id ∧ view.entry .oneDefault = some id := by
    intro isHeld
    obtain ⟨id, isPointer, _, flag⟩ := seen.pointer isHeld
    exact ⟨id, isPointer, (seen.tied id).mp flag⟩
  refine ⟨seen.tied, seen.usable, fun id isDefault => ?_, fun hasAgents => ?_,
    fun slug id isSlug => ?_⟩
  · cases pointerHeld : held.entry .defaultAgentId with
    | true =>
      obtain ⟨other, isPointer, otherDefault⟩ := atPointer pointerHeld
      rw [isPointer, ← otherDefault, isDefault]
    | false =>
      have notHeld : held.entry .oneDefault = false := by
        refine Bool.eq_false_iff.mpr fun isHeld => ?_
        cases pointerHeld.symm.trans (settled isHeld)
      rw [seen.entry _ pointerHeld]
      rw [seen.entry _ notHeld] at isDefault
      exact good.pointed id isDefault
  · cases isHeld : held.entry .oneDefault with
    | true =>
      obtain ⟨id, _, isDefault⟩ := atPointer (settled isHeld)
      rw [isDefault]
      rfl
    | false =>
      rw [isHeld] at backed
      rw [seen.entry _ isHeld]
      exact good.hasDefault (backed.resolve_right (by decide))
  · cases isHeld : held.entry (.slug slug) with
    | true =>
      obtain ⟨other, otherSlug, rowHeld⟩ := seen.slugs slug isHeld
      cases otherSlug.symm.trans isSlug
      exact seen.kept id rowHeld
    | false =>
      rw [seen.entry _ isHeld] at isSlug
      exact seen.isSome (good.slugs slug id isSlug)

/-- The index and the flags still agree: who changes the index holds the rows whose flags
change. -/
theorem tied_over (seen : Seen committed view held) (good : Good committed)
    (otherSeen : Seen committed otherView otherHeld) (apart : Apart held otherHeld) (id : UUID) :
    flagged ((view.over held otherView).row id) = true ↔
      (view.over held otherView).entry .oneDefault = some id := by
  unfold Snapshot.over
  dsimp only
  cases rowHeld : held.row id with
  | true =>
    cases entryHeld : held.entry .oneDefault with
    | true => exact seen.tied id
    | false =>
      calc flagged (view.row id) = true
        _ ↔ committed.entry .oneDefault = some id := by
          rw [← seen.entry _ entryHeld]
          exact seen.tied id
        _ ↔ flagged (otherView.row id) = true := by
          rw [otherSeen.row id (apart.row id rowHeld)]
          exact (good.tied id).symm
        _ ↔ otherView.entry .oneDefault = some id := otherSeen.tied id
  | false =>
    cases entryHeld : held.entry .oneDefault with
    | true =>
      calc flagged (otherView.row id) = true
        _ ↔ committed.entry .oneDefault = some id := by
          rw [← otherSeen.entry _ (apart.entry _ entryHeld)]
          exact otherSeen.tied id
        _ ↔ flagged (view.row id) = true := by
          rw [seen.row id rowHeld]
          exact (good.tied id).symm
        _ ↔ view.entry .oneDefault = some id := seen.tied id
    | false => exact otherSeen.tied id

theorem row_over {id : UUID} (isHeld : held.row id = true) :
    (view.over held otherView).row id = view.row id := if_pos isHeld

theorem entry_over {entry : Entry} (isHeld : held.entry entry = true) :
    (view.over held otherView).entry entry = view.entry entry := if_pos isHeld

/-- What another transaction commits goes with what this one has written. -/
theorem Seen.over (seen : Seen committed view held) (good : Good committed)
    (otherSeen : Seen committed otherView otherHeld) (apart : Apart held otherHeld) :
    Seen otherView (view.over held otherView) held where
  row := fun id notHeld => if_neg (notHeld ▸ Bool.false_ne_true)
  entry := fun entry notHeld => if_neg (notHeld ▸ Bool.false_ne_true)
  tied := tied_over seen good otherSeen apart
  usable := by
    intro id agent isRow
    cases isHeld : held.row id with
    | true =>
      rw [row_over isHeld] at isRow
      exact seen.usable id agent isRow
    | false =>
      have isOther : (view.over held otherView).row id = otherView.row id :=
        if_neg (isHeld ▸ Bool.false_ne_true)
      rw [isOther] at isRow
      exact otherSeen.usable id agent isRow
  kept := by
    intro id isHeld
    rw [row_over isHeld]
    exact seen.kept id isHeld
  pointer := by
    intro isHeld
    obtain ⟨id, isPointer, rowHeld, flag⟩ := seen.pointer isHeld
    refine ⟨id, (entry_over isHeld).trans isPointer, rowHeld, ?_⟩
    rw [row_over rowHeld]
    exact flag
  slugs := by
    intro slug isHeld
    obtain ⟨id, isSlug, rowHeld⟩ := seen.slugs slug isHeld
    exact ⟨id, (entry_over isHeld).trans isSlug, rowHeld⟩

end Committing

/-! ### Where a request stands -/

/-- The request is choosing the default: it may hold the index, but not yet the pointer. -/
def Phase.choosing : Phase → Bool
  | .inserted _ _ | .demoted _ | .promoted _ => true
  | _ => false

/-- The request has found agents, or has inserted one. -/
def Phase.begun : Phase → Bool
  | .idle | .missing _ | .ended _ => false
  | _ => true

/-- The request has written nothing. -/
def Phase.quiet : Phase → Bool
  | .idle | .missing _ | .archiving _ | .promoting _ | .demoting _ _ | .ended _ => true
  | _ => false

/-- The default that the pointer is to go to. -/
def Phase.target : Phase → Option UUID
  | .inserted _ id | .promoted id => some id
  | _ => none

structure Stands (committed view : Snapshot) (held : Held) (phase : Phase) : Prop where
  settles : phase.choosing = false → held.entry .oneDefault = true →
    held.entry .defaultAgentId = true
  unpointed : phase.choosing = true → held.entry .defaultAgentId = false
  backed : phase.begun = true → committed.HasAgents ∨ held.entry .oneDefault = true
  quiet : phase.quiet = true → held = .none
  target : ∀ id, phase.target = some id → held.row id = true ∧ flagged (view.row id) = true

section Standing

variable {committed view otherView : Snapshot} {held otherHeld : Held} {phase : Phase}

theorem stands_none (noTarget : phase.target = none)
    (backed : phase.begun = true → committed.HasAgents) : Stands committed view .none phase where
  settles := fun _ isHeld => by cases isHeld
  unpointed := fun _ => rfl
  backed := fun begun => Or.inl (backed begun)
  quiet := fun _ => rfl
  target := fun _ isTarget => by cases noTarget.symm.trans isTarget

theorem Stands.over (stands : Stands committed view held phase)
    (otherSeen : Seen committed otherView otherHeld) :
    Stands otherView (view.over held otherView) held phase where
  settles := stands.settles
  unpointed := stands.unpointed
  backed := fun begun => (stands.backed begun).imp_left otherSeen.hasAgents
  quiet := stands.quiet
  target := by
    intro id isTarget
    obtain ⟨isHeld, flag⟩ := stands.target id isTarget
    refine ⟨isHeld, ?_⟩
    rw [row_over isHeld]
    exact flag

end Standing

/-- What is known of a transaction. -/
structure Sound (committed view : Snapshot) (held : Held) (phase : Phase) : Prop where
  seen : Seen committed view held
  stands : Stands committed view held phase

end LiteHorse.Repositories.Agents
