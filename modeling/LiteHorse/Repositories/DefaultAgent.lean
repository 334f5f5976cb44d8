/-
This file is about the default agent of a user under any number of requests at the same time. Two
statements of these requests go over a row that was checked by an earlier one: an archiving UPDATE
may find the agent the default by then, and a promoting UPDATE may find it archived. The first
two requests of a new user may both find no default.

`always_oneUsableDefault` says that in the runs where this does not happen a user with agents has
one default in every committed state, and no `ensure_default` fails. What is known of each
transaction is carried from statement to statement, and over the commits of the others.
-/

import LiteHorse.Library.Runs
import LiteHorse.Repositories.AgentSnapshots

namespace LiteHorse.Repositories.Agents

open Python RowVersions Runs

/-! ### The writes of a transaction -/

section Writes

variable {Id : Type} [DecidableEq Id] {db next : Database Id} {tx : Id} {id : UUID} {agent : Agent}
  {entry : Entry} {value : Option UUID}

def Database.held (db : Database Id) (tx : Id) : Held where
  row := db.rows.held tx
  entry := db.entries.held tx

theorem view_writeRow : (db.writeRow tx id agent).view tx = (db.view tx).setRow id agent :=
  congrArg (fun row => Snapshot.mk row (db.entries.view tx)) Table.view_write

theorem held_writeRow : (db.writeRow tx id agent).held tx = (db.held tx).addRow id :=
  congrArg (fun row => Held.mk row (db.entries.held tx)) Table.held_write

theorem view_writeEntry :
    (db.writeEntry tx entry value).view tx = (db.view tx).setEntry entry value :=
  congrArg (Snapshot.mk (db.rows.view tx)) Table.view_write

theorem held_writeEntry : (db.writeEntry tx entry value).held tx = (db.held tx).addEntry entry :=
  congrArg (Held.mk (db.rows.held tx)) Table.held_write

/-- What is committed and what the other transactions see and hold is as it was. -/
structure Untouched (db next : Database Id) (tx : Id) : Prop where
  committed : next.committed = db.committed
  view : ∀ other, other ≠ tx → next.view other = db.view other
  held : ∀ other, other ≠ tx → next.held other = db.held other

theorem Untouched.refl (db : Database Id) (tx : Id) : Untouched db db tx :=
  ⟨rfl, fun _ _ => rfl, fun _ _ => rfl⟩

theorem Untouched.writeRow (untouched : Untouched db next tx) (isFree : next.rowFree tx id = true)
    (agent : Agent) : Untouched db (next.writeRow tx id agent) tx where
  committed :=
    (congrArg (fun row => Snapshot.mk row _) Table.committed_write).trans untouched.committed
  view := fun other different =>
    (congrArg (fun row => Snapshot.mk row _) (Table.view_write_other isFree different)).trans
      (untouched.view other different)
  held := fun other different =>
    (congrArg (fun row => Held.mk row _) (Table.held_write_other isFree different)).trans
      (untouched.held other different)

theorem Untouched.writeEntry (untouched : Untouched db next tx)
    (isFree : next.entryFree tx entry = true) (value : Option UUID) :
    Untouched db (next.writeEntry tx entry value) tx where
  committed := (congrArg (Snapshot.mk _) Table.committed_write).trans untouched.committed
  view := fun other different =>
    (congrArg (Snapshot.mk _) (Table.view_write_other isFree different)).trans
      (untouched.view other different)
  held := fun other different =>
    (congrArg (Held.mk _) (Table.held_write_other isFree different)).trans
      (untouched.held other different)

theorem held_rollback : (db.rollback tx).held tx = .none := by
  unfold Database.held Database.rollback Held.none
  rw [Held.mk.injEq]
  exact ⟨funext fun _ => Table.held_rollback, funext fun _ => Table.held_rollback⟩

theorem committed_rollback : (db.rollback tx).committed = db.committed := by
  unfold Database.committed Database.rollback
  rw [Table.committed_rollback, Table.committed_rollback]

/-- A transaction that holds nothing sees what is committed. -/
theorem view_of_held_none (holdsNone : db.held tx = .none) : db.view tx = db.committed := by
  have rows : ∀ id, db.rows.held tx id = false := fun id =>
    congrFun (congrArg Held.row holdsNone) id
  have entries : ∀ entry, db.entries.held tx entry = false := fun entry =>
    congrFun (congrArg Held.entry holdsNone) entry
  unfold Database.view Database.committed
  rw [Snapshot.mk.injEq]
  exact ⟨funext fun id => Table.view_of_not_held (rows id),
    funext fun entry => Table.view_of_not_held (entries entry)⟩

theorem untouched_rollback (db : Database Id) (tx : Id) : Untouched db (db.rollback tx) tx where
  committed := committed_rollback
  view := by
    intro other different
    unfold Database.view Database.rollback
    rw [Table.view_rollback_other different, Table.view_rollback_other different]
  held := by
    intro other different
    unfold Database.held Database.rollback
    rw [Table.held_rollback_other different, Table.held_rollback_other different]

/-- The statement touches its own transaction alone, of which everything is known again, and is
no `ensure_default` that fails. -/
structure Keeps (db : Database Id) (tx : Id) (outcome : Outcome Id) : Prop where
  untouched : Untouched db outcome.1 tx
  sound : Sound db.committed (outcome.1.view tx) (outcome.1.held tx) outcome.2
  ensured : outcome.2 ≠ .ended (.error .ensureDefault)

/-- What holds before each statement. -/
structure Before (db : Database Id) (tx : Id) (phase : Phase) : Prop where
  good : Good db.committed
  sound : Sound db.committed (db.view tx) (db.held tx) phase

variable {phase : Phase}

theorem keeps_fail (good : Good db.committed) {failure : Failure}
    (other : failure ≠ .ensureDefault) : Keeps db tx (fail db tx failure) where
  untouched := untouched_rollback db tx
  sound := by
    show Sound db.committed ((db.rollback tx).view tx) ((db.rollback tx).held tx) _
    rw [view_of_held_none held_rollback, held_rollback, committed_rollback]
    exact ⟨seen_none good, stands_none rfl fun begun => by cases begun⟩
  ensured := by
    intro same
    cases same
    exact other rfl

/-- A request that only reads goes on. -/
theorem Before.reads (before : Before db tx phase) {after : Phase}
    (stands : Stands db.committed (db.view tx) (db.held tx) after)
    (ensured : after ≠ .ended (.error .ensureDefault)) : Keeps db tx (db, after) where
  untouched := .refl db tx
  sound := ⟨before.sound.seen, stands⟩
  ensured := ensured

/-- A request that has written nothing reads agents and goes on. -/
theorem Before.finds (before : Before db tx phase) (isQuiet : phase.quiet = true) {after : Phase}
    (noTarget : after.target = none)
    (backed : after.begun = true → db.committed.HasAgents)
    (ensured : after ≠ .ended (.error .ensureDefault)) : Keeps db tx (db, after) := by
  refine before.reads ?_ ensured
  rw [before.sound.stands.quiet isQuiet]
  exact stands_none noTarget backed

/-- What a request that has written nothing sees is committed. -/
theorem Before.view (before : Before db tx phase) (isQuiet : phase.quiet = true) :
    db.view tx = db.committed :=
  view_of_held_none (before.sound.stands.quiet isQuiet)

/-- Agents that such a request knows of are committed. -/
theorem Before.hasAgents (before : Before db tx phase) (isQuiet : phase.quiet = true)
    (begun : phase.begun = true) : db.committed.HasAgents := by
  refine (before.sound.stands.backed begun).resolve_right fun isHeld => ?_
  rw [before.sound.stands.quiet isQuiet] at isHeld
  cases isHeld

theorem entryFree_writeEntry {other : Entry} (isFree : db.entryFree tx other = true) :
    (db.writeEntry tx entry value).entryFree tx other = true := by
  show (Function.update db.entries entry ((db.entries entry).write tx value) other).freeFor tx = _
  by_cases same : other = entry
  · subst same
    rw [Function.update_self]
    unfold Cell.freeFor
    rw [Cell.heldBy_of_draft rfl, Bool.or_true]
  · rw [Function.update_of_ne same]
    exact isFree

/-! ### Statement by statement -/

/-- An agent that becomes the default where nobody is. -/
theorem tied_choose {committed view : Snapshot} {held : Held} (seen : Seen committed view held)
    (nobody : view.entry .oneDefault = none) (chosen : agent.isDefault = true) (other : UUID) :
    flagged ((view.setRow id agent).row other) = true ↔ some id = some other := by
  by_cases same : other = id
  · subst same
    rw [Snapshot.row_setRow_self]
    exact iff_of_true chosen rfl
  · rw [Snapshot.row_setRow_other same, seen.tied, nobody]
    refine iff_of_false (fun isSome => by cases isSome) fun isSome => ?_
    exact same (Option.some.inj isSome).symm

/-- The default becomes one no more. -/
theorem tied_unchoose {committed view : Snapshot} {held : Held} (seen : Seen committed view held)
    (isDefault : view.entry .oneDefault = some id) (demoted : agent.isDefault = false)
    (other : UUID) : flagged ((view.setRow id agent).row other) = true ↔ none = some other := by
  refine iff_of_false (fun flag => ?_) (fun isSome => by cases isSome)
  by_cases same : other = id
  · subst same
    rw [Snapshot.row_setRow_self] at flag
    cases demoted.symm.trans flag
  · rw [Snapshot.row_setRow_other same, seen.tied, isDefault] at flag
    exact same (Option.some.inj flag).symm

theorem Before.ensureDefault (before : Before db tx .idle) (rest : Option AgentCreate) :
    Keeps db tx (ensureDefault db tx rest) := by
  unfold Agents.ensureDefault
  split
  next agent found =>
    refine before.finds rfl rfl (fun _ => ?_) (fun same => by cases same)
    rw [← before.view rfl]
    unfold getDefault at found
    split at found
    next id _ =>
      refine ⟨id, ?_⟩
      rw [(Option.filter_eq_some_iff.mp found).1]
      rfl
    next => cases found
  next => exact before.finds rfl rfl (fun begun => by cases begun) (fun same => by cases same)

/-- An UPDATE of a row that keeps its flag, by a request that has written nothing. -/
theorem Before.updateRow (before : Before db tx phase) (isQuiet : phase.quiet = true)
    {patch : Agent → Agent} {missing outcome : Outcome Id} (keepsMissing : Keeps db tx missing)
    (taken : updateRow db tx id patch missing = some outcome)
    (sameFlag : ∀ agent, (patch agent).isDefault = agent.isDefault)
    (usable : ∀ agent, (db.view tx).row id = some agent → agent.isDefault = true →
      (patch agent).archivedAt = none) : Keeps db tx outcome := by
  unfold Agents.updateRow at taken
  split at taken
  next agent isRow =>
    split at taken
    next isFree =>
      cases taken
      have hasAgents : db.committed.HasAgents := by
        rw [← before.view isQuiet]
        exact ⟨id, Option.isSome_iff_exists.mpr ⟨agent, isRow⟩⟩
      refine ⟨(Untouched.refl db tx).writeRow isFree _, ⟨?_, ?_⟩, fun same => by cases same⟩
      · rw [view_writeRow, held_writeRow]
        refine before.sound.seen.setRow ?_ fun isDefault => ?_
        · rw [isRow]
          exact sameFlag agent
        · exact usable agent isRow ((sameFlag agent).symm.trans isDefault)
      · rw [held_writeRow, before.sound.stands.quiet isQuiet]
        exact ⟨fun _ isHeld => (by cases isHeld), fun _ => rfl, fun _ => Or.inl hasAgents,
          fun quiet => (by cases quiet), fun _ isTarget => (by cases isTarget)⟩
    next => cases taken
  next =>
    cases taken
    exact keepsMissing

theorem Before.start (before : Before db tx .idle) {request : Request} {outcome : Outcome Id}
    (taken : start db tx request = some outcome) : Keeps db tx outcome := by
  have found : ∀ {id agent}, (db.view tx).row id = some agent → db.committed.HasAgents := by
    intro id agent isRow
    rw [← before.view rfl]
    exact ⟨id, Option.isSome_iff_exists.mpr ⟨agent, isRow⟩⟩
  have notFound : Keeps db tx (fail db tx .notFound) :=
    keeps_fail before.good fun same => by cases same
  cases request with
  | listAgents =>
    cases taken
    exact before.ensureDefault none
  | createAgent args =>
    cases taken
    exact before.ensureDefault (some args)
  | updateAgent id values =>
    unfold Agents.start at taken
    dsimp only at taken
    split at taken
    next =>
      split at taken
      next agent isRow =>
        cases taken
        exact before.finds rfl rfl (fun _ => found isRow) (fun same => by cases same)
      next =>
        cases taken
        exact notFound
    next =>
      refine before.updateRow rfl notFound taken (fun _ => rfl) fun agent isRow isDefault => ?_
      exact before.sound.seen.usable id agent isRow isDefault
  | archiveAgent id =>
    unfold Agents.start at taken
    dsimp only at taken
    split at taken
    next agent isRow =>
      split at taken
      next =>
        cases taken
        exact keeps_fail before.good fun same => by cases same
      next =>
        cases taken
        exact before.finds rfl rfl (fun _ => found isRow) (fun same => by cases same)
    next =>
      cases taken
      exact notFound
  | setDefaultAgent id =>
    unfold Agents.start at taken
    dsimp only at taken
    split at taken
    next agent isRow =>
      split at taken
      next =>
        cases taken
        exact notFound
      next =>
        cases taken
        exact before.finds rfl rfl (fun _ => found isRow) (fun same => by cases same)
    next =>
      cases taken
      exact notFound

/-- A fresh id has no row, and nobody holds it. -/
theorem of_isFresh (tx : Id) (isFresh : db.isFresh id = true) :
    (db.view tx).row id = none ∧ db.rowFree tx id = true := by
  unfold Database.isFresh at isFresh
  obtain ⟨noRow, noDraft⟩ := Bool.and_eq_true_iff.mp isFresh
  have notHeld : db.rows.held tx id = false := by
    refine Bool.eq_false_iff.mpr fun isHeld => ?_
    obtain ⟨_, isDraft⟩ := Cell.draft_of_heldBy isHeld
    rw [isDraft] at noDraft
    cases noDraft
  refine ⟨(Table.view_of_not_held notHeld).trans (Option.isNone_iff_eq_none.mp noRow), ?_⟩
  unfold Database.rowFree Cell.freeFor
  rw [noDraft]
  rfl

/-- Without an agent the INSERT of `ensure_default` meets no other. -/
theorem Before.insertDefault {rest : Option AgentCreate} {fresh : UUID} {outcome : Outcome Id}
    (before : Before db tx (.missing rest)) (nobody : db.committed.entry .oneDefault = none)
    (taken : insertDefault db tx rest fresh = some outcome) : Keeps db tx outcome := by
  have isView := before.view rfl
  have noSlug : (db.view tx).entry (.slug defaultAgent.slug) = none := by
    rw [isView]
    refine Option.eq_none_iff_forall_ne_some.mpr fun id isSlug => ?_
    have isDefault := before.good.hasDefault ⟨id, before.good.slugs _ id isSlug⟩
    rw [nobody] at isDefault
    cases isDefault
  have noDefault : (db.view tx).entry .oneDefault = none := by
    rw [isView]
    exact nobody
  unfold Agents.insertDefault at taken
  split at taken
  next isFree =>
    rw [if_pos ⟨noSlug, noDefault⟩] at taken
    cases taken
    rw [Bool.and_eq_true, Bool.and_eq_true] at isFree
    obtain ⟨⟨isFresh, slugFree⟩, defaultFree⟩ := isFree
    have rowFree := (of_isFresh tx isFresh).2
    have seen := before.sound.seen
    have unpointed : (db.held tx).entry .defaultAgentId = false := by
      rw [before.sound.stands.quiet rfl]
      rfl
    refine ⟨(((Untouched.refl db tx).writeRow rowFree _).writeEntry defaultFree _).writeEntry
      (entryFree_writeEntry slugFree) _, ⟨?_, ?_⟩, fun same => by cases same⟩
    · rw [view_writeEntry, view_writeEntry, view_writeRow, held_writeEntry, held_writeEntry,
        held_writeRow]
      refine (seen.setDefault (tied_choose seen noDefault rfl) (fun _ => rfl) unpointed).setSlug
        defaultAgent.slug ?_
      exact Held.row_addRow.mpr (Or.inl rfl)
    · rw [view_writeEntry, view_writeEntry, view_writeRow, held_writeEntry, held_writeEntry,
        held_writeRow, before.sound.stands.quiet rfl]
      refine ⟨fun isSettled => (by cases isSettled), fun _ => ?_, fun _ => Or.inr ?_,
        fun quiet => (by cases quiet), fun id isTarget => ?_⟩
      · rw [Held.entry_addEntry_other (by rintro ⟨⟩), Held.entry_addEntry_other (by decide)]
        rfl
      · rw [Held.entry_addEntry_other (by rintro ⟨⟩), Held.entry_addEntry_self]
      · cases isTarget
        refine ⟨Held.row_addRow.mpr (Or.inl rfl), ?_⟩
        show flagged (((db.view tx).setRow fresh _).row fresh) = true
        rw [Snapshot.row_setRow_self]
        rfl
  next => cases taken

/-- The pointer goes to the default that the request has chosen. -/
theorem Before.pointTo (before : Before db tx phase) (isTarget : phase.target = some id)
    (begun : phase.begun = true) {after : Phase} (settled : after.quiet = false)
    (noTarget : after.target = none) (chosen : after.choosing = false)
    (ensured : after ≠ .ended (.error .ensureDefault)) {outcome : Outcome Id}
    (taken : pointTo db tx id after = some outcome) : Keeps db tx outcome := by
  obtain ⟨rowHeld, flag⟩ := before.sound.stands.target id isTarget
  unfold Agents.pointTo at taken
  split at taken
  next isFree =>
    cases taken
    refine ⟨(Untouched.refl db tx).writeEntry isFree _, ⟨?_, ?_⟩, ensured⟩
    · rw [view_writeEntry, held_writeEntry]
      exact before.sound.seen.setPointer rowHeld flag
    · rw [held_writeEntry]
      refine ⟨fun _ _ => Held.entry_addEntry_self .., fun isChoosing => ?_, fun _ => ?_,
        fun quiet => ?_, fun _ isTarget => ?_⟩
      · cases chosen.symm.trans isChoosing
      · rw [Held.entry_addEntry_other (by decide)]
        exact before.sound.stands.backed begun
      · cases settled.symm.trans quiet
      · cases noTarget.symm.trans isTarget
  next => cases taken

theorem Before.insertAgent {args : AgentCreate} {fresh : UUID} {outcome : Outcome Id}
    (before : Before db tx (.ensured (some args)))
    (taken : insertAgent db tx args fresh = some outcome) : Keeps db tx outcome := by
  unfold Agents.insertAgent at taken
  split at taken
  next isFree =>
    obtain ⟨isFresh, slugFree⟩ := Bool.and_eq_true_iff.mp isFree
    obtain ⟨noRow, rowFree⟩ := of_isFresh tx isFresh
    split at taken
    next noSlug =>
      cases taken
      have stands := before.sound.stands
      refine ⟨((Untouched.refl db tx).writeRow rowFree _).writeEntry slugFree _, ⟨?_, ?_⟩,
        fun same => by cases same⟩
      · rw [view_writeEntry, view_writeRow, held_writeEntry, held_writeRow]
        refine (before.sound.seen.setRow ?_ fun _ => rfl).setSlug args.slug ?_
        · rw [noRow]
          rfl
        · exact Held.row_addRow.mpr (Or.inl rfl)
      · rw [held_writeEntry, held_writeRow]
        refine ⟨fun _ isHeld => ?_, fun isChoosing => (by cases isChoosing), fun _ => ?_,
          fun quiet => (by cases quiet), fun _ isTarget => (by cases isTarget)⟩
        · rw [Held.entry_addEntry_other (by rintro ⟨⟩)] at isHeld
          rw [Held.entry_addEntry_other (by rintro ⟨⟩)]
          exact stands.settles rfl isHeld
        · rw [Held.entry_addEntry_other (by rintro ⟨⟩)]
          exact stands.backed rfl
    next =>
      cases taken
      exact keeps_fail before.good fun same => by cases same
  next => cases taken

/-- The UPDATE takes the flag from the default it has found, if that still is one. -/
theorem Before.demote {found : Option UUID} {outcome : Outcome Id}
    (before : Before db tx (.demoting id found))
    (taken : demote db tx id found = some outcome) : Keeps db tx outcome := by
  have hasAgents := before.hasAgents rfl rfl
  have goesOn : Keeps db tx (db, .demoted id) :=
    before.finds rfl rfl (fun _ => hasAgents) (fun same => by cases same)
  cases found with
  | none =>
    cases taken
    exact goesOn
  | some found =>
    unfold Agents.demote at taken
    dsimp only at taken
    split at taken
    next agent isRow =>
      split at taken
      next rowFree =>
        split at taken
        next isDefault =>
          split at taken
          next entryFree =>
            cases taken
            have seen := before.sound.seen
            have isEntry := (seen.tied found).mp (flagged_eq_true.mpr ⟨agent, isRow, isDefault⟩)
            have unpointed : (db.held tx).entry .defaultAgentId = false := by
              rw [before.sound.stands.quiet rfl]
              rfl
            refine ⟨((Untouched.refl db tx).writeRow rowFree _).writeEntry entryFree _,
              ⟨?_, ?_⟩, fun same => by cases same⟩
            · rw [view_writeEntry, view_writeRow, held_writeEntry, held_writeRow]
              exact seen.setDefault (tied_unchoose seen isEntry rfl) (fun flag => by cases flag)
                unpointed
            · rw [held_writeEntry, held_writeRow]
              refine ⟨fun isSettled => (by cases isSettled), fun _ => ?_,
                fun _ => Or.inl hasAgents, fun quiet => (by cases quiet),
                fun _ isTarget => (by cases isTarget)⟩
              rw [Held.entry_addEntry_other (by decide)]
              exact unpointed
          next => cases taken
        next =>
          cases taken
          exact goesOn
      next => cases taken
    next =>
      cases taken
      exact goesOn

/-- An agent that is not archived becomes the default, or stays it. -/
theorem Before.promote {outcome : Outcome Id} (before : Before db tx (.demoted id))
    (usable : ∀ agent, (db.view tx).row id = some agent → agent.archivedAt = none)
    (taken : promote db tx id = some outcome) : Keeps db tx outcome := by
  have seen := before.sound.seen
  have stands := before.sound.stands
  have unpointed := stands.unpointed rfl
  unfold Agents.promote at taken
  split at taken
  next agent isRow =>
    split at taken
    next rowFree =>
      split at taken
      next isDefault =>
        cases taken
        refine ⟨(Untouched.refl db tx).writeRow rowFree _, ⟨?_, ?_⟩, fun same => by cases same⟩
        · rw [view_writeRow, held_writeRow]
          refine seen.setRow ?_ fun _ => usable agent isRow
          rw [isRow]
          rfl
        · rw [view_writeRow, held_writeRow]
          refine ⟨fun isSettled => (by cases isSettled), fun _ => unpointed,
            fun _ => stands.backed rfl, fun quiet => (by cases quiet), fun _ isTarget => ?_⟩
          cases isTarget
          refine ⟨Held.row_addRow.mpr (Or.inl rfl), ?_⟩
          rw [Snapshot.row_setRow_self]
          exact isDefault
      next =>
        split at taken
        next entryFree =>
          split at taken
          next nobody =>
            cases taken
            refine ⟨((Untouched.refl db tx).writeRow rowFree _).writeEntry entryFree _,
              ⟨?_, ?_⟩, fun same => by cases same⟩
            · rw [view_writeEntry, view_writeRow, held_writeEntry, held_writeRow]
              exact seen.setDefault (tied_choose seen nobody rfl) (fun _ => usable agent isRow)
                unpointed
            · rw [view_writeEntry, view_writeRow, held_writeEntry, held_writeRow]
              refine ⟨fun isSettled => (by cases isSettled), fun _ => ?_, fun _ => Or.inr ?_,
                fun quiet => (by cases quiet), fun _ isTarget => ?_⟩
              · rw [Held.entry_addEntry_other (by decide)]
                exact unpointed
              · exact Held.entry_addEntry_self ..
              · cases isTarget
                refine ⟨Held.row_addRow.mpr (Or.inl rfl), ?_⟩
                show flagged (((db.view tx).setRow id _).row id) = true
                rw [Snapshot.row_setRow_self]
                rfl
          next =>
            cases taken
            exact keeps_fail before.good fun same => by cases same
        next => cases taken
    next => cases taken
  next =>
    cases taken
    exact keeps_fail before.good fun same => by cases same

/-- The statement does not go over what has changed since the request looked: no default was
committed before the INSERT of `ensure_default`, the agent to archive is not the default, the
agent to promote is not archived. -/
def undisturbed (db : Database Id) (tx : Id) : Phase → Bool
  | .missing _ => (db.committed.entry .oneDefault).isNone
  | .archiving id => !flagged ((db.view tx).row id)
  | .demoted id => ((db.view tx).row id).all fun agent => agent.archivedAt.isNone
  | _ => true

theorem Before.statement {fresh : UUID} {now : Int} {outcome : Outcome Id}
    (before : Before db tx phase) (isUndisturbed : undisturbed db tx phase = true)
    (taken : statement db tx fresh now phase = some outcome) : Keeps db tx outcome := by
  cases phase with
  | idle => cases taken
  | missing rest =>
    exact before.insertDefault (Option.isNone_iff_eq_none.mp isUndisturbed) taken
  | inserted rest id =>
    exact before.pointTo rfl rfl rfl rfl rfl (fun same => by cases same) taken
  | ensured rest =>
    cases rest with
    | none =>
      cases taken
      have stands := before.sound.stands
      refine before.reads ?_ fun same => by cases same
      exact ⟨fun _ => stands.settles rfl, fun isChoosing => (by cases isChoosing),
        fun _ => stands.backed rfl, fun quiet => (by cases quiet),
        fun _ isTarget => (by cases isTarget)⟩
    | some args => exact before.insertAgent taken
  | archiving id =>
    have hasAgents := before.hasAgents rfl rfl
    have missing : Keeps db tx (db, .answered) :=
      before.finds rfl rfl (fun _ => hasAgents) (fun same => by cases same)
    refine before.updateRow rfl missing taken (fun _ => rfl) fun agent isRow isDefault => ?_
    change (!flagged ((db.view tx).row id)) = true at isUndisturbed
    rw [isRow] at isUndisturbed
    cases isUndisturbed.symm.trans (congrArg not isDefault)
  | promoting id =>
    cases taken
    exact before.finds rfl rfl (fun _ => before.hasAgents rfl rfl) (fun same => by cases same)
  | demoting id found => exact before.demote taken
  | demoted id =>
    refine before.promote (fun agent isRow => ?_) taken
    change ((db.view tx).row id).all (fun agent => agent.archivedAt.isNone) = true
      at isUndisturbed
    rw [isRow] at isUndisturbed
    exact Option.isNone_iff_eq_none.mp isUndisturbed
  | promoted id => exact before.pointTo rfl rfl rfl rfl rfl (fun same => by cases same) taken
  | answered => cases taken
  | ended result => cases taken

end Writes

/-! ### Runs -/

section Runs

variable {Id : Type} [DecidableEq Id] {state : State Id} {tx : Id}

structure Invariant (state : State Id) : Prop where
  good : Good state.db.committed
  sound : ∀ tx, Sound state.db.committed (state.db.view tx) (state.db.held tx) (state.phase tx)
  ensured : ∀ tx, state.phase tx ≠ .ended (.error .ensureDefault)

theorem Invariant.before (invariant : Invariant state) (tx : Id) :
    Before state.db tx (state.phase tx) :=
  ⟨invariant.good, invariant.sound tx⟩

theorem invariant_initial {snapshot : Snapshot} (good : Good snapshot) :
    Invariant (State.initial snapshot : State Id) where
  good := good
  sound := fun _ => ⟨seen_none good, stands_none rfl fun begun => by cases begun⟩
  ensured := fun _ same => by cases same

theorem phase_next_self (outcome : Outcome Id) : (state.next tx outcome).phase tx = outcome.2 :=
  Function.update_self ..

theorem phase_next_other {other : Id} (different : other ≠ tx) (outcome : Outcome Id) :
    (state.next tx outcome).phase other = state.phase other :=
  Function.update_of_ne different ..

theorem ensured_next (invariant : Invariant state) {outcome : Outcome Id}
    (ensured : outcome.2 ≠ .ended (.error .ensureDefault)) (other : Id) :
    (state.next tx outcome).phase other ≠ .ended (.error .ensureDefault) := by
  by_cases same : other = tx
  · rw [same, phase_next_self]
    exact ensured
  · rw [phase_next_other same]
    exact invariant.ensured other

theorem Invariant.next (invariant : Invariant state) {outcome : Outcome Id}
    (keeps : Keeps state.db tx outcome) : Invariant (state.next tx outcome) where
  good := by
    show Good outcome.1.committed
    rw [keeps.untouched.committed]
    exact invariant.good
  sound := by
    intro other
    show Sound outcome.1.committed (outcome.1.view other) (outcome.1.held other) _
    rw [keeps.untouched.committed]
    by_cases same : other = tx
    · subst same
      rw [phase_next_self]
      exact keeps.sound
    · rw [phase_next_other same, keeps.untouched.view other same, keeps.untouched.held other same]
      exact invariant.sound other
  ensured := ensured_next invariant keeps.ensured

theorem apart_of_ne {other : Id} (different : other ≠ tx) (db : Database Id) :
    Apart (db.held other) (db.held tx) where
  row := fun _ isHeld => Table.not_held_of_other isHeld different.symm
  entry := fun _ isHeld => Table.not_held_of_other isHeld different.symm

theorem committed_commit (db : Database Id) (tx : Id) : (db.commit tx).committed = db.view tx := by
  unfold Database.committed Database.commit
  rw [Table.committed_commit, Table.committed_commit]
  rfl

theorem held_commit (db : Database Id) (tx : Id) : (db.commit tx).held tx = .none := by
  unfold Database.held Database.commit Held.none
  rw [Held.mk.injEq]
  exact ⟨funext fun _ => Table.held_commit, funext fun _ => Table.held_commit⟩

theorem view_commit_other {other : Id} (different : other ≠ tx) (db : Database Id) :
    (db.commit tx).view other = (db.view other).over (db.held other) (db.view tx) := by
  unfold Database.view Database.commit Snapshot.over
  rw [Snapshot.mk.injEq]
  exact ⟨funext (Table.view_commit_other different), funext (Table.view_commit_other different)⟩

theorem held_commit_other {other : Id} (different : other ≠ tx) (db : Database Id) :
    (db.commit tx).held other = db.held other := by
  unfold Database.held Database.commit
  rw [Table.held_commit_other different, Table.held_commit_other different]

theorem Invariant.commit (invariant : Invariant state) (isAnswered : state.phase tx = .answered) :
    Invariant (state.next tx (state.db.commit tx, .ended (.ok ()))) := by
  obtain ⟨seen, stands⟩ := invariant.sound tx
  rw [isAnswered] at stands
  have good : Good (state.db.view tx) :=
    seen.good invariant.good (stands.settles rfl) (stands.backed rfl)
  refine ⟨?_, fun other => ?_, ensured_next invariant fun same => by cases same⟩
  · show Good (state.db.commit tx).committed
    rw [committed_commit]
    exact good
  · show Sound (state.db.commit tx).committed ((state.db.commit tx).view other)
      ((state.db.commit tx).held other) _
    by_cases same : other = tx
    · subst same
      rw [phase_next_self, view_of_held_none (held_commit ..), held_commit, committed_commit]
      exact ⟨seen_none good, stands_none rfl fun begun => by cases begun⟩
    · rw [phase_next_other same, view_commit_other same, held_commit_other same, committed_commit]
      have other := invariant.sound other
      exact ⟨other.seen.over invariant.good seen (apart_of_ne same state.db),
        other.stands.over seen⟩

/-- The statements of a run find what their requests have looked at unchanged. -/
def goesUndisturbed (state : State Id) : Event Id → Bool
  | .statement tx _ _ => undisturbed state.db tx (state.phase tx)
  | .start _ _ | .commit _ | .rollback _ => true

theorem Invariant.step {event : Event Id} {next : State Id} (invariant : Invariant state)
    (goes : goesUndisturbed state event = true) (taken : step state event = some next) :
    Invariant next := by
  cases event with
  | start tx request =>
    unfold Agents.step at taken
    dsimp only at taken
    split at taken
    next isIdle =>
      obtain ⟨outcome, isOutcome, rfl⟩ := Option.map_eq_some_iff.mp taken
      have before := invariant.before tx
      rw [isIdle] at before
      exact invariant.next (before.start isOutcome)
    next => cases taken
  | statement tx fresh now =>
    obtain ⟨outcome, isOutcome, rfl⟩ := Option.map_eq_some_iff.mp taken
    exact invariant.next ((invariant.before tx).statement goes isOutcome)
  | commit tx =>
    unfold Agents.step at taken
    dsimp only at taken
    split at taken
    next isAnswered =>
      cases taken
      exact invariant.commit isAnswered
    next => cases taken
  | rollback tx =>
    unfold Agents.step at taken
    dsimp only at taken
    split at taken
    next => cases taken
    next => cases taken
    next =>
      cases taken
      exact invariant.next (keeps_fail invariant.good fun same => by cases same)

/-- The committed agents of a user, of which one is the default unless there are none. -/
structure UserAgents where
  snapshot : Snapshot
  good : Good snapshot

/-! ### One user -/

/-- In a run whose statements go undisturbed a user with agents has one usable default in every
committed state, and no `ensure_default` fails. -/
theorem always_oneUsableDefault (user : UserAgents) (events : List (Event Id))
    (meet : StepsMeet step (fun state event => goesUndisturbed state event = true)
      (State.initial user.snapshot) events) :
    Always step
      (fun state => OneUsableDefault state.db.committed ∧
        ∀ tx, state.phase tx ≠ .ended (.error .ensureDefault))
      (State.initial user.snapshot) events := by
  have always := always_of_invariant step
    (fun state event next invariant goes taken => Invariant.step invariant goes taken)
    (invariant_initial user.good) meet
  exact always.mono step fun reached invariant =>
    ⟨invariant.good.oneUsableDefault, invariant.ensured⟩

end Runs

/-- A user without agents. -/
def newUser : UserAgents where
  snapshot :=
    { row := fun _ => none
      entry := fun _ => none }
  good :=
    { tied := fun _ => iff_of_false (fun flag => by cases flag) (fun same => by cases same)
      usable := fun _ _ same => by cases same
      pointed := fun _ same => by cases same
      hasDefault := fun hasAgents => by
        obtain ⟨_, isThere⟩ := hasAgents
        cases isThere
      slugs := fun _ _ same => by cases same }

def coder : AgentCreate where
  slug := "coder"
  name := "coder"

/-- A listing, the creation of an agent, its choice as the default and the archiving of the
former one, each after the other. -/
def oneByOne : List (Event Nat) :=
  [.start 0 .listAgents, .statement 0 1 0, .statement 0 1 0, .statement 0 1 0, .commit 0,
    .start 1 (.createAgent coder), .statement 1 2 0, .commit 1,
    .start 2 (.setDefaultAgent 2), .statement 2 3 0, .statement 2 3 0, .statement 2 3 0,
    .statement 2 3 0, .commit 2,
    .start 3 (.archiveAgent 1), .statement 3 3 7, .commit 3]

theorem oneByOne_oneUsableDefault :
    Always step
      (fun state => OneUsableDefault state.db.committed ∧
        ∀ tx, state.phase tx ≠ .ended (.error .ensureDefault))
      (State.initial newUser.snapshot) oneByOne :=
  always_oneUsableDefault newUser oneByOne (by decide)

/-- The rows of a user whose default is agent 1, and who has an agent 2. -/
def twoRows (id : UUID) : Option Agent :=
  if id = 1 then some (defaultAgent.row true)
  else if id = 2 then some (coder.row false)
  else none

def twoEntries : Entry → Option UUID
  | .oneDefault | .defaultAgentId => some 1
  | .slug slug => if slug = "default" then some 1 else if slug = "coder" then some 2 else none

theorem flagged_twoRows (id : UUID) : flagged (twoRows id) = true ↔ some 1 = some id := by
  unfold twoRows
  split
  next first =>
    subst first
    exact iff_of_true rfl rfl
  next notFirst =>
    refine iff_of_false (fun flag => ?_) fun same => notFirst (Option.some.inj same).symm
    split at flag
    next => cases flag
    next => cases flag

theorem usable_twoRows {id : UUID} {agent : Agent} (isRow : twoRows id = some agent) :
    agent.archivedAt = none := by
  unfold twoRows at isRow
  split at isRow
  next =>
    cases isRow
    rfl
  next =>
    split at isRow
    next =>
      cases isRow
      rfl
    next => cases isRow

theorem slugs_twoRows {slug : String} {id : UUID} (isSlug : twoEntries (.slug slug) = some id) :
    (twoRows id).isSome = true := by
  change (if slug = "default" then some 1 else if slug = "coder" then some 2 else none) = _
    at isSlug
  split at isSlug
  next =>
    cases isSlug
    rfl
  next =>
    split at isSlug
    next =>
      cases isSlug
      rfl
    next => cases isSlug

def twoAgents : UserAgents where
  snapshot :=
    { row := twoRows
      entry := twoEntries }
  good :=
    { tied := flagged_twoRows
      usable := fun _ _ isRow _ => usable_twoRows isRow
      pointed := fun _ isDefault => isDefault
      hasDefault := fun _ => rfl
      slugs := fun _ _ isSlug => slugs_twoRows isSlug }

/-- Agent 2 is found not to be the default, becomes the default and is archived. -/
def archivedWhilePromoted : List (Event Nat) :=
  [.start 0 (.archiveAgent 2), .start 1 (.setDefaultAgent 2), .statement 1 3 0, .statement 1 3 0,
    .statement 1 3 0, .statement 1 3 0, .commit 1, .statement 0 3 7, .commit 0,
    .start 2 .listAgents, .statement 2 3 0]

/-- The user is left with an archived default, and the next listing fails. -/
theorem default_is_archived :
    ∃ last, exec step (State.initial twoAgents.snapshot) archivedWhilePromoted = some last ∧
      ¬ OneUsableDefault last.db.committed ∧
        last.phase 2 = .ended (.error .ensureDefault) := by
  refine ⟨_, rfl, fun usable => ?_, rfl⟩
  obtain ⟨id, agent, isRow, _, notArchived, isPointer, _⟩ := usable ⟨1, rfl⟩
  have isSecond : some 2 = some id := isPointer
  cases isSecond
  cases isRow
  cases notArchived

end LiteHorse.Repositories.Agents
