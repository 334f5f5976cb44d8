/-
This file is about one row of a table under transactions at read committed: the version that is
committed, and the version of a transaction that has written the row and not yet ended. That
transaction holds the lock of the row, so nobody else writes it before then.

A row that may be missing is a row of options; the entry of a unique index is one too.
-/

import Mathlib.Logic.Function.Basic
import Mathlib.Tactic.Common

namespace LiteHorse.RowVersions

/-- A row: what is committed, and the draft of the transaction that holds its lock. -/
structure Cell (Tx Value : Type*) where
  committed : Value
  draft : Option (Tx × Value)

namespace Cell

variable {Tx Value : Type*}

/-- A row that nobody writes. -/
def still (value : Value) : Cell Tx Value where
  committed := value
  draft := none

/-- The row with a draft of the transaction. -/
def write (cell : Cell Tx Value) (tx : Tx) (value : Value) : Cell Tx Value :=
  { cell with draft := some (tx, value) }

@[simp]
theorem committed_write (cell : Cell Tx Value) (tx : Tx) (value : Value) :
    (cell.write tx value).committed = cell.committed := rfl

@[simp]
theorem draft_write (cell : Cell Tx Value) (tx : Tx) (value : Value) :
    (cell.write tx value).draft = some (tx, value) := rfl

variable [DecidableEq Tx]

/-- The transaction holds the lock of the row. -/
def heldBy (cell : Cell Tx Value) (tx : Tx) : Bool :=
  match cell.draft with
  | some draft => draft.1 = tx
  | none => false

/-- No other transaction holds the lock of the row. -/
def freeFor (cell : Cell Tx Value) (tx : Tx) : Bool :=
  cell.draft.isNone || cell.heldBy tx

/-- What a statement of the transaction sees: its own draft, or else what is committed. -/
def view (cell : Cell Tx Value) (tx : Tx) : Value :=
  match cell.draft with
  | some draft => if draft.1 = tx then draft.2 else cell.committed
  | none => cell.committed

def commit (cell : Cell Tx Value) (tx : Tx) : Cell Tx Value :=
  if cell.heldBy tx then still (cell.view tx) else cell

def rollback (cell : Cell Tx Value) (tx : Tx) : Cell Tx Value :=
  if cell.heldBy tx then still cell.committed else cell

variable {cell : Cell Tx Value} {tx other : Tx} {value : Value}

theorem heldBy_of_draft (isDraft : cell.draft = some (tx, value)) : cell.heldBy tx = true := by
  unfold heldBy
  rw [isDraft]
  exact decide_eq_true rfl

theorem draft_of_heldBy (held : cell.heldBy tx = true) :
    ∃ value, cell.draft = some (tx, value) := by
  unfold heldBy at held
  split at held
  next draft isDraft => exact ⟨draft.2, isDraft.trans (by rw [← of_decide_eq_true held])⟩
  next => cases held

/-- A commit makes the draft the committed version. -/
theorem commit_of_draft (isDraft : cell.draft = some (tx, value)) :
    cell.commit tx = still value := by
  unfold commit view
  rw [heldBy_of_draft isDraft, isDraft, if_pos rfl]
  exact congrArg still (if_pos rfl)

theorem rollback_of_draft (isDraft : cell.draft = some (tx, value)) :
    cell.rollback tx = still cell.committed := by
  unfold rollback
  rw [heldBy_of_draft isDraft, if_pos rfl]

/-- The end of a transaction leaves the rows alone that it does not hold. -/
theorem commit_of_not_held (notHeld : cell.heldBy tx = false) : cell.commit tx = cell := by
  unfold commit
  rw [notHeld]
  exact if_neg Bool.false_ne_true

theorem rollback_of_not_held (notHeld : cell.heldBy tx = false) : cell.rollback tx = cell := by
  unfold rollback
  rw [notHeld]
  exact if_neg Bool.false_ne_true

theorem committed_rollback : (cell.rollback tx).committed = cell.committed := by
  unfold rollback
  split
  · rfl
  · rfl

/-- Two transactions do not hold the same row. -/
theorem holder_unique (held : cell.heldBy tx = true) (otherHeld : cell.heldBy other = true) :
    tx = other := by
  obtain ⟨_, isDraft⟩ := draft_of_heldBy held
  obtain ⟨_, isOther⟩ := draft_of_heldBy otherHeld
  rw [isDraft] at isOther
  cases isOther
  rfl

/-- A row that is free for a transaction is held by no other. -/
theorem holder_of_free (isFree : cell.freeFor tx = true) (otherHeld : cell.heldBy other = true) :
    other = tx := by
  obtain ⟨_, isDraft⟩ := draft_of_heldBy otherHeld
  unfold freeFor at isFree
  rw [isDraft, Bool.or_eq_true] at isFree
  rcases isFree with noDraft | held
  · cases noDraft
  · exact holder_unique otherHeld held

end Cell

/-! ### Which transaction has written the row -/

section Guarded

variable {Tx Value : Type*} [DecidableEq Tx] {cell : Cell Tx Value} {drafts : Tx → Option Value}
  {tx : Tx} {value : Value}

/-- The draft of the row is that of the transaction which, by what is known of the transactions,
has written one. -/
def Guarded (cell : Cell Tx Value) (drafts : Tx → Option Value) : Prop :=
  ∀ tx value, drafts tx = some value ↔ cell.draft = some (tx, value)

omit [DecidableEq Tx] in
theorem guarded_still (value : Value) (noDraft : ∀ tx, drafts tx = none) :
    Guarded (Cell.still value) drafts := by
  intro tx other
  rw [noDraft tx]
  exact ⟨fun isDraft => (by cases isDraft), fun isDraft => (by cases isDraft)⟩

theorem Guarded.not_held (guarded : Guarded cell drafts) (hasNone : drafts tx = none) :
    cell.heldBy tx = false := by
  refine Bool.eq_false_iff.mpr fun held => ?_
  obtain ⟨value, isDraft⟩ := Cell.draft_of_heldBy held
  cases hasNone.symm.trans ((guarded tx value).mpr isDraft)

theorem Guarded.write (guarded : Guarded cell drafts) (isFree : cell.freeFor tx = true)
    (value : Value) : Guarded (cell.write tx value) (Function.update drafts tx (some value)) := by
  intro other otherValue
  by_cases same : other = tx
  · subst same
    rw [Function.update_self, Cell.draft_write, Option.some.injEq, Option.some.injEq,
      Prod.mk.injEq]
    exact (and_iff_right rfl).symm
  · rw [Function.update_of_ne same, guarded, Cell.draft_write]
    constructor
    · intro isDraft
      exact absurd (Cell.holder_of_free isFree (Cell.heldBy_of_draft isDraft)) same
    · intro isDraft
      cases isDraft
      exact absurd rfl same

/-- A transaction that ends has no draft any more. -/
theorem Guarded.release (guarded : Guarded cell drafts) {after : Cell Tx Value}
    (released : cell.heldBy tx = true → after.draft = none)
    (kept : cell.heldBy tx = false → after = cell) :
    Guarded after (Function.update drafts tx none) := by
  cases hasDraft : drafts tx with
  | some value =>
    have isDraft := (guarded tx value).mp hasDraft
    intro other otherValue
    rw [released (Cell.heldBy_of_draft isDraft)]
    by_cases same : other = tx
    · rw [same, Function.update_self]
      exact ⟨fun isSome => (by cases isSome), fun isSome => (by cases isSome)⟩
    · rw [Function.update_of_ne same, guarded, isDraft]
      constructor
      · intro otherDraft
        cases otherDraft
        exact absurd rfl same
      · intro isSome
        cases isSome
  | none =>
    rw [kept (guarded.not_held hasDraft), ← hasDraft, Function.update_eq_self]
    exact guarded

theorem Guarded.commit (guarded : Guarded cell drafts) (tx : Tx) :
    Guarded (cell.commit tx) (Function.update drafts tx none) := by
  refine guarded.release (fun held => ?_) Cell.commit_of_not_held
  obtain ⟨_, isDraft⟩ := Cell.draft_of_heldBy held
  rw [Cell.commit_of_draft isDraft]
  rfl

theorem Guarded.rollback (guarded : Guarded cell drafts) (tx : Tx) :
    Guarded (cell.rollback tx) (Function.update drafts tx none) := by
  refine guarded.release (fun held => ?_) Cell.rollback_of_not_held
  obtain ⟨_, isDraft⟩ := Cell.draft_of_heldBy held
  rw [Cell.rollback_of_draft isDraft]
  rfl

theorem Guarded.committed (guarded : Guarded cell drafts) (isDraft : drafts tx = some value) :
    cell.commit tx = Cell.still value :=
  Cell.commit_of_draft ((guarded tx value).mp isDraft)

theorem Guarded.committed_none (guarded : Guarded cell drafts) (hasNone : drafts tx = none) :
    cell.commit tx = cell :=
  Cell.commit_of_not_held (guarded.not_held hasNone)

/-- What is known of the transactions changes in nothing but one that leaves the row alone. -/
theorem Guarded.move (guarded : Guarded cell drafts) {draft : Option Value}
    (same : draft = drafts tx) : Guarded cell (Function.update drafts tx draft) := by
  rw [same, Function.update_eq_self]
  exact guarded

end Guarded

/-! ### A table -/

/-- The rows of a table, or the entries of an index, by their keys. -/
abbrev Table (Tx Key Value : Type*) := Key → Cell Tx Value

namespace Table

variable {Tx Key Value : Type*}

/-- A table that nobody writes. -/
def still (values : Key → Value) : Table Tx Key Value := fun key => .still (values key)

def committed (table : Table Tx Key Value) (key : Key) : Value := (table key).committed

/-- One row gets a draft of the transaction. -/
def write [DecidableEq Key] (table : Table Tx Key Value) (tx : Tx) (key : Key) (value : Value) :
    Table Tx Key Value :=
  Function.update table key ((table key).write tx value)

variable [DecidableEq Tx]

def view (table : Table Tx Key Value) (tx : Tx) (key : Key) : Value := (table key).view tx

def held (table : Table Tx Key Value) (tx : Tx) (key : Key) : Bool := (table key).heldBy tx

def commit (table : Table Tx Key Value) (tx : Tx) : Table Tx Key Value :=
  fun key => (table key).commit tx

def rollback (table : Table Tx Key Value) (tx : Tx) : Table Tx Key Value :=
  fun key => (table key).rollback tx

variable {table : Table Tx Key Value} {tx other : Tx} {key : Key} {value : Value}

/-- What a transaction has not written it sees as it is committed. -/
theorem view_of_not_held (notHeld : table.held tx key = false) :
    table.view tx key = table.committed key := by
  unfold held Cell.heldBy at notHeld
  unfold view Cell.view
  split
  next draft isDraft =>
    rw [isDraft] at notHeld
    exact if_neg (of_decide_eq_false notHeld)
  next => rfl

theorem not_held_of_other (held : table.held tx key = true) (different : other ≠ tx) :
    table.held other key = false := by
  refine Bool.eq_false_iff.mpr fun otherHeld => ?_
  exact different (Cell.holder_unique otherHeld held)

section Write

variable [DecidableEq Key]

omit [DecidableEq Tx] in
theorem committed_write : (table.write tx key value).committed = table.committed := by
  funext other
  unfold committed write
  by_cases same : other = key
  · rw [same, Function.update_self]
    rfl
  · rw [Function.update_of_ne same]

theorem view_write : (table.write tx key value).view tx =
    Function.update (table.view tx) key value := by
  funext other
  unfold view write
  by_cases same : other = key
  · rw [same, Function.update_self, Function.update_self]
    exact if_pos rfl
  · rw [Function.update_of_ne same, Function.update_of_ne same]

theorem held_write : (table.write tx key value).held tx =
    Function.update (table.held tx) key true := by
  funext other
  unfold held write
  by_cases same : other = key
  · rw [same, Function.update_self, Function.update_self]
    exact decide_eq_true rfl
  · rw [Function.update_of_ne same, Function.update_of_ne same]

/-- Nobody else sees the draft. -/
theorem view_write_other (isFree : (table key).freeFor tx = true) (different : other ≠ tx) :
    (table.write tx key value).view other = table.view other := by
  funext place
  unfold view write
  by_cases same : place = key
  · subst same
    rw [Function.update_self]
    have notHeld : (table place).heldBy other = false := by
      refine Bool.eq_false_iff.mpr fun held => ?_
      exact different (Cell.holder_of_free isFree held)
    exact (if_neg (Ne.symm different)).trans (view_of_not_held notHeld).symm
  · rw [Function.update_of_ne same]

theorem held_write_other (isFree : (table key).freeFor tx = true) (different : other ≠ tx) :
    (table.write tx key value).held other = table.held other := by
  funext place
  unfold held write
  by_cases same : place = key
  · subst same
    rw [Function.update_self]
    have notHeld : (table place).heldBy other = false := by
      refine Bool.eq_false_iff.mpr fun held => ?_
      exact different (Cell.holder_of_free isFree held)
    exact (decide_eq_false (Ne.symm different)).trans notHeld.symm
  · rw [Function.update_of_ne same]

end Write

/-! ### The end of a transaction -/

theorem commit_held (held : table.held tx key = true) :
    table.commit tx key = .still (table.view tx key) := by
  obtain ⟨value, isDraft⟩ := Cell.draft_of_heldBy held
  have isView : table.view tx key = value := by
    unfold view Cell.view
    rw [isDraft]
    exact if_pos rfl
  rw [isView]
  exact Cell.commit_of_draft isDraft

theorem commit_not_held (notHeld : table.held tx key = false) : table.commit tx key = table key :=
  Cell.commit_of_not_held notHeld

theorem rollback_held (held : table.held tx key = true) :
    table.rollback tx key = .still (table.committed key) := by
  obtain ⟨value, isDraft⟩ := Cell.draft_of_heldBy held
  exact Cell.rollback_of_draft isDraft

theorem rollback_not_held (notHeld : table.held tx key = false) :
    table.rollback tx key = table key :=
  Cell.rollback_of_not_held notHeld

/-- A commit makes what the transaction sees the committed rows. -/
theorem committed_commit : (table.commit tx).committed = table.view tx := by
  funext key
  show (table.commit tx key).committed = _
  cases held : table.held tx key with
  | true => rw [commit_held held]; rfl
  | false =>
    rw [commit_not_held held, view_of_not_held held]
    rfl

theorem held_commit : (table.commit tx).held tx key = false := by
  show (table.commit tx key).heldBy tx = false
  cases held : table.held tx key with
  | true => rw [commit_held held]; rfl
  | false => rw [commit_not_held held]; exact held

/-- Another transaction keeps its drafts. -/
theorem held_commit_other (different : other ≠ tx) :
    (table.commit tx).held other = table.held other := by
  funext key
  show (table.commit tx key).heldBy other = _
  cases held : table.held tx key with
  | true =>
    rw [commit_held held, not_held_of_other held different]
    rfl
  | false =>
    rw [commit_not_held held]
    rfl

/-- Another transaction sees its drafts and, beside them, what was committed. -/
theorem view_commit_other (different : other ≠ tx) (key : Key) :
    (table.commit tx).view other key =
      if table.held other key then table.view other key else table.view tx key := by
  show (table.commit tx key).view other = _
  cases held : table.held tx key with
  | true =>
    rw [commit_held held, not_held_of_other held different]
    rfl
  | false =>
    rw [commit_not_held held]
    cases otherHeld : table.held other key with
    | true => rfl
    | false =>
      rw [view_of_not_held held, ← view_of_not_held otherHeld]
      rfl

theorem committed_rollback : (table.rollback tx).committed = table.committed := by
  funext key
  exact Cell.committed_rollback

theorem held_rollback : (table.rollback tx).held tx key = false := by
  show (table.rollback tx key).heldBy tx = false
  cases held : table.held tx key with
  | true => rw [rollback_held held]; rfl
  | false => rw [rollback_not_held held]; exact held

theorem held_rollback_other (different : other ≠ tx) :
    (table.rollback tx).held other = table.held other := by
  funext key
  show (table.rollback tx key).heldBy other = _
  cases held : table.held tx key with
  | true =>
    rw [rollback_held held, not_held_of_other held different]
    rfl
  | false =>
    rw [rollback_not_held held]
    rfl

theorem view_rollback_other (different : other ≠ tx) :
    (table.rollback tx).view other = table.view other := by
  funext key
  show (table.rollback tx key).view other = _
  cases held : table.held tx key with
  | true =>
    rw [rollback_held held, view_of_not_held (not_held_of_other held different)]
    rfl
  | false =>
    rw [rollback_not_held held]
    rfl

end Table

end LiteHorse.RowVersions
