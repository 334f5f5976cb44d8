/-
This file is about values that are set once. A table holds cells under names; a cell has a label
that never changes and a future that is pending until it is given a result or cancelled.

Tables only evolve: cells stay and keep their labels, and a future that is done stays as it is
(`Evolves`). A change is quiet if it gives no cell a result, and `evolves_settle` and
`quiet_cancelAll` say what the two ways of ending futures do.
-/

import Mathlib.Logic.Function.Basic
import Mathlib.Tactic.Common

namespace LiteHorse.Futures

variable {Name Label Value : Type*}

inductive Future (Value : Type*) where
  | pending
  | result (value : Value)
  | cancelled

/-- A future that is done stays as it is. -/
def Future.settle : Future Value → Future Value → Future Value
  | .pending, outcome => outcome
  | future, _ => future

structure Cell (Label Value : Type*) where
  label : Label
  future : Future Value

/-- The cells that were made, by their names. -/
abbrev Table (Name Label Value : Type*) := Name → Option (Cell Label Value)

/-- The cells that are pending and selected are cancelled. -/
def cancelAll (selected : Name → Cell Label Value → Bool) (table : Table Name Label Value) :
    Table Name Label Value :=
  fun name => (table name).map fun cell =>
    if selected name cell then { cell with future := cell.future.settle .cancelled } else cell

/-- A cell keeps its label, and its future if that is done. -/
def Cell.LeadsTo (before after : Cell Label Value) : Prop :=
  after.label = before.label ∧ (before.future = .pending ∨ after.future = before.future)

/-- Every cell is still there and has kept what it has to. -/
def Evolves (before after : Table Name Label Value) : Prop :=
  ∀ name cell, before name = some cell → ∃ later, after name = some later ∧ cell.LeadsTo later

/-- No cell is given a result. -/
def GivesNoResult (before after : Table Name Label Value) : Prop :=
  ∀ name later value, after name = some later → later.future = .result value →
    ∃ cell, before name = some cell ∧ cell.future = .result value ∧ cell.label = later.label

section Evolves

variable {before between after table : Table Name Label Value} {cell later : Cell Label Value}
  {name : Name} {outcome : Future Value}

theorem Cell.LeadsTo.refl (cell : Cell Label Value) : cell.LeadsTo cell := ⟨rfl, Or.inr rfl⟩

theorem Cell.LeadsTo.trans {first second third : Cell Label Value} (start : first.LeadsTo second)
    (rest : second.LeadsTo third) : first.LeadsTo third := by
  refine ⟨rest.1.trans start.1, ?_⟩
  rcases start.2 with isPending | same
  · exact Or.inl isPending
  · rw [← same]
    exact rest.2

theorem Evolves.refl (table : Table Name Label Value) : Evolves table table :=
  fun _ cell isCell => ⟨cell, isCell, .refl cell⟩

theorem Evolves.trans (start : Evolves before between) (rest : Evolves between after) :
    Evolves before after := by
  intro name cell isCell
  obtain ⟨middle, isMiddle, toMiddle⟩ := start name cell isCell
  obtain ⟨later, isLater, toLater⟩ := rest name middle isMiddle
  exact ⟨later, isLater, toMiddle.trans toLater⟩

/-- A result stays, under its label. -/
theorem Evolves.result {value : Value} (evolves : Evolves before after)
    (isCell : before name = some cell) (hasResult : cell.future = .result value) :
    ∃ later, after name = some later ∧ later.label = cell.label ∧
      later.future = .result value := by
  obtain ⟨later, isLater, sameLabel, isPending | same⟩ := evolves name cell isCell
  · rw [hasResult] at isPending
    cases isPending
  · exact ⟨later, isLater, sameLabel, same.trans hasResult⟩

theorem GivesNoResult.refl (table : Table Name Label Value) : GivesNoResult table table :=
  fun _ cell _ isCell hasResult => ⟨cell, isCell, hasResult, rfl⟩

theorem leadsTo_settle (cell : Cell Label Value) (outcome : Future Value) :
    cell.LeadsTo { cell with future := cell.future.settle outcome } := by
  refine ⟨rfl, ?_⟩
  cases cell.future with
  | pending => exact Or.inl rfl
  | result value => exact Or.inr rfl
  | cancelled => exact Or.inr rfl

theorem settle_cancelled_ne_pending (future : Future Value) :
    future.settle .cancelled ≠ .pending := by
  cases future with
  | pending => exact fun same => nomatch same
  | result value => exact fun same => nomatch same
  | cancelled => exact fun same => nomatch same

theorem settle_cancelled_result {future : Future Value} {value : Value}
    (hasResult : future.settle .cancelled = .result value) : future = .result value := by
  cases future with
  | pending => exact nomatch hasResult
  | result other => exact hasResult
  | cancelled => exact nomatch hasResult

theorem cancelAll_apply (selected : Name → Cell Label Value → Bool)
    (isCell : table name = some cell) :
    cancelAll selected table name = some
      (if selected name cell then { cell with future := cell.future.settle .cancelled }
        else cell) := by
  unfold cancelAll
  rw [isCell]
  rfl

theorem cell_of_cancelAll {selected : Name → Cell Label Value → Bool}
    (isLater : cancelAll selected table name = some later) :
    ∃ cell, table name = some cell ∧ cell.label = later.label := by
  obtain ⟨cell, isCell, rfl⟩ := Option.map_eq_some_iff.mp isLater
  refine ⟨cell, isCell, ?_⟩
  split
  · rfl
  · rfl

/-- A cell that is still pending was not selected. -/
theorem pending_of_cancelAll {selected : Name → Cell Label Value → Bool}
    (isLater : cancelAll selected table name = some later) (isPending : later.future = .pending) :
    table name = some later ∧ selected name later = false := by
  obtain ⟨cell, isCell, rfl⟩ := Option.map_eq_some_iff.mp isLater
  split at isPending
  next isSelected => exact absurd isPending (settle_cancelled_ne_pending cell.future)
  next notSelected =>
    rw [if_neg notSelected]
    exact ⟨isCell, Bool.eq_false_iff.mpr notSelected⟩

theorem evolves_cancelAll (selected : Name → Cell Label Value → Bool) :
    Evolves table (cancelAll selected table) := by
  intro name cell isCell
  refine ⟨_, cancelAll_apply selected isCell, ?_⟩
  split
  · exact leadsTo_settle cell .cancelled
  · exact .refl cell

theorem quiet_cancelAll (selected : Name → Cell Label Value → Bool) :
    GivesNoResult table (cancelAll selected table) := by
  intro name later value isLater hasResult
  obtain ⟨cell, isCell, rfl⟩ := Option.map_eq_some_iff.mp isLater
  refine ⟨cell, isCell, ?_⟩
  split at hasResult
  next isSelected =>
    rw [if_pos isSelected]
    exact ⟨settle_cancelled_result hasResult, rfl⟩
  next notSelected =>
    rw [if_neg notSelected]
    exact ⟨hasResult, rfl⟩

end Evolves

section Update

variable [DecidableEq Name] {Found : Type*} {names : Name → Option Found} {name other : Name}
  {found value : Found}

/-- What is found after a change is new, or it was there under another name. -/
theorem of_update_some (isFound : Function.update names name (some value) other = some found) :
    (other = name ∧ found = value) ∨ (other ≠ name ∧ names other = some found) := by
  by_cases same : other = name
  · rw [same, Function.update_self, Option.some.injEq] at isFound
    exact Or.inl ⟨same, isFound.symm⟩
  · rw [Function.update_of_ne same] at isFound
    exact Or.inr ⟨same, isFound⟩

/-- What is found after a removal was there under another name. -/
theorem of_update_none (isFound : Function.update names name none other = some found) :
    other ≠ name ∧ names other = some found := by
  by_cases same : other = name
  · rw [same, Function.update_self] at isFound
    cases isFound
  · rw [Function.update_of_ne same] at isFound
    exact ⟨same, isFound⟩

end Update

section Evolves

variable [DecidableEq Name] {table : Table Name Label Value} {cell : Cell Label Value} {name : Name}

/-- A new cell under a name that is free. -/
theorem evolves_register (free : table name = none) (cell : Cell Label Value) :
    Evolves table (Function.update table name (some cell)) := by
  intro other otherCell isOther
  have different : other ≠ name := by
    intro same
    rw [same, free] at isOther
    cases isOther
  exact ⟨otherCell, (Function.update_of_ne different ..).trans isOther, .refl otherCell⟩

theorem quiet_register {label : Label} :
    GivesNoResult table (Function.update table name (some ⟨label, .pending⟩)) := by
  intro other later value isLater hasResult
  rcases of_update_some isLater with ⟨_, rfl⟩ | ⟨_, wasLater⟩
  · cases hasResult
  · exact ⟨later, wasLater, hasResult, rfl⟩

/-- A pending cell is ended. -/
theorem evolves_settle (isCell : table name = some cell) (isPending : cell.future = .pending)
    (outcome : Future Value) :
    Evolves table (Function.update table name (some { cell with future := outcome })) := by
  intro other otherCell isOther
  by_cases same : other = name
  · rw [same, isCell, Option.some.injEq] at isOther
    refine ⟨{ cell with future := outcome }, ?_, isOther ▸ ⟨rfl, Or.inl isPending⟩⟩
    rw [same, Function.update_self]
  · exact ⟨otherCell, (Function.update_of_ne same ..).trans isOther, .refl otherCell⟩

end Evolves

end LiteHorse.Futures
