/-
This file is about conditions in SQL, which may be unknown, and about the rows that a table admits.

A comparison with NULL is unknown. A row-security policy admits a row only where its condition is
true (`admits`), a CHECK constraint refuses a row only where its condition is false. A table is
made by changes (`alter`), an INSERT fills the columns it does not name with their defaults
(`inserted`), and the row has to satisfy the constraints of all columns (`Accepts`).
-/

import Mathlib.Data.List.Basic
import Mathlib.Tactic.Common

namespace LiteHorse.SqlTables

/-! ### Truth values -/

/-- A truth value, or none where the truth is unknown. -/
abbrev Truth := Option Bool

def Truth.and : Truth → Truth → Truth
  | some false, _ | _, some false => some false
  | some true, some true => some true
  | none, some true | some true, none | none, none => none

def Truth.or : Truth → Truth → Truth
  | some true, _ | _, some true => some true
  | some false, some false => some false
  | none, some false | some false, none | none, none => none

/-- `first = second` -/
def equals {Value : Type} [DecidableEq Value] : Option Value → Option Value → Truth
  | some first, some second => some (first = second)
  | none, _ | some _, none => none

/-- `value IS NOT NULL` -/
def isNotNull {Value : Type} (value : Option Value) : Truth := some value.isSome

/-- `value IS NULL` -/
def isNull {Value : Type} (value : Option Value) : Truth := some value.isNone

/-- A policy shows a row only where its condition is true. -/
def admits (truth : Truth) : Bool := truth = some true

theorem Truth.and_eq_true_iff {first second : Truth} :
    first.and second = some true ↔ first = some true ∧ second = some true := by
  rcases first with _ | _ | _ <;> rcases second with _ | _ | _ <;> decide

theorem Truth.or_eq_true_iff {first second : Truth} :
    first.or second = some true ↔ first = some true ∨ second = some true := by
  rcases first with _ | _ | _ <;> rcases second with _ | _ | _ <;> decide

theorem equals_eq_true_iff {Value : Type} [DecidableEq Value] {first second : Option Value} :
    equals first second = some true ↔ ∃ value, first = some value ∧ second = some value := by
  cases first with
  | none => simp [equals]
  | some first =>
    cases second with
    | none => simp [equals]
    | some second => simp [equals, eq_comm]

/-! ### Tables -/

section Tables

variable {Name Value : Type}

structure ColumnDef (Name Value : Type) where
  name : Name
  nullable : Bool
  /-- The declared default, or NULL. -/
  default : Option Value

/-- A row: NULL where there is no value. -/
abbrev Row (Name Value : Type) := Name → Option Value

structure TableDef (Name Value : Type) where
  columns : List (ColumnDef Name Value)
  checks : List (Row Name Value → Truth)

/-- What an `ALTER TABLE` does. -/
inductive Change (Name Value : Type) where
  | addColumn (column : ColumnDef Name Value)
  | setNotNull (name : Name)
  | addCheck (check : Row Name Value → Truth)

def TableDef.change [DecidableEq Name] (table : TableDef Name Value) :
    Change Name Value → TableDef Name Value
  | .addColumn column => { table with columns := table.columns ++ [column] }
  | .setNotNull name =>
    { table with
      columns := table.columns.map fun column =>
        if column.name = name then { column with nullable := false } else column }
  | .addCheck check => { table with checks := table.checks ++ [check] }

/-- The table after a row of changes. -/
def TableDef.alter [DecidableEq Name] (table : TableDef Name Value)
    (changes : List (Change Name Value)) :
    TableDef Name Value :=
  changes.foldl TableDef.change table

/-- The row of an INSERT that names some columns: the others get their defaults. -/
def TableDef.inserted [DecidableEq Name] (table : TableDef Name Value)
    (values : List (Name × Option Value)) : Row Name Value := fun name =>
  match values.lookup name with
  | some value => value
  | none => (table.columns.find? fun column => column.name = name).bind ColumnDef.default

/-- No column that has to have a value is NULL, and no check is false. -/
def TableDef.Accepts (table : TableDef Name Value) (row : Row Name Value) : Prop :=
  (∀ column ∈ table.columns, column.nullable = false → (row column.name).isSome = true) ∧
    ∀ check ∈ table.checks, check row ≠ some false

instance (table : TableDef Name Value) (row : Row Name Value) : Decidable (table.Accepts row) :=
  inferInstanceAs (Decidable (_ ∧ _))

/-- A row is accepted where a look at every column and every check finds nothing. -/
theorem accepts_of_all {table : TableDef Name Value} {row : Row Name Value}
    (columns : table.columns.all (fun column =>
      column.nullable || (row column.name).isSome) = true)
    (checks : table.checks.all (fun check => check row != some false) = true) :
    table.Accepts row := by
  rw [List.all_eq_true] at columns checks
  refine ⟨fun column member notNullable => ?_, fun check member => ?_⟩
  · have filled := columns column member
    rw [notNullable, Bool.false_or] at filled
    exact filled
  · exact bne_iff_ne.mp (checks check member)

/-- A row is refused where a check is false. -/
theorem not_accepts_of_check {table : TableDef Name Value} {row : Row Name Value}
    {check : Row Name Value → Truth} (member : check ∈ table.checks)
    (isFalse : check row = some false) : ¬ table.Accepts row :=
  fun accepts => accepts.2 check member isFalse

/-- A row is refused where a column that has to have a value is NULL. -/
theorem not_accepts_of_null {table : TableDef Name Value} {row : Row Name Value}
    {column : ColumnDef Name Value} (member : column ∈ table.columns)
    (required : column.nullable = false) (null : row column.name = none) :
    ¬ table.Accepts row := by
  intro accepts
  have isSome := accepts.1 column member required
  rw [null] at isSome
  cases isSome

/-- A column that the INSERT does not name gets its default. -/
theorem inserted_unnamed [DecidableEq Name] {table : TableDef Name Value}
    {values : List (Name × Option Value)}
    {name : Name} (unnamed : values.lookup name = none) :
    table.inserted values name =
      (table.columns.find? fun column => column.name = name).bind ColumnDef.default := by
  unfold TableDef.inserted
  rw [unnamed]

end Tables

end LiteHorse.SqlTables
