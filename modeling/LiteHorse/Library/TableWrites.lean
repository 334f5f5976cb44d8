/-
This file is about a table of rows with an id and a key. A transaction writes to it with one
statement: it inserts a row, or it changes or deletes the rows of some ids. What the statement
has picked takes effect when the transaction commits.

The file says which writes keep the keys of the rows distinct: changes that leave the keys as
they are, deletions, and the insertion of a row whose key no row has (`keys_nodup_apply`).
-/

import Mathlib.Data.List.Nodup
import Mathlib.Tactic.Common

namespace LiteHorse.TableWrites

variable {Row Id Key : Type*}

inductive Write (Row Id : Type*) where
  | insert (row : Row)
  | update (ids : List Id) (patch : Row → Row)
  | delete (ids : List Id)

namespace Write

variable [DecidableEq Id] (idOf : Row → Id) (keyOf : Row → Key)

/-- The rows that a transaction keeps from other writers until it is over. -/
def locked : Write Row Id → List Id
  | .insert _ => []
  | .update ids _ => ids
  | .delete ids => ids

def apply (rows : List Row) : Write Row Id → List Row
  | .insert row => rows ++ [row]
  | .update ids patch => rows.map fun row => if idOf row ∈ ids then patch row else row
  | .delete ids => rows.filter fun row => decide (idOf row ∉ ids)

/-- An inserted row has a new key, a changed one its old key. -/
def Fits (rows : List Row) : Write Row Id → Prop
  | .insert row => keyOf row ∉ rows.map keyOf
  | .update _ patch => ∀ row, keyOf (patch row) = keyOf row
  | .delete _ => True

variable {idOf keyOf} {rows : List Row}

theorem keys_nodup_insert_iff (idOf : Row → Id) (unique : (rows.map keyOf).Nodup) (row : Row) :
    (((Write.insert row : Write Row Id).apply idOf rows).map keyOf).Nodup ↔
      keyOf row ∉ rows.map keyOf := by
  rw [apply, List.map_append, List.map_singleton, ← List.concat_eq_append, List.nodup_concat]
  exact and_iff_left unique

theorem keys_update {patch : Row → Row} (same : ∀ row, keyOf (patch row) = keyOf row)
    (ids : List Id) :
    ((Write.update ids patch).apply idOf rows).map keyOf = rows.map keyOf := by
  rw [apply, List.map_map]
  congr 1
  funext row
  rw [Function.comp_apply]
  split
  · exact same row
  · rfl

theorem keys_nodup_apply (unique : (rows.map keyOf).Nodup) {write : Write Row Id}
    (fits : write.Fits keyOf rows) : ((write.apply idOf rows).map keyOf).Nodup := by
  cases write with
  | insert row => exact (keys_nodup_insert_iff idOf unique row).mpr fits
  | update ids patch =>
    rw [keys_update fits]
    exact unique
  | delete ids => exact unique.sublist (List.filter_sublist.map keyOf)

end Write

/-- Distinct keys leave one row of a key at most. -/
theorem length_filter_key [DecidableEq Key] {keyOf : Row → Key} {rows : List Row}
    (unique : (rows.map keyOf).Nodup) (key : Key) :
    (rows.filter fun row => decide (keyOf row = key)).length ≤ 1 := by
  have count := List.nodup_iff_count_le_one.mp unique key
  rw [List.count_eq_countP, List.countP_map, List.countP_eq_length_filter] at count
  refine le_of_eq_of_le (congrArg List.length (List.filter_congr fun row _ => ?_)) count
  rw [Function.comp_apply, beq_eq_decide]

end LiteHorse.TableWrites
