/-
This file is about counters that are kept beside what they count: headers with a number each, and
the number of rows that belong to a header. A change of the rows of one key goes with a change of
the numbers of some headers of that key, and the file says exactly when the two agree
(`counts_update_iff`): on every header of the key, the number the change makes of the old rows is
the number of the new ones.
-/

import Mathlib.Data.List.Basic
import Mathlib.Tactic.Common

namespace LiteHorse.CountedRows

variable {Header Key : Type*}

/-- A number that a header keeps, and how it is set. -/
structure Counter (Header Key : Type*) where
  key : Header → Key
  count : Header → Int
  setCount : Header → Int → Header
  key_setCount : ∀ header number, key (setCount header number) = key header
  count_setCount : ∀ header number, count (setCount header number) = number

namespace Counter

variable (counter : Counter Header Key) {headers : List Header} {rows after : Key → Nat}

/-- Every header keeps the number of its rows. -/
def Counts (headers : List Header) (rows : Key → Nat) : Prop :=
  ∀ header ∈ headers, counter.count header = rows (counter.key header)

/-- The numbers of the headers that are reached change. -/
def update (reached : Header → Prop) [DecidablePred reached] (change : Int → Int)
    (headers : List Header) : List Header :=
  headers.map fun header =>
    if reached header then counter.setCount header (change (counter.count header)) else header

variable {reached : Header → Prop} [DecidablePred reached] {change : Int → Int}

theorem map_key_update : (counter.update reached change headers).map counter.key =
    headers.map counter.key := by
  unfold update
  rw [List.map_map]
  refine List.map_congr_left fun header _ => ?_
  show counter.key (if _ then _ else _) = _
  split
  · exact counter.key_setCount _ _
  · rfl

/-- A header that is added counts nothing else. -/
theorem counts_append_iff (counts : counter.Counts headers rows) (header : Header) :
    counter.Counts (headers ++ [header]) rows ↔
      counter.count header = rows (counter.key header) := by
  unfold Counts
  rw [List.forall_mem_append, List.forall_mem_singleton]
  exact and_iff_right counts

/-- The rows of one key change, and with them the numbers of the headers that are reached. -/
theorem counts_update_iff {target : Key} (counts : counter.Counts headers rows)
    (others : ∀ key, key ≠ target → after key = rows key)
    (reachesTarget : ∀ header, reached header → counter.key header = target) :
    counter.Counts (counter.update reached change headers) after ↔
      ∀ header ∈ headers, counter.key header = target →
        (if reached header then change (rows target) else rows target) = (after target : Int) := by
  unfold Counts update
  rw [List.forall_mem_map]
  refine forall₂_congr fun header member => ?_
  have held := counts header member
  by_cases isTarget : counter.key header = target
  · by_cases isReached : reached header
    · rw [if_pos isReached, if_pos isReached, counter.count_setCount, counter.key_setCount, held,
        isTarget]
      exact ⟨fun same _ => same, fun same => same rfl⟩
    · rw [if_neg isReached, if_neg isReached, held, isTarget]
      exact ⟨fun same _ => same, fun same => same rfl⟩
  · have notReached : ¬ reached header := fun isReached =>
      isTarget (reachesTarget header isReached)
    rw [if_neg notReached, held, others _ isTarget]
    exact iff_of_true rfl fun other => absurd other isTarget

end Counter

end LiteHorse.CountedRows
