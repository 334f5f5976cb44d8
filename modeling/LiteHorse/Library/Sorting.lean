/-
This file is about sorting a list by a key, as `ORDER BY key` and a stable `sorted(.., key=..)`
do it. Beside the facts every sort has (it is a sorted permutation), it gives what a stable
sort does to the list operations of a table: appending a row inserts it behind every row
whose key is not larger, dropping rows drops them from the sorted list, and a second key
that agrees with the order of the list changes nothing.
-/

import Mathlib.Data.List.Sort
import Mathlib.Data.Prod.Lex

namespace LiteHorse.Sorting

variable {Value Other Key : Type*} [LinearOrder Key]

/-- The values in ascending order of their keys; values with equal keys keep their order. -/
def sortedBy (key : Value → Key) (values : List Value) : List Value :=
  values.insertionSort fun first second => key first ≤ key second

/-- Insert a value behind every value whose key is not larger. -/
def insertLate (key : Value → Key) (value : Value) : List Value → List Value
  | [] => [value]
  | head :: rest =>
    if key head ≤ key value then head :: insertLate key value rest else value :: head :: rest

@[simp]
theorem sortedBy_cons (key : Value → Key) (value : Value) (values : List Value) :
    sortedBy key (value :: values) =
      (sortedBy key values).orderedInsert (fun first second => key first ≤ key second) value :=
  rfl

theorem sortedBy_perm (key : Value → Key) (values : List Value) :
    (sortedBy key values).Perm values :=
  List.perm_insertionSort _ values

@[simp]
theorem mem_sortedBy (key : Value → Key) (values : List Value) (value : Value) :
    value ∈ sortedBy key values ↔ value ∈ values :=
  (sortedBy_perm key values).mem_iff

local instance totalKey (key : Value → Key) :
    Std.Total fun first second => key first ≤ key second :=
  ⟨fun first second => le_total (key first) (key second)⟩

local instance transKey (key : Value → Key) :
    IsTrans Value fun first second => key first ≤ key second :=
  ⟨fun _ _ _ firstLe secondLe => le_trans firstLe secondLe⟩

theorem sortedBy_pairwise (key : Value → Key) (values : List Value) :
    (sortedBy key values).Pairwise fun first second => key first ≤ key second :=
  List.pairwise_insertionSort _ values

theorem sortedBy_sortedBy (key : Value → Key) (values : List Value) :
    sortedBy key (sortedBy key values) = sortedBy key values :=
  (sortedBy_pairwise key values).insertionSort_eq

/-- Two sorted arrangements of the same values are equal when no two of the values share a
key. -/
theorem eq_of_perm_of_sorted (key : Value → Key) {first second : List Value}
    (perm : first.Perm second) (distinct : (second.map key).Nodup)
    (firstSorted : first.Pairwise fun a b => key a ≤ key b)
    (secondSorted : second.Pairwise fun a b => key a ≤ key b) : first = second := by
  refine perm.eq_of_pairwise (fun a b memberFirst memberSecond le ge => ?_) firstSorted
    secondSorted
  exact List.inj_on_of_nodup_map distinct (perm.mem_iff.mp memberFirst) memberSecond
    (le_antisymm le ge)

/-- The order in which values with distinct keys are given does not matter. -/
theorem sortedBy_eq_of_perm (key : Value → Key) {first second : List Value}
    (perm : first.Perm second) (distinct : (first.map key).Nodup) :
    sortedBy key first = sortedBy key second := by
  have sortedPerm : (sortedBy key first).Perm (sortedBy key second) :=
    (sortedBy_perm key first).trans (perm.trans (sortedBy_perm key second).symm)
  refine eq_of_perm_of_sorted key sortedPerm ?_ (sortedBy_pairwise key first)
    (sortedBy_pairwise key second)
  exact ((sortedBy_perm key second).map key).nodup_iff.mpr ((perm.map key).nodup_iff.mp distinct)

/-- Sorting commutes with a map that keeps the keys. -/
theorem map_sortedBy (key : Value → Key) (otherKey : Other → Key) (view : Value → Other)
    (values : List Value) (same : ∀ value ∈ values, otherKey (view value) = key value) :
    (sortedBy key values).map view = sortedBy otherKey (values.map view) := by
  refine List.map_insertionSort _ _ view values fun first firstMember second secondMember => ?_
  rw [same first firstMember, same second secondMember]

/-- Where the values come in ascending order of a second key, sorting by both keys is
sorting by the first. -/
theorem sortedBy_lex {Second : Type*} [LinearOrder Second] (key : Value → Key)
    (second : Value → Second) (values : List Value)
    (ascending : values.Pairwise fun a b => second a < second b) :
    sortedBy (fun value => toLex (key value, second value)) values = sortedBy key values := by
  induction values with
  | nil => rfl
  | cons value rest inductionHypothesis =>
    rw [List.pairwise_cons] at ascending
    rw [sortedBy_cons, sortedBy_cons, inductionHypothesis ascending.2]
    have same : ∀ other ∈ sortedBy key rest,
        (toLex (key value, second value) ≤ toLex (key other, second other)) ↔
          key value ≤ key other := by
      intro other member
      have before := ascending.1 other ((mem_sortedBy key rest other).mp member)
      rw [Prod.Lex.toLex_le_toLex]
      constructor
      · rintro (less | ⟨equal, _⟩)
        · exact less.le
        · exact equal.le
      · intro le
        rcases le.lt_or_eq with less | equal
        · exact Or.inl less
        · exact Or.inr ⟨equal, before.le⟩
    generalize sortedBy key rest = sorted at same
    induction sorted with
    | nil => rfl
    | cons head tail inner =>
      rw [List.orderedInsert_cons, List.orderedInsert_cons,
        inner fun other member => same other (List.mem_cons_of_mem _ member)]
      simp only [same head List.mem_cons_self]

/-! ### Table operations under a stable sort -/

theorem insertLate_orderedInsert (key : Value → Key) (first second : Value)
    (values : List Value) :
    (insertLate key second values).orderedInsert (fun a b => key a ≤ key b) first =
      insertLate key second (values.orderedInsert (fun a b => key a ≤ key b) first) := by
  induction values with
  | nil =>
    by_cases le : key first ≤ key second
    · simp [insertLate, le]
    · simp [insertLate, le]
  | cons head rest inductionHypothesis =>
    by_cases late : key head ≤ key second
    · by_cases early : key first ≤ key head
      · simp [insertLate, late, early, early.trans late]
      · simp [insertLate, late, early, inductionHypothesis]
    · by_cases early : key first ≤ key head
      · by_cases le : key first ≤ key second <;> simp [insertLate, late, early, le]
      · have notLe : ¬ key first ≤ key second := fun le =>
          early (le.trans (not_le.mp late).le)
        simp [insertLate, late, early, notLe]

/-- A value appended to the list comes behind every value whose key is not larger. -/
theorem sortedBy_append_singleton (key : Value → Key) (values : List Value) (value : Value) :
    sortedBy key (values ++ [value]) = insertLate key value (sortedBy key values) := by
  induction values with
  | nil => rfl
  | cons head rest inductionHypothesis =>
    rw [List.cons_append, sortedBy_cons, sortedBy_cons, inductionHypothesis,
      insertLate_orderedInsert]

theorem filter_orderedInsert (key : Value → Key) (keep : Value → Bool) (value : Value)
    (values : List Value) (sorted : values.Pairwise fun a b => key a ≤ key b) :
    (values.orderedInsert (fun a b => key a ≤ key b) value).filter keep =
      if keep value then (values.filter keep).orderedInsert (fun a b => key a ≤ key b) value
      else values.filter keep := by
  induction values with
  | nil => cases kept : keep value <;> simp [kept]
  | cons head rest inductionHypothesis =>
    rw [List.pairwise_cons] at sorted
    have step := inductionHypothesis sorted.2
    rw [List.orderedInsert_cons]
    by_cases le : key value ≤ key head
    · rw [if_pos le]
      have front : ∀ other ∈ (head :: rest).filter keep, key value ≤ key other := by
        intro other member
        rcases List.mem_cons.mp (List.mem_filter.mp member).1 with rfl | later
        · exact le
        · exact le.trans (sorted.1 other later)
      cases kept : keep value with
      | false => simp [kept]
      | true =>
        rw [List.filter_cons_of_pos kept, if_pos rfl]
        cases filtered : (head :: rest).filter keep with
        | nil => rfl
        | cons first others =>
          rw [List.orderedInsert_cons,
            if_pos (front first (by rw [filtered]; exact List.mem_cons_self))]
    · rw [if_neg le]
      cases keptHead : keep head with
      | false =>
        rw [List.filter_cons_of_neg (by simp [keptHead]), step,
          List.filter_cons_of_neg (by simp [keptHead])]
      | true =>
        rw [List.filter_cons_of_pos keptHead, step, List.filter_cons_of_pos keptHead]
        cases kept : keep value with
        | false => rfl
        | true => simp only [if_true, List.orderedInsert_cons, if_neg le]

/-- Dropping rows from the table drops them from the sorted list. -/
theorem filter_sortedBy (key : Value → Key) (keep : Value → Bool) (values : List Value) :
    (sortedBy key values).filter keep = sortedBy key (values.filter keep) := by
  induction values with
  | nil => rfl
  | cons value rest inductionHypothesis =>
    rw [sortedBy_cons, filter_orderedInsert key keep value _ (sortedBy_pairwise key rest),
      inductionHypothesis]
    cases kept : keep value with
    | false => simp [kept]
    | true => rw [List.filter_cons_of_pos kept, sortedBy_cons]; rfl

end LiteHorse.Sorting
