/-
This file is about a window that slides over the positions of a sequence: each window but the last
has full length, and the next one starts so that the two overlap.

The windows cover the sequence: a stretch that is no longer than the overlap lies in one of them
(`covered`).
-/

import Mathlib.Data.List.Chain
import Mathlib.Tactic.Common

namespace LiteHorse.SlidingWindows

/-- The positions from a start to a stop, which is left out. -/
structure Span where
  start : Nat
  stop : Nat
deriving DecidableEq

/-- The windows from a start on. A window starts at least one position after the one before it. -/
def spansFrom (window overlap length start : Nat) : List Span :=
  if start < length then
    let stop := min (start + window) length
    if stop = length then [⟨start, stop⟩]
    else ⟨start, stop⟩ :: spansFrom window overlap length (max (stop - overlap) (start + 1))
  else []
termination_by length - start

/-- The items at the positions of a span. -/
def slice {Item : Type*} (items : List Item) (span : Span) : List Item :=
  (items.drop span.start).take (span.stop - span.start)

section Spans

variable {window overlap length start first last : Nat} {span : Span}

theorem head_spansFrom (isFirst : (spansFrom window overlap length start).head? = some span) :
    span = ⟨start, min (start + window) length⟩ := by
  unfold spansFrom at isFirst
  split at isFirst
  · dsimp only at isFirst
    split at isFirst
    · cases isFirst
      rfl
    · cases isFirst
      rfl
  · cases isFirst

theorem spansFrom_ne_nil (inside : start < length) :
    spansFrom window overlap length start ≠ [] := by
  unfold spansFrom
  rw [if_pos inside]
  dsimp only
  split
  · exact List.cons_ne_nil _ _
  · exact List.cons_ne_nil _ _

theorem stop_of_last (positive : 0 < window)
    (isLast : (spansFrom window overlap length start).getLast? = some span) :
    span.stop = length := by
  fun_induction spansFrom window overlap length start with
  | case1 start inside stop atEnd =>
    cases isLast
    exact atEnd
  | case2 start inside stop notAtEnd inductionHypothesis =>
    have isStop : stop = min (start + window) length := rfl
    clear_value stop
    have goesOn : max (stop - overlap) (start + 1) < length := by omega
    have notEmpty : spansFrom window overlap length (max (stop - overlap) (start + 1)) ≠ [] :=
      spansFrom_ne_nil goesOn
    obtain ⟨next, rest, isCons⟩ := List.exists_cons_of_ne_nil notEmpty
    rw [isCons] at isLast inductionHypothesis
    rw [List.getLast?_cons_cons] at isLast
    exact inductionHypothesis isLast
  | case3 start outside => cases isLast

theorem bounds_of_mem (positive : 0 < window)
    (member : span ∈ spansFrom window overlap length start) :
    start ≤ span.start ∧ span.start < span.stop ∧ span.stop ≤ length ∧
      span.stop ≤ span.start + window := by
  fun_induction spansFrom window overlap length start with
  | case1 start inside stop atEnd =>
    cases List.mem_singleton.mp member
    dsimp only
    omega
  | case2 start inside stop notAtEnd inductionHypothesis =>
    rcases List.mem_cons.mp member with same | later
    · cases same
      dsimp only
      omega
    · obtain ⟨starts, bounds⟩ := inductionHypothesis later
      exact ⟨by omega, bounds⟩
  | case3 start outside => cases member

/-- Consecutive windows overlap in as many positions as they should, and each goes on where the
one before it ends. -/
theorem overlaps (shorter : overlap < window) :
    (spansFrom window overlap length start).IsChain fun span next =>
      span.start < next.start ∧ span.stop = next.start + overlap ∧ span.stop < next.stop := by
  fun_induction spansFrom window overlap length start with
  | case1 start inside stop atEnd => exact List.isChain_singleton _
  | case2 start inside stop notAtEnd inductionHypothesis =>
    refine List.isChain_cons.mpr ⟨fun next isNext => ?_, inductionHypothesis⟩
    rw [head_spansFrom isNext]
    dsimp only
    omega
  | case3 start outside => exact List.isChain_nil

theorem length_spansFrom : (spansFrom window overlap length start).length ≤ length - start := by
  fun_induction spansFrom window overlap length start with
  | case1 start inside stop atEnd =>
    rw [List.length_singleton]
    omega
  | case2 start inside stop notAtEnd inductionHypothesis =>
    rw [List.length_cons]
    omega
  | case3 start outside => exact Nat.zero_le _

/-- A stretch that is no longer than the overlap lies in a window. -/
theorem covered (shorter : overlap < window) (inside : start < length) (starts : start ≤ first)
    (stops : last ≤ length) (short : last ≤ first + overlap) :
    ∃ span ∈ spansFrom window overlap length start, span.start ≤ first ∧ last ≤ span.stop := by
  fun_induction spansFrom window overlap length start with
  | case1 start inside stop atEnd =>
    exact ⟨_, List.mem_singleton_self _, starts, atEnd.symm ▸ stops⟩
  | case2 start inside stop notAtEnd inductionHypothesis =>
    have isStop : stop = min (start + window) length := rfl
    clear_value stop
    have goesOn : max (stop - overlap) (start + 1) < length := by
      clear inductionHypothesis
      omega
    by_cases later : max (stop - overlap) (start + 1) ≤ first
    · obtain ⟨span, member, holds⟩ := inductionHypothesis goesOn later
      exact ⟨span, List.mem_cons_of_mem _ member, holds⟩
    · refine ⟨_, List.mem_cons_self, starts, ?_⟩
      dsimp only
      omega
  | case3 start outside => exact absurd inside outside

end Spans

/-! ### Items -/

section Items

variable {Item : Type*} {span : Span}

theorem slice_map {Image : Type*} (image : Item → Image) (items : List Item) (span : Span) :
    slice (items.map image) span = (slice items span).map image := by
  unfold slice
  rw [← List.map_drop, ← List.map_take]

theorem slice_isInfix (items : List Item) (span : Span) : slice items span <:+: items :=
  (List.take_prefix _ _).isInfix.trans (List.drop_suffix _ _).isInfix

theorem take_stop (items : List Item) (forward : span.start ≤ span.stop) :
    items.take span.stop = items.take span.start ++ slice items span := by
  unfold slice
  rw [← List.take_add, Nat.add_sub_cancel' forward]

theorem take_append_slice (items : List Item) (forward : span.start ≤ span.stop) :
    items.take span.start ++ (slice items span ++ items.drop span.stop) = items := by
  rw [← List.append_assoc, ← take_stop items forward, List.take_append_drop]

/-- What stands at positions inside of a span is in its slice. -/
theorem infix_slice {front part back : List Item} (starts : span.start ≤ front.length)
    (stops : front.length + part.length ≤ span.stop) :
    ∃ before after, slice (front ++ (part ++ back)) span = before ++ (part ++ after) := by
  refine ⟨front.drop span.start,
    back.take (span.stop - (front.length + part.length)), ?_⟩
  have lengthDrop : (front.drop span.start).length = front.length - span.start :=
    List.length_drop
  unfold slice
  rw [List.drop_append_of_le_length starts, List.take_append, List.take_append,
    List.take_of_length_le (by omega), List.take_of_length_le (by omega), lengthDrop]
  have sameLength : span.stop - span.start - (front.length - span.start) - part.length =
      span.stop - (front.length + part.length) := by omega
  rw [sameLength]

end Items

end LiteHorse.SlidingWindows
