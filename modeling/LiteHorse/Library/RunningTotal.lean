/-
This file is about a counter that positive amounts are added to. Its log has an entry for each
addition, with the total that the counter has come to.

The totals of a log are all different (`Log.eq_of_total_eq`), and of the entries that take the
counter across a positive threshold there is one if the sum has reached it, and never two
(`Log.eq_of_crosses`, `Log.exists_crosses_iff`).
-/

import Mathlib.Algebra.BigOperators.Group.List.Basic
import Mathlib.Algebra.Order.Ring.Int
import Mathlib.Tactic.Common

namespace LiteHorse.RunningTotal

variable {Id : Type*}

structure Entry (Id : Type*) where
  id : Id
  amount : Int
  total : Int

/-- The counter before the amount was added. -/
def Entry.before (entry : Entry Id) : Int := entry.total - entry.amount

/-- The addition takes the counter across the threshold. -/
def Entry.Crosses (threshold : Int) (entry : Entry Id) : Prop :=
  entry.before < threshold ∧ threshold ≤ entry.total

instance (threshold : Int) (entry : Entry Id) : Decidable (entry.Crosses threshold) :=
  inferInstanceAs (Decidable (_ ∧ _))

def sum (log : List (Entry Id)) : Int := (log.map Entry.amount).sum

/-- A log of positive additions under different names, each with its running total. -/
inductive Log : List (Entry Id) → Prop where
  | nil : Log []
  | concat {log : List (Entry Id)} (id : Id) (amount : Int) (logged : Log log)
      (fresh : ∀ entry ∈ log, entry.id ≠ id) (positive : 0 < amount) :
      Log (log ++ [{ id, amount, total := sum log + amount }])

theorem sum_concat (log : List (Entry Id)) (entry : Entry Id) :
    sum (log ++ [entry]) = sum log + entry.amount := by
  unfold sum
  rw [List.map_append, List.sum_append, List.map_singleton, List.sum_singleton]

theorem mem_concat {log : List (Entry Id)} {last entry : Entry Id} :
    entry ∈ log ++ [last] ↔ entry ∈ log ∨ entry = last := by
  rw [List.mem_append, List.mem_singleton]

section Log

variable {log : List (Entry Id)} {entry other : Entry Id} {threshold : Int}

/-- An entry counts what was added up to it. -/
theorem Log.total_eq (logged : Log log) :
    ∀ earlier later, log = earlier ++ entry :: later →
      entry.total = sum earlier + entry.amount := by
  induction logged with
  | nil => exact fun earlier later isSplit => absurd isSplit (by simp)
  | @concat log id amount _ _ _ inductionHypothesis =>
    intro earlier later isSplit
    rcases List.eq_nil_or_concat' later with rfl | ⟨front, last, rfl⟩
    · obtain ⟨rfl, same⟩ := List.append_inj' isSplit rfl
      rw [← List.head_eq_of_cons_eq same]
    · rw [← List.cons_append, ← List.append_assoc] at isSplit
      exact inductionHypothesis earlier front (List.append_inj' isSplit rfl).1

theorem Log.sum_nonneg (logged : Log log) : 0 ≤ sum log := by
  induction logged with
  | nil => exact Int.le_refl 0
  | concat id amount _ _ positive inductionHypothesis =>
    rw [sum_concat]
    exact Int.add_nonneg inductionHypothesis (Int.le_of_lt positive)

/-- The totals lie between zero and the sum. -/
theorem Log.bounds (logged : Log log) (member : entry ∈ log) :
    0 ≤ entry.before ∧ entry.before < entry.total ∧ entry.total ≤ sum log := by
  induction logged with
  | nil => cases member
  | @concat log id amount logged _ positive inductionHypothesis =>
    rw [sum_concat]
    dsimp only
    rcases mem_concat.mp member with earlier | rfl
    · obtain ⟨start, grows, atMost⟩ := inductionHypothesis earlier
      exact ⟨start, grows, by omega⟩
    · have start := logged.sum_nonneg
      unfold Entry.before
      dsimp only
      omega

/-- No two entries come to the same total. -/
theorem Log.eq_of_total_eq (logged : Log log) (member : entry ∈ log) (otherMember : other ∈ log)
    (same : entry.total = other.total) : entry = other := by
  induction logged with
  | nil => cases member
  | concat id amount logged _ positive inductionHypothesis =>
    rcases mem_concat.mp member with earlier | rfl
    · rcases mem_concat.mp otherMember with otherEarlier | rfl
      · exact inductionHypothesis earlier otherEarlier
      · have atMost := (logged.bounds earlier).2.2
        dsimp only at same
        omega
    · rcases mem_concat.mp otherMember with otherEarlier | rfl
      · have atMost := (logged.bounds otherEarlier).2.2
        dsimp only at same
        omega
      · rfl

theorem Log.eq_of_id_eq (logged : Log log) (member : entry ∈ log) (otherMember : other ∈ log)
    (same : entry.id = other.id) : entry = other := by
  induction logged with
  | nil => cases member
  | concat id amount _ fresh _ inductionHypothesis =>
    rcases mem_concat.mp member with earlier | rfl
    · rcases mem_concat.mp otherMember with otherEarlier | rfl
      · exact inductionHypothesis earlier otherEarlier
      · exact absurd same (fresh entry earlier)
    · rcases mem_concat.mp otherMember with otherEarlier | rfl
      · exact absurd same.symm (fresh other otherEarlier)
      · rfl

theorem Log.totals_nodup (logged : Log log) : (log.map Entry.total).Nodup := by
  induction logged with
  | nil => exact List.nodup_nil
  | concat id amount logged _ positive inductionHypothesis =>
    rw [List.map_append, List.map_singleton]
    refine List.nodup_append.mpr ⟨inductionHypothesis, List.pairwise_singleton _ _, ?_⟩
    rintro total isEarlier last isLast rfl
    obtain ⟨entry, member, rfl⟩ := List.mem_map.mp isEarlier
    have atMost := (logged.bounds member).2.2
    have isSum := List.mem_singleton.mp isLast
    dsimp only at isSum
    omega

/-- The threshold is crossed once at most. -/
theorem Log.eq_of_crosses (logged : Log log) (member : entry ∈ log) (otherMember : other ∈ log)
    (crosses : entry.Crosses threshold) (otherCrosses : other.Crosses threshold) :
    entry = other := by
  induction logged with
  | nil => cases member
  | concat id amount logged _ positive inductionHypothesis =>
    unfold Entry.Crosses Entry.before at *
    rcases mem_concat.mp member with earlier | rfl
    · rcases mem_concat.mp otherMember with otherEarlier | rfl
      · exact inductionHypothesis earlier otherEarlier
      · have atMost := (logged.bounds earlier).2.2
        dsimp only at otherCrosses
        omega
    · rcases mem_concat.mp otherMember with otherEarlier | rfl
      · have atMost := (logged.bounds otherEarlier).2.2
        dsimp only at crosses
        omega
      · rfl

/-- A positive threshold was crossed exactly if the sum has reached it. -/
theorem Log.exists_crosses_iff (logged : Log log) (positive : 0 < threshold) :
    (∃ entry ∈ log, entry.Crosses threshold) ↔ threshold ≤ sum log := by
  refine ⟨fun ⟨entry, member, crosses⟩ => Int.le_trans crosses.2 (logged.bounds member).2.2, ?_⟩
  induction logged with
  | nil => exact fun reached => absurd positive (Int.not_lt.mpr reached)
  | @concat log id amount logged _ _ inductionHypothesis =>
    intro reached
    rw [sum_concat] at reached
    by_cases before : threshold ≤ sum log
    · obtain ⟨entry, member, crosses⟩ := inductionHypothesis before
      exact ⟨entry, List.mem_append_left _ member, crosses⟩
    · refine ⟨_, List.mem_append_right _ List.mem_cons_self, ?_, reached⟩
      unfold Entry.before
      dsimp only
      omega

end Log

end LiteHorse.RunningTotal
