/-
This file is about going through a list and keeping each item unless it is near to one that is kept
already.

What is kept are items of the list in their order (`select_sublist`), none near to one before it
(`select_pairwise`), and what is dropped is near to one that was kept before it came
(`near_of_dropped`). The relation may be any: it need not be symmetric, and an item need not be
near to itself.
-/

import Mathlib.Data.List.Induction
import Mathlib.Data.List.Pairwise
import Mathlib.Tactic.Common

namespace LiteHorse.GreedySelection

variable {Item Source : Type*} (near : Item → Item → Bool)

/-- The items that are kept, after one more. -/
def step (kept : List Item) (next : Item) : List Item :=
  if kept.any (near next) then kept else kept ++ [next]

def select (items : List Item) : List Item := items.foldl (step near) []

variable {near} {items kept front back : List Item} {item : Item}

theorem step_cases (near : Item → Item → Bool) (kept : List Item) (item : Item) :
    ((∃ other ∈ kept, near item other = true) ∧ step near kept item = kept) ∨
      ((∀ other ∈ kept, near item other = false) ∧ step near kept item = kept ++ [item]) := by
  unfold step
  split
  next isNear => exact Or.inl ⟨List.any_eq_true.mp isNear, rfl⟩
  next isFar =>
    refine Or.inr ⟨fun other member => ?_, rfl⟩
    exact Bool.eq_false_iff.mpr fun isNear => isFar (List.any_eq_true.mpr ⟨other, member, isNear⟩)

theorem select_concat (items : List Item) (item : Item) :
    select near (items ++ [item]) = step near (select near items) item :=
  List.foldl_append ..

variable (near) in
/-- What is kept stays kept. -/
theorem select_append (front back : List Item) :
    select near front <+: select near (front ++ back) := by
  induction back using List.reverseRecOn with
  | nil =>
    refine ⟨[], ?_⟩
    rw [List.append_nil, List.append_nil]
  | append_singleton back item inductionHypothesis =>
    rw [← List.append_assoc, select_concat]
    refine inductionHypothesis.trans ?_
    rcases step_cases near (select near (front ++ back)) item with ⟨_, same⟩ | ⟨_, same⟩
    · exact ⟨[], (List.append_nil _).trans same.symm⟩
    · rw [same]
      exact List.prefix_append _ _

/-- The first item is compared with none. -/
theorem select_cons (first : Item) (rest : List Item) :
    ∃ others, select near (first :: rest) = first :: others := by
  obtain ⟨others, isKept⟩ := select_append near [first] rest
  exact ⟨others, isKept.symm⟩

theorem select_sublist (items : List Item) : (select near items).Sublist items := by
  induction items using List.reverseRecOn with
  | nil => exact List.Sublist.slnil
  | append_singleton items item inductionHypothesis =>
    rw [select_concat]
    rcases step_cases near (select near items) item with ⟨_, same⟩ | ⟨_, same⟩
    · rw [same]
      exact inductionHypothesis.trans (List.sublist_append_left _ _)
    · rw [same]
      exact inductionHypothesis.append_right _

theorem select_pairwise (items : List Item) :
    (select near items).Pairwise fun first second => near second first = false := by
  induction items using List.reverseRecOn with
  | nil => exact List.Pairwise.nil
  | append_singleton items item inductionHypothesis =>
    rw [select_concat]
    rcases step_cases near (select near items) item with ⟨_, same⟩ | ⟨isFar, same⟩
    · rw [same]
      exact inductionHypothesis
    · rw [same, List.pairwise_append]
      refine ⟨inductionHypothesis, List.pairwise_singleton _ _, ?_⟩
      intro first isFirst second isLast
      rw [List.mem_singleton.mp isLast]
      exact isFar first isFirst

/-- Where nearness is symmetric, no two that are kept are near to each other. -/
theorem select_apart (symmetric : ∀ first second, near first second = near second first)
    {first second : Item} (isFirst : first ∈ select near items)
    (isSecond : second ∈ select near items) (different : first ≠ second) :
    near first second = false := by
  have : Std.Symm fun first second => near second first = false :=
    ⟨fun first second isFar => (symmetric first second).trans isFar⟩
  exact (select_pairwise items).forall isSecond isFirst different.symm

theorem near_of_dropped (dropped : item ∉ select near (front ++ item :: back)) :
    ∃ other ∈ select near front, near item other = true := by
  rcases step_cases near (select near front) item with ⟨isNear, _⟩ | ⟨_, isKept⟩
  · exact isNear
  · -- An item that is kept when it comes is still kept at the end.
    have stays := select_append near (front ++ [item]) back
    rw [select_concat, isKept, List.append_assoc, List.singleton_append] at stays
    exact absurd (stays.subset (List.mem_append_right _ (List.mem_singleton_self item))) dropped

/-- What an item is made of does not matter, but for what it is near to. -/
theorem select_map (made : Source → Item) (sources : List Source) :
    select near (sources.map made) =
      (select (fun next other => near (made next) (made other)) sources).map made := by
  induction sources using List.reverseRecOn with
  | nil => rfl
  | append_singleton sources source inductionHypothesis =>
    rw [List.map_append, List.map_singleton, select_concat, select_concat, inductionHypothesis]
    unfold step
    rw [List.any_map, apply_ite (List.map made), List.map_append]
    rfl

end LiteHorse.GreedySelection
