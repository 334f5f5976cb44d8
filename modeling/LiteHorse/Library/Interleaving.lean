/-
This file defines the interleavings of sequential threads: `Shuffle` merges two sequences,
keeping the order of each, and `Interleaves` merges a list of them.
-/

import Mathlib.Data.List.Basic
import Mathlib.Tactic.Common

namespace LiteHorse.Interleaving

variable {Action : Type*}

/-- The last list is a merge of the first two that keeps the order of each. -/
inductive Shuffle : List Action → List Action → List Action → Prop where
  | nil : Shuffle [] [] []
  | left (action : Action) {first second merged : List Action} :
      Shuffle first second merged → Shuffle (action :: first) second (action :: merged)
  | right (action : Action) {first second merged : List Action} :
      Shuffle first second merged → Shuffle first (action :: second) (action :: merged)

/-- A merge of the threads that keeps the order of each. -/
inductive Interleaves : List (List Action) → List Action → Prop where
  | nil : Interleaves [] []
  | cons {thread rest merged : List Action} {threads : List (List Action)} :
      Interleaves threads rest → Shuffle thread rest merged →
        Interleaves (thread :: threads) merged

theorem Shuffle.mem {first second merged : List Action} (shuffle : Shuffle first second merged)
    (action : Action) (member : action ∈ merged) : action ∈ first ∨ action ∈ second := by
  induction shuffle with
  | nil => exact Or.inl member
  | left head _ inductionHypothesis =>
    rcases List.mem_cons.mp member with rfl | later
    · exact Or.inl List.mem_cons_self
    · exact (inductionHypothesis later).imp_left (List.mem_cons_of_mem _)
  | right head _ inductionHypothesis =>
    rcases List.mem_cons.mp member with rfl | later
    · exact Or.inr List.mem_cons_self
    · exact (inductionHypothesis later).imp_right (List.mem_cons_of_mem _)

/-- Every action of an interleaving is an action of one of the threads. -/
theorem Interleaves.mem {threads : List (List Action)} {merged : List Action}
    (interleaving : Interleaves threads merged) (action : Action) (member : action ∈ merged) :
    ∃ thread ∈ threads, action ∈ thread := by
  induction interleaving with
  | nil => cases member
  | cons _ shuffle inductionHypothesis =>
    rcases shuffle.mem action member with own | later
    · exact ⟨_, List.mem_cons_self, own⟩
    · obtain ⟨thread, isThread, inThread⟩ := inductionHypothesis later
      exact ⟨thread, List.mem_cons_of_mem _ isThread, inThread⟩

theorem Shuffle.nil_right (thread : List Action) : Shuffle thread [] thread := by
  induction thread with
  | nil => exact Shuffle.nil
  | cons action _ inductionHypothesis => exact inductionHypothesis.left action

/-- The first sequence may start with actions of its own. -/
theorem Shuffle.prepend_left {first second merged : List Action}
    (shuffle : Shuffle first second merged) (actions : List Action) :
    Shuffle (actions ++ first) second (actions ++ merged) := by
  induction actions with
  | nil => exact shuffle
  | cons action _ inductionHypothesis => exact inductionHypothesis.left action

/-- One thread alone is its only interleaving. -/
theorem Interleaves.single (thread : List Action) : Interleaves [thread] thread :=
  Interleaves.nil.cons (Shuffle.nil_right thread)

end LiteHorse.Interleaving
