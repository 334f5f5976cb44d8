/-
This file is about searching a text for a pattern: a sequence of symbols and of runs of
symbols, each from a class, with parts that may be absent. A matcher gives what a match leaves
of the text, for every match from its start, and a search tries every start.

The search finds exactly the texts with a part that matches (`found_iff`). So whoever has the
pattern in a part of a text has it in the text (`found_of_inside`).
-/

import Mathlib.Data.List.Infix
import Mathlib.Tactic.Common

namespace LiteHorse.Patterns

inductive Pattern (Symbol : Type*) where
  /-- One symbol of a class. -/
  | one (accepts : Symbol → Bool)
  /-- Any number of symbols of a class. -/
  | many (accepts : Symbol → Bool)
  | optional (pattern : Pattern Symbol)
  | seq (first second : Pattern Symbol)

variable {Symbol : Type*}

/-- What is left of the text after some of the symbols of a class at its start. -/
def manyRests (accepts : Symbol → Bool) : List Symbol → List (List Symbol)
  | [] => [[]]
  | symbol :: rest =>
    if accepts symbol then (symbol :: rest) :: manyRests accepts rest else [symbol :: rest]

namespace Pattern

def sequence : List (Pattern Symbol) → Pattern Symbol
  | [] => many fun _ => false
  | pattern :: rest => seq pattern (sequence rest)

/-- What the matches at the start of a text leave of it. -/
def rests : Pattern Symbol → List Symbol → List (List Symbol)
  | one _, [] => []
  | one accepts, symbol :: rest => if accepts symbol then [rest] else []
  | many accepts, text => manyRests accepts text
  | optional pattern, text => text :: pattern.rests text
  | seq first second, text => (first.rests text).flatMap second.rests

def found (pattern : Pattern Symbol) (text : List Symbol) : Bool :=
  text.tails.any fun suffix => !(pattern.rests suffix).isEmpty

/-- The whole text is a match. -/
def Matches : Pattern Symbol → List Symbol → Prop
  | one accepts, text => ∃ symbol, accepts symbol ∧ text = [symbol]
  | many accepts, text => ∀ symbol ∈ text, accepts symbol
  | optional pattern, text => text = [] ∨ pattern.Matches text
  | seq first second, text => ∃ left right, text = left ++ right ∧ first.Matches left ∧
      second.Matches right

end Pattern

variable {pattern : Pattern Symbol} {accepts : Symbol → Bool} {text rest part : List Symbol}

theorem mem_manyRests_iff :
    rest ∈ manyRests accepts text ↔
      ∃ matched, text = matched ++ rest ∧ ∀ symbol ∈ matched, accepts symbol := by
  induction text with
  | nil =>
    refine List.mem_singleton.trans ⟨fun isEmpty => ⟨[], isEmpty.symm, ?_⟩, ?_⟩
    · exact fun symbol member => absurd member List.not_mem_nil
    · rintro ⟨matched, whole, _⟩
      exact (List.append_eq_nil_iff.mp whole.symm).2
  | cons first more inductionHypothesis =>
    have taken : (∃ matched, first :: more = matched ++ rest ∧
        ∀ symbol ∈ matched, accepts symbol) ↔
          rest = first :: more ∨ accepts first ∧
            ∃ matched, more = matched ++ rest ∧ ∀ symbol ∈ matched, accepts symbol := by
      constructor
      · rintro ⟨matched, whole, accepted⟩
        cases matched with
        | nil => exact Or.inl whole.symm
        | cons head tail =>
          obtain ⟨rfl, same⟩ := List.cons.inj whole
          rw [List.forall_mem_cons] at accepted
          exact Or.inr ⟨accepted.1, tail, same, accepted.2⟩
      · rintro (same | ⟨acceptsFirst, matched, whole, accepted⟩)
        · exact ⟨[], same.symm, fun symbol member => absurd member List.not_mem_nil⟩
        · exact ⟨first :: matched, congrArg (first :: ·) whole,
            List.forall_mem_cons.mpr ⟨acceptsFirst, accepted⟩⟩
    rw [taken, ← inductionHypothesis]
    rw [manyRests]
    split
    next acceptsFirst => rw [List.mem_cons, and_iff_right acceptsFirst]
    next rejects => rw [List.mem_singleton, or_iff_left fun other => rejects other.1]

theorem mem_rests_iff :
    rest ∈ pattern.rests text ↔ ∃ matched, text = matched ++ rest ∧ pattern.Matches matched := by
  induction pattern generalizing text rest with
  | one accepts =>
    cases text with
    | nil =>
      refine ⟨fun member => absurd member List.not_mem_nil, ?_⟩
      rintro ⟨matched, whole, symbol, _, rfl⟩
      cases whole
    | cons first more =>
      unfold Pattern.rests
      constructor
      · split
        next acceptsFirst =>
          intro member
          rw [List.mem_singleton.mp member]
          exact ⟨[first], rfl, first, acceptsFirst, rfl⟩
        next => exact fun member => absurd member List.not_mem_nil
      · rintro ⟨matched, whole, symbol, acceptsSymbol, rfl⟩
        obtain ⟨rfl, rfl⟩ := List.cons.inj whole
        rw [if_pos acceptsSymbol]
        exact List.mem_singleton_self more
  | many accepts => exact mem_manyRests_iff
  | optional pattern inductionHypothesis =>
    refine List.mem_cons.trans ?_
    rw [inductionHypothesis]
    constructor
    · rintro (same | ⟨matched, whole, isMatch⟩)
      · exact ⟨[], same.symm, Or.inl rfl⟩
      · exact ⟨matched, whole, Or.inr isMatch⟩
    · rintro ⟨matched, whole, rfl | isMatch⟩
      · exact Or.inl whole.symm
      · exact Or.inr ⟨matched, whole, isMatch⟩
  | seq first second firstHypothesis secondHypothesis =>
    refine List.mem_flatMap.trans ?_
    constructor
    · rintro ⟨between, firstMember, secondMember⟩
      obtain ⟨left, rfl, firstMatch⟩ := firstHypothesis.mp firstMember
      obtain ⟨right, rfl, secondMatch⟩ := secondHypothesis.mp secondMember
      exact ⟨left ++ right, (List.append_assoc ..).symm, left, right, rfl, firstMatch, secondMatch⟩
    · rintro ⟨matched, whole, left, right, rfl, firstMatch, secondMatch⟩
      refine ⟨right ++ rest, firstHypothesis.mpr ⟨left, ?_, firstMatch⟩,
        secondHypothesis.mpr ⟨right, rfl, secondMatch⟩⟩
      rw [whole, List.append_assoc]

theorem found_iff :
    pattern.found text ↔ ∃ matched, matched <:+: text ∧ pattern.Matches matched := by
  unfold Pattern.found
  rw [List.any_eq_true]
  constructor
  · rintro ⟨suffix, isSuffix, nonempty⟩
    rw [List.mem_tails] at isSuffix
    cases left : pattern.rests suffix with
    | nil =>
      rw [left] at nonempty
      cases nonempty
    | cons rest others =>
      obtain ⟨matched, rfl, isMatch⟩ := mem_rests_iff.mp (left ▸ List.mem_cons_self)
      exact ⟨matched, (List.prefix_append matched rest).isInfix.trans isSuffix.isInfix, isMatch⟩
  · rintro ⟨matched, ⟨before, after, rfl⟩, isMatch⟩
    refine ⟨matched ++ after, (List.mem_tails ..).mpr ?_, ?_⟩
    · rw [List.append_assoc]
      exact List.suffix_append before _
    · have left : after ∈ pattern.rests (matched ++ after) :=
        mem_rests_iff.mpr ⟨matched, rfl, isMatch⟩
      rw [List.isEmpty_eq_false_iff.mpr (List.ne_nil_of_mem left)]
      rfl

theorem found_of_inside (inside : part <:+: text) (found : pattern.found part) :
    pattern.found text := by
  obtain ⟨matched, isInfix, isMatch⟩ := found_iff.mp found
  exact found_iff.mpr ⟨matched, isInfix.trans inside, isMatch⟩

/-! ### Texts of one symbol -/

/-- A match may be made of the given symbol alone. -/
def Pattern.repeats (symbol : Symbol) : Pattern Symbol → Bool
  | one accepts => accepts symbol
  | many _ => true
  | optional _ => true
  | seq first second => first.repeats symbol && second.repeats symbol

theorem repeats_of_matches {symbol : Symbol} (isMatch : pattern.Matches text)
    (only : ∀ other ∈ text, other = symbol) : pattern.repeats symbol = true := by
  induction pattern generalizing text with
  | one accepts =>
    obtain ⟨other, accepted, rfl⟩ := isMatch
    exact only other (List.mem_singleton_self other) ▸ accepted
  | many accepts => rfl
  | optional pattern => rfl
  | seq first second firstHypothesis secondHypothesis =>
    obtain ⟨left, right, rfl, firstMatch, secondMatch⟩ := isMatch
    rw [List.forall_mem_append] at only
    exact Bool.and_eq_true_iff.mpr
      ⟨firstHypothesis firstMatch only.1, secondHypothesis secondMatch only.2⟩

/-- Where every match has another symbol, a text of one symbol has none. -/
theorem not_found_replicate {symbol : Symbol} (refuses : pattern.repeats symbol = false)
    (count : Nat) : ¬ pattern.found (List.replicate count symbol) := by
  intro found
  obtain ⟨matched, inside, isMatch⟩ := found_iff.mp found
  have repeated := repeats_of_matches isMatch fun other member =>
    List.eq_of_mem_replicate (inside.subset member)
  exact Bool.false_ne_true (refuses.symm.trans repeated)

end LiteHorse.Patterns
