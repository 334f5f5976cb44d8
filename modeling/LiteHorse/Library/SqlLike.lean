/-
This file is about `LIKE` of SQL: a pattern of symbols, of wildcards for one symbol and for any
number of symbols, and of escaped symbols. Which symbols a database takes for the same is part of
its dialect.

A pattern that begins with symbols only and ends with the wildcard for any number finds the texts
that begin with the same symbols (`like_plain_iff`). Where nothing is escaped, any beginning finds
itself (`like_of_prefix`).
-/

import LiteHorse.Library.Patterns

namespace LiteHorse.SqlLike

open Patterns

variable {Symbol : Type} [DecidableEq Symbol]

structure Dialect (Symbol : Type) where
  /-- The wildcard for any number of symbols. -/
  anyRun : Symbol
  /-- The wildcard for one symbol. -/
  anyOne : Symbol
  escape : Option Symbol
  /-- A symbol of a pattern is taken for a symbol of a text. -/
  same : Symbol → Symbol → Bool

variable (dialect : Dialect Symbol)

/-- A symbol of a pattern that is not escaped. -/
def symbolPattern (symbol : Symbol) : Pattern Symbol :=
  if symbol = dialect.anyRun then .many fun _ => true
  else .one fun other => symbol = dialect.anyOne || dialect.same symbol other

/-- The patterns of a `LIKE` pattern. An escape that ends it stands for itself. -/
def likePatterns : List Symbol → List (Pattern Symbol)
  | [] => []
  | [symbol] => [symbolPattern dialect symbol]
  | symbol :: next :: rest =>
    if dialect.escape = some symbol then .one (dialect.same next) :: likePatterns rest
    else symbolPattern dialect symbol :: likePatterns (next :: rest)

/-- `text LIKE pattern` -/
def like (pattern text : List Symbol) : Bool :=
  ((Pattern.sequence (likePatterns dialect pattern)).rests text).contains []

variable {dialect} {front text : List Symbol} {symbol : Symbol}

/-- The symbol is no wildcard and escapes nothing. -/
def IsPlain (dialect : Dialect Symbol) (symbol : Symbol) : Prop :=
  symbol ≠ dialect.anyRun ∧ symbol ≠ dialect.anyOne ∧ dialect.escape ≠ some symbol

theorem like_iff (pattern : List Symbol) :
    like dialect pattern text = true ↔
      (Pattern.sequence (likePatterns dialect pattern)).Matches text := by
  unfold like
  rw [List.contains_iff_mem, mem_rests_iff]
  constructor
  · rintro ⟨matched, whole, isMatch⟩
    rw [whole, List.append_nil]
    exact isMatch
  · exact fun isMatch => ⟨text, (List.append_nil text).symm, isMatch⟩

/-- A symbol that escapes nothing is a pattern of its own. -/
theorem likePatterns_cons (notEscape : dialect.escape ≠ some symbol) (pattern : List Symbol) :
    likePatterns dialect (symbol :: pattern) =
      symbolPattern dialect symbol :: likePatterns dialect pattern := by
  cases pattern with
  | nil => rfl
  | cons next rest => rw [likePatterns, if_neg notEscape]

theorem like_cons (notEscape : dialect.escape ≠ some symbol) (pattern : List Symbol) :
    like dialect (symbol :: pattern) text = true ↔
      ∃ left right, text = left ++ right ∧ (symbolPattern dialect symbol).Matches left ∧
        like dialect pattern right = true := by
  rw [like_iff, likePatterns_cons notEscape]
  exact exists_congr fun left => exists_congr fun right =>
    and_congr_right fun _ => and_congr_right fun _ => (like_iff pattern).symm

/-- The wildcard for any number of symbols finds everything. -/
theorem like_anyRun : like dialect [dialect.anyRun] text = true := by
  rw [like_iff]
  refine ⟨text, [], (List.append_nil text).symm, ?_, ?_⟩
  · unfold symbolPattern
    rw [if_pos rfl]
    exact fun _ _ => rfl
  · exact fun _ member => absurd member List.not_mem_nil

/-- A symbol that is no wildcard finds one symbol. -/
theorem matches_of_plain (plain : IsPlain dialect symbol) :
    (symbolPattern dialect symbol).Matches text ↔
      ∃ other, dialect.same symbol other = true ∧ text = [other] := by
  unfold symbolPattern
  rw [if_neg plain.1, Pattern.Matches]
  refine exists_congr fun other => and_congr_left fun _ => ?_
  rw [Bool.or_eq_true, decide_eq_true_iff, or_iff_right plain.2.1]

theorem like_plain_iff (plain : ∀ symbol ∈ front, IsPlain dialect symbol) :
    like dialect (front ++ [dialect.anyRun]) text = true ↔
      ∃ found rest, text = found ++ rest ∧
        List.Forall₂ (fun symbol other => dialect.same symbol other = true) front found := by
  induction front generalizing text with
  | nil =>
    exact iff_of_true like_anyRun ⟨[], text, rfl, List.Forall₂.nil⟩
  | cons symbol front inductionHypothesis =>
    obtain ⟨plainFirst, plainRest⟩ := List.forall_mem_cons.mp plain
    rw [List.cons_append, like_cons plainFirst.2.2]
    constructor
    · rintro ⟨left, right, rfl, isFirst, isRest⟩
      obtain ⟨other, same, rfl⟩ := (matches_of_plain plainFirst).mp isFirst
      obtain ⟨found, rest, rfl, areSame⟩ := (inductionHypothesis plainRest).mp isRest
      exact ⟨other :: found, rest, rfl, List.Forall₂.cons same areSame⟩
    · rintro ⟨found, rest, rfl, areSame⟩
      cases areSame with
      | @cons _ other _ found same areSame =>
        exact ⟨[other], found ++ rest, rfl, (matches_of_plain plainFirst).mpr ⟨other, same, rfl⟩,
          (inductionHypothesis plainRest).mpr ⟨found, rest, rfl, areSame⟩⟩

/-- Where nothing is escaped, the symbols of a pattern find themselves. -/
theorem like_of_prefix (noEscape : dialect.escape = none)
    (refl : ∀ symbol, dialect.same symbol symbol = true) (isPrefix : front <+: text) :
    like dialect (front ++ [dialect.anyRun]) text = true := by
  obtain ⟨rest, rfl⟩ := isPrefix
  induction front with
  | nil => exact like_anyRun
  | cons symbol front inductionHypothesis =>
    have notEscape : dialect.escape ≠ some symbol := by
      rw [noEscape]
      exact (Option.some_ne_none symbol).symm
    rw [List.cons_append, like_cons notEscape]
    refine ⟨[symbol], front ++ rest, rfl, ?_, inductionHypothesis⟩
    unfold symbolPattern
    split
    next => exact fun _ _ => rfl
    next => exact ⟨symbol, (Bool.or_eq_true _ _).mpr (Or.inr (refl symbol)), rfl⟩

end LiteHorse.SqlLike
