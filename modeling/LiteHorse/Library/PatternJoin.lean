/-
This file is about a pattern in a text that joins entries. A match that has no separator lies
between two separators, and one that does not start or end with the padding lies in an entry.

So a pattern whose matches are of this kind is found in a joined text exactly if it is found in
one of the entries (`found_join_iff`): no match straddles a boundary.
-/

import LiteHorse.Library.Delimited
import LiteHorse.Library.Patterns

namespace LiteHorse.Patterns

open Delimited

variable {Symbol : Type*}

/-! ### Where a part of a text lies -/

section Parts

variable {part first second : List Symbol} {symbol : Symbol}

/-- A part without the symbol lies on one side of it. -/
theorem infix_of_infix_append_cons (inside : part <:+: first ++ symbol :: second)
    (without : symbol ∉ part) : part <:+: first ∨ part <:+: second := by
  induction first with
  | nil =>
    rcases List.infix_cons_iff.mp inside with atStart | inSecond
    · cases part with
      | nil => exact Or.inl List.nil_infix
      | cons head rest =>
        have same : head = symbol := (List.cons_prefix_cons.mp atStart).1
        exact absurd (same ▸ List.mem_cons_self) without
    · exact Or.inr inSecond
  | cons head rest inductionHypothesis =>
    rcases List.infix_cons_iff.mp inside with atStart | inRest
    · left
      have bothPrefix := List.prefix_append (head :: rest) (symbol :: second)
      rcases List.prefix_or_prefix_of_prefix atStart bothPrefix with shorter | longer
      · exact shorter.isInfix
      · obtain ⟨more, rfl⟩ := longer
        have after : more <+: symbol :: second := (List.prefix_append_right_inj _).mp atStart
        cases more with
        | nil => rw [List.append_nil]
        | cons next more =>
          have same : next = symbol := (List.cons_prefix_cons.mp after).1
          exact absurd (List.mem_append_right _ (same ▸ List.mem_cons_self)) without
    · exact (inductionHypothesis inRest).imp_left List.infix_cons

/-- A part that does not start with the symbol before a text lies in the text. -/
theorem infix_of_infix_cons {head : Symbol} (inside : head :: part <:+: symbol :: second)
    (other : head ≠ symbol) : head :: part <:+: second := by
  rcases List.infix_cons_iff.mp inside with atStart | inSecond
  · exact absurd (List.cons_prefix_cons.mp atStart).1 other
  · exact inSecond

theorem infix_of_infix_concat {last : Symbol} (inside : part ++ [last] <:+: first ++ [symbol])
    (other : last ≠ symbol) : part ++ [last] <:+: first := by
  rw [← List.reverse_infix, List.reverse_concat, List.reverse_concat] at inside
  rw [← List.reverse_infix, List.reverse_concat]
  exact infix_of_infix_cons inside other

end Parts

/-! ### Patterns that keep clear of some symbols -/

namespace Pattern

/-- No symbol of a match is the given one. -/
def Avoids (symbol : Symbol) : Pattern Symbol → Prop
  | one accepts => accepts symbol = false
  | many accepts => accepts symbol = false
  | optional pattern => pattern.Avoids symbol
  | seq first second => first.Avoids symbol ∧ second.Avoids symbol

instance decidableAvoids (symbol : Symbol) :
    ∀ pattern : Pattern Symbol, Decidable (pattern.Avoids symbol)
  | one accepts => inferInstanceAs (Decidable (accepts symbol = false))
  | many accepts => inferInstanceAs (Decidable (accepts symbol = false))
  | optional pattern => decidableAvoids symbol pattern
  | seq first second =>
    have := decidableAvoids symbol first
    have := decidableAvoids symbol second
    inferInstanceAs (Decidable (first.Avoids symbol ∧ second.Avoids symbol))

/-- A match is not empty, and the given symbol is neither its first nor its last. -/
structure Solid (symbol : Symbol) (pattern : Pattern Symbol) : Prop where
  start : ∀ text, pattern.Matches text → ∃ head rest, text = head :: rest ∧ head ≠ symbol
  finish : ∀ text, pattern.Matches text → ∃ front last, text = front ++ [last] ∧ last ≠ symbol

variable {symbol : Symbol} {pattern : Pattern Symbol} {text : List Symbol}

theorem Avoids.not_mem (avoids : pattern.Avoids symbol) (isMatch : pattern.Matches text) :
    symbol ∉ text := by
  induction pattern generalizing text with
  | one accepts =>
    obtain ⟨other, accepted, rfl⟩ := isMatch
    intro member
    rw [List.mem_singleton.mp member] at avoids
    exact Bool.false_ne_true (avoids.symm.trans accepted)
  | many accepts => exact fun member => Bool.false_ne_true (avoids.symm.trans (isMatch _ member))
  | optional pattern inductionHypothesis =>
    rcases isMatch with rfl | isMatch
    · exact List.not_mem_nil
    · exact inductionHypothesis avoids isMatch
  | seq first second firstHypothesis secondHypothesis =>
    obtain ⟨left, right, rfl, firstMatch, secondMatch⟩ := isMatch
    rw [List.mem_append, not_or]
    exact ⟨firstHypothesis avoids.1 firstMatch, secondHypothesis avoids.2 secondMatch⟩

theorem solid_one {accepts : Symbol → Bool} (rejects : accepts symbol = false) :
    (one accepts).Solid symbol := by
  have other : ∀ head, accepts head = true → head ≠ symbol := by
    intro head accepted same
    rw [same, rejects] at accepted
    cases accepted
  constructor
  · rintro text ⟨head, accepted, rfl⟩
    exact ⟨head, [], rfl, other head accepted⟩
  · rintro text ⟨head, accepted, rfl⟩
    exact ⟨[], head, rfl, other head accepted⟩

theorem matches_sequence_nil (isMatch : (sequence []).Matches text) : text = [] :=
  List.eq_nil_iff_forall_not_mem.mpr fun symbol member =>
    Bool.false_ne_true (isMatch symbol member)

/-- A sequence is as solid as its ends. -/
theorem solid_sequence {patterns : List (Pattern Symbol)} {first last : Pattern Symbol}
    (isFirst : patterns.head? = some first) (isLast : patterns.getLast? = some last)
    (firstSolid : first.Solid symbol) (lastSolid : last.Solid symbol) :
    (sequence patterns).Solid symbol := by
  constructor
  · cases patterns with
    | nil => cases isFirst
    | cons head rest =>
      cases isFirst
      rintro text ⟨left, right, rfl, leftMatch, _⟩
      obtain ⟨symbol, more, rfl, other⟩ := firstSolid.start left leftMatch
      exact ⟨symbol, more ++ right, rfl, other⟩
  · clear isFirst firstSolid
    induction patterns with
    | nil => cases isLast
    | cons head rest inductionHypothesis =>
      rintro text ⟨left, right, rfl, leftMatch, rightMatch⟩
      cases rest with
      | nil =>
        cases isLast
        rw [matches_sequence_nil rightMatch, List.append_nil]
        exact lastSolid.finish left leftMatch
      | cons next rest =>
        obtain ⟨front, symbol, rfl, other⟩ :=
          inductionHypothesis (List.getLast?_cons_cons ▸ isLast) right rightMatch
        exact ⟨left ++ front, symbol, (List.append_assoc ..).symm, other⟩

end Pattern

/-! ### Patterns in a joined text -/

section Join

variable {format : Format Symbol} {pattern : Pattern Symbol}

/-- A part that keeps clear of the delimiter lies in an entry. -/
theorem exists_infix_of_infix_join {part : List Symbol} {parts : List (List Symbol)}
    (without : format.separator ∉ part)
    (start : ∃ head rest, part = head :: rest ∧ head ≠ format.padding)
    (finish : ∃ front last, part = front ++ [last] ∧ last ≠ format.padding)
    (inside : part <:+: format.join parts) : ∃ entry ∈ parts, part <:+: entry := by
  induction parts with
  | nil =>
    obtain ⟨head, rest, rfl, _⟩ := start
    exact absurd (List.eq_nil_of_infix_nil inside) (List.cons_ne_nil head rest)
  | cons first rest inductionHypothesis =>
    cases rest with
    | nil =>
      rw [Format.join_singleton] at inside
      exact ⟨first, List.mem_cons_self, inside⟩
    | cons second rest =>
      rw [Format.join_cons_cons] at inside
      rcases infix_of_infix_append_cons inside without with inFirst | inRest
      · obtain ⟨front, last, rfl, other⟩ := finish
        exact ⟨first, List.mem_cons_self, infix_of_infix_concat inFirst other⟩
      · obtain ⟨head, more, rfl, other⟩ := start
        obtain ⟨entry, member, isInside⟩ :=
          inductionHypothesis (infix_of_infix_cons inRest other)
        exact ⟨entry, List.mem_cons_of_mem _ member, isInside⟩

theorem found_join_iff (avoids : pattern.Avoids format.separator)
    (solid : pattern.Solid format.padding) {parts : List (List Symbol)} :
    pattern.found (format.join parts) ↔ ∃ entry ∈ parts, pattern.found entry := by
  constructor
  · intro found
    obtain ⟨matched, isInfix, isMatch⟩ := found_iff.mp found
    obtain ⟨entry, member, isInside⟩ := exists_infix_of_infix_join (avoids.not_mem isMatch)
      (solid.start matched isMatch) (solid.finish matched isMatch) isInfix
    exact ⟨entry, member, found_iff.mpr ⟨matched, isInside, isMatch⟩⟩
  · rintro ⟨entry, member, found⟩
    exact found_of_inside (infix_intercalate member) found

end Join

end LiteHorse.Patterns
