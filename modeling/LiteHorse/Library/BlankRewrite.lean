/-
This file is about a text that comes back from its storage with its blanks rewritten: runs of
blanks become other runs of blanks, and every other symbol stays in its place.

Such a rewriting commutes with reading the entries of a text (`entries_apply`), so the entries
differ only where an entry has a blank inside that is rewritten.
-/

import LiteHorse.Library.Delimited

namespace LiteHorse.Delimited

variable {Symbol : Type*}

structure BlankRewrite (blank : Symbol → Bool) where
  apply : List Symbol → List Symbol
  apply_nil : apply [] = []
  apply_solid : ∀ front symbol rest, ¬ blank symbol = true →
    apply (front ++ symbol :: rest) = apply front ++ symbol :: apply rest
  apply_blanks : ∀ text, (∀ symbol ∈ text, blank symbol = true) →
    ∀ symbol ∈ apply text, blank symbol = true

namespace BlankRewrite

variable {blank : Symbol → Bool} (rewrite : BlankRewrite blank) {text : List Symbol}

theorem apply_cons {symbol : Symbol} (solid : ¬ blank symbol = true) (rest : List Symbol) :
    rewrite.apply (symbol :: rest) = symbol :: rewrite.apply rest := by
  have atStart := rewrite.apply_solid [] symbol rest solid
  rwa [List.nil_append, rewrite.apply_nil, List.nil_append] at atStart

/-- A text is all blank, or blanks stand before its first solid symbol. -/
theorem blanks_or_solid (blank : Symbol → Bool) (text : List Symbol) :
    (∀ symbol ∈ text, blank symbol = true) ∨
      ∃ front symbol rest, text = front ++ symbol :: rest ∧
        (∀ padding ∈ front, blank padding = true) ∧ ¬ blank symbol = true := by
  induction text with
  | nil => exact Or.inl fun symbol member => absurd member List.not_mem_nil
  | cons first rest inductionHypothesis =>
    by_cases isBlank : blank first = true
    · rcases inductionHypothesis with allBlank | ⟨front, symbol, rest, rfl, allBlank, solid⟩
      · exact Or.inl (List.forall_mem_cons.mpr ⟨isBlank, allBlank⟩)
      · exact Or.inr ⟨first :: front, symbol, rest, rfl,
          List.forall_mem_cons.mpr ⟨isBlank, allBlank⟩, solid⟩
    · exact Or.inr ⟨[], first, rest, rfl, fun _ member => absurd member List.not_mem_nil, isBlank⟩

theorem dropWhile_apply (text : List Symbol) :
    (rewrite.apply text).dropWhile blank = rewrite.apply (text.dropWhile blank) := by
  rcases blanks_or_solid blank text with allBlank | ⟨front, symbol, rest, rfl, allBlank, solid⟩
  · rw [List.dropWhile_eq_nil_iff.mpr allBlank, rewrite.apply_nil]
    exact List.dropWhile_eq_nil_iff.mpr (rewrite.apply_blanks text allBlank)
  · rw [rewrite.apply_solid _ _ _ solid, List.dropWhile_append_of_pos allBlank,
      List.dropWhile_append_of_pos (rewrite.apply_blanks front allBlank),
      List.dropWhile_cons_of_neg solid, List.dropWhile_cons_of_neg solid,
      rewrite.apply_cons solid]

/-- The rewriting as it acts on texts read backwards. -/
def backwards : BlankRewrite blank where
  apply := fun text => (rewrite.apply text.reverse).reverse
  apply_nil := by rw [List.reverse_nil, rewrite.apply_nil, List.reverse_nil]
  apply_solid := fun front symbol rest solid => by
    rw [List.reverse_append, List.reverse_cons, List.append_assoc, List.singleton_append,
      rewrite.apply_solid _ _ _ solid, List.reverse_append, List.reverse_cons, List.append_assoc,
      List.singleton_append]
  apply_blanks := fun text allBlank symbol member =>
    rewrite.apply_blanks text.reverse
      (fun other isThere => allBlank other (List.mem_reverse.mp isThere)) symbol
      (List.mem_reverse.mp member)

theorem rdropWhile_apply (text : List Symbol) :
    (rewrite.apply text).rdropWhile blank = rewrite.apply (text.rdropWhile blank) := by
  have fromEnd := rewrite.backwards.dropWhile_apply text.reverse
  unfold backwards at fromEnd
  dsimp only at fromEnd
  rw [List.reverse_reverse] at fromEnd
  unfold List.rdropWhile
  rw [fromEnd, List.reverse_reverse]

theorem trim_apply (text : List Symbol) :
    trim blank (rewrite.apply text) = rewrite.apply (trim blank text) := by
  unfold trim
  rw [rewrite.dropWhile_apply, rewrite.rdropWhile_apply]

/-- A trimmed text that is not empty starts with a solid symbol, which stays. -/
theorem apply_trim_eq_nil : rewrite.apply (trim blank text) = [] ↔ trim blank text = [] := by
  constructor
  · intro isEmpty
    cases trimmed : trim blank text with
    | nil => rfl
    | cons first rest =>
      have solid : ¬ blank first = true := by
        intro isBlank
        have again : trim blank (first :: rest) = first :: rest := trimmed ▸ trim_trim
        rw [trim_cons_blank isBlank] at again
        have shorter : (trim blank rest).length ≤ rest.length := trim_inside.length_le
        rw [again, List.length_cons] at shorter
        exact Nat.not_succ_le_self _ shorter
      rw [trimmed, rewrite.apply_cons solid] at isEmpty
      cases isEmpty
  · intro isEmpty
    rw [isEmpty, rewrite.apply_nil]

/-- The rewriting brings in no solid symbol. -/
theorem mem_of_mem_apply {symbol : Symbol} (solid : ¬ blank symbol = true)
    (member : symbol ∈ rewrite.apply text) : symbol ∈ text := by
  induction size : text.length using Nat.strong_induction_on generalizing text with
  | _ size inductionHypothesis =>
    rcases blanks_or_solid blank text with allBlank | ⟨front, first, rest, rfl, allBlank, isSolid⟩
    · exact absurd (rewrite.apply_blanks text allBlank symbol member) solid
    · rw [rewrite.apply_solid _ _ _ isSolid] at member
      rcases List.mem_append.mp member with inFront | inRest
      · exact absurd (rewrite.apply_blanks front allBlank symbol inFront) solid
      · rcases List.mem_cons.mp inRest with rfl | inRest
        · exact List.mem_append_right _ List.mem_cons_self
        · refine List.mem_append_right _ (List.mem_cons_of_mem _ ?_)
          refine inductionHypothesis rest.length ?_ inRest rfl
          rw [← size, List.length_append, List.length_cons]
          omega

end BlankRewrite

namespace Format

variable [DecidableEq Symbol] {format : Format Symbol} (rewrite : BlankRewrite format.blank)

theorem entries_single {text : List Symbol} (single : format.separator ∉ text) :
    format.entries text = [trim format.blank text].filter fun piece => !piece.isEmpty := by
  unfold entries
  rw [List.splitOn_eq_singleton single, List.map_singleton]

/-- The entries of a rewritten text are the entries, rewritten. -/
theorem entries_apply (text : List Symbol) :
    format.entries (rewrite.apply text) = (format.entries text).map rewrite.apply := by
  have solid : ¬ format.blank format.separator = true := by
    rw [format.separator_solid]
    exact Bool.false_ne_true
  induction size : text.length using Nat.strong_induction_on generalizing text with
  | _ size inductionHypothesis =>
    by_cases separated : format.separator ∈ text
    · obtain ⟨first, second, rfl⟩ := List.append_of_mem separated
      rw [List.length_append, List.length_cons] at size
      rw [rewrite.apply_solid _ _ _ solid, entries_append, entries_append, List.map_append,
        inductionHypothesis first.length (by omega) first rfl,
        inductionHypothesis second.length (by omega) second rfl]
    · have stillSingle : format.separator ∉ rewrite.apply text :=
        fun member => separated (rewrite.mem_of_mem_apply solid member)
      rw [entries_single separated, entries_single stillSingle, rewrite.trim_apply]
      cases trimmed : trim format.blank text with
      | nil =>
        rw [rewrite.apply_nil]
        rfl
      | cons first rest =>
        have kept : rewrite.apply (first :: rest) ≠ [] := by
          rw [← trimmed]
          intro isEmpty
          rw [rewrite.apply_trim_eq_nil.mp isEmpty] at trimmed
          cases trimmed
        rw [List.filter_singleton, List.filter_singleton,
          List.isEmpty_eq_false_iff.mpr kept]
        rfl

end Format

end LiteHorse.Delimited
