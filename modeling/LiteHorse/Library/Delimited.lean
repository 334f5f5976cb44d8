/-
This file is about a list of entries kept as one text: the entries are joined by a separator
with padding around it, and read back by splitting the text at the separator, trimming the
pieces and dropping the empty ones.

A text that is read gives clean entries: trimmed, not empty and without the separator
(`clean_of_mem_entries`). A join reads as its parts read one after the other (`entries_join`),
so clean entries come back as they were (`entries_join_clean`), while a part with the separator
in it comes back as several.
-/

import Mathlib.Data.List.DropRight
import Mathlib.Tactic.Common

namespace LiteHorse.Delimited

variable {Symbol : Type*}

/-! ### Trimming -/

/-- The text without the blanks at its ends. -/
def trim (blank : Symbol → Bool) (text : List Symbol) : List Symbol :=
  (text.dropWhile blank).rdropWhile blank

section Trim

variable {blank : Symbol → Bool} {symbol : Symbol} {text : List Symbol}

theorem trim_cons_blank (isBlank : blank symbol) :
    trim blank (symbol :: text) = trim blank text := by
  unfold trim
  rw [List.dropWhile_cons_of_pos isBlank]

theorem trim_concat_blank (isBlank : blank symbol) :
    trim blank (text ++ [symbol]) = trim blank text := by
  unfold trim
  rw [List.dropWhile_append]
  split
  next allBlank =>
    rw [List.isEmpty_iff.mp allBlank, List.dropWhile_cons_of_pos isBlank]
    rfl
  next => exact List.rdropWhile_concat_pos _ _ _ isBlank

theorem trim_inside : trim blank text <:+: text :=
  (List.rdropWhile_prefix blank _).isInfix.trans (List.dropWhile_suffix blank).isInfix

theorem trim_of_solid (solid : ∀ symbol ∈ text, ¬ blank symbol = true) :
    trim blank text = text := by
  have start : text.dropWhile blank = text :=
    List.dropWhile_eq_self_iff.mpr fun positive => solid _ (List.getElem_mem positive)
  unfold trim
  rw [start]
  exact List.rdropWhile_eq_self_iff.mpr fun nonempty => solid _ (List.getLast_mem nonempty)

/-- What is left starts with no blank, since it is the start of a text that starts with none. -/
theorem trim_trim : trim blank (trim blank text) = trim blank text := by
  have start : (trim blank text).dropWhile blank = trim blank text := by
    rw [List.dropWhile_eq_self_iff]
    intro positive
    have isPrefix : trim blank text <+: text.dropWhile blank :=
      List.rdropWhile_prefix blank _
    rw [isPrefix.getElem positive]
    exact List.dropWhile_get_zero_not blank text (positive.trans_le isPrefix.length_le)
  unfold trim at start ⊢
  rw [start, List.rdropWhile_idempotent]

theorem mem_trim (member : symbol ∈ text) (solid : ¬ blank symbol = true) :
    symbol ∈ trim blank text := by
  have fromLeft : ∀ text : List Symbol, symbol ∈ text → symbol ∈ text.dropWhile blank := by
    intro text member
    rw [← List.takeWhile_append_dropWhile (p := blank) (l := text), List.mem_append] at member
    exact member.resolve_left fun inBlanks => solid (List.mem_takeWhile_imp inBlanks)
  unfold trim List.rdropWhile
  rw [List.mem_reverse]
  exact fromLeft _ (List.mem_reverse.mpr (fromLeft text member))

theorem trim_eq_nil_iff : trim blank text = [] ↔ ∀ symbol ∈ text, blank symbol = true := by
  constructor
  · intro isEmpty symbol member
    by_contra solid
    have kept := mem_trim member solid
    rw [isEmpty] at kept
    cases kept
  · intro allBlank
    unfold trim
    rw [List.dropWhile_eq_nil_iff.mpr allBlank]
    rfl

theorem trim_append_of_blank {more : List Symbol}
    (allBlank : ∀ symbol ∈ text, blank symbol = true) :
    trim blank (text ++ more) = trim blank more := by
  unfold trim
  rw [List.dropWhile_append_of_pos allBlank]

/-- A solid symbol keeps what stands before it from being trimmed at the end. -/
theorem rdropWhile_append_solid (start tail : List Symbol) (solid : ¬ blank symbol = true) :
    (start ++ symbol :: tail).rdropWhile blank = start ++ symbol :: tail.rdropWhile blank := by
  induction tail using List.reverseRecOn with
  | nil => exact List.rdropWhile_concat_neg _ _ _ solid
  | append_singleton tail last inductionHypothesis =>
    rw [← List.cons_append, ← List.append_assoc, List.rdropWhile_concat, List.rdropWhile_concat]
    split
    next => exact inductionHypothesis
    next => rw [List.append_assoc, List.cons_append]

theorem trim_append_solid (front tail : List Symbol) (solid : ¬ blank symbol = true) :
    ∃ start, trim blank (front ++ symbol :: tail) =
      start ++ symbol :: tail.rdropWhile blank := by
  have fromLeft : ∃ start, (front ++ symbol :: tail).dropWhile blank = start ++ symbol :: tail := by
    induction front with
    | nil => exact ⟨[], List.dropWhile_cons_of_neg solid⟩
    | cons first rest inductionHypothesis =>
      rw [List.cons_append, List.dropWhile_cons]
      split
      next => exact inductionHypothesis
      next => exact ⟨first :: rest, rfl⟩
  obtain ⟨start, isStart⟩ := fromLeft
  refine ⟨start, ?_⟩
  unfold trim
  rw [isStart, rdropWhile_append_solid start tail solid]

/-- What is left of a text is left of it after another one too. -/
theorem trim_inside_append (front text : List Symbol) :
    trim blank text <:+: trim blank (front ++ text) := by
  induction text generalizing front with
  | nil => exact List.nil_infix
  | cons first rest inductionHypothesis =>
    by_cases isBlank : blank first = true
    · rw [trim_cons_blank isBlank, ← List.singleton_append, ← List.append_assoc]
      exact inductionHypothesis (front ++ [first])
    · obtain ⟨start, whole⟩ := trim_append_solid front rest isBlank
      have alone : trim blank (first :: rest) = first :: rest.rdropWhile blank := by
        unfold trim
        rw [List.dropWhile_cons_of_neg isBlank]
        exact rdropWhile_append_solid [] rest isBlank
      rw [alone, whole]
      exact (List.suffix_append start _).isInfix

/-- A part without blanks at its ends is still a part of what is left of the text. -/
theorem infix_trim {part : List Symbol} (inside : part <:+: text)
    (trimmed : trim blank part = part) : part <:+: trim blank text := by
  obtain ⟨front, back, rfl⟩ := inside
  rw [List.append_assoc]
  refine List.IsInfix.trans ?_ (trim_inside_append front (part ++ back))
  have start : part.dropWhile blank = part :=
    (List.dropWhile_suffix blank).eq_of_length_le (by
      conv_lhs => rw [← trimmed]
      exact (List.rdropWhile_prefix blank _).length_le)
  rcases List.eq_nil_or_concat part with rfl | ⟨before, last, rfl⟩
  · exact List.nil_infix
  · have solid : ¬ blank last = true := by
      intro isBlank
      rw [List.concat_eq_append, trim_concat_blank isBlank] at trimmed
      have inside : trim blank before <:+: before := trim_inside
      have shorter := inside.length_le
      rw [trimmed, List.length_append, List.length_singleton] at shorter
      omega
    have wholeStart : (before ++ last :: back).dropWhile blank = before ++ last :: back := by
      rw [List.dropWhile_eq_self_iff] at start ⊢
      intro positive
      have sameFirst := start (by rw [List.concat_eq_append]; simp)
      cases before with
      | nil => exact sameFirst
      | cons first rest => exact sameFirst
    unfold trim
    rw [List.concat_eq_append, List.append_assoc, List.singleton_append, wholeStart,
      rdropWhile_append_solid before back solid]
    exact ⟨[], back.rdropWhile blank, by simp⟩

end Trim

/-! ### The format -/

/-- How the entries are set apart: a separator that no trimming removes, with a blank on both
sides of it. -/
structure Format (Symbol : Type*) where
  separator : Symbol
  padding : Symbol
  blank : Symbol → Bool
  padding_blank : blank padding = true
  separator_solid : blank separator = false

namespace Format

variable (format : Format Symbol)

theorem ne_separator {symbol : Symbol} (isBlank : format.blank symbol = true) :
    symbol ≠ format.separator := by
  intro same
  rw [same, format.separator_solid] at isBlank
  cases isBlank

def delimiter : List Symbol := [format.padding, format.separator, format.padding]

def join (parts : List (List Symbol)) : List Symbol := format.delimiter.intercalate parts

theorem join_singleton (part : List Symbol) : format.join [part] = part :=
  List.intercalate_singleton

theorem join_cons_cons (first second : List Symbol) (rest : List (List Symbol)) :
    format.join (first :: second :: rest) =
      (first ++ [format.padding]) ++ format.separator ::
        (format.padding :: format.join (second :: rest)) := by
  unfold join
  rw [List.intercalate_cons_cons]
  unfold delimiter
  simp only [List.append_assoc, List.cons_append, List.nil_append]

variable [DecidableEq Symbol]

def entries (text : List Symbol) : List (List Symbol) :=
  ((text.splitOn format.separator).map (trim format.blank)).filter (fun piece => !piece.isEmpty)

structure Clean (entry : List Symbol) : Prop where
  trimmed : trim format.blank entry = entry
  nonempty : entry ≠ []
  single : format.separator ∉ entry

end Format

/-! ### The pieces of a text -/

section Pieces

theorem infix_intercalate {piece between : List Symbol} {parts : List (List Symbol)}
    (member : piece ∈ parts) : piece <:+: between.intercalate parts := by
  induction parts with
  | nil => cases member
  | cons first rest inductionHypothesis =>
    cases rest with
    | nil =>
      have alone : between.intercalate [first] = first := List.intercalate_singleton
      rw [List.mem_singleton.mp member]
      exact ⟨[], [], (List.append_nil first).trans alone.symm⟩
    | cons second rest =>
      rw [List.intercalate_cons_cons, List.append_assoc]
      rcases List.mem_cons.mp member with same | member
      · exact same ▸ (List.prefix_append first _).isInfix
      · exact (inductionHypothesis member).trans
          ((List.suffix_append between _).trans (List.suffix_append first _)).isInfix

variable [DecidableEq Symbol] {separator symbol : Symbol} {text piece : List Symbol}

theorem infix_of_mem_splitOn (member : piece ∈ text.splitOn separator) : piece <:+: text := by
  have inside : piece <:+: [separator].intercalate (text.splitOn separator) :=
    infix_intercalate member
  rwa [List.intercalate_splitOn] at inside

theorem separator_not_mem_of_mem_splitOn (member : piece ∈ text.splitOn separator) :
    separator ∉ piece := by
  induction text generalizing piece with
  | nil =>
    rw [List.splitOn_nil, List.mem_singleton] at member
    rw [member]
    exact List.not_mem_nil
  | cons first rest inductionHypothesis =>
    rw [List.splitOn_cons_eq_if_modifyHead] at member
    split at member
    next =>
      rcases List.mem_cons.mp member with isEmpty | member
      · rw [isEmpty]
        exact List.not_mem_nil
      · exact inductionHypothesis member
    next other =>
      obtain ⟨head, tail, pieces⟩ := List.exists_cons_of_ne_nil
        (List.splitOn_ne_nil separator rest)
      rw [pieces] at member inductionHypothesis
      rcases List.mem_cons.mp member with same | member
      · rw [same, List.mem_cons, not_or]
        refine ⟨fun isSeparator => other (beq_iff_eq.mpr isSeparator.symm), ?_⟩
        exact inductionHypothesis List.mem_cons_self
      · exact inductionHypothesis (List.mem_cons_of_mem _ member)

/-- A symbol at the end of the text goes to the last piece. -/
theorem splitOn_concat (text : List Symbol) (other : symbol ≠ separator) :
    ∃ front last, text.splitOn separator = front ++ [last] ∧
      (text ++ [symbol]).splitOn separator = front ++ [last ++ [symbol]] := by
  induction text with
  | nil =>
    refine ⟨[], [], List.splitOn_nil separator, ?_⟩
    refine List.splitOn_eq_singleton fun member => ?_
    exact other (List.mem_singleton.mp member).symm
  | cons first rest inductionHypothesis =>
    obtain ⟨front, last, pieces, morePieces⟩ := inductionHypothesis
    rw [List.cons_append, List.splitOn_cons_eq_if_modifyHead, List.splitOn_cons_eq_if_modifyHead,
      pieces, morePieces]
    split
    next => exact ⟨[] :: front, last, rfl, rfl⟩
    next =>
      cases front with
      | nil => exact ⟨[], first :: last, rfl, rfl⟩
      | cons head front => exact ⟨(first :: head) :: front, last, rfl, rfl⟩

/-- A text without separators goes to the last piece. -/
theorem splitOn_append (text : List Symbol) {addition : List Symbol}
    (single : separator ∉ addition) :
    ∃ front last, text.splitOn separator = front ++ [last] ∧
      (text ++ addition).splitOn separator = front ++ [last ++ addition] := by
  induction addition using List.reverseRecOn with
  | nil =>
    refine ⟨(text.splitOn separator).dropLast, (text.splitOn separator).getLast
      (List.splitOn_ne_nil separator text), (List.dropLast_concat_getLast _).symm, ?_⟩
    rw [List.append_nil, List.append_nil]
    exact (List.dropLast_concat_getLast _).symm
  | append_singleton addition symbol inductionHypothesis =>
    rw [List.mem_append, not_or] at single
    obtain ⟨front, last, pieces, morePieces⟩ := inductionHypothesis single.1
    have other : symbol ≠ separator := fun same => single.2 (List.mem_singleton.mpr same.symm)
    obtain ⟨others, piece, isSplit, moreSplit⟩ := splitOn_concat (text ++ addition) other
    rw [morePieces] at isSplit
    obtain ⟨rfl, isPiece⟩ := List.append_inj' isSplit rfl
    refine ⟨front, last, pieces, ?_⟩
    rw [← List.append_assoc, moreSplit, ← (List.cons.inj isPiece).1, List.append_assoc]

end Pieces

/-! ### Reading what was joined -/

namespace Format

variable [DecidableEq Symbol] {format : Format Symbol} {text entry : List Symbol}

theorem clean_of_mem_entries (member : entry ∈ format.entries text) : format.Clean entry := by
  obtain ⟨member, nonempty⟩ := List.mem_filter.mp member
  obtain ⟨piece, isPiece, rfl⟩ := List.mem_map.mp member
  refine ⟨trim_trim, ?_, fun separated => ?_⟩
  · intro isEmpty
    rw [isEmpty] at nonempty
    cases nonempty
  · exact separator_not_mem_of_mem_splitOn isPiece (trim_inside.subset separated)

theorem infix_of_mem_entries (member : entry ∈ format.entries text) : entry <:+: text := by
  obtain ⟨piece, isPiece, rfl⟩ := List.mem_map.mp (List.mem_filter.mp member).1
  exact trim_inside.trans (infix_of_mem_splitOn isPiece)

theorem entries_of_clean (clean : format.Clean entry) : format.entries entry = [entry] := by
  unfold entries
  rw [List.splitOn_eq_singleton clean.single, List.map_singleton, clean.trimmed,
    List.filter_singleton, List.isEmpty_eq_false_iff.mpr clean.nonempty]
  rfl

theorem entries_nil : format.entries [] = [] := rfl

theorem entries_append (first second : List Symbol) :
    format.entries (first ++ format.separator :: second) =
      format.entries first ++ format.entries second := by
  unfold entries
  rw [List.splitOn_append_cons_self, List.map_append, List.filter_append]

theorem entries_cons_blank {symbol : Symbol} (isBlank : format.blank symbol = true) :
    format.entries (symbol :: text) = format.entries text := by
  obtain ⟨head, tail, pieces⟩ := List.exists_cons_of_ne_nil
    (List.splitOn_ne_nil format.separator text)
  unfold entries
  rw [List.splitOn_cons_eq_if_modifyHead, if_neg (by simpa using format.ne_separator isBlank),
    pieces, List.modifyHead_cons, List.map_cons, trim_cons_blank isBlank, List.map_cons]

theorem entries_concat_blank {symbol : Symbol} (isBlank : format.blank symbol = true) :
    format.entries (text ++ [symbol]) = format.entries text := by
  obtain ⟨front, last, pieces, morePieces⟩ := splitOn_concat text (format.ne_separator isBlank)
  unfold entries
  rw [pieces, morePieces, List.map_append, List.map_singleton, trim_concat_blank isBlank,
    List.map_append, List.map_singleton]

/-- Blanks at the ends of the text are no part of an entry. -/
theorem entries_trim (text : List Symbol) :
    format.entries (trim format.blank text) = format.entries text := by
  have fromLeft : ∀ text, format.entries (text.dropWhile format.blank) = format.entries text := by
    intro text
    induction text with
    | nil => rfl
    | cons first rest inductionHypothesis =>
      rw [List.dropWhile_cons]
      split
      next isBlank => exact inductionHypothesis.trans (entries_cons_blank isBlank).symm
      next => rfl
  have fromRight : ∀ text, format.entries (text.rdropWhile format.blank) = format.entries text := by
    intro text
    induction text using List.reverseRecOn with
    | nil => rfl
    | append_singleton front last inductionHypothesis =>
      rw [List.rdropWhile_concat]
      split
      next isBlank => exact inductionHypothesis.trans (entries_concat_blank isBlank).symm
      next => rfl
  exact (fromRight _).trans (fromLeft text)

theorem entries_join (parts : List (List Symbol)) :
    format.entries (format.join parts) = parts.flatMap format.entries := by
  induction parts with
  | nil => exact entries_nil
  | cons first rest inductionHypothesis =>
    cases rest with
    | nil => rw [join_singleton, List.flatMap_singleton]
    | cons second rest =>
      rw [join_cons_cons, entries_append, entries_concat_blank format.padding_blank,
        entries_cons_blank format.padding_blank, inductionHypothesis]
      exact List.flatMap_cons.symm

theorem entries_join_clean {parts : List (List Symbol)}
    (clean : ∀ part ∈ parts, format.Clean part) : format.entries (format.join parts) = parts := by
  rw [entries_join]
  induction parts with
  | nil => rfl
  | cons first rest inductionHypothesis =>
    rw [List.flatMap_cons, entries_of_clean (clean first List.mem_cons_self),
      inductionHypothesis fun part member => clean part (List.mem_cons_of_mem _ member),
      List.singleton_append]

end Format

/-! ### Texts that grow at the end -/

namespace Format

/-- After its last separator the text is blank. -/
def EndsBlank (format : Format Symbol) [DecidableEq Symbol] (text : List Symbol) : Prop :=
  ∀ piece ∈ (text.splitOn format.separator).getLast?, trim format.blank piece = []

variable [DecidableEq Symbol] {format : Format Symbol} {text addition : List Symbol}

/-- An addition after blanks is an entry of its own. -/
theorem entries_append_of_blank (endsBlank : format.EndsBlank text)
    (single : format.separator ∉ addition) (solid : trim format.blank addition ≠ []) :
    format.entries (text ++ addition) =
      format.entries text ++ [trim format.blank addition] := by
  obtain ⟨front, last, pieces, morePieces⟩ := splitOn_append text single
  have isLast : last ∈ (text.splitOn format.separator).getLast? := by
    rw [pieces, List.getLast?_concat]
    rfl
  have isBlank := endsBlank last isLast
  unfold entries
  rw [pieces, morePieces, List.map_append, List.map_append, List.map_singleton, List.map_singleton,
    List.filter_append, List.filter_append, List.filter_singleton, List.filter_singleton,
    trim_append_of_blank (trim_eq_nil_iff.mp isBlank), isBlank,
    List.isEmpty_eq_false_iff.mpr solid]
  exact congrArg (· ++ [trim format.blank addition]) (List.append_nil _).symm

/-- An addition after an entry makes the entry longer, and no more of them. -/
theorem length_entries_append (notBlank : ¬ format.EndsBlank text)
    (single : format.separator ∉ addition) :
    (format.entries (text ++ addition)).length = (format.entries text).length := by
  obtain ⟨front, last, pieces, morePieces⟩ := splitOn_append text single
  have solid : trim format.blank last ≠ [] := by
    intro isBlank
    refine notBlank fun piece isLast => ?_
    rw [pieces, List.getLast?_concat, Option.mem_some_iff] at isLast
    exact isLast ▸ isBlank
  have longer : trim format.blank (last ++ addition) ≠ [] := by
    intro isBlank
    rw [trim_eq_nil_iff] at isBlank
    exact solid (trim_eq_nil_iff.mpr fun symbol member =>
      isBlank symbol (List.mem_append_left _ member))
  unfold entries
  rw [pieces, morePieces, List.map_append, List.map_append, List.map_singleton, List.map_singleton,
    List.filter_append, List.filter_append, List.filter_singleton, List.filter_singleton,
    List.isEmpty_eq_false_iff.mpr solid, List.isEmpty_eq_false_iff.mpr longer, List.length_append,
    List.length_append]
  rfl

theorem not_endsBlank {symbol : Symbol} {front tail : List Symbol}
    (solid : ¬ format.blank symbol = true) (single : format.separator ∉ symbol :: tail) :
    ¬ format.EndsBlank (front ++ symbol :: tail) := by
  obtain ⟨pieces, last, _, morePieces⟩ := splitOn_append front single
  intro endsBlank
  have isLast : last ++ symbol :: tail ∈
      ((front ++ symbol :: tail).splitOn format.separator).getLast? := by
    rw [morePieces, List.getLast?_concat]
    rfl
  have isBlank := endsBlank (last ++ symbol :: tail) isLast
  rw [trim_eq_nil_iff] at isBlank
  exact solid (isBlank symbol (List.mem_append_right _ List.mem_cons_self))

end Format

end LiteHorse.Delimited
