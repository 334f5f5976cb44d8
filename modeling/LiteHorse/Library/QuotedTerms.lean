/-
This file is about texts with quoted phrases, and about putting quotes around each hyphenated term:
words with single hyphens between them. What stands behind an odd number of quotes is inside of a
phrase.

The terms are found in one pass that knows nothing of phrases (`wrapTerms`). So a term that was
outside of any phrase comes to be inside of one, and a term that was inside of a phrase comes to be
outside (`wrapTerms_term`). What has no term stays as it is (`wrapTerms_of_no_term`), and a symbol
that is neither part of a word nor a hyphen divides a text in two that are treated apart
(`wrapTerms_break`).
-/

import LiteHorse.Library.Delimited
import Mathlib.Algebra.Group.Nat.Even
import Mathlib.Data.List.Basic
import Mathlib.Data.List.Induction
import Mathlib.Tactic.Common

namespace LiteHorse.QuotedTerms

open Delimited

structure Alphabet (Symbol : Type) where
  quote : Symbol
  hyphen : Symbol
  isWord : Symbol → Bool
  quote_ne_hyphen : quote ≠ hyphen
  quote_not_word : isWord quote = false
  hyphen_not_word : isWord hyphen = false

variable {Symbol : Type} (alphabet : Alphabet Symbol)

/-! ### Words and terms -/

def IsWord (text : List Symbol) : Prop := text ≠ [] ∧ ∀ symbol ∈ text, alphabet.isWord symbol = true

/-- Words with single hyphens between them, two at least. -/
inductive IsTerm : List Symbol → Prop where
  | two {first second : List Symbol} (isFirst : IsWord alphabet first)
      (isSecond : IsWord alphabet second) : IsTerm (first ++ (alphabet.hyphen :: second))
  | more {term word : List Symbol} (isTerm : IsTerm term) (isWord : IsWord alphabet word) :
      IsTerm (term ++ (alphabet.hyphen :: word))

/-- The text ends in a word. -/
def EndsInWord (alphabet : Alphabet Symbol) (text : List Symbol) : Prop :=
  ∃ before last, text = before ++ [last] ∧ alphabet.isWord last = true

/-- The text ends in a word with a hyphen behind it. -/
def EndsInHyphen (alphabet : Alphabet Symbol) (text : List Symbol) : Prop :=
  ∃ before, text = before ++ [alphabet.hyphen] ∧ EndsInWord alphabet before

variable {alphabet} {text front back word : List Symbol} {symbol : Symbol}

theorem ne_quote_of_isWord (isWord : alphabet.isWord symbol = true) : symbol ≠ alphabet.quote := by
  rintro rfl
  rw [alphabet.quote_not_word] at isWord
  cases isWord

theorem isWord_singleton (isWord : alphabet.isWord symbol = true) : IsWord alphabet [symbol] := by
  refine ⟨List.cons_ne_nil _ _, fun other member => ?_⟩
  rw [List.mem_singleton.mp member]
  exact isWord

theorem hyphen_not_mem_of_isWord (isWord : IsWord alphabet word) : alphabet.hyphen ∉ word := by
  intro member
  have isWordHyphen := isWord.2 _ member
  rw [alphabet.hyphen_not_word] at isWordHyphen
  cases isWordHyphen

theorem quote_not_mem_of_isTerm (isTerm : IsTerm alphabet text) : alphabet.quote ∉ text := by
  have ofWord : ∀ word : List Symbol, IsWord alphabet word → alphabet.quote ∉ word :=
    fun word isWord member => ne_quote_of_isWord (isWord.2 _ member) rfl
  have ofHyphen : ∀ word : List Symbol, IsWord alphabet word →
      alphabet.quote ∉ alphabet.hyphen :: word := by
    intro word isWord member
    rcases List.mem_cons.mp member with isHyphen | member
    · exact alphabet.quote_ne_hyphen isHyphen
    · exact ofWord word isWord member
  induction isTerm with
  | two isFirst isSecond =>
    intro member
    rcases List.mem_append.mp member with member | member
    · exact ofWord _ isFirst member
    · exact ofHyphen _ isSecond member
  | more _ isWord inductionHypothesis =>
    intro member
    rcases List.mem_append.mp member with member | member
    · exact inductionHypothesis member
    · exact ofHyphen _ isWord member

theorem hyphen_mem_of_isTerm {term : List Symbol} (isTerm : IsTerm alphabet term) :
    alphabet.hyphen ∈ term := by
  cases isTerm with
  | two => exact List.mem_append_right _ List.mem_cons_self
  | more => exact List.mem_append_right _ List.mem_cons_self

theorem ne_nil_of_isTerm {term : List Symbol} (isTerm : IsTerm alphabet term) : term ≠ [] := by
  cases isTerm with
  | two => exact List.append_ne_nil_of_right_ne_nil _ (List.cons_ne_nil _ _)
  | more => exact List.append_ne_nil_of_right_ne_nil _ (List.cons_ne_nil _ _)

/-- A term starts with a word. -/
theorem first_of_isTerm {term : List Symbol} (isTerm : IsTerm alphabet term) :
    ∃ first rest, term = first :: rest ∧ alphabet.isWord first = true := by
  induction isTerm with
  | @two word _ isFirst _ =>
    obtain ⟨first, rest, rfl⟩ := List.exists_cons_of_ne_nil isFirst.1
    exact ⟨first, _, rfl, isFirst.2 first List.mem_cons_self⟩
  | more _ _ inductionHypothesis =>
    obtain ⟨first, rest, rfl, isWord⟩ := inductionHypothesis
    exact ⟨first, _, rfl, isWord⟩

/-- A term ends in a hyphen and a word. -/
theorem last_of_isTerm {term : List Symbol} (isTerm : IsTerm alphabet term) :
    ∃ lead word, term = lead ++ alphabet.hyphen :: word ∧ IsWord alphabet word := by
  cases isTerm with
  | two _ isSecond => exact ⟨_, _, rfl, isSecond⟩
  | more _ isWord => exact ⟨_, _, rfl, isWord⟩

theorem endsInWord_concat :
    EndsInWord alphabet (text ++ [symbol]) ↔ alphabet.isWord symbol = true := by
  constructor
  · rintro ⟨before, last, same, isWord⟩
    rw [(List.append_singleton_inj.mp same).2]
    exact isWord
  · exact fun isWord => ⟨text, symbol, rfl, isWord⟩

theorem endsInHyphen_concat :
    EndsInHyphen alphabet (text ++ [symbol]) ↔
      symbol = alphabet.hyphen ∧ EndsInWord alphabet text := by
  constructor
  · rintro ⟨before, same, inWord⟩
    obtain ⟨rfl, rfl⟩ := List.append_singleton_inj.mp same
    exact ⟨rfl, inWord⟩
  · rintro ⟨rfl, inWord⟩
    exact ⟨text, rfl, inWord⟩

theorem not_endsInWord_nil : ¬ EndsInWord alphabet [] := by
  rintro ⟨before, last, same, _⟩
  exact List.cons_ne_nil _ _ (List.append_eq_nil_iff.mp same.symm).2

theorem not_endsInHyphen_nil : ¬ EndsInHyphen alphabet [] := by
  rintro ⟨before, same, _⟩
  exact List.cons_ne_nil _ _ (List.append_eq_nil_iff.mp same.symm).2

theorem endsInWord_append (isWord : IsWord alphabet word) (front : List Symbol) :
    EndsInWord alphabet (front ++ word) := by
  obtain ⟨someWord, areWord⟩ := isWord
  obtain ⟨before, last, rfl⟩ := (List.eq_nil_or_concat' word).resolve_left someWord
  rw [← List.append_assoc, endsInWord_concat]
  exact areWord last (List.mem_append_right _ (List.mem_singleton_self last))

/-- The word at the end of a text and what is before it are unique. -/
theorem word_unique {first second firstWord secondWord : List Symbol}
    (same : first ++ firstWord = second ++ secondWord) (firstEnds : ¬ EndsInWord alphabet first)
    (secondEnds : ¬ EndsInWord alphabet second)
    (isFirst : ∀ symbol ∈ firstWord, alphabet.isWord symbol = true)
    (isSecond : ∀ symbol ∈ secondWord, alphabet.isWord symbol = true) :
    first = second ∧ firstWord = secondWord := by
  rcases List.append_eq_append_iff.mp same with ⟨between, rfl, rfl⟩ | ⟨between, rfl, rfl⟩
  · rcases List.eq_nil_or_concat' between with rfl | ⟨before, last, rfl⟩
    · exact ⟨(List.append_nil _).symm, rfl⟩
    · refine absurd (endsInWord_append ⟨List.append_ne_nil_of_right_ne_nil _ (List.cons_ne_nil _ _),
        fun symbol member => isFirst symbol (List.mem_append_left _ member)⟩ first) secondEnds
  · rcases List.eq_nil_or_concat' between with rfl | ⟨before, last, rfl⟩
    · exact ⟨List.append_nil _, rfl⟩
    · refine absurd (endsInWord_append ⟨List.append_ne_nil_of_right_ne_nil _ (List.cons_ne_nil _ _),
        fun symbol member => isSecond symbol (List.mem_append_left _ member)⟩ second) firstEnds

/-! ### Ends of a list -/

/-- A text is what stands behind the last symbol that is not solid, and what stands before. -/
theorem last_break (solid : Symbol → Bool) (text : List Symbol) :
    (∀ symbol ∈ text, solid symbol = true) ∨
      ∃ front last word, text = front ++ last :: word ∧ ¬ solid last = true ∧
        ∀ symbol ∈ word, solid symbol = true := by
  induction text using List.reverseRecOn with
  | nil => exact Or.inl (List.forall_mem_nil _)
  | append_singleton text symbol inductionHypothesis =>
    by_cases isSolid : solid symbol = true
    · have single : ∀ other ∈ [symbol], solid other = true := by
        intro other member
        rw [List.mem_singleton.mp member]
        exact isSolid
      rcases inductionHypothesis with allSolid | ⟨front, last, word, rfl, notSolid, allSolid⟩
      · exact Or.inl (List.forall_mem_append.mpr ⟨allSolid, single⟩)
      · exact Or.inr ⟨front, last, word ++ [symbol], List.append_assoc .., notSolid,
          List.forall_mem_append.mpr ⟨allSolid, single⟩⟩
    · exact Or.inr ⟨text, symbol, [], rfl, isSolid, List.forall_mem_nil _⟩

theorem split_last_break {solid : Symbol → Bool} (front : List Symbol) {last : Symbol}
    (notSolid : ¬ solid last = true) (allSolid : ∀ symbol ∈ word, solid symbol = true) :
    (front ++ last :: word).rdropWhile solid = front ++ [last] ∧
      (front ++ last :: word).rtakeWhile solid = word := by
  induction word using List.reverseRecOn with
  | nil =>
    exact ⟨List.rdropWhile_concat_neg _ _ _ notSolid, List.rtakeWhile_concat_neg _ _ _ notSolid⟩
  | append_singleton word symbol inductionHypothesis =>
    obtain ⟨wordSolid, symbolSolid⟩ := List.forall_mem_append.mp allSolid
    have isSolid := symbolSolid symbol (List.mem_singleton_self symbol)
    obtain ⟨dropped, taken⟩ := inductionHypothesis wordSolid
    rw [← List.cons_append, ← List.append_assoc, List.rdropWhile_concat_pos _ _ _ isSolid,
      List.rtakeWhile_concat_pos _ _ _ isSolid, dropped, taken]
    exact ⟨rfl, rfl⟩

theorem dropWhile_append_solid {blank : Symbol → Bool} {first : Symbol}
    (solid : ¬ blank first = true)
    (front rest : List Symbol) :
    (front ++ first :: rest).dropWhile blank = front.dropWhile blank ++ first :: rest := by
  induction front with
  | nil => exact List.dropWhile_cons_of_neg solid
  | cons symbol front inductionHypothesis =>
    rw [List.cons_append, List.dropWhile_cons, List.dropWhile_cons]
    split
    next => exact inductionHypothesis
    next => rfl

/-! ### What is at hand -/

/-- What was read: the text that is written, and behind it the word or the term at hand, with a
hyphen that may belong to it. -/
structure Scan (Symbol : Type) where
  done : List Symbol
  word : List Symbol
  hyphenated : Bool
  hyphen : Bool

variable (alphabet) in
/-- The hyphen behind the word. -/
def Scan.tail (scan : Scan Symbol) : List Symbol := if scan.hyphen then [alphabet.hyphen] else []

variable (alphabet) in
/-- The text that is written if the word ends. A hyphen behind it belongs to no term. -/
def Scan.written (scan : Scan Symbol) : List Symbol :=
  let term :=
    if scan.hyphenated then alphabet.quote :: (scan.word ++ [alphabet.quote]) else scan.word
  scan.done ++ (term ++ scan.tail alphabet)

def Scan.start : Scan Symbol where
  done := []
  word := []
  hyphenated := false
  hyphen := false

/-- The scan with nothing at hand. -/
def idle (done : List Symbol) : Scan Symbol where
  done
  word := []
  hyphenated := false
  hyphen := false

variable {scan : Scan Symbol}

theorem tail_of_hyphen (isHyphen : scan.hyphen = true) : scan.tail alphabet = [alphabet.hyphen] :=
  if_pos isHyphen

theorem tail_of_no_hyphen (noHyphen : scan.hyphen = false) : scan.tail alphabet = [] := by
  unfold Scan.tail
  rw [noHyphen]
  rfl

theorem tail_quotes (scan : Scan Symbol) : alphabet.quote ∉ scan.tail alphabet := by
  unfold Scan.tail
  split
  next => exact fun member => alphabet.quote_ne_hyphen (List.mem_singleton.mp member)
  next => exact List.not_mem_nil

/-- The word that a symbol is put behind is not empty. -/
theorem word_concat_ne_nil (scan : Scan Symbol) (symbol : Symbol) :
    scan.word ++ (scan.tail alphabet ++ [symbol]) ≠ [] :=
  List.append_ne_nil_of_right_ne_nil _
    (List.append_ne_nil_of_right_ne_nil _ (List.cons_ne_nil _ _))

/-- A symbol is part of a word, a hyphen directly behind a word, or a break. -/
theorem symbol_cases (alphabet : Alphabet Symbol) (scan : Scan Symbol) (symbol : Symbol) :
    alphabet.isWord symbol = true ∨
      (symbol = alphabet.hyphen ∧ scan.word ≠ [] ∧ scan.hyphen = false) ∨
      (alphabet.isWord symbol = false ∧
        ¬ (symbol = alphabet.hyphen ∧ scan.word ≠ [] ∧ scan.hyphen = false)) := by
  by_cases isWord : alphabet.isWord symbol = true
  · exact Or.inl isWord
  · exact Or.inr ((em _).imp_right fun notJoined => ⟨Bool.eq_false_iff.mpr isWord, notJoined⟩)

theorem written_of_hyphenated (scan : Scan Symbol) (isHyphenated : scan.hyphenated = true) :
    scan.written alphabet =
      scan.done ++ (alphabet.quote :: (scan.word ++ (alphabet.quote :: scan.tail alphabet))) := by
  unfold Scan.written
  dsimp only
  rw [if_pos isHyphenated, List.cons_append, List.append_assoc]
  rfl

theorem written_of_plain (scan : Scan Symbol) (plain : scan.hyphenated = false) :
    scan.written alphabet = scan.done ++ (scan.word ++ scan.tail alphabet) := by
  unfold Scan.written
  dsimp only
  rw [if_neg (by rw [plain]; exact Bool.false_ne_true)]

theorem written_done (front : List Symbol) (scan : Scan Symbol) :
    Scan.written alphabet { scan with done := front ++ scan.done } =
      front ++ scan.written alphabet :=
  List.append_assoc ..

theorem written_idle (done : List Symbol) : (idle done).written alphabet = done :=
  List.append_nil done

/-! ### The pass -/

variable [DecidableEq Symbol] (alphabet)

def Scan.step (scan : Scan Symbol) (symbol : Symbol) : Scan Symbol :=
  if alphabet.isWord symbol then
    { scan with
      word := scan.word ++ (scan.tail alphabet ++ [symbol])
      hyphenated := scan.hyphenated || scan.hyphen
      hyphen := false }
  else if symbol = alphabet.hyphen ∧ scan.word ≠ [] ∧ scan.hyphen = false then
    { scan with hyphen := true }
  else
    { done := scan.written alphabet ++ [symbol], word := [], hyphenated := false, hyphen := false }

def scanOf (text : List Symbol) : Scan Symbol := text.foldl (Scan.step alphabet) Scan.start

/-- The text with quotes around each hyphenated term. -/
def wrapTerms (text : List Symbol) : List Symbol := (scanOf alphabet text).written alphabet

/-! ### Quotes -/

def quotes (text : List Symbol) : Nat := text.count alphabet.quote

/-- The text without its quotes. -/
def unquoted (text : List Symbol) : List Symbol :=
  text.filter fun symbol => symbol ≠ alphabet.quote

variable {alphabet}

theorem quotes_append (front back : List Symbol) :
    quotes alphabet (front ++ back) = quotes alphabet front + quotes alphabet back :=
  List.count_append

theorem unquoted_append (front back : List Symbol) :
    unquoted alphabet (front ++ back) = unquoted alphabet front ++ unquoted alphabet back :=
  List.filter_append ..

theorem quotes_cons_quote (text : List Symbol) :
    quotes alphabet (alphabet.quote :: text) = quotes alphabet text + 1 :=
  List.count_cons_self

theorem unquoted_cons_quote (text : List Symbol) :
    unquoted alphabet (alphabet.quote :: text) = unquoted alphabet text :=
  List.filter_cons_of_neg (by rw [decide_eq_true_iff]; exact fun other => other rfl)

theorem unquoted_cons_of_ne (other : symbol ≠ alphabet.quote) (text : List Symbol) :
    unquoted alphabet (symbol :: text) = symbol :: unquoted alphabet text :=
  List.filter_cons_of_pos (decide_eq_true other)

theorem quotes_eq_zero (noQuote : alphabet.quote ∉ text) : quotes alphabet text = 0 :=
  List.count_eq_zero.mpr noQuote

theorem unquoted_eq_self (noQuote : alphabet.quote ∉ text) : unquoted alphabet text = text :=
  List.filter_eq_self.mpr fun _ member =>
    decide_eq_true fun isQuote => noQuote (isQuote ▸ member)

theorem quote_not_mem_unquoted (text : List Symbol) :
    alphabet.quote ∉ unquoted alphabet text := by
  intro member
  have other := (List.mem_filter.mp member).2
  exact of_decide_eq_true other rfl

theorem quotes_unquoted (text : List Symbol) : quotes alphabet (unquoted alphabet text) = 0 :=
  quotes_eq_zero (quote_not_mem_unquoted text)

theorem unquoted_unquoted (text : List Symbol) :
    unquoted alphabet (unquoted alphabet text) = unquoted alphabet text :=
  unquoted_eq_self (quote_not_mem_unquoted text)

/-! ### What the pass keeps -/

theorem scanOf_append (front back : List Symbol) :
    scanOf alphabet (front ++ back) = back.foldl (Scan.step alphabet) (scanOf alphabet front) :=
  List.foldl_append

theorem scanOf_concat (front : List Symbol) (symbol : Symbol) :
    scanOf alphabet (front ++ [symbol]) = (scanOf alphabet front).step alphabet symbol := by
  rw [scanOf_append]
  rfl

theorem step_of_isWord (isWord : alphabet.isWord symbol = true) :
    scan.step alphabet symbol =
      { scan with
        word := scan.word ++ (scan.tail alphabet ++ [symbol])
        hyphenated := scan.hyphenated || scan.hyphen
        hyphen := false } := by
  unfold Scan.step
  rw [if_pos isWord]

/-- A hyphen directly behind a word is kept at hand. -/
theorem step_of_hyphen (someWord : scan.word ≠ []) (noHyphen : scan.hyphen = false) :
    scan.step alphabet alphabet.hyphen = { scan with hyphen := true } := by
  unfold Scan.step
  rw [if_neg (by rw [alphabet.hyphen_not_word]; exact Bool.false_ne_true),
    if_pos ⟨rfl, someWord, noHyphen⟩]

theorem step_of_break (notWord : alphabet.isWord symbol = false)
    (notJoined : ¬ (symbol = alphabet.hyphen ∧ scan.word ≠ [] ∧ scan.hyphen = false)) :
    scan.step alphabet symbol =
      { done := scan.written alphabet ++ [symbol], word := [], hyphenated := false
        hyphen := false } := by
  unfold Scan.step
  rw [if_neg (by rw [notWord]; exact Bool.false_ne_true), if_neg notJoined]

/-- What holds of the scan of a text. -/
structure Sound (alphabet : Alphabet Symbol) (text : List Symbol) (scan : Scan Symbol) : Prop where
  /-- The pass changes quotes only. -/
  unquoted : unquoted alphabet text =
    QuotedTerms.unquoted alphabet scan.done ++ (scan.word ++ scan.tail alphabet)
  /-- It writes them in pairs. -/
  quotes : Even (quotes alphabet text) ↔ Even (QuotedTerms.quotes alphabet scan.done)
  noQuote : alphabet.quote ∉ scan.word
  noHyphen : scan.word = [] → scan.hyphenated = false ∧ scan.hyphen = false

theorem unquoted_written (noQuote : alphabet.quote ∉ scan.word) :
    unquoted alphabet (scan.written alphabet) =
      unquoted alphabet scan.done ++ (scan.word ++ scan.tail alphabet) := by
  cases isHyphenated : scan.hyphenated with
  | true =>
    rw [written_of_hyphenated scan isHyphenated, unquoted_append, unquoted_cons_quote,
      unquoted_append, unquoted_cons_quote, unquoted_eq_self noQuote,
      unquoted_eq_self (tail_quotes scan)]
  | false =>
    rw [written_of_plain scan isHyphenated, unquoted_append, unquoted_append,
      unquoted_eq_self noQuote, unquoted_eq_self (tail_quotes scan)]

theorem even_quotes_written (noQuote : alphabet.quote ∉ scan.word) :
    Even (quotes alphabet (scan.written alphabet)) ↔ Even (quotes alphabet scan.done) := by
  cases isHyphenated : scan.hyphenated with
  | true =>
    rw [written_of_hyphenated scan isHyphenated, quotes_append, quotes_cons_quote, quotes_append,
      quotes_cons_quote, quotes_eq_zero noQuote, quotes_eq_zero (tail_quotes scan)]
    exact Nat.even_add.trans (iff_true_right (by decide))
  | false =>
    rw [written_of_plain scan isHyphenated, quotes_append, quotes_append,
      quotes_eq_zero noQuote, quotes_eq_zero (tail_quotes scan)]
    exact Iff.rfl

theorem sound_step (sound : Sound alphabet text scan) (symbol : Symbol) :
    Sound alphabet (text ++ [symbol]) (scan.step alphabet symbol) := by
  obtain ⟨isUnquoted, areQuotes, noQuote, noHyphen⟩ := sound
  rcases symbol_cases alphabet scan symbol with
    isWord | ⟨rfl, someWord, noHyphen⟩ | ⟨notWord, notJoined⟩
  · have other := ne_quote_of_isWord isWord
    have noQuoteHere : alphabet.quote ∉ [symbol] :=
      fun member => other (List.mem_singleton.mp member).symm
    rw [step_of_isWord isWord]
    constructor
    · rw [unquoted_append, isUnquoted, unquoted_eq_self noQuoteHere]
      show _ = unquoted alphabet scan.done ++ (scan.word ++ (scan.tail alphabet ++ [symbol]) ++ [])
      rw [List.append_nil, List.append_assoc, List.append_assoc]
    · rw [quotes_append, quotes_eq_zero noQuoteHere]
      exact areQuotes
    · intro member
      rcases List.mem_append.mp member with member | member
      · exact noQuote member
      · rcases List.mem_append.mp member with member | member
        · exact tail_quotes scan member
        · exact noQuoteHere member
    · exact fun isNil => absurd isNil (word_concat_ne_nil scan symbol)
  · have noQuoteHere : alphabet.quote ∉ [alphabet.hyphen] :=
      fun member => alphabet.quote_ne_hyphen (List.mem_singleton.mp member)
    rw [step_of_hyphen someWord noHyphen]
    constructor
    · rw [unquoted_append, isUnquoted, unquoted_eq_self noQuoteHere, tail_of_no_hyphen noHyphen,
        List.append_nil, List.append_assoc]
      rfl
    · rw [quotes_append, quotes_eq_zero noQuoteHere]
      exact areQuotes
    · exact noQuote
    · exact fun isNil => absurd isNil someWord
  · rw [step_of_break notWord notJoined]
    constructor
    · rw [unquoted_append, unquoted_append, isUnquoted, unquoted_written noQuote]
      exact (List.append_nil _).symm
    · rw [quotes_append, quotes_append, Nat.even_add, Nat.even_add, areQuotes,
        even_quotes_written noQuote]
    · exact List.not_mem_nil
    · exact fun _ => ⟨rfl, rfl⟩

variable (alphabet) in
theorem sound_scanOf (text : List Symbol) : Sound alphabet text (scanOf alphabet text) := by
  induction text using List.reverseRecOn with
  | nil => exact ⟨rfl, Iff.rfl, List.not_mem_nil, fun _ => ⟨rfl, rfl⟩⟩
  | append_singleton text symbol inductionHypothesis =>
    rw [scanOf_concat]
    exact sound_step inductionHypothesis symbol

variable (alphabet) in
theorem unquoted_wrapTerms (text : List Symbol) :
    unquoted alphabet (wrapTerms alphabet text) = unquoted alphabet text := by
  obtain ⟨isUnquoted, _, noQuote, _⟩ := sound_scanOf alphabet text
  exact (unquoted_written noQuote).trans isUnquoted.symm

theorem even_quotes_wrapTerms (text : List Symbol) :
    Even (quotes alphabet (wrapTerms alphabet text)) ↔ Even (quotes alphabet text) := by
  obtain ⟨_, areQuotes, noQuote, _⟩ := sound_scanOf alphabet text
  exact (even_quotes_written noQuote).trans areQuotes.symm

/-- What is written has the symbols of the text, and quotes. -/
theorem mem_of_mem_wrapTerms (member : symbol ∈ wrapTerms alphabet text)
    (other : symbol ≠ alphabet.quote) : symbol ∈ text := by
  have kept : symbol ∈ unquoted alphabet (wrapTerms alphabet text) :=
    List.mem_filter.mpr ⟨member, decide_eq_true other⟩
  rw [unquoted_wrapTerms] at kept
  exact List.mem_of_mem_filter kept

/-! ### Texts that are treated apart -/

/-- Nothing of the text is at hand, so what follows begins anew. -/
def Closed (alphabet : Alphabet Symbol) (text : List Symbol) : Prop :=
  scanOf alphabet text = idle (wrapTerms alphabet text)

variable (alphabet) in
/-- The scan of what follows does not look at what is written. -/
theorem foldl_step_done (front back : List Symbol) (scan : Scan Symbol) :
    back.foldl (Scan.step alphabet) { scan with done := front ++ scan.done } =
      { back.foldl (Scan.step alphabet) scan with
        done := front ++ (back.foldl (Scan.step alphabet) scan).done } := by
  induction back generalizing scan with
  | nil => rfl
  | cons symbol back inductionHypothesis =>
    have sameStep : Scan.step alphabet { scan with done := front ++ scan.done } symbol =
        { scan.step alphabet symbol with done := front ++ (scan.step alphabet symbol).done } := by
      unfold Scan.step
      dsimp only
      split
      next => rfl
      next =>
        split
        next => rfl
        next => rw [written_done, List.append_assoc]
    rw [List.foldl_cons, List.foldl_cons, sameStep]
    exact inductionHypothesis _

theorem written_foldl_idle (done back : List Symbol) :
    (back.foldl (Scan.step alphabet) (idle done)).written alphabet =
      done ++ wrapTerms alphabet back := by
  have same := foldl_step_done alphabet done back Scan.start
  rw [show { Scan.start with done := done ++ Scan.start.done } = idle done from
    congrArg idle (List.append_nil done)] at same
  rw [same]
  unfold Scan.written
  dsimp only
  rw [List.append_assoc]
  rfl

theorem wrapTerms_append (closed : Closed alphabet front) (back : List Symbol) :
    wrapTerms alphabet (front ++ back) = wrapTerms alphabet front ++ wrapTerms alphabet back := by
  rw [wrapTerms, scanOf_append, closed]
  exact written_foldl_idle _ back

/-- A symbol that is not at hand is written behind all before it. -/
theorem closed_concat (front : List Symbol) (notWord : alphabet.isWord symbol = false)
    (notJoined : ¬ (symbol = alphabet.hyphen ∧ (scanOf alphabet front).word ≠ [] ∧
      (scanOf alphabet front).hyphen = false)) :
    wrapTerms alphabet (front ++ [symbol]) = wrapTerms alphabet front ++ [symbol] ∧
      Closed alphabet (front ++ [symbol]) := by
  have isIdle : scanOf alphabet (front ++ [symbol]) =
      idle (wrapTerms alphabet front ++ [symbol]) := by
    rw [scanOf_concat, step_of_break notWord notJoined]
    rfl
  have isWritten : wrapTerms alphabet (front ++ [symbol]) =
      wrapTerms alphabet front ++ [symbol] := by
    rw [wrapTerms, isIdle]
    exact List.append_nil _
  refine ⟨isWritten, ?_⟩
  unfold Closed
  rw [isWritten]
  exact isIdle

/-- A symbol that is neither part of a word nor a hyphen divides the text. -/
theorem wrapTerms_break (notWord : alphabet.isWord symbol = false)
    (notHyphen : symbol ≠ alphabet.hyphen) (front back : List Symbol) :
    wrapTerms alphabet (front ++ symbol :: back) =
      wrapTerms alphabet front ++ symbol :: wrapTerms alphabet back := by
  obtain ⟨isWritten, closed⟩ := closed_concat front notWord fun both => notHyphen both.1
  rw [List.append_cons, wrapTerms_append closed, isWritten, List.append_assoc]
  rfl

theorem wrapTerms_cons (notWord : alphabet.isWord symbol = false) (rest : List Symbol) :
    wrapTerms alphabet (symbol :: rest) = symbol :: wrapTerms alphabet rest := by
  obtain ⟨isWritten, closed⟩ := closed_concat [] notWord fun both => both.2.1 rfl
  rw [← List.singleton_append, ← List.nil_append [symbol], wrapTerms_append closed, isWritten]
  rfl

theorem wrapTerms_eq_nil : wrapTerms alphabet text = [] ↔ text = [] := by
  constructor
  · intro isWritten
    cases text with
    | nil => rfl
    | cons symbol rest =>
      by_cases isQuote : symbol = alphabet.quote
      · rw [wrapTerms_cons (isQuote ▸ alphabet.quote_not_word)] at isWritten
        cases isWritten
      · have same := unquoted_wrapTerms alphabet (symbol :: rest)
        rw [isWritten, unquoted_cons_of_ne isQuote] at same
        cases same
  · rintro rfl
    rfl

/-! ### The end of a text -/

/-- What is at hand is the end of the text. -/
structure AtHand (alphabet : Alphabet Symbol) (text : List Symbol) (scan : Scan Symbol) :
    Prop where
  word : scan.word ≠ [] ∧ scan.hyphen = false ↔ EndsInWord alphabet text
  hyphen : scan.hyphen = true ↔ EndsInHyphen alphabet text
  split : ∃ before, text = before ++ (scan.word ++ scan.tail alphabet) ∧
    scanOf alphabet before = idle scan.done
  plain : scan.hyphenated = false → ∀ symbol ∈ scan.word, alphabet.isWord symbol = true
  none : scan.word = [] → scan.hyphen = false

theorem atHand_step (isScan : scanOf alphabet text = scan) (hand : AtHand alphabet text scan)
    (symbol : Symbol) : AtHand alphabet (text ++ [symbol]) (scan.step alphabet symbol) := by
  obtain ⟨atWord, atHyphen, ⟨before, isText, isDone⟩, plain, none⟩ := hand
  have notEnds : alphabet.isWord symbol = false → ¬ EndsInWord alphabet (text ++ [symbol]) :=
    fun notWord => mt endsInWord_concat.mp (Bool.eq_false_iff.mp notWord)
  rcases symbol_cases alphabet scan symbol with
    isWord | ⟨rfl, someWord, noHyphen⟩ | ⟨notWord, notJoined⟩
  · rw [step_of_isWord isWord]
    constructor
    · exact iff_of_true ⟨word_concat_ne_nil scan symbol, rfl⟩ (endsInWord_concat.mpr isWord)
    · refine iff_of_false Bool.false_ne_true fun ends => ?_
      rw [(endsInHyphen_concat.mp ends).1, alphabet.hyphen_not_word] at isWord
      cases isWord
    · refine ⟨before, ?_, isDone⟩
      show text ++ [symbol] = before ++ (scan.word ++ (scan.tail alphabet ++ [symbol]) ++ [])
      rw [isText, List.append_nil, List.append_assoc, List.append_assoc]
    · intro isPlain other member
      obtain ⟨wasPlain, noHyphen⟩ := Bool.or_eq_false_iff.mp isPlain
      rw [tail_of_no_hyphen noHyphen] at member
      rcases List.mem_append.mp member with member | member
      · exact plain wasPlain other member
      · rw [List.mem_singleton.mp member]
        exact isWord
    · exact fun _ => rfl
  · rw [step_of_hyphen someWord noHyphen]
    constructor
    · exact iff_of_false (fun both => Bool.noConfusion both.2)
        (notEnds alphabet.hyphen_not_word)
    · exact iff_of_true rfl (endsInHyphen_concat.mpr ⟨rfl, atWord.mp ⟨someWord, noHyphen⟩⟩)
    · refine ⟨before, ?_, isDone⟩
      rw [isText, tail_of_no_hyphen noHyphen, List.append_nil, List.append_assoc]
      rfl
    · exact plain
    · exact fun isNil => absurd isNil someWord
  · rw [step_of_break notWord notJoined]
    constructor
    · exact iff_of_false (fun both => both.1 rfl) (notEnds notWord)
    · refine iff_of_false Bool.false_ne_true fun ends => ?_
      obtain ⟨isHyphen, inWord⟩ := endsInHyphen_concat.mp ends
      exact notJoined ⟨isHyphen, atWord.mpr inWord⟩
    · refine ⟨text ++ [symbol], (List.append_nil _).symm, ?_⟩
      rw [scanOf_concat, isScan, step_of_break notWord notJoined]
      rfl
    · exact fun _ => List.forall_mem_nil _
    · exact fun _ => rfl

variable (alphabet) in
theorem atHand_scanOf (text : List Symbol) : AtHand alphabet text (scanOf alphabet text) := by
  induction text using List.reverseRecOn with
  | nil =>
    constructor
    · exact iff_of_false (fun both => both.1 rfl) not_endsInWord_nil
    · exact iff_of_false Bool.false_ne_true not_endsInHyphen_nil
    · exact ⟨[], rfl, rfl⟩
    · exact fun _ => List.forall_mem_nil _
    · exact fun _ => rfl
  | append_singleton text symbol inductionHypothesis =>
    rw [scanOf_concat]
    exact atHand_step rfl inductionHypothesis symbol

/-- A text is closed exactly if it ends in no word, nor in a hyphen that may join one. -/
theorem closed_iff :
    Closed alphabet text ↔ ¬ EndsInWord alphabet text ∧ ¬ EndsInHyphen alphabet text := by
  obtain ⟨atWord, atHyphen, ⟨before, isText, isDone⟩, _, _⟩ :=
    atHand_scanOf alphabet text
  constructor
  · intro closed
    rw [← atWord, ← atHyphen, closed]
    exact ⟨fun both => both.1 rfl, Bool.false_ne_true⟩
  · rintro ⟨noWord, noHyphen⟩
    have hyphenFalse : (scanOf alphabet text).hyphen = false :=
      Bool.eq_false_iff.mpr (mt atHyphen.mp noHyphen)
    have wordNil : (scanOf alphabet text).word = [] := by
      by_contra someWord
      exact noWord (atWord.mp ⟨someWord, hyphenFalse⟩)
    rw [wordNil, tail_of_no_hyphen hyphenFalse, List.append_nil, List.append_nil] at isText
    unfold Closed wrapTerms
    rw [isText, isDone, written_idle]

/-- The last symbol of a closed text is written as it is. -/
theorem wrapTerms_concat (closed : Closed alphabet (text ++ [symbol])) :
    wrapTerms alphabet (text ++ [symbol]) = wrapTerms alphabet text ++ [symbol] := by
  obtain ⟨noWord, noHyphen⟩ := closed_iff.mp closed
  have notWord : alphabet.isWord symbol = false :=
    Bool.eq_false_iff.mpr (mt endsInWord_concat.mpr noWord)
  refine (closed_concat text notWord ?_).1
  rintro ⟨isHyphen, atHand⟩
  exact noHyphen (endsInHyphen_concat.mpr
    ⟨isHyphen, (atHand_scanOf alphabet text).word.mp atHand⟩)

theorem not_endsInWord_wrapTerms (closed : Closed alphabet text) :
    ¬ EndsInWord alphabet (wrapTerms alphabet text) := by
  rcases List.eq_nil_or_concat' text with rfl | ⟨before, last, rfl⟩
  · exact not_endsInWord_nil
  · rw [wrapTerms_concat closed, endsInWord_concat]
    exact mt endsInWord_concat.mpr (closed_iff.mp closed).1

/-! ### Terms -/

theorem foldl_step_word {word : List Symbol}
    (isWord : ∀ symbol ∈ word, alphabet.isWord symbol = true) (noHyphen : scan.hyphen = false) :
    word.foldl (Scan.step alphabet) scan = { scan with word := scan.word ++ word } := by
  induction word generalizing scan with
  | nil => rw [List.append_nil]; rfl
  | cons symbol word inductionHypothesis =>
    obtain ⟨isFirst, isRest⟩ := List.forall_mem_cons.mp isWord
    rw [List.foldl_cons, step_of_isWord isFirst, inductionHypothesis isRest rfl,
      tail_of_no_hyphen noHyphen, noHyphen, Bool.or_false]
    dsimp only
    rw [List.nil_append, List.append_assoc]
    rfl

/-- A word goes behind what is at hand. -/
theorem foldl_step_isWord {word : List Symbol} (isWord : IsWord alphabet word)
    (scan : Scan Symbol) :
    word.foldl (Scan.step alphabet) scan =
      { scan with
        word := scan.word ++ (scan.tail alphabet ++ word)
        hyphenated := scan.hyphenated || scan.hyphen
        hyphen := false } := by
  obtain ⟨someWord, areWord⟩ := isWord
  obtain ⟨symbol, word, rfl⟩ := List.exists_cons_of_ne_nil someWord
  obtain ⟨isFirst, isRest⟩ := List.forall_mem_cons.mp areWord
  rw [List.foldl_cons, step_of_isWord isFirst, foldl_step_word isRest rfl]
  dsimp only
  rw [List.append_assoc, List.append_assoc]
  rfl

/-- A hyphen and a word behind a word make a term. -/
theorem foldl_step_hyphen {word : List Symbol} (isWord : IsWord alphabet word)
    (someWord : scan.word ≠ []) (noHyphen : scan.hyphen = false) :
    (alphabet.hyphen :: word).foldl (Scan.step alphabet) scan =
      { scan with
        word := scan.word ++ (alphabet.hyphen :: word)
        hyphenated := true
        hyphen := false } := by
  rw [List.foldl_cons, step_of_hyphen someWord noHyphen, foldl_step_isWord isWord]
  dsimp only
  rw [tail_of_hyphen rfl, Bool.or_true]
  rfl

theorem foldl_step_term {term : List Symbol} (isTerm : IsTerm alphabet term)
    (scan : Scan Symbol) :
    term.foldl (Scan.step alphabet) scan =
      { scan with
        word := scan.word ++ (scan.tail alphabet ++ term)
        hyphenated := true
        hyphen := false } := by
  induction isTerm with
  | two isFirst isSecond =>
    have someWord : ∀ front : List Symbol, scan.word ++ (front ++ _) ≠ [] := fun front =>
      List.append_ne_nil_of_right_ne_nil _ (List.append_ne_nil_of_right_ne_nil _ isFirst.1)
    rw [List.foldl_append, foldl_step_isWord isFirst, foldl_step_hyphen isSecond (someWord _) rfl]
    dsimp only
    rw [List.append_assoc, List.append_assoc]
  | more isTerm isWord inductionHypothesis =>
    have someWord : ∀ front : List Symbol, scan.word ++ (front ++ _) ≠ [] := fun front =>
      List.append_ne_nil_of_right_ne_nil _
        (List.append_ne_nil_of_right_ne_nil _ (ne_nil_of_isTerm isTerm))
    rw [List.foldl_append, inductionHypothesis, foldl_step_hyphen isWord (someWord _) rfl]
    dsimp only
    rw [List.append_assoc, List.append_assoc]

variable (alphabet) in
/-- Once the word at hand has a hyphen inside, the quote before it is there to stay. -/
theorem written_foldl_hyphenated (scan : Scan Symbol) (isHyphenated : scan.hyphenated = true)
    (back : List Symbol) :
    ∃ rest, (back.foldl (Scan.step alphabet) scan).written alphabet =
      scan.done ++ (alphabet.quote :: (scan.word ++ rest)) := by
  induction back generalizing scan with
  | nil => exact ⟨_, written_of_hyphenated _ isHyphenated⟩
  | cons symbol back inductionHypothesis =>
    rw [List.foldl_cons]
    rcases symbol_cases alphabet scan symbol with
      isWord | ⟨rfl, someWord, noHyphen⟩ | ⟨notWord, notJoined⟩
    · rw [step_of_isWord isWord]
      obtain ⟨rest, same⟩ := inductionHypothesis
        { scan with
          word := scan.word ++ (scan.tail alphabet ++ [symbol])
          hyphenated := scan.hyphenated || scan.hyphen
          hyphen := false }
        (by dsimp only; rw [isHyphenated, Bool.true_or])
      refine ⟨scan.tail alphabet ++ [symbol] ++ rest, same.trans ?_⟩
      dsimp only
      rw [List.append_assoc scan.word]
    · rw [step_of_hyphen someWord noHyphen]
      exact inductionHypothesis { scan with hyphen := true } isHyphenated
    · rw [step_of_break notWord notJoined]
      refine ⟨alphabet.quote :: (scan.tail alphabet ++ ([symbol] ++ wrapTerms alphabet back)), ?_⟩
      refine (written_foldl_idle (scan.written alphabet ++ [symbol]) back).trans ?_
      rw [written_of_hyphenated _ isHyphenated]
      simp only [List.append_assoc, List.cons_append]

/-- A term changes sides: it gets a quote in front, and the other quotes come in pairs. -/
theorem wrapTerms_term {term : List Symbol} (isTerm : IsTerm alphabet term)
    (front back : List Symbol) :
    ∃ before rest, wrapTerms alphabet (front ++ (term ++ back)) = before ++ (term ++ rest) ∧
      unquoted alphabet before = unquoted alphabet front ∧
      (Even (quotes alphabet before) ↔ ¬ Even (quotes alphabet front)) := by
  obtain ⟨isUnquoted, areQuotes, noQuote, _⟩ := sound_scanOf alphabet front
  obtain ⟨rest, same⟩ := written_foldl_hyphenated alphabet
    { scanOf alphabet front with
      word := (scanOf alphabet front).word ++ ((scanOf alphabet front).tail alphabet ++ term)
      hyphenated := true
      hyphen := false } rfl back
  refine ⟨(scanOf alphabet front).done ++ (alphabet.quote ::
    ((scanOf alphabet front).word ++ (scanOf alphabet front).tail alphabet)), rest, ?_, ?_, ?_⟩
  · rw [wrapTerms, scanOf_append, List.foldl_append, foldl_step_term isTerm, same]
    simp only [List.append_assoc, List.cons_append]
  · rw [unquoted_append, unquoted_cons_quote, unquoted_append, unquoted_eq_self noQuote,
      unquoted_eq_self (tail_quotes _), isUnquoted]
  · rw [quotes_append, quotes_cons_quote, quotes_append, quotes_eq_zero noQuote,
      quotes_eq_zero (tail_quotes _), areQuotes, ← add_assoc, Nat.even_add_one]

theorem scanOf_of_no_term (noTerm : ∀ term, IsTerm alphabet term → ¬ term <:+: text) :
    (scanOf alphabet text).hyphenated = false ∧
      (scanOf alphabet text).written alphabet = text := by
  induction text using List.reverseRecOn with
  | nil => exact ⟨rfl, rfl⟩
  | append_singleton text symbol inductionHypothesis =>
    obtain ⟨plain, isWritten⟩ := inductionHypothesis fun term isTerm within =>
      noTerm term isTerm (within.trans (List.prefix_append text [symbol]).isInfix)
    rw [written_of_plain _ plain] at isWritten
    rw [scanOf_concat]
    rcases symbol_cases alphabet (scanOf alphabet text) symbol with
      isWord | ⟨rfl, someWord, noHyphen⟩ | ⟨notWord, notJoined⟩
    · have noHyphen : (scanOf alphabet text).hyphen = false := by
        rw [Bool.eq_false_iff]
        intro isHyphen
        -- The word before the hyphen and the symbol behind it are a term.
        obtain ⟨before, rfl, front, last, rfl, isLast⟩ :=
          (atHand_scanOf alphabet text).hyphen.mp isHyphen
        refine noTerm _ (.two (isWord_singleton isLast) (isWord_singleton isWord)) ⟨front, [], ?_⟩
        simp only [List.append_assoc, List.cons_append, List.nil_append, List.append_nil]
      rw [step_of_isWord isWord, plain, noHyphen]
      refine ⟨rfl, ?_⟩
      have noTail : (scanOf alphabet text).tail alphabet = [] := tail_of_no_hyphen noHyphen
      rw [noTail, List.append_nil] at isWritten
      refine (written_of_plain _ rfl).trans ?_
      rw [noTail, tail_of_no_hyphen rfl]
      dsimp only
      rw [List.append_nil, List.nil_append, ← List.append_assoc, isWritten]
    · rw [step_of_hyphen someWord noHyphen]
      refine ⟨plain, ?_⟩
      rw [tail_of_no_hyphen noHyphen, List.append_nil] at isWritten
      refine (written_of_plain { scanOf alphabet text with hyphen := true } plain).trans ?_
      rw [tail_of_hyphen rfl]
      dsimp only
      rw [← List.append_assoc, isWritten]
    · rw [step_of_break notWord notJoined, written_of_plain _ plain,
        isWritten]
      exact ⟨rfl, List.append_nil _⟩

/-- What has no term stays as it is. -/
theorem wrapTerms_of_no_term (noTerm : ∀ term, IsTerm alphabet term → ¬ term <:+: text) :
    wrapTerms alphabet text = text :=
  (scanOf_of_no_term noTerm).2

theorem wrapTerms_of_no_hyphen (noHyphen : alphabet.hyphen ∉ text) :
    wrapTerms alphabet text = text :=
  wrapTerms_of_no_term fun _ isTerm within =>
    noHyphen (within.subset (hyphen_mem_of_isTerm isTerm))

/-! ### The end of what is written -/

/-- A word at the end of what is written was at the end of the text, and belongs to no term. -/
theorem ends_of_wrapTerms {before : List Symbol} (isWord : IsWord alphabet word)
    (noWord : ¬ EndsInWord alphabet before) :
    wrapTerms alphabet text = before ++ word ↔
      ∃ front, text = front ++ word ∧ Closed alphabet front ∧
        before = wrapTerms alphabet front := by
  constructor
  · intro isWritten
    obtain ⟨_, _, ⟨front, isText, isDone⟩, plain, _⟩ := atHand_scanOf alphabet text
    have ends : EndsInWord alphabet ((scanOf alphabet text).written alphabet) := by
      rw [← wrapTerms, isWritten]
      exact endsInWord_append isWord before
    have noHyphen : (scanOf alphabet text).hyphen = false := by
      rw [Bool.eq_false_iff]
      intro isHyphen
      unfold Scan.written at ends
      dsimp only at ends
      rw [tail_of_hyphen isHyphen, ← List.append_assoc,
        endsInWord_concat, alphabet.hyphen_not_word] at ends
      cases ends
    have isPlain : (scanOf alphabet text).hyphenated = false := by
      rw [Bool.eq_false_iff]
      intro isHyphenated
      rw [written_of_hyphenated _ isHyphenated, tail_of_no_hyphen noHyphen, ← List.cons_append,
        ← List.append_assoc, endsInWord_concat, alphabet.quote_not_word] at ends
      cases ends
    have isFront : (scanOf alphabet text).done = wrapTerms alphabet front := by
      rw [wrapTerms, isDone, written_idle]
    have closed : Closed alphabet front := by
      rw [Closed, ← isFront]
      exact isDone
    rw [tail_of_no_hyphen noHyphen, List.append_nil] at isText
    rw [wrapTerms, written_of_plain _ isPlain, tail_of_no_hyphen noHyphen, List.append_nil,
      isFront] at isWritten
    obtain ⟨same, sameWord⟩ := word_unique isWritten (not_endsInWord_wrapTerms closed) noWord
      (plain isPlain) isWord.2
    exact ⟨front, by rw [isText, sameWord], closed, same.symm⟩
  · rintro ⟨front, rfl, closed, rfl⟩
    rw [wrapTerms_append closed, wrapTerms_of_no_hyphen (hyphen_not_mem_of_isWord isWord)]

/-! ### Blanks -/

/-- A blank is neither a quote nor part of a term. -/
structure Breaks (alphabet : Alphabet Symbol) (blank : Symbol → Bool) : Prop where
  notWord : ∀ {symbol}, blank symbol = true → alphabet.isWord symbol = false
  notHyphen : ∀ {symbol}, blank symbol = true → symbol ≠ alphabet.hyphen
  notQuote : ∀ {symbol}, blank symbol = true → symbol ≠ alphabet.quote

section Blanks

variable {blank : Symbol → Bool} (breaks : Breaks alphabet blank)
include breaks

theorem dropWhile_wrapTerms (text : List Symbol) :
    (wrapTerms alphabet text).dropWhile blank = wrapTerms alphabet (text.dropWhile blank) := by
  induction text with
  | nil => rfl
  | cons symbol rest inductionHypothesis =>
    by_cases isBlank : blank symbol = true
    · rw [wrapTerms_cons (breaks.notWord isBlank), List.dropWhile_cons_of_pos isBlank,
        List.dropWhile_cons_of_pos isBlank]
      exact inductionHypothesis
    · rw [List.dropWhile_cons_of_neg isBlank]
      by_cases isQuote : symbol = alphabet.quote
      · rw [wrapTerms_cons (isQuote ▸ alphabet.quote_not_word)]
        exact List.dropWhile_cons_of_neg isBlank
      · -- What is written starts with a quote or with the same symbol.
        have same := unquoted_wrapTerms alphabet (symbol :: rest)
        rw [unquoted_cons_of_ne isQuote] at same
        cases isWritten : wrapTerms alphabet (symbol :: rest) with
        | nil => rfl
        | cons first others =>
          refine List.dropWhile_cons_of_neg fun firstBlank => isBlank ?_
          rw [isWritten, unquoted_cons_of_ne (breaks.notQuote firstBlank)] at same
          rw [← (List.cons.inj same).1]
          exact firstBlank

theorem rdropWhile_wrapTerms (text : List Symbol) :
    (wrapTerms alphabet text).rdropWhile blank = wrapTerms alphabet (text.rdropWhile blank) := by
  induction text using List.reverseRecOn with
  | nil => rfl
  | append_singleton text symbol inductionHypothesis =>
    by_cases isBlank : blank symbol = true
    · rw [wrapTerms_break (breaks.notWord isBlank) (breaks.notHyphen isBlank) text [],
        List.rdropWhile_concat_pos _ _ _ isBlank]
      exact (List.rdropWhile_concat_pos _ _ _ isBlank).trans inductionHypothesis
    · rw [List.rdropWhile_concat_neg _ _ _ isBlank]
      by_cases isQuote : symbol = alphabet.quote
      · rw [wrapTerms_break (isQuote ▸ alphabet.quote_not_word)
          (isQuote ▸ alphabet.quote_ne_hyphen) text []]
        exact List.rdropWhile_concat_neg _ _ _ isBlank
      · have same := unquoted_wrapTerms alphabet (text ++ [symbol])
        rw [unquoted_append text, unquoted_cons_of_ne isQuote] at same
        rcases List.eq_nil_or_concat' (wrapTerms alphabet (text ++ [symbol])) with
          isWritten | ⟨others, last, isWritten⟩
        · rw [isWritten]
          rfl
        · rw [isWritten]
          refine List.rdropWhile_concat_neg _ _ _ fun lastBlank => isBlank ?_
          rw [isWritten, unquoted_append, unquoted_cons_of_ne (breaks.notQuote lastBlank)] at same
          rw [← (List.append_singleton_inj.mp same).2]
          exact lastBlank

theorem trim_wrapTerms (text : List Symbol) :
    trim blank (wrapTerms alphabet text) = wrapTerms alphabet (trim blank text) := by
  unfold trim
  rw [dropWhile_wrapTerms breaks, rdropWhile_wrapTerms breaks]

/-- What stands behind the last blank is treated apart. -/
theorem last_blank_wrapTerms (text : List Symbol) :
    (wrapTerms alphabet text).rdropWhile (fun symbol => !blank symbol) =
        wrapTerms alphabet (text.rdropWhile fun symbol => !blank symbol) ∧
      (wrapTerms alphabet text).rtakeWhile (fun symbol => !blank symbol) =
        wrapTerms alphabet (text.rtakeWhile fun symbol => !blank symbol) := by
  have solid : ∀ {word : List Symbol}, (∀ symbol ∈ word, (!blank symbol) = true) →
      ∀ symbol ∈ wrapTerms alphabet word, (!blank symbol) = true := by
    intro word allSolid symbol member
    by_contra notSolid
    rw [Bool.not_eq_true, Bool.not_eq_false'] at notSolid
    have isSolid := allSolid symbol (mem_of_mem_wrapTerms member (breaks.notQuote notSolid))
    rw [notSolid] at isSolid
    cases isSolid
  rcases last_break (fun symbol => !blank symbol) text with
    allSolid | ⟨front, last, word, rfl, notSolid, allSolid⟩
  · rw [List.rdropWhile_eq_nil_iff.mpr (solid allSolid), List.rdropWhile_eq_nil_iff.mpr allSolid,
      List.rtakeWhile_eq_self_iff.mpr (solid allSolid), List.rtakeWhile_eq_self_iff.mpr allSolid]
    exact ⟨rfl, rfl⟩
  · have lastBlank : blank last = true := by
      rw [Bool.not_eq_true, Bool.not_eq_false'] at notSolid
      exact notSolid
    obtain ⟨dropped, taken⟩ := split_last_break front notSolid allSolid
    have isWritten := wrapTerms_break (breaks.notWord lastBlank) (breaks.notHyphen lastBlank) front
    obtain ⟨droppedAfter, takenAfter⟩ :=
      split_last_break (wrapTerms alphabet front) notSolid (solid allSolid)
    rw [dropped, taken, isWritten word, isWritten [], droppedAfter, takenAfter]
    exact ⟨rfl, rfl⟩

/-! ### Places in a text -/

theorem quotes_dropWhile (text : List Symbol) :
    quotes alphabet (text.dropWhile blank) = quotes alphabet text := by
  induction text with
  | nil => rfl
  | cons symbol rest inductionHypothesis =>
    rw [List.dropWhile_cons]
    split
    next isBlank =>
      rw [inductionHypothesis]
      exact (List.count_cons_of_ne (breaks.notQuote isBlank)).symm
    next => rfl

theorem quotes_trim (text : List Symbol) :
    quotes alphabet (trim blank text) = quotes alphabet text := by
  have reverse : ∀ text : List Symbol, quotes alphabet text.reverse = quotes alphabet text :=
    fun text => List.count_reverse ..
  unfold trim List.rdropWhile
  rw [reverse, quotes_dropWhile breaks, reverse, quotes_dropWhile breaks]

theorem unquoted_dropWhile (text : List Symbol) :
    (unquoted alphabet (text.dropWhile blank)).dropWhile blank =
      (unquoted alphabet text).dropWhile blank := by
  induction text with
  | nil => rfl
  | cons symbol rest inductionHypothesis =>
    rw [List.dropWhile_cons]
    split
    next isBlank =>
      rw [inductionHypothesis, unquoted_cons_of_ne (breaks.notQuote isBlank),
        List.dropWhile_cons_of_pos isBlank]
    next => rfl

omit breaks in
/-- Where a solid symbol stands is known from what stands before it, but for the quotes and the
blanks at the start. -/
theorem place_unique {first : Symbol} {before after front back : List Symbol}
    (notQuote : first ≠ alphabet.quote) (solid : ¬ blank first = true)
    (same : before ++ first :: after = front ++ first :: back)
    (aligned : (unquoted alphabet before).dropWhile blank =
      (unquoted alphabet front).dropWhile blank) : before = front := by
  -- What one of the two has more starts with the symbol, which is kept.
  have noMore : ∀ (text more : List Symbol),
      (unquoted alphabet text).dropWhile blank ≠
        (unquoted alphabet (text ++ first :: more)).dropWhile blank := by
    intro text more equal
    rw [unquoted_append, unquoted_cons_of_ne notQuote, dropWhile_append_solid solid] at equal
    exact List.cons_ne_nil _ _ (List.append_right_eq_self.mp equal.symm)
  rcases List.append_eq_append_iff.mp same with ⟨between, rfl, rest⟩ | ⟨between, rfl, rest⟩
  · cases between with
    | nil => exact (List.append_nil _).symm
    | cons symbol between =>
      rw [← (List.cons.inj rest).1] at aligned
      exact absurd aligned (noMore _ _)
  · cases between with
    | nil => exact List.append_nil _
    | cons symbol between =>
      rw [← (List.cons.inj rest).1] at aligned
      exact absurd aligned.symm (noMore _ _)

end Blanks

end LiteHorse.QuotedTerms
