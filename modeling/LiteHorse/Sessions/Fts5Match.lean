/-
This file models how the text of a search becomes a MATCH query: quotes are dropped where their
number is odd, each hyphenated term gets quotes, and an operator at the end is dropped.

None of this looks at which quotes open a phrase. The query is as it should be exactly if no
hyphenated term stands inside of a phrase already, and what is left without the one operator does
not end in another one (`wellQuoted_iff`). Which characters beyond ASCII are part of a word is a
parameter. The operators are dropped in any case, but only those in upper case are operators.
-/

import LiteHorse.Library.QuotedTerms
import LiteHorse.Strings

namespace LiteHorse.Sessions.Fts5Match

open Delimited JsonTexts Python QuotedTerms

/-! ### Words and operators -/

/-- A letter or a digit of ASCII, or the underscore. -/
def isAsciiWord (symbol : CodePoint) : Bool :=
  (0x30 ≤ symbol.val && symbol.val ≤ 0x39) || (0x41 ≤ symbol.val && symbol.val ≤ 0x5a) ||
    (0x61 ≤ symbol.val && symbol.val ≤ 0x7a) || symbol.val = 0x5f

/-- What `\w` matches. -/
structure WordClass where
  isWord : CodePoint → Bool
  ascii : ∀ {symbol : CodePoint}, symbol.val < 0x80 → isWord symbol = isAsciiWord symbol
  blank : ∀ {symbol : CodePoint}, isSpacePoint symbol = true → isWord symbol = false

theorem quote_ne_hyphen : codePoint '\x22' ≠ codePoint '-' := by decide

theorem quote_ascii : (codePoint '\x22').val < 0x80 ∧ isAsciiWord (codePoint '\x22') = false := by
  decide

theorem hyphen_ascii : (codePoint '-').val < 0x80 ∧ isAsciiWord (codePoint '-') = false := by
  decide

theorem val_of_isAsciiWord {symbol : CodePoint} (isWord : isAsciiWord symbol = true) :
    symbol.val < 0x80 := by
  unfold isAsciiWord at isWord
  simp only [Bool.or_eq_true, Bool.and_eq_true, decide_eq_true_eq] at isWord
  omega

theorem space_not_asciiWord : ∀ code : Fin 0x80,
    isSpace (Char.ofNat code) = true → isAsciiWord (ofCode code) = false := by
  decide

/-- Where no character beyond ASCII is part of a word. -/
def asciiWords : WordClass where
  isWord := isAsciiWord
  ascii := fun _ => rfl
  blank := by
    intro symbol isBlank
    by_cases isAscii : symbol.val < 0x80
    · have same : ofCode symbol.val = symbol := Fin.ofNat_val_eq_self symbol
      rw [← same]
      exact space_not_asciiWord ⟨symbol.val, isAscii⟩ isBlank
    · exact Bool.eq_false_iff.mpr fun isWord => isAscii (val_of_isAsciiWord isWord)

/-- The alphabet of `_HYPHEN_TERM_RE`. -/
def alphabet (words : WordClass) : Alphabet CodePoint where
  quote := codePoint '\x22'
  hyphen := codePoint '-'
  isWord := words.isWord
  quote_ne_hyphen := quote_ne_hyphen
  quote_not_word := (words.ascii quote_ascii.1).trans quote_ascii.2
  hyphen_not_word := (words.ascii hyphen_ascii.1).trans hyphen_ascii.2

def operators : List Text :=
  [['A', 'N', 'D'], ['O', 'R'], ['N', 'O', 'T']].map fun operator => operator.map codePoint

/-- The symbol in upper case. No symbol beyond ASCII matches a letter of an operator. -/
def upper (symbol : CodePoint) : CodePoint :=
  if 0x61 ≤ symbol.val && symbol.val ≤ 0x7a then ofCode (symbol.val - 0x20) else symbol

/-- An operator in any case. -/
def isOperator (text : Text) : Bool := operators.contains (text.map upper)

/-- `_TRAILING_BOOL_RE.sub("", q)` -/
def dropTrailing (text : Text) : Text :=
  let body := text.rdropWhile isSpacePoint
  let front := body.rdropWhile fun symbol => !isSpacePoint symbol
  let last := body.rtakeWhile fun symbol => !isSpacePoint symbol
  if front ≠ [] ∧ isOperator last then front.rdropWhile isSpacePoint else text

/-- The text without its quotes, if their number is odd. -/
def balanced (words : WordClass) (query : Text) : Text :=
  if quotes (alphabet words) query % 2 = 1 then unquoted (alphabet words) query else query

/-- `_fts5_match` -/
def fts5Match (words : WordClass) (query : Text) : Text :=
  let query := stripText query
  if query = [] then []
  else stripText (dropTrailing (wrapTerms (alphabet words) (balanced words query)))

example : fts5Match asciiWords (JsonTexts.text " foo-bar AND") =
    JsonTexts.text "\x22foo-bar\x22" := by decide

/-! ### What a MATCH query should be -/

/-- What FTS5 takes for part of a bare word. -/
def isBareword (symbol : CodePoint) : Bool :=
  0x80 ≤ symbol.val || isAsciiWord symbol || symbol.val = 0x1a

/-- The last bare word of the text is an operator. -/
def EndsInOperator (text : Text) : Prop :=
  ∃ front, ∃ operator ∈ operators, text = front ++ operator ∧
    ∀ before last, front = before ++ [last] → isBareword last = false

/-- The part that stands behind `front` stands in the output where it stood, inside of a phrase. -/
def InPhrase (words : WordClass) (front part output : Text) : Prop :=
  ∃ before after, output = before ++ (part ++ after) ∧
    (unquoted (alphabet words) before).dropWhile isSpacePoint =
      (unquoted (alphabet words) front).dropWhile isSpacePoint ∧
    ¬ Even (quotes (alphabet words) before)

structure WellQuoted (words : WordClass) (query : Text) : Prop where
  even : Even (quotes (alphabet words) (fts5Match words query))
  terms : ∀ front term back, query = front ++ (term ++ back) → IsTerm (alphabet words) term →
    InPhrase words front term (fts5Match words query)
  /-- The phrases of a query whose quotes are balanced are still phrases. -/
  phrases : Even (quotes (alphabet words) query) → ∀ front phrase back,
    query = front ++ codePoint '\x22' :: (phrase ++ codePoint '\x22' :: back) →
    codePoint '\x22' ∉ phrase → Even (quotes (alphabet words) front) →
    InPhrase words front phrase (fts5Match words query)
  operator : ¬ EndsInOperator (fts5Match words query)

/-! ### The query before its terms get quotes -/

variable {words : WordClass} {text query front part back : Text} {symbol : CodePoint}

theorem quote_solid : isSpacePoint (codePoint '\x22') = false := by decide

theorem hyphen_solid : isSpacePoint (codePoint '-') = false := by decide

theorem not_blank_of_isWord (isWord : words.isWord symbol = true) :
    ¬ isSpacePoint symbol = true := by
  intro isBlank
  rw [words.blank isBlank] at isWord
  cases isWord

theorem breaks (words : WordClass) : Breaks (alphabet words) isSpacePoint where
  notWord := words.blank
  notHyphen := by
    rintro _ isBlank rfl
    exact Bool.false_ne_true (hyphen_solid.symm.trans isBlank)
  notQuote := by
    rintro _ isBlank rfl
    exact Bool.false_ne_true (quote_solid.symm.trans isBlank)

theorem operators_upper : (operators.all fun operator =>
    operator.map upper == operator && !operator.isEmpty &&
      operator.all fun symbol => 0x41 ≤ symbol.val && symbol.val ≤ 0x5a) = true := by
  decide

theorem letters_of_mem {operator : Text} (isMember : operator ∈ operators) :
    operator.map upper = operator ∧ operator ≠ [] ∧
      ∀ symbol ∈ operator, 0x41 ≤ symbol.val ∧ symbol.val ≤ 0x5a := by
  have isUpper := List.all_eq_true.mp operators_upper operator isMember
  rw [Bool.and_eq_true, Bool.and_eq_true, beq_iff_eq, Bool.not_eq_true', List.isEmpty_eq_false_iff,
    List.all_eq_true] at isUpper
  refine ⟨isUpper.1.1, isUpper.1.2, fun symbol member => ?_⟩
  simpa using isUpper.2 symbol member

/-- An operator in any case is a word. -/
theorem isWord_of_operator (words : WordClass) (operator : isOperator text = true) :
    IsWord (alphabet words) text := by
  obtain ⟨_, notNil, areLetters⟩ := letters_of_mem (List.contains_iff_mem.mp operator)
  refine ⟨fun isNil => notNil (by rw [isNil]; rfl), fun symbol member => ?_⟩
  obtain ⟨low, high⟩ := areLetters (upper symbol) (List.mem_map_of_mem member)
  have isLetter : (0x41 ≤ symbol.val ∧ symbol.val ≤ 0x5a) ∨
      (0x61 ≤ symbol.val ∧ symbol.val ≤ 0x7a) := by
    unfold upper at low high
    split at low
    next isLower => exact Or.inr (by simpa using isLower)
    next isOther =>
      rw [if_neg isOther] at high
      exact Or.inl ⟨low, high⟩
  refine (words.ascii (by omega)).trans ?_
  unfold isAsciiWord
  rcases isLetter with isUpper | isLower
  · simp [isUpper.1, isUpper.2]
  · simp [isLower.1, isLower.2]

theorem isWord_of_mem (words : WordClass) {operator : Text} (isMember : operator ∈ operators) :
    IsWord (alphabet words) operator := by
  refine isWord_of_operator words (List.contains_iff_mem.mpr ?_)
  rw [(letters_of_mem isMember).1]
  exact isMember

theorem dropTrailing_nil : dropTrailing [] = [] := by
  unfold dropTrailing
  exact if_neg fun both => both.1 rfl

/-- The quotes around the terms change nothing about the operator at the end. -/
theorem dropTrailing_wrapTerms (words : WordClass) (text : Text) :
    dropTrailing (wrapTerms (alphabet words) text) =
      wrapTerms (alphabet words) (dropTrailing text) := by
  have sameOperator : ∀ last : Text, isOperator (wrapTerms (alphabet words) last) = true ↔
      isOperator last = true := by
    intro last
    constructor
    · intro operator
      obtain ⟨front, isLast, _, isFront⟩ :=
        (ends_of_wrapTerms (isWord_of_operator words operator) not_endsInWord_nil).mp
          (List.nil_append _).symm
      rw [wrapTerms_eq_nil.mp isFront.symm] at isLast
      rw [isLast]
      exact operator
    · intro operator
      rw [wrapTerms_of_no_hyphen (hyphen_not_mem_of_isWord (isWord_of_operator words operator))]
      exact operator
  unfold dropTrailing
  dsimp only
  rw [rdropWhile_wrapTerms (breaks words), (last_blank_wrapTerms (breaks words) _).1,
    (last_blank_wrapTerms (breaks words) _).2, rdropWhile_wrapTerms (breaks words)]
  refine (if_congr (and_congr (not_congr wrapTerms_eq_nil) (sameOperator _)) rfl rfl).trans ?_
  split
  next => rfl
  next => rfl

/-- The query before its terms get quotes. -/
def bare (words : WordClass) (query : Text) : Text :=
  stripText (dropTrailing (balanced words (stripText query)))

theorem fts5Match_eq (words : WordClass) (query : Text) :
    fts5Match words query = wrapTerms (alphabet words) (bare words query) := by
  unfold fts5Match bare
  dsimp only
  split
  next isNil =>
    have isBalanced : balanced words [] = [] := rfl
    rw [isNil, isBalanced, dropTrailing_nil]
    rfl
  next =>
    rw [dropTrailing_wrapTerms]
    exact trim_wrapTerms (breaks words) _

/-! ### Parts that are kept -/

/-- What trimming or dropping an operator takes from the end of a text. -/
structure Dropped (words : WordClass) (dropped : Text) : Prop where
  symbols : ∀ symbol ∈ dropped, isSpacePoint symbol = true ∨ words.isWord symbol = true
  first : ∀ first rest, dropped = first :: rest → isSpacePoint first = true

theorem dropped_rdropWhile (words : WordClass) (text : Text) :
    ∃ dropped, text = text.rdropWhile isSpacePoint ++ dropped ∧ Dropped words dropped := by
  refine ⟨_, List.rdropWhile_append_rtakeWhile.symm, ?_⟩
  constructor
  · exact fun symbol member => Or.inl (List.mem_rtakeWhile_imp member)
  · intro first rest same
    exact List.mem_rtakeWhile_imp (same ▸ List.mem_cons_self)

theorem dropped_dropTrailing (words : WordClass) (text : Text) :
    ∃ dropped, text = dropTrailing text ++ dropped ∧ Dropped words dropped := by
  unfold dropTrailing
  dsimp only
  split
  next both =>
    obtain ⟨someFront, lastOperator⟩ := both
    obtain ⟨blanks, isText, blanksDropped⟩ := dropped_rdropWhile words text
    set body := text.rdropWhile isSpacePoint
    set front := body.rdropWhile fun symbol => !isSpacePoint symbol
    set last := body.rtakeWhile fun symbol => !isSpacePoint symbol
    obtain ⟨before, isSplit, beforeDropped⟩ := dropped_rdropWhile words front
    have isBody : front ++ last = body := List.rdropWhile_append_rtakeWhile
    refine ⟨before ++ (last ++ blanks), ?_, ?_, ?_⟩
    · rw [← List.append_assoc, ← isSplit, ← List.append_assoc, isBody]
      exact isText
    · intro symbol member
      rcases List.mem_append.mp member with member | member
      · exact beforeDropped.symbols symbol member
      · rcases List.mem_append.mp member with member | member
        · exact Or.inr ((isWord_of_operator words lastOperator).2 symbol member)
        · exact blanksDropped.symbols symbol member
    · -- The front ends in a blank, so the first that is dropped is one.
      intro first rest same
      cases before with
      | cons symbol before =>
        rw [← (List.cons.inj same).1]
        exact beforeDropped.first symbol before rfl
      | nil =>
        rw [List.append_nil] at isSplit
        have solid := List.rdropWhile_eq_self_iff.mp isSplit.symm someFront
        have notSolid := List.rdropWhile_last_not _ body someFront
        rw [Bool.not_eq_true, Bool.not_eq_false'] at notSolid
        exact absurd notSolid solid
  next =>
    exact ⟨[], (List.append_nil _).symm, List.forall_mem_nil _, fun _ _ same => by cases same⟩

/-- A part of a query that neither trimming nor dropping an operator takes apart: its first symbol
is no blank, and behind a symbol that cannot be dropped there is only a word. -/
structure Part (words : WordClass) (part : Text) : Prop where
  first : ∃ first rest, part = first :: rest ∧ ¬ isSpacePoint first = true
  mark : ∃ lead mark tail, part = lead ++ mark :: tail ∧ isSpacePoint mark = false ∧
    words.isWord mark = false ∧ ∀ symbol ∈ tail, words.isWord symbol = true

theorem part_of_isTerm (isTerm : IsTerm (alphabet words) part) : Part words part := by
  constructor
  · obtain ⟨first, rest, rfl, isWord⟩ := first_of_isTerm isTerm
    exact ⟨first, rest, rfl, not_blank_of_isWord isWord⟩
  · obtain ⟨lead, word, rfl, isWord⟩ := last_of_isTerm isTerm
    exact ⟨lead, codePoint '-', word, rfl, hyphen_solid, (alphabet words).hyphen_not_word,
      isWord.2⟩

theorem part_of_phrase (words : WordClass) (phrase : Text) :
    Part words (codePoint '\x22' :: (phrase ++ [codePoint '\x22'])) := by
  constructor
  · exact ⟨_, _, rfl, Bool.eq_false_iff.mp quote_solid⟩
  · exact ⟨codePoint '\x22' :: phrase, codePoint '\x22', [], rfl, quote_solid,
      (alphabet words).quote_not_word, List.forall_mem_nil _⟩

/-- What is dropped from the end of a text leaves such a part. -/
theorem part_of_dropped {kept dropped : Text} (isPart : Part words part)
    (isDropped : Dropped words dropped) (same : front ++ (part ++ back) = kept ++ dropped) :
    ∃ rest, kept = front ++ (part ++ rest) := by
  obtain ⟨lead, mark, tail, rfl, notBlank, notWord, isTail⟩ := isPart.mark
  have notDropped : mark ∉ dropped := by
    intro member
    rcases isDropped.symbols mark member with isBlank | isWord
    · exact Bool.false_ne_true (notBlank.symm.trans isBlank)
    · exact Bool.false_ne_true (notWord.symm.trans isWord)
  simp only [List.append_assoc, List.cons_append] at same ⊢
  rw [← List.append_assoc] at same
  rcases List.append_eq_append_iff.mp same with ⟨more, rfl, isRest⟩ | ⟨more, _, rfl⟩
  · cases more with
    | nil =>
      rw [List.nil_append] at isRest
      exact absurd (isRest ▸ List.mem_cons_self) notDropped
    | cons symbol more =>
      rw [List.cons_append] at isRest
      obtain ⟨rfl, sameTail⟩ := List.cons.inj isRest
      rcases List.append_eq_append_iff.mp sameTail with ⟨rest, rfl, _⟩ | ⟨rest, rfl, isFirst⟩
      · exact ⟨rest, List.append_assoc ..⟩
      · cases rest with
        | nil =>
          refine ⟨[], ?_⟩
          rw [List.append_nil, List.append_nil, List.append_assoc]
        | cons first rest =>
          -- The word behind the mark has no blank.
          have isWord := isTail first (List.mem_append_right _ List.mem_cons_self)
          exact absurd (isDropped.first first _ isFirst) (not_blank_of_isWord isWord)
  · exact absurd (List.mem_append_right _ List.mem_cons_self) notDropped

/-- Where the part stands before its terms get quotes. -/
structure Place (words : WordClass) (query front part : Text) (before rest : Text) : Prop where
  split : bare words query = before ++ (part ++ rest)
  aligned : (unquoted (alphabet words) before).dropWhile isSpacePoint =
    (unquoted (alphabet words) front).dropWhile isSpacePoint
  balanced : Even (quotes (alphabet words) query) →
    quotes (alphabet words) before = quotes (alphabet words) front
  unbalanced : ¬ Even (quotes (alphabet words) query) → quotes (alphabet words) before = 0

theorem stripText_part (isPart : Part words part) (front back : Text) :
    ∃ rest, stripText (front ++ (part ++ back)) =
      front.dropWhile isSpacePoint ++ (part ++ rest) := by
  obtain ⟨first, others, rfl, solid⟩ := isPart.first
  have fromLeft : (front ++ (first :: others ++ back)).dropWhile isSpacePoint =
      front.dropWhile isSpacePoint ++ (first :: others ++ back) :=
    dropWhile_append_solid solid front (others ++ back)
  obtain ⟨dropped, same, isDropped⟩ :=
    dropped_rdropWhile words (front.dropWhile isSpacePoint ++ (first :: others ++ back))
  unfold stripText trim
  rw [fromLeft]
  exact part_of_dropped isPart isDropped same

theorem quotes_balanced (words : WordClass) (query : Text) :
    Even (quotes (alphabet words) (balanced words query)) := by
  unfold balanced
  split
  next =>
    rw [quotes_unquoted]
    exact Even.zero
  next isEven =>
    by_contra isOdd
    exact isEven (Nat.not_even_iff.mp isOdd)

theorem exists_place (isPart : Part words part) (same : query = front ++ (part ++ back))
    (noQuote : ¬ Even (quotes (alphabet words) query) → codePoint '\x22' ∉ part) :
    ∃ before rest, Place words query front part before rest := by
  obtain ⟨stripped, isStripped⟩ := stripText_part isPart front back
  rw [← same] at isStripped
  have quotesStrip : quotes (alphabet words) (stripText query) = quotes (alphabet words) query :=
    quotes_trim (breaks words) query
  obtain ⟨middle, behind, isBalanced, aligned, isEqual, isZero⟩ : ∃ middle behind,
      balanced words (stripText query) = middle ++ (part ++ behind) ∧
        (unquoted (alphabet words) middle).dropWhile isSpacePoint =
          (unquoted (alphabet words) front).dropWhile isSpacePoint ∧
        (Even (quotes (alphabet words) query) →
          quotes (alphabet words) middle = quotes (alphabet words) front) ∧
        (¬ Even (quotes (alphabet words) query) → quotes (alphabet words) middle = 0) := by
    unfold balanced
    rw [quotesStrip, isStripped]
    by_cases isEven : Even (quotes (alphabet words) query)
    · rw [if_neg (by rw [Nat.even_iff.mp isEven]; decide)]
      exact ⟨_, _, rfl, unquoted_dropWhile (breaks words) front,
        fun _ => quotes_dropWhile (breaks words) front, absurd isEven⟩
    · rw [if_pos (Nat.not_even_iff.mp isEven), unquoted_append, unquoted_append,
        unquoted_eq_self (show (alphabet words).quote ∉ part from noQuote isEven)]
      refine ⟨_, _, rfl, ?_, fun evenQuotes => absurd evenQuotes isEven,
        fun _ => quotes_unquoted _⟩
      rw [unquoted_unquoted, unquoted_dropWhile (breaks words)]
  obtain ⟨dropped, isDropTrailing, isDropped⟩ :=
    dropped_dropTrailing words (balanced words (stripText query))
  obtain ⟨behind, isKept⟩ := part_of_dropped isPart isDropped (isBalanced.symm.trans isDropTrailing)
  obtain ⟨rest, isBare⟩ := stripText_part isPart middle behind
  rw [← isKept] at isBare
  refine ⟨middle.dropWhile isSpacePoint, rest, isBare, ?_, ?_, ?_⟩
  · rw [unquoted_dropWhile (breaks words), aligned]
  · rw [quotes_dropWhile (breaks words)]
    exact isEqual
  · rw [quotes_dropWhile (breaks words)]
    exact isZero

theorem even_fts5Match (words : WordClass) (query : Text) :
    Even (quotes (alphabet words) (fts5Match words query)) := by
  obtain ⟨dropped, same, isDropped⟩ :=
    dropped_dropTrailing words (balanced words (stripText query))
  have noQuote : codePoint '\x22' ∉ dropped := by
    intro member
    rcases isDropped.symbols _ member with isBlank | isWord
    · exact (breaks words).notQuote isBlank rfl
    · exact Bool.false_ne_true ((alphabet words).quote_not_word.symm.trans isWord)
  have isEven := quotes_balanced words (stripText query)
  have none : quotes (alphabet words) dropped = 0 := quotes_eq_zero noQuote
  rw [same, quotes_append, none, Nat.add_zero] at isEven
  rw [fts5Match_eq, even_quotes_wrapTerms, bare, stripText, quotes_trim (breaks words)]
  exact isEven

/-! ### Terms, phrases and operators -/

/-- A term comes to be inside of a phrase exactly if it was outside or the quotes are dropped. -/
theorem inPhrase_term {term : Text} (isTerm : IsTerm (alphabet words) term)
    (same : query = front ++ (term ++ back)) :
    InPhrase words front term (fts5Match words query) ↔
      (Even (quotes (alphabet words) query) → Even (quotes (alphabet words) front)) := by
  obtain ⟨before, rest, place⟩ := exists_place (part_of_isTerm isTerm) same
    fun _ => quote_not_mem_of_isTerm isTerm
  obtain ⟨outBefore, outRest, isWritten, isUnquoted, changes⟩ :=
    wrapTerms_term isTerm before rest
  rw [fts5Match_eq, place.split, isWritten]
  have sides : ¬ Even (quotes (alphabet words) outBefore) ↔
      (Even (quotes (alphabet words) query) → Even (quotes (alphabet words) front)) := by
    rw [changes, not_not]
    by_cases isEven : Even (quotes (alphabet words) query)
    · rw [place.balanced isEven]
      exact ⟨fun outside _ => outside, fun outside => outside isEven⟩
    · rw [place.unbalanced isEven]
      exact iff_of_true Even.zero fun isEvenToo => absurd isEvenToo isEven
  rw [← sides]
  have aligned := (congrArg (List.dropWhile isSpacePoint) isUnquoted).trans place.aligned
  constructor
  · rintro ⟨other, after, isOther, otherAligned, isInside⟩
    obtain ⟨first, others, rfl, isWord⟩ := first_of_isTerm isTerm
    rw [place_unique (ne_quote_of_isWord isWord) (not_blank_of_isWord isWord) isOther
      (aligned.trans otherAligned.symm)]
    exact isInside
  · exact fun isInside => ⟨outBefore, outRest, rfl, aligned, isInside⟩

/-- No term of the query stands inside of a phrase, unless the quotes are dropped anyway. -/
def TermsOutside (words : WordClass) (query : Text) : Prop :=
  Even (quotes (alphabet words) query) → ∀ front term back, query = front ++ (term ++ back) →
    IsTerm (alphabet words) term → Even (quotes (alphabet words) front)

theorem inPhrase_phrase {phrase : Text} (outside : TermsOutside words query)
    (isEven : Even (quotes (alphabet words) query))
    (same : query = front ++ codePoint '\x22' :: (phrase ++ codePoint '\x22' :: back))
    (noQuote : codePoint '\x22' ∉ phrase) (isOpening : Even (quotes (alphabet words) front)) :
    InPhrase words front phrase (fts5Match words query) := by
  have noTerm : ∀ term, IsTerm (alphabet words) term → ¬ term <:+: phrase := by
    rintro term isTerm ⟨before, after, rfl⟩
    have noQuoteBefore : codePoint '\x22' ∉ before := fun member =>
      noQuote (List.mem_append_left _ (List.mem_append_left _ member))
    have isOutside := outside isEven (front ++ codePoint '\x22' :: before) term
      (after ++ codePoint '\x22' :: back)
      (by rw [same]; simp only [List.append_assoc, List.cons_append]) isTerm
    have none : quotes (alphabet words) before = 0 := quotes_eq_zero noQuoteBefore
    have oneMore : quotes (alphabet words) (codePoint '\x22' :: before) = 0 + 1 :=
      none ▸ quotes_cons_quote before
    rw [quotes_append, oneMore, Nat.even_add_one] at isOutside
    exact isOutside isOpening
  have asPart : query =
      front ++ ((codePoint '\x22' :: (phrase ++ [codePoint '\x22'])) ++ back) := by
    rw [same]
    simp only [List.append_assoc, List.cons_append, List.nil_append]
  obtain ⟨before, rest, place⟩ := exists_place (part_of_phrase words phrase) asPart
    fun isOdd => absurd isEven isOdd
  have isSplit : bare words query =
      before ++ codePoint '\x22' :: (phrase ++ codePoint '\x22' :: rest) :=
    place.split.trans (by simp only [List.append_assoc, List.cons_append, List.nil_append])
  have isBreak : ∀ before rest, wrapTerms (alphabet words) (before ++ codePoint '\x22' :: rest) =
      wrapTerms (alphabet words) before ++ codePoint '\x22' :: wrapTerms (alphabet words) rest :=
    wrapTerms_break (alphabet words).quote_not_word quote_ne_hyphen
  refine ⟨wrapTerms (alphabet words) before ++ [codePoint '\x22'],
    codePoint '\x22' :: wrapTerms (alphabet words) rest, ?_, ?_, ?_⟩
  · rw [fts5Match_eq, isSplit, isBreak, isBreak, wrapTerms_of_no_term noTerm]
    simp only [List.append_assoc, List.cons_append, List.nil_append]
  · have noMore : unquoted (alphabet words) [codePoint '\x22'] = [] := unquoted_cons_quote []
    rw [unquoted_append, unquoted_wrapTerms, noMore, List.append_nil]
    exact place.aligned
  · have oneMore : quotes (alphabet words) [codePoint '\x22'] = 1 := quotes_cons_quote []
    rw [quotes_append, oneMore, Nat.even_add_one, not_not, even_quotes_wrapTerms,
      place.balanced isEven]
    exact isOpening

/-- Behind the last word of the text, which is an operator, nothing is dropped or joined. -/
def LeavesOperator (words : WordClass) (text : Text) : Prop :=
  ∃ front, ∃ operator ∈ operators, text = front ++ operator ∧
    (∀ before last, front = before ++ [last] → isBareword last = false) ∧
    ¬ EndsInHyphen (alphabet words) front

theorem isBareword_of_isWord (isWord : words.isWord symbol = true) : isBareword symbol = true := by
  unfold isBareword
  by_cases isAscii : symbol.val < 0x80
  · rw [← words.ascii isAscii, isWord, Bool.or_true, Bool.true_or]
  · rw [decide_eq_true (Nat.le_of_not_lt isAscii), Bool.true_or, Bool.true_or]

theorem not_endsInWord_of_bareword (words : WordClass)
    (notBare : ∀ before last, text = before ++ [last] → isBareword last = false) :
    ¬ EndsInWord (alphabet words) text := by
  rintro ⟨before, last, same, isWord⟩
  exact Bool.false_ne_true ((notBare before last same).symm.trans (isBareword_of_isWord isWord))

theorem endsInOperator_wrapTerms (words : WordClass) (text : Text) :
    EndsInOperator (wrapTerms (alphabet words) text) ↔ LeavesOperator words text := by
  constructor
  · rintro ⟨written, operator, isMember, same, notBare⟩
    obtain ⟨front, isText, closed, rfl⟩ := (ends_of_wrapTerms (isWord_of_mem words isMember)
      (not_endsInWord_of_bareword words notBare)).mp same
    refine ⟨front, operator, isMember, isText, ?_, (closed_iff.mp closed).2⟩
    rintro before last rfl
    exact notBare _ last (wrapTerms_concat closed)
  · rintro ⟨front, operator, isMember, isText, notBare, notJoined⟩
    have closed := closed_iff.mpr ⟨not_endsInWord_of_bareword words notBare, notJoined⟩
    refine ⟨wrapTerms (alphabet words) front, operator, isMember, ?_, ?_⟩
    · exact (ends_of_wrapTerms (isWord_of_mem words isMember)
        (not_endsInWord_wrapTerms closed)).mpr ⟨front, isText, closed, rfl⟩
    · intro before last same
      rcases List.eq_nil_or_concat' front with rfl | ⟨others, final, rfl⟩
      · exact absurd (List.append_eq_nil_iff.mp same.symm).2 (List.cons_ne_nil _ _)
      · rw [wrapTerms_concat closed] at same
        rw [← (List.append_singleton_inj.mp same).2]
        exact notBare others final rfl

theorem termsOutside_of_wellQuoted (wellQuoted : WellQuoted words query) :
    TermsOutside words query := by
  intro isEven front term back same isTerm
  exact (inPhrase_term isTerm same).mp (wellQuoted.terms front term back same isTerm) isEven

/-- The query is as it should be exactly if none of its terms stands inside of a phrase, and what
is left without one operator at the end does not end in another one. -/
theorem wellQuoted_iff (words : WordClass) (query : Text) :
    WellQuoted words query ↔
      TermsOutside words query ∧ ¬ LeavesOperator words (bare words query) := by
  have sameOperator : EndsInOperator (fts5Match words query) ↔
      LeavesOperator words (bare words query) := by
    rw [fts5Match_eq]
    exact endsInOperator_wrapTerms words (bare words query)
  constructor
  · exact fun wellQuoted => ⟨termsOutside_of_wellQuoted wellQuoted,
      mt sameOperator.mpr wellQuoted.operator⟩
  · rintro ⟨outside, noOperator⟩
    constructor
    · exact even_fts5Match words query
    · intro front term back same isTerm
      exact (inPhrase_term isTerm same).mpr fun isEven =>
        outside isEven front term back same isTerm
    · intro isEven front phrase back same noQuote isOpening
      exact inPhrase_phrase outside isEven same noQuote isOpening
    · exact mt sameOperator.mp noOperator

/-- The user's phrase with a hyphenated term is taken apart. -/
theorem not_wellQuoted_hyphenInPhrase :
    ¬ ∃ words : WordClass, WellQuoted words (JsonTexts.text "\x22a-b c\x22") := by
  rintro ⟨words, wellQuoted⟩
  have isFirst : words.isWord (codePoint 'a') = true :=
    (words.ascii (by decide)).trans (by decide)
  have isSecond : words.isWord (codePoint 'b') = true :=
    (words.ascii (by decide)).trans (by decide)
  have isTerm : IsTerm (alphabet words) ([codePoint 'a'] ++ codePoint '-' :: [codePoint 'b']) :=
    .two (isWord_singleton isFirst) (isWord_singleton isSecond)
  have outside : Even (quotes (alphabet words) [codePoint '\x22']) :=
    termsOutside_of_wellQuoted wellQuoted ⟨1, rfl⟩ [codePoint '\x22'] _
      [codePoint ' ', codePoint 'c', codePoint '\x22'] rfl isTerm
  have one : quotes (alphabet words) [codePoint '\x22'] = 1 := quotes_cons_quote []
  rw [one] at outside
  exact Nat.not_even_one outside

end LiteHorse.Sessions.Fts5Match
