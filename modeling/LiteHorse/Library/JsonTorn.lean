/-
This file is about JSON texts that are cut off and go on with another text, as the lines of a file
do whose writer died.

The text of an object that is cut off anywhere but at its start stays unreadable, whether it ends
there or the texts of other objects follow it, whole ones and pieces of them. The reason is in what
follows: where a value or a separator is due it starts with a brace, and where it goes on a string
literal that was cut it closes the literal before a letter.
-/

import LiteHorse.Library.JsonText

namespace LiteHorse.JsonTexts

/-! ### Pieces of a text -/

/-- The text is cut off after the piece. -/
def Cut (whole piece : Text) : Prop := ∃ char rest, whole = piece ++ char :: rest

theorem cut_append {first second piece : Text} (cut : Cut (first ++ second) piece) :
    Cut first piece ∨ ∃ more, piece = first ++ more ∧ Cut second more := by
  obtain ⟨char, rest, same⟩ := cut
  rcases List.append_eq_append_iff.mp same with ⟨more, isPiece, isSecond⟩ | ⟨more, isFirst, tail⟩
  · exact Or.inr ⟨more, isPiece, char, rest, isSecond⟩
  · cases more with
    | nil =>
      rw [List.append_nil] at isFirst
      exact Or.inr ⟨[], by rw [isFirst, List.append_nil], char, rest, tail.symm⟩
    | cons other more =>
      cases tail
      exact Or.inl ⟨char, more, isFirst⟩

theorem cut_cons {char : CodePoint} {text piece : Text} (cut : Cut (char :: text) piece) :
    piece = [] ∨ ∃ more, piece = char :: more ∧ Cut text more := by
  cases piece with
  | nil => exact Or.inl rfl
  | cons other more =>
    obtain ⟨next, rest, same⟩ := cut
    cases same
    exact Or.inr ⟨more, rfl, next, rest, rfl⟩

theorem not_cut_nil {piece : Text} : ¬ Cut [] piece := by
  rintro ⟨char, rest, same⟩
  exact List.append_ne_nil_of_right_ne_nil piece (List.cons_ne_nil char rest) same.symm

theorem cut_singleton {char : CodePoint} {piece : Text} (cut : Cut [char] piece) : piece = [] := by
  rcases cut_cons cut with isNil | ⟨more, _, cutMore⟩
  · exact isNil
  · exact absurd cutMore not_cut_nil

/-! ### Where a scanner is stuck -/

def separators : List CodePoint := [comma, colon, closeBracket, closeBrace]

/-- Neither a blank nor a separator comes next. -/
def Stuck (rest : Text) : Prop :=
  ∀ char ∈ rest.head?, isBlank char = false ∧ char ∉ separators

theorem stuck_cons {char : CodePoint} (notBlank : isBlank char = false)
    (noSeparator : char ∉ separators) (rest : Text) : Stuck (char :: rest) := by
  intro other isHead
  cases isHead
  exact ⟨notBlank, noSeparator⟩

theorem skipBlanks_stuck {rest : Text} (stuck : Stuck rest) : skipBlanks rest = rest := by
  cases rest with
  | nil => rfl
  | cons char rest => exact skipBlanks_cons (stuck char rfl).1 rest

/-- A scanner raises that the text is malformed, or is stuck after what it has read. -/
def GetsStuck {Item : Type} (scanned : Except ScanError (Item × Text)) : Prop :=
  match scanned with
  | .error error => error = .malformed
  | .ok (_, rest) => Stuck rest

theorem getsStuck_map {Item Other : Type} {scanned : Except ScanError (Item × Text)}
    {change : Item → Other} (stuck : GetsStuck scanned) :
    GetsStuck (scanned.map fun read => (change read.1, read.2)) := by
  cases scanned with
  | error => exact stuck
  | ok read => exact stuck

section Sequence

variable {Item : Type} {closing : CodePoint} {scanItem : Text → Except ScanError (Item × Text)}

theorem scanSequence_stuck (isSeparator : closing ∈ separators) {text : Text}
    (stuck : GetsStuck (scanItem text)) (bound : Nat) :
    scanSequence closing scanItem bound text = .error .malformed := by
  cases bound with
  | zero => rfl
  | succ bound =>
    rw [scanSequence]
    cases isScanned : scanItem text with
    | error error =>
      rw [isScanned] at stuck
      exact congrArg Except.error stuck
    | ok read =>
      obtain ⟨item, rest⟩ := read
      rw [isScanned] at stuck
      have isStuck : Stuck rest := stuck
      simp only [skipBlanks_stuck isStuck]
      cases rest with
      | nil => rfl
      | cons char rest =>
        have noSeparator := (isStuck char rfl).2
        have notClosing : char ≠ closing := fun same => noSeparator (same ▸ isSeparator)
        have notComma : char ≠ comma := fun same => noSeparator (same ▸ List.mem_cons_self)
        simp only [if_neg notClosing, if_neg notComma]

end Sequence

/-! ### What follows the cut -/

section Torn

variable {Finite : Type} (format : FloatFormat Finite) (maxDigits : Nat)

/-- What may come after a cut: nothing, or a text that starts with a brace, gets every scanner stuck
that is deep enough for it, and does so too where it goes on a string literal. -/
structure Strays (depth : Nat) (after : Text) : Prop where
  head : ∀ char ∈ after.head?, char = openBrace
  literal : ∀ scanned, scanPieces after = some scanned → Stuck scanned.2
  value : ∀ limit, depth ≤ limit → GetsStuck (scanOnce format maxDigits limit after)

variable {format maxDigits} {depth limit : Nat} {after : Text}

theorem strays_nil (depth : Nat) : Strays format maxDigits depth [] where
  head _ isHead := by cases isHead
  literal _ scanned := by cases scanned
  value limit _ := by
    cases limit with
    | zero => rfl
    | succ limit => rfl

theorem Strays.stuck (strays : Strays format maxDigits depth after) : Stuck after := by
  intro char isHead
  rw [strays.head char isHead]
  exact ⟨by decide, by decide⟩

theorem Strays.delimited (strays : Strays format maxDigits depth after) : Delimited after := by
  intro char isHead
  rw [strays.head char isHead]
  exact ⟨by decide, by decide, by decide, by decide⟩

theorem Strays.cases (strays : Strays format maxDigits depth after) :
    after = [] ∨ ∃ rest, after = openBrace :: rest := by
  cases after with
  | nil => exact Or.inl rfl
  | cons char rest => exact Or.inr ⟨rest, by rw [strays.head char rfl]⟩

/-! ### Literals that are cut -/

/-- The digits of a unit that are cut are no unit. -/
theorem unitOf_openBrace (first second third fourth : CodePoint)
    (member : openBrace ∈ [first, second, third, fourth]) :
    unitOf first second third fourth = none := by
  have noDigit : hexValue openBrace = none := by decide
  simp only [List.mem_cons, List.not_mem_nil, or_false] at member
  unfold unitOf
  rcases member with rfl | rfl | rfl | rfl
  · rw [noDigit]
    rfl
  · rw [noDigit]
    cases hexValue first <;> rfl
  · rw [noDigit]
    cases hexValue first <;> cases hexValue second <;> rfl
  · rw [noDigit]
    cases hexValue first <;> cases hexValue second <;> cases hexValue third <;> rfl

theorem scanPieces_backslash (rest : Text) :
    scanPieces (backslash :: openBrace :: rest) = none := by
  rw [scanPieces.eq_def]
  rfl

/-- A unit needs four digits before the brace. -/
theorem scanPieces_fewDigits {text : Text}
    (few : ∀ first second third fourth rest, text = first :: second :: third :: fourth :: rest →
      openBrace ∈ [first, second, third, fourth]) :
    scanPieces (backslash :: letterU :: text) = none := by
  rw [scanPieces.eq_def]
  simp only [if_neg (show ¬ backslash = quoteMark by decide), if_true]
  split
  next first second third fourth rest _ =>
    rw [unitOf_openBrace _ _ _ _ (few _ _ _ _ _ rfl)]
    rfl
  next => rfl

theorem scanPieces_cutUnit (strays : Strays format maxDigits depth after) {unit : Fin 0x10000}
    {piece : Text} (cut : Cut (escapeUnit unit) piece) (nonempty : piece ≠ []) :
    scanPieces (piece ++ after) = none := by
  rcases cut_cons cut with isNil | ⟨more, rfl, cutMore⟩
  · exact absurd isNil nonempty
  rcases cut_cons cutMore with rfl | ⟨digits, rfl, cutDigits⟩
  · rcases strays.cases with rfl | ⟨rest, rfl⟩
    · rfl
    · exact scanPieces_backslash rest
  · show scanPieces (backslash :: letterU :: (digits ++ after)) = none
    refine scanPieces_fewDigits fun first second third fourth rest same => ?_
    have short : digits.length < 4 := by
      obtain ⟨char, others, isUnit⟩ := cutDigits
      have lengths := congrArg List.length isUnit
      simp only [unitDigits, List.length_append, List.length_cons, List.length_nil] at lengths
      omega
    rcases strays.cases with rfl | ⟨others, rfl⟩
    · have lengths := congrArg List.length same
      simp only [List.length_append, List.length_cons, List.length_nil] at lengths
      omega
    · obtain ⟨missing, isMissing⟩ : ∃ missing, 4 - digits.length = missing + 1 :=
        ⟨3 - digits.length, by omega⟩
      have four : [first, second, third, fourth] =
          (first :: second :: third :: fourth :: rest).take 4 := rfl
      rw [four, ← same, List.take_append, isMissing, List.take_succ_cons]
      exact List.mem_append_right _ List.mem_cons_self

/-- What a reader of a literal makes of a text leaves it stuck. -/
def LiteralStuck (text : Text) : Prop := ∀ scanned, scanPieces text = some scanned → Stuck scanned.2

theorem literalStuck_none {text : Text} (isNone : scanPieces text = none) : LiteralStuck text := by
  intro scanned isScanned
  cases isNone.symm.trans isScanned

theorem literalStuck_map {text rest : Text} {change : List Piece → List Piece}
    (same : scanPieces text = (scanPieces rest).map fun read => (change read.1, read.2))
    (stuck : LiteralStuck rest) : LiteralStuck text := by
  intro scanned isScanned
  rw [same] at isScanned
  obtain ⟨read, isRead, rfl⟩ := Option.map_eq_some_iff.mp isScanned
  exact stuck read isRead

theorem literalStuck_cutChar (strays : Strays format maxDigits depth after) {char : CodePoint}
    {piece : Text} (cut : Cut (escapeChar char) piece) : LiteralStuck (piece ++ after) := by
  by_cases isNil : piece = []
  · rw [isNil]
    exact strays.literal
  unfold escapeChar at cut
  split at cut
  next letter _ =>
    rcases cut_cons cut with rfl | ⟨more, rfl, cutMore⟩
    · exact absurd rfl isNil
    · rw [cut_singleton cutMore]
      refine literalStuck_none ?_
      rcases strays.cases with rfl | ⟨rest, rfl⟩
      · rfl
      · exact scanPieces_backslash rest
  next =>
    split at cut
    next => exact absurd (cut_singleton cut) isNil
    next =>
      split at cut
      next => exact literalStuck_none (scanPieces_cutUnit strays cut isNil)
      next =>
        rcases cut_append cut with cutHigh | ⟨more, rfl, cutLow⟩
        · exact literalStuck_none (scanPieces_cutUnit strays cutHigh isNil)
        · rw [List.append_assoc]
          refine literalStuck_map (scanPieces_unit _ _) ?_
          by_cases none : more = []
          · rw [none]
            exact strays.literal
          · exact literalStuck_none (scanPieces_cutUnit strays cutLow none)

/-- A literal that is cut goes on into what follows and ends there, or not at all. -/
theorem literalStuck_cut (strays : Strays format maxDigits depth after) {value piece : Text}
    (cut : Cut (value.flatMap escapeChar ++ [quoteMark]) piece) :
    LiteralStuck (piece ++ after) := by
  induction value generalizing piece with
  | nil =>
    rw [cut_singleton cut]
    exact strays.literal
  | cons char value inductionHypothesis =>
    rw [List.flatMap_cons, List.append_assoc] at cut
    rcases cut_append cut with cutChar | ⟨more, rfl, cutMore⟩
    · exact literalStuck_cutChar strays cutChar
    · rw [List.append_assoc]
      exact literalStuck_map (scanPieces_escapeChar char _) (inductionHypothesis cutMore)

/-- The literal of a key or a value. -/
theorem scanString_cut (strays : Strays format maxDigits depth after) {value piece : Text}
    (cut : Cut (value.flatMap escapeChar ++ [quoteMark]) piece) {read : Text × Text}
    (scanned : scanString (piece ++ after) = some read) : Stuck read.2 := by
  obtain ⟨pieces, isPieces, rfl⟩ := Option.map_eq_some_iff.mp scanned
  exact literalStuck_cut strays cut pieces isPieces

/-! ### Atoms that are cut -/

theorem cut_take {whole piece : Text} (cut : Cut whole piece) :
    ∃ size : Fin whole.length, piece = whole.take size := by
  obtain ⟨char, rest, rfl⟩ := cut
  exact ⟨⟨piece.length, by simp⟩, (List.take_left' rfl).symm⟩

/-- A keyword of which letters are missing is no atom. -/
theorem scanOnce_cutKeyword (strays : Strays format maxDigits depth after) (deep : depth ≤ limit)
    {keyword piece : Text} (isKeyword : keyword ∈ [text "null", text "true", text "false"])
    (cut : Cut keyword piece) : GetsStuck (scanOnce format maxDigits limit (piece ++ after)) := by
  obtain ⟨size, rfl⟩ := cut_take cut
  by_cases none : size.val = 0
  · rw [none]
    exact strays.value limit deep
  have letters : ∀ word ∈ [text "null", text "true", text "false"], ∀ size : Fin word.length,
      size.val ≠ 0 → ∀ rest, (rest = [] ∨ ∃ more, rest = openBrace :: more) →
        (scanValue format maxDigits (nestedScanner format maxDigits limit)
          (word.take size ++ rest)) = .error .malformed := by
    intro word isWord size some rest isRest
    simp only [List.mem_cons, List.not_mem_nil, or_false] at isWord
    rcases isWord with rfl | rfl | rfl
    all_goals
      fin_cases size
      · exact absurd rfl some
      all_goals
        rcases isRest with rfl | ⟨more, rfl⟩
        · rfl
        · rfl
  rw [scanOnce_eq, letters keyword isKeyword size none after strays.cases]
  rfl

theorem scanOnce_cutInt (strays : Strays format maxDigits depth after) (deep : depth ≤ limit)
    {value : Int} (few : (Whole.ofNat value.natAbs).length ≤ maxDigits) {piece : Text}
    (cut : Cut (NumberToken.ofInt value).text piece) :
    GetsStuck (scanOnce format maxDigits limit (piece ++ after)) := by
  have isText : (NumberToken.ofInt value).text =
      negativeText (NumberToken.ofInt value).negative ++ (Whole.ofNat value.natAbs).text := by
    show _ ++ _ ++ [] ++ [] = _
    rw [List.append_nil, List.append_nil]
    rfl
  rw [isText] at cut
  generalize Whole.ofNat value.natAbs = whole at few cut
  generalize (NumberToken.ofInt value).negative = negative at cut
  have isStart : ∀ start, (start = [] ∨ start = [minus]) →
      GetsStuck (scanOnce format maxDigits limit (start ++ after)) := by
    rintro start (rfl | rfl)
    · exact strays.value limit deep
    · rw [scanOnce_eq]
      rcases strays.cases with rfl | ⟨rest, rfl⟩
      · rfl
      · rfl
  rcases cut_append cut with cutSign | ⟨digits, rfl, cutDigits⟩
  · refine isStart piece (Or.inl ?_)
    cases negative with
    | false => exact absurd cutSign not_cut_nil
    | true => exact cut_singleton cutSign
  · rcases cut_cons cutDigits with rfl | ⟨more, rfl, cutMore⟩
    · rw [List.append_nil]
      refine isStart _ ?_
      cases negative with
      | false => exact Or.inl rfl
      | true => exact Or.inr rfl
    · obtain ⟨⟨size, _⟩, rfl⟩ := cut_take cutMore
      -- The digits that are left are a number of their own.
      let left : Whole := ⟨whole.first, whole.more.take size, fun zero => by
        rw [whole.noLeadingZero zero, List.take_nil]⟩
      let token : NumberToken := ⟨negative, left, [], none⟩
      have isToken : negativeText negative ++ digitChar whole.first ::
          List.take size (List.map digitChar whole.more) = token.text := by
        show _ = negativeText negative ++ (digitChar whole.first ::
          List.map digitChar (whole.more.take size)) ++ [] ++ []
        rw [List.append_nil, List.append_nil, List.map_take]
      have fewer : token.whole.length ≤ maxDigits := by
        refine le_trans ?_ few
        show (whole.more.take size).length + 1 ≤ whole.more.length + 1
        exact Nat.succ_le_succ (List.length_take_le' _ _)
      rw [isToken, scanOnce_eq, scanValue_number format maxDigits token strays.delimited,
        numberValue, if_pos (show token.isInteger = true from rfl), if_pos fewer]
      exact strays.stuck

/-! ### Brackets that are cut -/

section Sequence

variable {Item : Type} {closing : CodePoint} {scanItem : Text → Except ScanError (Item × Text)}
  {textOf : Item → Text}

theorem scanSequence_cut (strays : Strays format maxDigits depth after)
    (isSeparator : closing ∈ separators) (notComma : comma ≠ closing) {items : List Item}
    (nonempty : items ≠ []) (starts : ∀ item ∈ items, Starts closing (textOf item))
    (reads : ∀ item ∈ items, ∀ rest, Delimited rest →
      scanItem (textOf item ++ rest) = .ok (item, rest))
    (cuts : ∀ item ∈ items, ∀ piece, Cut (textOf item) piece →
      GetsStuck (scanItem (piece ++ after)))
    {piece : Text} (cut : Cut (sequenceText closing (items.map textOf)) piece) (bound : Nat) :
    scanSequence closing scanItem bound (piece ++ after) = .error .malformed := by
  induction items generalizing piece bound with
  | nil => exact absurd rfl nonempty
  | cons item items inductionHypothesis =>
    have whole : GetsStuck (scanItem (textOf item ++ after)) := by
      rw [reads item List.mem_cons_self after strays.delimited]
      exact strays.stuck
    cases items with
    | nil =>
      rcases cut_append cut with cutItem | ⟨more, rfl, cutMore⟩
      · exact scanSequence_stuck isSeparator (cuts item List.mem_cons_self piece cutItem) bound
      · rw [cut_singleton cutMore, List.append_nil]
        exact scanSequence_stuck isSeparator whole bound
    | cons next items =>
      rcases cut_append cut with cutItem | ⟨more, rfl, cutMore⟩
      · exact scanSequence_stuck isSeparator (cuts item List.mem_cons_self piece cutItem) bound
      · rcases cut_cons cutMore with rfl | ⟨later, rfl, cutLater⟩
        · rw [List.append_nil]
          exact scanSequence_stuck isSeparator whole bound
        · cases bound with
          | zero => rfl
          | succ bound =>
            have comesNext := inductionHypothesis (List.cons_ne_nil next items)
              (fun other member => starts other (List.mem_cons_of_mem item member))
              (fun other member => reads other (List.mem_cons_of_mem item member))
              (fun other member => cuts other (List.mem_cons_of_mem item member)) cutLater bound
            have noBlank : skipBlanks (later ++ after) = later ++ after := by
              obtain ⟨char, rest, isStart, notBlank, _⟩ : Starts closing
                  (sequenceText closing (textOf next :: items.map textOf)) :=
                starts_sequenceText (starts next (List.mem_cons_of_mem item List.mem_cons_self))
              change Cut (sequenceText closing (textOf next :: items.map textOf)) later at cutLater
              rw [isStart] at cutLater
              rcases cut_cons cutLater with rfl | ⟨_, rfl, _⟩
              · exact skipBlanks_stuck strays.stuck
              · exact skipBlanks_cons notBlank _
            have delimited : Delimited (comma :: (later ++ after)) :=
              delimited_of_mem List.mem_cons_self
            have scanned := reads item List.mem_cons_self _ delimited
            rw [List.append_assoc, List.cons_append, scanSequence_next notComma scanned, noBlank,
              comesNext]
            rfl

theorem scanBrackets_cut (strays : Strays format maxDigits depth after)
    (isSeparator : closing ∈ separators) (notComma : comma ≠ closing) {items : List Item}
    (starts : ∀ item ∈ items, Starts closing (textOf item))
    (reads : ∀ item ∈ items, ∀ rest, Delimited rest →
      scanItem (textOf item ++ rest) = .ok (item, rest))
    (cuts : ∀ item ∈ items, ∀ piece, Cut (textOf item) piece →
      GetsStuck (scanItem (piece ++ after)))
    (stray : GetsStuck (scanItem after))
    {piece : Text} (cut : Cut (sequenceText closing (items.map textOf)) piece) :
    scanBrackets closing scanItem (piece ++ after) = .error .malformed := by
  by_cases isNil : piece = []
  · subst isNil
    rw [List.nil_append, scanBrackets, skipBlanks_stuck strays.stuck]
    rcases strays.cases with rfl | ⟨rest, rfl⟩
    · rfl
    · have notClosing : openBrace ≠ closing :=
        fun same => absurd (same ▸ isSeparator) (by decide)
      simp only [if_neg notClosing]
      exact scanSequence_stuck isSeparator stray _
  · cases items with
    | nil => exact absurd (cut_singleton cut) isNil
    | cons item items =>
      have torn := scanSequence_cut strays isSeparator notComma (List.cons_ne_nil item items)
        starts reads cuts cut
      obtain ⟨char, rest, isStart, notBlank, notClosing⟩ : Starts closing
          (sequenceText closing (textOf item :: items.map textOf)) :=
        starts_sequenceText (starts item List.mem_cons_self)
      change Cut (sequenceText closing (textOf item :: items.map textOf)) piece at cut
      rw [isStart] at cut
      rcases cut_cons cut with rfl | ⟨more, rfl, _⟩
      · exact absurd rfl isNil
      · rw [List.cons_append, scanBrackets, skipBlanks_cons notBlank]
        simp only [if_neg notClosing]
        exact torn _

end Sequence

theorem scanField_stray (strays : Strays format maxDigits depth after) (scan : Scanner Finite) :
    GetsStuck (scanField scan after) := by
  rcases strays.cases with rfl | ⟨rest, rfl⟩
  · rfl
  · rfl

theorem scanField_quote {scan : Scanner Finite} {key : Text} (noSplit : NoSplitPair key) :
    scanField scan (quote key ++ []) = .error .malformed := by
  have scanned := scanString_quote noSplit []
  show scanField scan (quoteMark :: ((key.flatMap escapeChar ++ [quoteMark]) ++ [])) = _
  rw [List.append_nil, scanField]
  simp only [if_true, scanned]
  rfl

theorem scanField_key {scan : Scanner Finite} {key : Text} (noSplit : NoSplitPair key)
    {char : CodePoint} (notBlank : isBlank char = false) (rest : Text) :
    scanField scan (quote key ++ char :: rest) =
      if char = colon then
        (scan (skipBlanks rest)).map fun scanned => ((key, scanned.1), scanned.2)
      else .error .malformed := by
  have scanned := scanString_quote noSplit (char :: rest)
  show scanField scan (quoteMark :: ((key.flatMap escapeChar ++ [quoteMark]) ++ char :: rest)) = _
  rw [List.append_assoc, List.singleton_append, scanField]
  simp only [if_true, scanned, skipBlanks_cons notBlank]

theorem scanField_cut (strays : Strays format maxDigits depth after) {scan : Scanner Finite}
    {field : Text × Json Finite} (noSplit : NoSplitPair field.1)
    (cuts : ∀ piece, Cut (field.2.dumps format) piece → GetsStuck (scan (piece ++ after)))
    {piece : Text} (cut : Cut (fieldText format field) piece) :
    GetsStuck (scanField scan (piece ++ after)) := by
  obtain ⟨key, value⟩ := field
  rcases cut_append cut with cutKey | ⟨more, rfl, cutMore⟩
  · rcases cut_cons cutKey with rfl | ⟨inside, rfl, cutInside⟩
    · exact scanField_stray strays scan
    · rw [List.cons_append, scanField]
      simp only [if_true]
      split
      next => rfl
      next name rest scanned =>
        have stuck : Stuck rest := scanString_cut strays cutInside scanned
        rw [skipBlanks_stuck stuck]
        cases rest with
        | nil => rfl
        | cons char rest =>
          have notColon : char ≠ colon :=
            fun same => (stuck char rfl).2 (same ▸ List.mem_cons_of_mem _ List.mem_cons_self)
          simp only [if_neg notColon]
          rfl
  · rw [List.append_assoc]
    rcases cut_cons cutMore with rfl | ⟨inside, rfl, cutInside⟩
    · rw [List.nil_append]
      rcases strays.cases with rfl | ⟨rest, rfl⟩
      · rw [scanField_quote noSplit]
        rfl
      · rw [scanField_key noSplit (show isBlank openBrace = false by decide),
          if_neg (show ¬ openBrace = colon by decide)]
        rfl
    · have noBlank : skipBlanks (inside ++ after) = inside ++ after := by
        obtain ⟨char, rest, isStart, notBlank, _⟩ := dumps_head format value
        change Cut (value.dumps format) inside at cutInside
        rw [isStart] at cutInside
        rcases cut_cons cutInside with rfl | ⟨_, rfl, _⟩
        · exact skipBlanks_stuck strays.stuck
        · exact skipBlanks_cons notBlank _
      rw [List.cons_append, scanField_key noSplit (show isBlank colon = false by decide),
        if_pos rfl, noBlank]
      exact getsStuck_map (cuts inside cutInside)

/-! ### Values that are cut -/

section Brackets

variable {scan : Scanner Finite} {piece : Text}

theorem scanArray_cut (strays : Strays format maxDigits depth after) {items : List (Json Finite)}
    (reads : ∀ item ∈ items, Reads format scan item)
    (cuts : ∀ item ∈ items, ∀ piece, Cut (item.dumps format) piece →
      GetsStuck (scan (piece ++ after)))
    (stray : GetsStuck (scan after))
    (cut : Cut (sequenceText closeBracket (itemTexts format items)) piece) :
    scanArray scan (piece ++ after) = .error .malformed := by
  rw [itemTexts_eq] at cut
  have torn : scanBrackets closeBracket scan (piece ++ after) = .error .malformed :=
    scanBrackets_cut strays (by decide) (by decide) (fun item _ => dumps_head format item) reads
      cuts stray cut
  rw [scanArray, torn]
  rfl

theorem scanObject_cut (strays : Strays format maxDigits depth after)
    {fields : List (Text × Json Finite)} (noSplit : ∀ field ∈ fields, NoSplitPair field.1)
    (reads : ∀ field ∈ fields, Reads format scan field.2)
    (cuts : ∀ field ∈ fields, ∀ piece, Cut (field.2.dumps format) piece →
      GetsStuck (scan (piece ++ after)))
    (cut : Cut (sequenceText closeBrace (fieldTexts format fields)) piece) :
    scanObject scan (piece ++ after) = .error .malformed := by
  rw [fieldTexts_eq] at cut
  have torn : scanBrackets closeBrace (scanField scan) (piece ++ after) = .error .malformed :=
    scanBrackets_cut strays (by decide) (by decide) (fun field _ => starts_fieldText format field)
      (fun field member _ delimited =>
        scanField_dumps format (noSplit field member) (reads field member) delimited)
      (fun field member _ cutField =>
        scanField_cut strays (noSplit field member) (cuts field member) cutField)
      (scanField_stray strays scan) cut
  rw [scanObject, torn]
  rfl

end Brackets

def Floatless : Json Finite → Prop
  | .float _ => False
  | .null | .bool _ | .int _ | .str _ | .array _ | .object _ => True

/-- The text of a value that is cut gets the scanner stuck, there or in what follows. -/
theorem scanOnce_cut {value : Json Finite} (fits : value.depth + depth ≤ limit)
    (readable : value.Everywhere (Readable maxDigits)) (floatless : value.Everywhere Floatless)
    (strays : Strays format maxDigits depth after) {piece : Text}
    (cut : Cut (value.dumps format) piece) :
    GetsStuck (scanOnce format maxDigits limit (piece ++ after)) := by
  induction value using Json.induction generalizing limit piece with
  | null => exact scanOnce_cutKeyword strays (by omega) List.mem_cons_self cut
  | bool value =>
    cases value with
    | false =>
      exact scanOnce_cutKeyword strays (by omega)
        (List.mem_cons_of_mem _ (List.mem_cons_of_mem _ List.mem_cons_self)) cut
    | true =>
      exact scanOnce_cutKeyword strays (by omega) (List.mem_cons_of_mem _ List.mem_cons_self) cut
  | int value => exact scanOnce_cutInt strays (by omega) readable cut
  | float value => exact absurd floatless id
  | str value =>
    rcases cut_cons cut with rfl | ⟨inside, rfl, cutInside⟩
    · exact strays.value limit (by omega)
    · rw [List.cons_append, scanOnce_eq]
      simp only [scanValue, if_true]
      split
      next => rfl
      next read rest scanned => exact scanString_cut strays cutInside scanned
  | array items inductionHypothesis =>
    rcases cut_cons cut with rfl | ⟨inside, rfl, cutInside⟩
    · exact strays.value limit (by omega)
    · obtain ⟨less, rfl⟩ : ∃ less, limit = less + 1 :=
        ⟨limit - 1, by rw [Json.depth] at fits; omega⟩
      have insideReadable := everywhereItems_iff.mp readable.2
      have insideFloatless := everywhereItems_iff.mp floatless.2
      have fitsItem : ∀ item ∈ items, item.depth + depth ≤ less := by
        intro item member
        have shallow := depthItems_le_iff.mp (le_refl (depthItems items)) item member
        rw [Json.depth] at fits
        omega
      have torn : scanArray (scanOnce format maxDigits less) (inside ++ after) =
          .error .malformed := by
        refine scanArray_cut strays (fun item member => ?_) (fun item member other cutItem => ?_)
          (strays.value less (by rw [Json.depth] at fits; omega)) cutInside
        · exact scanOnce_dumps format maxDigits (le_of_add_le_left (fitsItem item member))
            (insideReadable item member)
        · exact inductionHypothesis item member (fitsItem item member)
            (insideReadable item member) (insideFloatless item member) cutItem
      show GetsStuck (scanArray (scanOnce format maxDigits less) (inside ++ after))
      rw [torn]
      rfl
  | object fields inductionHypothesis =>
    rcases cut_cons cut with rfl | ⟨inside, rfl, cutInside⟩
    · exact strays.value limit (by omega)
    · obtain ⟨less, rfl⟩ : ∃ less, limit = less + 1 :=
        ⟨limit - 1, by rw [Json.depth] at fits; omega⟩
      have insideReadable := everywhereFields_iff.mp readable.2
      have insideFloatless := everywhereFields_iff.mp floatless.2
      have fitsField : ∀ field ∈ fields, field.2.depth + depth ≤ less := by
        intro field member
        have shallow := depthFields_le_iff.mp (le_refl (depthFields fields)) field member
        rw [Json.depth] at fits
        omega
      have torn : scanObject (scanOnce format maxDigits less) (inside ++ after) =
          .error .malformed := by
        refine scanObject_cut strays readable.1.2 (fun field member => ?_)
          (fun field member other cutValue => ?_) cutInside
        · exact scanOnce_dumps format maxDigits (le_of_add_le_left (fitsField field member))
            (insideReadable field member)
        · exact inductionHypothesis field member (fitsField field member)
            (insideReadable field member) (insideFloatless field member) cutValue
      show GetsStuck (scanObject (scanOnce format maxDigits less) (inside ++ after))
      rw [torn]
      rfl

/-! ### Objects that are cut -/

/-- The keys start with a letter, so a literal that ends before one is stuck there. -/
def LetterFirst (fields : List (Text × Json Finite)) : Prop :=
  ∃ letter key value rest, fields = (letter :: key, value) :: rest ∧
    escapeChar letter = [letter] ∧ isBlank letter = false ∧ letter ∉ separators

variable {fields : List (Text × Json Finite)}

/-- The text of an object that is cut after its brace is malformed. -/
theorem scanOnce_cutObject (fits : (Json.object fields).depth + depth ≤ limit)
    (readable : (Json.object fields).Everywhere (Readable maxDigits))
    (floatless : (Json.object fields).Everywhere Floatless)
    (strays : Strays format maxDigits depth after) {piece : Text} (nonempty : piece ≠ [])
    (cut : Cut ((Json.object fields).dumps format) piece) :
    scanOnce format maxDigits limit (piece ++ after) = .error .malformed := by
  rcases cut_cons cut with rfl | ⟨inside, rfl, cutInside⟩
  · exact absurd rfl nonempty
  · obtain ⟨less, rfl⟩ : ∃ less, limit = less + 1 :=
      ⟨limit - 1, by rw [Json.depth] at fits; omega⟩
    have fitsField : ∀ field ∈ fields, field.2.depth + depth ≤ less := by
      intro field member
      have shallow := depthFields_le_iff.mp (le_refl (depthFields fields)) field member
      rw [Json.depth] at fits
      omega
    refine scanObject_cut strays readable.1.2 (fun field member => ?_)
      (fun field member other cutValue => ?_) cutInside
    · exact scanOnce_dumps format maxDigits (le_of_add_le_left (fitsField field member))
        (everywhereFields_iff.mp readable.2 field member)
    · exact scanOnce_cut (fitsField field member)
        (everywhereFields_iff.mp readable.2 field member)
        (everywhereFields_iff.mp floatless.2 field member) strays cutValue

theorem dumps_letterFirst (letterFirst : LetterFirst fields) :
    ∃ letter rest, (Json.object fields).dumps format = openBrace :: quoteMark :: letter :: rest ∧
      isBlank letter = false ∧ letter ∉ separators := by
  obtain ⟨letter, key, value, others, rfl, isLetter, notBlank, noSeparator⟩ := letterFirst
  have isQuote : ∃ more, quote (letter :: key) = quoteMark :: letter :: more := by
    refine ⟨key.flatMap escapeChar ++ [quoteMark], ?_⟩
    rw [quote, List.flatMap_cons, isLetter]
    rfl
  obtain ⟨more, isQuote⟩ := isQuote
  have isTail : ∃ tail, sequenceText closeBrace
      (fieldTexts format ((letter :: key, value) :: others)) =
        (quote (letter :: key) ++ colon :: value.dumps format) ++ tail := by
    cases others with
    | nil => exact ⟨_, rfl⟩
    | cons other others => exact ⟨_, rfl⟩
  obtain ⟨tail, isTail⟩ := isTail
  refine ⟨letter, (more ++ colon :: value.dumps format) ++ tail, ?_, notBlank, noSeparator⟩
  show openBrace :: sequenceText closeBrace _ = _
  rw [isTail, isQuote]
  rfl

/-- A literal that goes on with the text of an object ends before its first key. -/
theorem literalStuck_object (letterFirst : LetterFirst fields)
    (strays : Strays format maxDigits depth after) {piece : Text}
    (isPiece : piece <+: (Json.object fields).dumps format) : LiteralStuck (piece ++ after) := by
  obtain ⟨letter, more, isText, notBlank, noSeparator⟩ : ∃ letter more,
      (Json.object fields).dumps format = openBrace :: quoteMark :: letter :: more ∧
        isBlank letter = false ∧ letter ∉ separators := dumps_letterFirst letterFirst
  rw [isText] at isPiece
  have ofBrace : ∀ rest, LiteralStuck rest → LiteralStuck (openBrace :: rest) := by
    intro rest
    exact literalStuck_map (scanPieces_plain (by decide) (by decide) (by decide) rest)
  match piece, isPiece with
  | [], _ => exact strays.literal
  | [_], isPiece =>
    rw [(List.cons_prefix_cons.mp isPiece).1]
    exact ofBrace after strays.literal
  | _ :: _ :: inside, isPiece =>
    obtain ⟨isBrace, isPiece⟩ := List.cons_prefix_cons.mp isPiece
    obtain ⟨isQuote, isPiece⟩ := List.cons_prefix_cons.mp isPiece
    rw [isBrace, isQuote]
    refine ofBrace _ fun scanned isScanned => ?_
    change scanPieces (quoteMark :: (inside ++ after)) = some scanned at isScanned
    rw [scanPieces_quoteMark] at isScanned
    cases isScanned
    cases inside with
    | nil => exact strays.stuck
    | cons char inside =>
      rw [(List.cons_prefix_cons.mp isPiece).1]
      exact stuck_cons notBlank noSeparator _

theorem Strays.mono (strays : Strays format maxDigits depth after) {deeper : Nat}
    (deep : depth ≤ deeper) : Strays format maxDigits deeper after where
  head := strays.head
  literal := strays.literal
  value limit enough := strays.value limit (deep.trans enough)

/-- A piece of the text of an object, or all of it, may come after a cut. -/
theorem Strays.append (strays : Strays format maxDigits depth after)
    (readable : (Json.object fields).Everywhere (Readable maxDigits))
    (floatless : (Json.object fields).Everywhere Floatless) (letterFirst : LetterFirst fields)
    {piece : Text} (isPiece : piece <+: (Json.object fields).dumps format) :
    Strays format maxDigits ((Json.object fields).depth + depth) (piece ++ after) := by
  by_cases isNil : piece = []
  · rw [isNil]
    exact strays.mono (Nat.le_add_left depth _)
  refine ⟨fun char isHead => ?_, literalStuck_object letterFirst strays isPiece,
    fun limit enough => ?_⟩
  · obtain ⟨rest, isText⟩ := isPiece
    cases piece with
    | nil => exact absurd rfl isNil
    | cons first piece =>
      cases isHead
      exact (List.cons.inj isText).1
  · obtain ⟨rest, isText⟩ := isPiece
    cases rest with
    | nil =>
      rw [List.append_nil] at isText
      rw [isText, scanOnce_dumps format maxDigits (le_of_add_le_left enough) readable after
        strays.delimited]
      exact strays.stuck
    | cons char rest =>
      rw [scanOnce_cutObject enough readable floatless strays isNil ⟨char, rest, isText.symm⟩]
      rfl

/-- A text that starts with a cut object, or goes on after a whole one, is refused. -/
theorem loads_torn (fits : (Json.object fields).depth + depth ≤ limit)
    (readable : (Json.object fields).Everywhere (Readable maxDigits))
    (floatless : (Json.object fields).Everywhere Floatless)
    (strays : Strays format maxDigits depth after) {piece : Text} (nonempty : piece ≠ [])
    (isPiece : piece <+: (Json.object fields).dumps format)
    (isTorn : piece ≠ (Json.object fields).dumps format ∨ after ≠ []) :
    loads format maxDigits limit (piece ++ after) = .error .malformed := by
  obtain ⟨rest, isText⟩ := isPiece
  obtain ⟨char, more, rfl⟩ := List.exists_cons_of_ne_nil nonempty
  have isBrace : char = openBrace := (List.cons.inj isText).1
  have noMark : ¬ ((char :: more) ++ after).head? = some byteOrderMark := by
    show ¬ some char = some byteOrderMark
    rw [isBrace]
    decide
  have noBlank : skipBlanks ((char :: more) ++ after) = (char :: more) ++ after := by
    rw [isBrace]
    exact skipBlanks_cons (by decide) _
  rw [loads, if_neg noMark, noBlank]
  cases rest with
  | nil =>
    rw [List.append_nil] at isText
    have isMore : after ≠ [] := isTorn.resolve_left fun differs => differs isText
    rw [isText, scanOnce_dumps format maxDigits (le_of_add_le_left fits) readable after
      strays.delimited]
    show (if skipBlanks after = [] then _ else _) = _
    rw [skipBlanks_stuck strays.stuck, if_neg isMore]
  | cons other rest =>
    rw [scanOnce_cutObject fits readable floatless strays nonempty ⟨other, rest, isText.symm⟩]
    rfl

end Torn

end LiteHorse.JsonTexts
