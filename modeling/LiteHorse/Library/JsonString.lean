/-
This file is about texts as sequences of code points and the string literals of JSON. A lone
surrogate is a code point like any other; a literal that has only ASCII characters writes it
as one escape, and a code point above the basic plane as the escapes of its two surrogates.

A reader cannot tell two lone surrogates in a row from the two halves of one code point, so
the round trip of `scanString` and `quote` is for texts without a high surrogate directly
before a low one (`NoSplitPair`).
-/

import Mathlib.Data.List.Chain
import Mathlib.Data.Fin.Basic
import Mathlib.Tactic.Common

namespace LiteHorse.JsonTexts

abbrev CodePoint := Fin 0x110000

abbrev Text := List CodePoint

def codePoint (char : Char) : CodePoint :=
  ⟨char.toNat, by
    rcases char.valid with small | large
    · exact Nat.lt_trans small (by decide)
    · exact large.2⟩

/-- The text of a string without surrogates. -/
def text (value : String) : Text := value.toList.map codePoint

def isHigh (value : Nat) : Bool := 0xd800 ≤ value && value ≤ 0xdbff

def isLow (value : Nat) : Bool := 0xdc00 ≤ value && value ≤ 0xdfff

/-- No high surrogate stands directly before a low one. -/
def NoSplitPair (value : Text) : Prop :=
  value.IsChain fun (first second : CodePoint) => ¬ (isHigh first = true ∧ isLow second = true)

/-- A string has no surrogates. -/
theorem noSplitPair_text (value : String) : NoSplitPair (text value) := by
  have notHigh : ∀ char ∈ text value, isHigh char = false := by
    intro char member
    obtain ⟨source, _, rfl⟩ := List.mem_map.mp member
    have valid : source.toNat < 0xd800 ∨ 0xdfff < source.toNat ∧ source.toNat < 0x110000 :=
      source.valid
    rw [isHigh, Bool.and_eq_false_iff, decide_eq_false_iff_not, decide_eq_false_iff_not]
    show ¬ 0xd800 ≤ source.toNat ∨ ¬ source.toNat ≤ 0xdbff
    omega
  refine List.Pairwise.isChain (List.pairwise_of_forall_mem_list fun first member second _ => ?_)
  rw [notHigh first member]
  exact fun both => Bool.false_ne_true both.1

/-! ### Escapes -/

/-- A lowercase hexadecimal digit. -/
def hexDigit (digit : Fin 16) : CodePoint :=
  if digit.val < 10 then ⟨0x30 + digit.val, by omega⟩ else ⟨0x57 + digit.val, by omega⟩

def hexValue (char : CodePoint) : Option Nat :=
  if 0x30 ≤ char.val ∧ char.val ≤ 0x39 then some (char.val - 0x30)
  else if 0x61 ≤ char.val ∧ char.val ≤ 0x66 then some (char.val - 0x57)
  else if 0x41 ≤ char.val ∧ char.val ≤ 0x46 then some (char.val - 0x37)
  else none

/-- The four digits after a `\u`. -/
def unitDigits (unit : Fin 0x10000) : Text :=
  [hexDigit ⟨unit / 0x1000, by omega⟩, hexDigit ⟨unit / 0x100 % 16, by omega⟩,
    hexDigit ⟨unit / 0x10 % 16, by omega⟩, hexDigit ⟨unit % 16, by omega⟩]

def unitOf (first second third fourth : CodePoint) : Option (Fin 0x10000) := do
  let first ← hexValue first
  let second ← hexValue second
  let third ← hexValue third
  let fourth ← hexValue fourth
  let value := ((first * 16 + second) * 16 + third) * 16 + fourth
  if small : value < 0x10000 then some ⟨value, small⟩ else none

def quoteMark : CodePoint := codePoint '\x22'
def backslash : CodePoint := codePoint '\x5c'
def letterU : CodePoint := codePoint 'u'

/-- The characters with an escape of two characters, each with its letter. -/
def shortEscapes : List (CodePoint × CodePoint) :=
  [(quoteMark, quoteMark), (backslash, backslash), (0x08, codePoint 'b'), (0x0c, codePoint 'f'),
    (0x0a, codePoint 'n'), (0x0d, codePoint 'r'), (0x09, codePoint 't')]

def escapeUnit (unit : Fin 0x10000) : Text := backslash :: letterU :: unitDigits unit

/-- The surrogates of a code point above the basic plane. -/
def highOf (char : CodePoint) : Fin 0x10000 :=
  ⟨0xd800 + (char.val - 0x10000) / 0x400, by omega⟩

def lowOf (char : CodePoint) : Fin 0x10000 :=
  ⟨0xdc00 + (char.val - 0x10000) % 0x400, by omega⟩

def escapeChar (char : CodePoint) : Text :=
  match shortEscapes.lookup char with
  | some letter => [backslash, letter]
  | none =>
    if 0x20 ≤ char.val ∧ char.val ≤ 0x7e then [char]
    else if small : char.val < 0x10000 then escapeUnit ⟨char.val, small⟩
    else escapeUnit (highOf char) ++ escapeUnit (lowOf char)

/-- The string literal of a text, in ASCII. -/
def quote (value : Text) : Text := quoteMark :: value.flatMap escapeChar ++ [quoteMark]

/-! ### Reading a literal -/

/-- A character of a literal: itself or by a short escape, or a unit by its number. -/
inductive Piece where
  | plain (char : CodePoint)
  | unit (value : Fin 0x10000)

/-- The character of a letter after a backslash. -/
def unescape (letter : CodePoint) : Option CodePoint :=
  if letter = codePoint '/' then some letter
  else (shortEscapes.map Prod.swap).lookup letter

/-- The pieces up to the closing quote, and what follows it. -/
def scanPieces : Text → Option (List Piece × Text)
  | [] => none
  | char :: rest =>
    if char = quoteMark then some ([], rest)
    else if char = backslash then
      match rest with
      | [] => none
      | letter :: rest =>
        if letter = letterU then
          match rest with
          | first :: second :: third :: fourth :: rest => do
            let unit ← unitOf first second third fourth
            let (pieces, rest) ← scanPieces rest
            return (.unit unit :: pieces, rest)
          | _ => none
        else do
          let plain ← unescape letter
          let (pieces, rest) ← scanPieces rest
          return (.plain plain :: pieces, rest)
    else if char.val < 0x20 then none
    else do
      let (pieces, rest) ← scanPieces rest
      return (.plain char :: pieces, rest)

/-- The code point of two surrogates. -/
def joinPair (high low : Fin 0x10000) : CodePoint :=
  Fin.ofNat 0x110000 (0x10000 + (high.val - 0xd800) * 0x400 + (low.val - 0xdc00))

/-- The code point with the number. -/
def ofCode (code : Nat) : CodePoint := Fin.ofNat 0x110000 code

/-- Units that are the halves of one code point become it. -/
def joinUnits : List Piece → Text
  | [] => []
  | .plain char :: rest => char :: joinUnits rest
  | [.unit value] => [⟨value.val, by omega⟩]
  | .unit value :: .plain char :: rest => ⟨value.val, by omega⟩ :: joinUnits (.plain char :: rest)
  | .unit high :: .unit low :: rest =>
    if isHigh high.val && isLow low.val then joinPair high low :: joinUnits rest
    else ⟨high.val, by omega⟩ :: joinUnits (.unit low :: rest)

/-- A string literal after its opening quote. -/
def scanString (rest : Text) : Option (Text × Text) :=
  (scanPieces rest).map fun scanned => (joinUnits scanned.1, scanned.2)

/-! ### The pieces of a literal -/

/-- What the escape of a code point is read as. -/
def piecesOf (char : CodePoint) : List Piece :=
  if (shortEscapes.lookup char).isSome ∨ 0x20 ≤ char.val ∧ char.val ≤ 0x7e then [.plain char]
  else if small : char.val < 0x10000 then [.unit ⟨char.val, small⟩]
  else [.unit (highOf char), .unit (lowOf char)]

theorem piecesOf_cases (char : CodePoint) :
    piecesOf char = [.plain char] ∨
      (∃ small : char.val < 0x10000, piecesOf char = [.unit ⟨char.val, small⟩]) ∨
      (¬ char.val < 0x10000 ∧ piecesOf char = [.unit (highOf char), .unit (lowOf char)]) := by
  unfold piecesOf
  split
  · exact Or.inl rfl
  · split
    · next small => exact Or.inr (Or.inl ⟨small, rfl⟩)
    · next large => exact Or.inr (Or.inr ⟨large, rfl⟩)

theorem hexValue_hexDigit (digit : Fin 16) : hexValue (hexDigit digit) = some digit.val := by
  revert digit
  decide

theorem unitOf_digits (unit : Fin 0x10000) :
    unitOf (hexDigit ⟨unit / 0x1000, by omega⟩) (hexDigit ⟨unit / 0x100 % 16, by omega⟩)
      (hexDigit ⟨unit / 0x10 % 16, by omega⟩) (hexDigit ⟨unit % 16, by omega⟩) = some unit := by
  have value : ((unit.val / 0x1000 * 16 + unit.val / 0x100 % 16) * 16 +
      unit.val / 0x10 % 16) * 16 + unit.val % 16 = unit.val := by omega
  simp only [unitOf, hexValue_hexDigit, Option.bind_eq_bind, Option.bind_some, value]
  exact dif_pos unit.isLt

theorem unescape_of_mem {char letter : CodePoint} (member : (char, letter) ∈ shortEscapes) :
    letter ≠ letterU ∧ unescape letter = some char := by
  have all : shortEscapes.all fun pair =>
      decide (pair.2 ≠ letterU ∧ unescape pair.2 = some pair.1) := rfl
  exact of_decide_eq_true (List.all_eq_true.mp all (char, letter) member)

theorem special_of_lookup {char : CodePoint} (noEscape : shortEscapes.lookup char = none) :
    char ≠ quoteMark ∧ char ≠ backslash := by
  constructor
  · rintro rfl
    exact absurd noEscape (by decide)
  · rintro rfl
    exact absurd noEscape (by decide)

theorem scanPieces_quoteMark (rest : Text) :
    scanPieces (quoteMark :: rest) = some ([], rest) := by
  rw [scanPieces.eq_def]
  exact if_pos rfl

theorem scanPieces_plain {char : CodePoint} (notQuote : char ≠ quoteMark)
    (notBackslash : char ≠ backslash) (noControl : ¬ char.val < 0x20) (rest : Text) :
    scanPieces (char :: rest) =
      (scanPieces rest).map fun scanned => (.plain char :: scanned.1, scanned.2) := by
  rw [scanPieces.eq_def]
  simp only [if_neg notQuote, if_neg notBackslash, if_neg noControl]
  cases scanPieces rest <;> rfl

theorem scanPieces_short {char letter : CodePoint} (notUnit : letter ≠ letterU)
    (plain : unescape letter = some char) (rest : Text) :
    scanPieces (backslash :: letter :: rest) =
      (scanPieces rest).map fun scanned => (.plain char :: scanned.1, scanned.2) := by
  rw [scanPieces.eq_def]
  simp only [if_neg (show ¬ backslash = quoteMark by decide), if_true, if_neg notUnit, plain,
    Option.bind_eq_bind, Option.bind_some]
  cases scanPieces rest <;> rfl

theorem scanPieces_unit (unit : Fin 0x10000) (rest : Text) :
    scanPieces (escapeUnit unit ++ rest) =
      (scanPieces rest).map fun scanned => (.unit unit :: scanned.1, scanned.2) := by
  show scanPieces (backslash :: letterU :: _ :: _ :: _ :: _ :: rest) = _
  rw [scanPieces.eq_def]
  simp only [if_neg (show ¬ backslash = quoteMark by decide), if_true, unitOf_digits,
    Option.bind_eq_bind, Option.bind_some]
  cases scanPieces rest <;> rfl

/-- A reader of a literal takes one escape after the other. -/
theorem scanPieces_escapeChar (char : CodePoint) (rest : Text) :
    scanPieces (escapeChar char ++ rest) =
      (scanPieces rest).map fun scanned => (piecesOf char ++ scanned.1, scanned.2) := by
  cases escape : shortEscapes.lookup char with
  | some letter =>
    have member : (char, letter) ∈ shortEscapes := by
      obtain ⟨before, after, split, _⟩ := List.lookup_eq_some_iff.mp escape
      rw [split]
      exact List.mem_append_right _ List.mem_cons_self
    obtain ⟨notUnit, plain⟩ := unescape_of_mem member
    simp only [escapeChar, piecesOf, escape, Option.isSome_some, true_or, if_true]
    exact scanPieces_short notUnit plain rest
  | none =>
    obtain ⟨notQuote, notBackslash⟩ := special_of_lookup escape
    simp only [escapeChar, piecesOf, escape, Option.isSome_none, Bool.false_eq_true, false_or]
    split
    · next printable =>
      exact scanPieces_plain notQuote notBackslash (by omega) rest
    · split
      · exact scanPieces_unit _ rest
      · rw [List.append_assoc, scanPieces_unit, scanPieces_unit, Option.map_map]
        rfl

theorem scanPieces_quote (value rest : Text) :
    scanPieces (value.flatMap escapeChar ++ quoteMark :: rest) =
      some (value.flatMap piecesOf, rest) := by
  induction value with
  | nil => exact scanPieces_quoteMark rest
  | cons char value inductionHypothesis =>
    rw [List.flatMap_cons, List.append_assoc, scanPieces_escapeChar, inductionHypothesis]
    rfl

/-! ### Joining the units -/

theorem joinPair_halves {char : CodePoint} (large : ¬ char.val < 0x10000) :
    joinPair (highOf char) (lowOf char) = char := by
  have bound := char.isLt
  refine Fin.ext ?_
  show (0x10000 + (0xd800 + (char.val - 0x10000) / 0x400 - 0xd800) * 0x400 +
    (0xdc00 + (char.val - 0x10000) % 0x400 - 0xdc00)) % 0x110000 = char.val
  omega

theorem isHigh_iff {value : Nat} : isHigh value = true ↔ 0xd800 ≤ value ∧ value ≤ 0xdbff := by
  rw [isHigh, Bool.and_eq_true, decide_eq_true_iff, decide_eq_true_iff]

theorem isLow_iff {value : Nat} : isLow value = true ↔ 0xdc00 ≤ value ∧ value ≤ 0xdfff := by
  rw [isLow, Bool.and_eq_true, decide_eq_true_iff, decide_eq_true_iff]

theorem highOf_val (char : CodePoint) :
    (highOf char).val = 0xd800 + (char.val - 0x10000) / 0x400 := rfl

theorem lowOf_val (char : CodePoint) :
    (lowOf char).val = 0xdc00 + (char.val - 0x10000) % 0x400 := rfl

theorem isHigh_highOf (char : CodePoint) : isHigh (highOf char) = true := by
  have bound := char.isLt
  rw [isHigh_iff]
  rw [highOf_val]
  omega

theorem isLow_lowOf (char : CodePoint) : isLow (lowOf char) = true := by
  rw [isLow_iff]
  rw [lowOf_val]
  omega

theorem not_isLow_highOf (char : CodePoint) : ¬ isLow (highOf char) = true := by
  have bound := char.isLt
  rw [isLow_iff]
  rw [highOf_val]
  omega

/-- A unit whose successor is not its other half stays a code point. -/
theorem joinUnits_unit {value : Fin 0x10000} {rest : List Piece}
    (noPair : ∀ low, rest.head? = some (.unit low) →
      ¬ (isHigh value = true ∧ isLow low = true)) :
    joinUnits (.unit value :: rest) = ⟨value, by omega⟩ :: joinUnits rest := by
  match rest with
  | [] => rfl
  | .plain _ :: _ => rfl
  | .unit low :: _ =>
    rw [joinUnits, if_neg]
    rw [Bool.and_eq_true]
    exact noPair low rfl

/-- A low surrogate at the head of a literal's pieces is the first code point of its text. -/
theorem head_pieces_low {value : Text} {low : Fin 0x10000} (isLowUnit : isLow low = true)
    (head : (value.flatMap piecesOf).head? = some (.unit low)) :
    ∃ char ∈ value.head?, isLow char = true := by
  cases value with
  | nil => cases head
  | cons char value =>
    refine ⟨char, rfl, ?_⟩
    rw [List.flatMap_cons] at head
    rcases piecesOf_cases char with plain | ⟨small, unit⟩ | ⟨_, halves⟩
    · rw [plain] at head
      cases head
    · rw [unit] at head
      cases head
      exact isLowUnit
    · rw [halves] at head
      cases head
      exact absurd isLowUnit (not_isLow_highOf char)

theorem joinUnits_pieces {value : Text} (noSplit : NoSplitPair value) :
    joinUnits (value.flatMap piecesOf) = value := by
  induction value with
  | nil => rfl
  | cons char value inductionHypothesis =>
    rw [NoSplitPair, List.isChain_cons] at noSplit
    obtain ⟨first, noSplit⟩ := noSplit
    have joined := inductionHypothesis noSplit
    rw [List.flatMap_cons]
    rcases piecesOf_cases char with plain | ⟨small, unit⟩ | ⟨large, halves⟩
    · rw [plain]
      exact congrArg (char :: ·) joined
    · rw [unit, List.singleton_append, joinUnits_unit, joined]
      intro low head isPair
      obtain ⟨next, isNext, lowNext⟩ := head_pieces_low isPair.2 head
      exact first next isNext ⟨isPair.1, lowNext⟩
    · rw [halves]
      show joinUnits (.unit (highOf char) :: .unit (lowOf char) :: _) = _
      rw [joinUnits, isHigh_highOf, isLow_lowOf, joinPair_halves large]
      exact congrArg (char :: ·) joined

/-- The round trip of a literal. -/
theorem scanString_quote {value : Text} (noSplit : NoSplitPair value) (rest : Text) :
    scanString (value.flatMap escapeChar ++ quoteMark :: rest) = some (value, rest) := by
  rw [scanString, scanPieces_quote, Option.map_some, joinUnits_pieces noSplit]

/-! ### What is left of a text -/

theorem length_scanPieces {text rest : Text} {pieces : List Piece}
    (scanned : scanPieces text = some (pieces, rest)) : rest.length < text.length := by
  have after : ∀ {text : Text} {piece : Piece} {pieces : List Piece},
      ((scanPieces text).bind fun more => some (piece :: more.1, more.2)) = some (pieces, rest) →
        ∃ more, scanPieces text = some (more, rest) := by
    intro text piece pieces scanned
    obtain ⟨more, scannedMore, same⟩ := Option.bind_eq_some_iff.mp scanned
    cases same
    exact ⟨more.1, scannedMore⟩
  fun_induction scanPieces text generalizing pieces with
  | case1 => cases scanned
  | case2 =>
    cases scanned
    exact Nat.lt_succ_self _
  | case3 => cases scanned
  | case4 _ _ _ _ _ _ inductionHypothesis =>
    obtain ⟨unit, _, scanned⟩ := Option.bind_eq_some_iff.mp scanned
    obtain ⟨more, scanned⟩ := after scanned
    have shorter := inductionHypothesis scanned
    simp only [List.length_cons]
    omega
  | case5 => cases scanned
  | case6 _ _ _ _ inductionHypothesis =>
    obtain ⟨plain, _, scanned⟩ := Option.bind_eq_some_iff.mp scanned
    obtain ⟨more, scanned⟩ := after scanned
    have shorter := inductionHypothesis scanned
    simp only [List.length_cons]
    omega
  | case7 => cases scanned
  | case8 _ _ _ _ _ inductionHypothesis =>
    obtain ⟨more, scanned⟩ := after scanned
    exact Nat.lt_succ_of_lt (inductionHypothesis scanned)

theorem length_scanString {text rest value : Text}
    (scanned : scanString text = some (value, rest)) : rest.length < text.length := by
  obtain ⟨⟨pieces, after⟩, scannedPieces, same⟩ := Option.map_eq_some_iff.mp scanned
  cases same
  exact length_scanPieces scannedPieces

/-! ### Literals are ASCII -/

/-- A printable character of ASCII. -/
def Printable (char : CodePoint) : Prop := 0x20 ≤ char.val ∧ char.val ≤ 0x7e

instance (char : CodePoint) : Decidable (Printable char) := inferInstanceAs (Decidable (_ ∧ _))

theorem printable_hexDigit (digit : Fin 16) : Printable (hexDigit digit) := by
  revert digit
  decide

theorem printable_escapeUnit (unit : Fin 0x10000) : ∀ char ∈ escapeUnit unit, Printable char := by
  intro char member
  simp only [escapeUnit, unitDigits, List.mem_cons, List.not_mem_nil, or_false] at member
  rcases member with rfl | rfl | rfl | rfl | rfl | rfl
  · decide
  · decide
  all_goals exact printable_hexDigit _

theorem printable_escapeChar (source : CodePoint) :
    ∀ char ∈ escapeChar source, Printable char := by
  unfold escapeChar
  split
  · next letter escape =>
    have letters : shortEscapes.all fun pair => decide (Printable pair.2) := rfl
    obtain ⟨before, after, split, _⟩ := List.lookup_eq_some_iff.mp escape
    have member : (source, letter) ∈ shortEscapes :=
      split ▸ List.mem_append_right _ List.mem_cons_self
    have printable : Printable letter := of_decide_eq_true (List.all_eq_true.mp letters _ member)
    intro char member
    rcases List.mem_cons.mp member with rfl | member
    · decide
    · rw [List.mem_singleton.mp member]
      exact printable
  · split
    · next printable =>
      intro char member
      rw [List.mem_singleton.mp member]
      exact printable
    · split
      · exact printable_escapeUnit _
      · intro char member
        rcases List.mem_append.mp member with high | low
        · exact printable_escapeUnit _ char high
        · exact printable_escapeUnit _ char low

theorem printable_quote (value : Text) : ∀ char ∈ quote value, Printable char := by
  intro char member
  rcases List.mem_append.mp member with opened | closed
  · rcases List.mem_cons.mp opened with rfl | inside
    · decide
    · obtain ⟨source, _, escaped⟩ := List.mem_flatMap.mp inside
      exact printable_escapeChar source char escaped
  · rw [List.mem_singleton.mp closed]
    decide

end LiteHorse.JsonTexts
