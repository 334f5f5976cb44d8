/-
This file is about the number literals of JSON. A literal is kept as the digits it has
(`NumberToken`), so that what makes it a number of the grammar (digits after a point, no
zero before other digits) is part of the value.

A reader takes the longest literal that a text starts with. `scanNumber_text` is the round
trip, for texts that go on with something that is no part of a number; `value_ofInt` is that
of an integer and its decimal digits.
-/

import LiteHorse.Library.JsonString
import Mathlib.Data.Nat.Digits.Lemmas

namespace LiteHorse.JsonTexts

abbrev Digit := Fin 10

def digitChar (digit : Digit) : CodePoint := ⟨0x30 + digit.val, by omega⟩

def digitValue (char : CodePoint) : Option Digit :=
  if digit : 0x30 ≤ char.val ∧ char.val ≤ 0x39 then some ⟨char.val - 0x30, by omega⟩ else none

/-- The digits before the point: a zero stands alone. -/
structure Whole where
  first : Digit
  more : List Digit
  noLeadingZero : first = 0 → more = []

/-- An exponent: its sign, if it is written, and its digits. -/
structure Exponent where
  sign : Option Bool
  first : Digit
  more : List Digit

/-- A number literal. Without a point the fraction is empty. -/
structure NumberToken where
  negative : Bool
  whole : Whole
  fraction : List Digit
  exponent : Option Exponent

/-- The literal is read as an integer. -/
def NumberToken.isInteger (token : NumberToken) : Bool :=
  token.fraction.isEmpty && token.exponent.isNone

/-! ### Literals as texts -/

def minus : CodePoint := codePoint '-'
def plus : CodePoint := codePoint '+'
def point : CodePoint := codePoint '.'
def lowerE : CodePoint := codePoint 'e'
def upperE : CodePoint := codePoint 'E'

def digitsText (digits : List Digit) : Text := digits.map digitChar

def Whole.text (whole : Whole) : Text := digitsText (whole.first :: whole.more)

def signText : Option Bool → Text
  | none => []
  | some true => [minus]
  | some false => [plus]

def exponentText : Option Exponent → Text
  | none => []
  | some exponent =>
    lowerE :: signText exponent.sign ++ digitsText (exponent.first :: exponent.more)

def fractionText : List Digit → Text
  | [] => []
  | digits => point :: digitsText digits

def negativeText (negative : Bool) : Text := if negative then [minus] else []

def NumberToken.text (token : NumberToken) : Text :=
  negativeText token.negative ++ token.whole.text ++ fractionText token.fraction ++
    exponentText token.exponent

/-! ### Reading a literal -/

/-- The digits a text starts with, and what follows them. -/
def spanDigits : Text → List Digit × Text
  | [] => ([], [])
  | char :: rest =>
    match digitValue char with
    | some digit => (digit :: (spanDigits rest).1, (spanDigits rest).2)
    | none => ([], char :: rest)

def scanWhole : Text → Option (Whole × Text)
  | [] => none
  | char :: rest =>
    match digitValue char with
    | none => none
    | some digit =>
      if zero : digit = 0 then some (⟨0, [], fun _ => rfl⟩, rest)
      else
        some (⟨digit, (spanDigits rest).1, fun same => absurd same zero⟩, (spanDigits rest).2)

/-- A point is part of the number when a digit follows it. -/
def scanFraction : Text → List Digit × Text
  | [] => ([], [])
  | char :: rest =>
    if char = point then
      match spanDigits rest with
      | ([], _) => ([], char :: rest)
      | scanned => scanned
    else ([], char :: rest)

def scanSign : Text → Option Bool × Text
  | [] => (none, [])
  | char :: rest =>
    if char = minus then (some true, rest)
    else if char = plus then (some false, rest)
    else (none, char :: rest)

/-- The letter `e` is part of the number when a digit follows it or its sign. -/
def scanExponent : Text → Option Exponent × Text
  | [] => (none, [])
  | char :: rest =>
    if char = lowerE ∨ char = upperE then
      match spanDigits (scanSign rest).2 with
      | ([], _) => (none, char :: rest)
      | (first :: more, after) => (some ⟨(scanSign rest).1, first, more⟩, after)
    else (none, char :: rest)

def scanMinus : Text → Bool × Text
  | [] => (false, [])
  | char :: rest => if char = minus then (true, rest) else (false, char :: rest)

def scanNumber (text : Text) : Option (NumberToken × Text) := do
  let (whole, rest) ← scanWhole (scanMinus text).2
  let (fraction, rest) := scanFraction rest
  let (exponent, rest) := scanExponent rest
  return (⟨(scanMinus text).1, whole, fraction, exponent⟩, rest)

/-! ### The round trip -/

/-- The text does not go on with a part of a number. -/
def Delimited (rest : Text) : Prop :=
  ∀ char ∈ rest.head?, digitValue char = none ∧ char ≠ point ∧ char ≠ lowerE ∧ char ≠ upperE

theorem digitValue_digitChar (digit : Digit) : digitValue (digitChar digit) = some digit := by
  revert digit
  decide

theorem digitChar_ne_minus (digit : Digit) : digitChar digit ≠ minus := by
  revert digit
  decide

theorem digitChar_ne_plus (digit : Digit) : digitChar digit ≠ plus := by
  revert digit
  decide

theorem spanDigits_of_head {rest : Text} (noDigit : ∀ char ∈ rest.head?, digitValue char = none) :
    spanDigits rest = ([], rest) := by
  cases rest with
  | nil => rfl
  | cons char rest => rw [spanDigits, noDigit char rfl]

theorem spanDigits_text (digits : List Digit) {rest : Text}
    (noDigit : ∀ char ∈ rest.head?, digitValue char = none) :
    spanDigits (digitsText digits ++ rest) = (digits, rest) := by
  induction digits with
  | nil => exact spanDigits_of_head noDigit
  | cons digit digits inductionHypothesis =>
    show spanDigits (digitChar digit :: (digitsText digits ++ rest)) = _
    rw [spanDigits, digitValue_digitChar, inductionHypothesis]

theorem scanWhole_text (whole : Whole) {rest : Text}
    (noDigit : ∀ char ∈ rest.head?, digitValue char = none) :
    scanWhole (whole.text ++ rest) = some (whole, rest) := by
  obtain ⟨first, more, noLeadingZero⟩ := whole
  show scanWhole (digitChar first :: (digitsText more ++ rest)) = _
  rw [scanWhole, digitValue_digitChar]
  by_cases zero : first = 0
  · obtain rfl := noLeadingZero zero
    subst zero
    rfl
  · simp only [dif_neg zero, spanDigits_text more noDigit]

theorem scanExponent_text (exponent : Option Exponent) {rest : Text} (delimited : Delimited rest) :
    scanExponent (exponentText exponent ++ rest) = (exponent, rest) := by
  cases exponent with
  | none =>
    cases rest with
    | nil => rfl
    | cons char rest =>
      obtain ⟨_, _, notLower, notUpper⟩ := delimited char rfl
      show scanExponent (char :: rest) = _
      rw [scanExponent, if_neg (not_or.mpr ⟨notLower, notUpper⟩)]
  | some exponent =>
    obtain ⟨sign, first, more⟩ := exponent
    have sign_text : scanSign (signText sign ++ (digitsText (first :: more) ++ rest)) =
        (sign, digitsText (first :: more) ++ rest) := by
      rcases sign with _ | _ | _
      · show scanSign (digitChar first :: (digitsText more ++ rest)) = _
        rw [scanSign, if_neg (digitChar_ne_minus first), if_neg (digitChar_ne_plus first)]
        rfl
      · rfl
      · rfl
    show scanExponent (lowerE :: ((signText sign ++ digitsText (first :: more)) ++ rest)) = _
    rw [List.append_assoc, scanExponent, if_pos (Or.inl rfl), sign_text,
      spanDigits_text (first :: more) fun char isHead => (delimited char isHead).1]

theorem scanFraction_text (fraction : List Digit) {rest : Text}
    (noDigit : ∀ char ∈ rest.head?, digitValue char = none ∧ char ≠ point) :
    scanFraction (fractionText fraction ++ rest) = (fraction, rest) := by
  cases fraction with
  | nil =>
    cases rest with
    | nil => rfl
    | cons char rest =>
      show scanFraction (char :: rest) = _
      rw [scanFraction, if_neg (noDigit char rfl).2]
  | cons digit digits =>
    show scanFraction (point :: (digitsText (digit :: digits) ++ rest)) = _
    rw [scanFraction, if_pos rfl,
      spanDigits_text (digit :: digits) fun char isHead => (noDigit char isHead).1]

/-- What follows the whole digits starts with no digit. -/
theorem head_exponentText (exponent : Option Exponent) {rest : Text} (delimited : Delimited rest) :
    ∀ char ∈ (exponentText exponent ++ rest).head?, digitValue char = none ∧ char ≠ point := by
  cases exponent with
  | none =>
    intro char isHead
    exact ⟨(delimited char isHead).1, (delimited char isHead).2.1⟩
  | some exponent =>
    intro char isHead
    cases isHead
    exact ⟨by decide, by decide⟩

theorem head_fractionText (fraction : List Digit) {rest : Text}
    (noDigit : ∀ char ∈ rest.head?, digitValue char = none) :
    ∀ char ∈ (fractionText fraction ++ rest).head?, digitValue char = none := by
  cases fraction with
  | nil => exact noDigit
  | cons digit digits =>
    intro char isHead
    cases isHead
    decide

theorem scanMinus_text (negative : Bool) (whole : Whole) (rest : Text) :
    scanMinus (negativeText negative ++ (whole.text ++ rest)) = (negative, whole.text ++ rest) := by
  cases negative with
  | false =>
    show scanMinus (digitChar whole.first :: _) = _
    rw [scanMinus, if_neg (digitChar_ne_minus whole.first)]
    rfl
  | true => rfl

/-- The round trip of a literal. -/
theorem scanNumber_text (token : NumberToken) {rest : Text} (delimited : Delimited rest) :
    scanNumber (token.text ++ rest) = some (token, rest) := by
  obtain ⟨negative, whole, fraction, exponent⟩ := token
  have split : NumberToken.text ⟨negative, whole, fraction, exponent⟩ ++ rest =
      negativeText negative ++
        (whole.text ++ (fractionText fraction ++ (exponentText exponent ++ rest))) := by
    simp only [NumberToken.text, List.append_assoc]
  have afterFraction := head_exponentText exponent delimited
  have afterWhole := head_fractionText fraction fun char isHead => (afterFraction char isHead).1
  rw [split, scanNumber, scanMinus_text]
  simp only [scanWhole_text whole afterWhole, Option.bind_eq_bind, Option.bind_some,
    scanFraction_text fraction afterFraction, scanExponent_text exponent delimited]
  rfl

/-! ### Integers -/

def Whole.value (whole : Whole) : Nat :=
  (whole.first :: whole.more).foldl (fun value digit => value * 10 + digit.val) 0

/-- The number of digits. -/
def Whole.length (whole : Whole) : Nat := whole.more.length + 1

def NumberToken.value (token : NumberToken) : Int :=
  if token.negative then - (token.whole.value : Int) else token.whole.value

/-- The decimal digits of a number, the first one first. -/
def decimalDigits (number : Nat) : List Nat := (Nat.digits 10 number).reverse

theorem noLeadingZero_decimalDigits {number digit : Nat} {more : List Nat}
    (digits : decimalDigits number = digit :: more) : digit ≠ 0 ∧ digit < 10 := by
  have member : digit ∈ Nat.digits 10 number := by
    rw [← List.mem_reverse, ← decimalDigits, digits]
    exact List.mem_cons_self
  refine ⟨fun zero => ?_, Nat.digits_lt_base (by decide) member⟩
  have nonzero : number ≠ 0 := by
    rintro rfl
    cases digits
  have last : (Nat.digits 10 number).getLast? = some digit := by
    rw [← List.head?_reverse, ← decimalDigits, digits, List.head?_cons]
  have nonempty : Nat.digits 10 number ≠ [] := Nat.digits_ne_nil_iff_ne_zero.mpr nonzero
  rw [List.getLast?_eq_some_getLast nonempty, Option.some.injEq] at last
  exact Nat.getLast_digit_ne_zero 10 nonzero (last.trans zero)

def Whole.ofNat (number : Nat) : Whole :=
  match digits : decimalDigits number with
  | [] => ⟨0, [], fun _ => rfl⟩
  | digit :: more =>
    ⟨Fin.ofNat 10 digit, more.map (Fin.ofNat 10), fun zero => by
      have leading := noLeadingZero_decimalDigits digits
      have same := congrArg Fin.val zero
      rw [Fin.val_ofNat, Nat.mod_eq_of_lt leading.2] at same
      exact absurd same leading.1⟩

def NumberToken.ofInt (number : Int) : NumberToken where
  negative := number < 0
  whole := Whole.ofNat number.natAbs
  fraction := []
  exponent := none

theorem foldl_digits (digits : List Nat) (small : ∀ digit ∈ digits, digit < 10) :
    (digits.map (Fin.ofNat 10)).foldl (fun value digit => value * 10 + digit.val) 0 =
      Nat.ofDigits 10 digits.reverse := by
  induction digits using List.reverseRecOn with
  | nil => rfl
  | append_singleton digits digit inductionHypothesis =>
    have digitSmall := small digit (List.mem_append_right _ (List.mem_singleton.mpr rfl))
    rw [List.map_append, List.foldl_append,
      inductionHypothesis fun other member => small other (List.mem_append_left _ member),
      List.reverse_append, List.reverse_singleton, List.singleton_append, Nat.ofDigits_cons]
    show Nat.ofDigits 10 digits.reverse * 10 + (Fin.ofNat 10 digit).val = _
    rw [Fin.val_ofNat, Nat.mod_eq_of_lt digitSmall]
    omega

theorem value_ofNat (number : Nat) : (Whole.ofNat number).value = number := by
  have value : Nat.ofDigits 10 (decimalDigits number).reverse = number := by
    rw [decimalDigits, List.reverse_reverse, Nat.ofDigits_digits]
  have small : ∀ digit ∈ decimalDigits number, digit < 10 := by
    intro digit member
    exact Nat.digits_lt_base (by decide) (List.mem_reverse.mp member)
  unfold Whole.ofNat
  split
  · next digits =>
    rw [digits] at value
    exact value
  · next digit more digits =>
    rw [digits] at value small
    exact (foldl_digits _ small).trans value

/-- The round trip of an integer. -/
theorem value_ofInt (number : Int) : (NumberToken.ofInt number).value = number := by
  unfold NumberToken.value NumberToken.ofInt
  simp only [value_ofNat, decide_eq_true_eq]
  split <;> omega

theorem length_ofNat (number : Nat) :
    (Whole.ofNat number).length = max 1 (Nat.digits 10 number).length := by
  have same : (decimalDigits number).length = (Nat.digits 10 number).length := List.length_reverse
  unfold Whole.ofNat
  split
  · next digits =>
    rw [← same, digits]
    rfl
  · next digit more digits =>
    have length : (Nat.digits 10 number).length = more.length + 1 := by
      rw [← same, digits, List.length_cons]
    rw [length, Nat.max_eq_right (Nat.le_add_left 1 _)]
    show (more.map _).length + 1 = _
    rw [List.length_map]

/-! ### What is left of a text -/

theorem length_spanDigits (text : Text) : (spanDigits text).2.length ≤ text.length := by
  induction text with
  | nil => exact Nat.le_refl 0
  | cons char rest inductionHypothesis =>
    rw [spanDigits]
    split
    · exact Nat.le_succ_of_le inductionHypothesis
    · exact Nat.le_refl _

theorem length_scanWhole {text rest : Text} {whole : Whole}
    (scanned : scanWhole text = some (whole, rest)) : rest.length < text.length := by
  unfold scanWhole at scanned
  split at scanned
  · cases scanned
  · next char after =>
    split at scanned
    · cases scanned
    · split at scanned
      · cases scanned
        exact Nat.lt_succ_self _
      · cases scanned
        exact Nat.lt_succ_of_le (length_spanDigits after)

theorem length_scanFraction (text : Text) : (scanFraction text).2.length ≤ text.length := by
  unfold scanFraction
  split
  · exact Nat.le_refl 0
  · next char rest =>
    split
    · have digits := length_spanDigits rest
      split
      · exact Nat.le_refl _
      · exact Nat.le_succ_of_le digits
    · exact Nat.le_refl _

theorem length_scanSign (text : Text) : (scanSign text).2.length ≤ text.length := by
  unfold scanSign
  split
  · exact Nat.le_refl 0
  · split
    · exact Nat.le_succ _
    · split
      · exact Nat.le_succ _
      · exact Nat.le_refl _

theorem length_scanExponent (text : Text) : (scanExponent text).2.length ≤ text.length := by
  unfold scanExponent
  split
  · exact Nat.le_refl 0
  · next char rest =>
    split
    · have digits := length_spanDigits (scanSign rest).2
      have sign := length_scanSign rest
      split
      · exact Nat.le_refl _
      · next scanned =>
        rw [scanned] at digits
        exact Nat.le_succ_of_le (Nat.le_trans digits sign)
    · exact Nat.le_refl _

theorem length_scanMinus (text : Text) : (scanMinus text).2.length ≤ text.length := by
  unfold scanMinus
  split
  · exact Nat.le_refl 0
  · split
    · exact Nat.le_succ _
    · exact Nat.le_refl _

theorem length_scanNumber {text rest : Text} {token : NumberToken}
    (scanned : scanNumber text = some (token, rest)) : rest.length < text.length := by
  obtain ⟨⟨whole, after⟩, scannedWhole, same⟩ := Option.bind_eq_some_iff.mp scanned
  cases same
  have exponent := length_scanExponent (scanFraction after).2
  have fraction := length_scanFraction after
  have shorter := length_scanWhole scannedWhole
  have sign := length_scanMinus text
  exact Nat.lt_of_le_of_lt (Nat.le_trans exponent fraction) (Nat.lt_of_lt_of_le shorter sign)

/-! ### Literals are ASCII -/

theorem printable_digitsText (digits : List Digit) :
    ∀ char ∈ digitsText digits, Printable char := by
  intro char member
  obtain ⟨digit, _, rfl⟩ := List.mem_map.mp member
  have all : ∀ digit : Digit, Printable (digitChar digit) := by decide
  exact all digit

theorem printable_number (token : NumberToken) : ∀ char ∈ token.text, Printable char := by
  intro char member
  simp only [NumberToken.text, List.mem_append] at member
  rcases member with ((negative | whole) | fraction) | exponent
  · unfold negativeText at negative
    split at negative
    · rw [List.mem_singleton.mp negative]
      decide
    · cases negative
  · exact printable_digitsText _ char whole
  · cases digits : token.fraction with
    | nil =>
      rw [digits] at fraction
      cases fraction
    | cons digit more =>
      rw [digits] at fraction
      rcases List.mem_cons.mp fraction with rfl | digit
      · decide
      · exact printable_digitsText _ char digit
  · cases written : token.exponent with
    | none =>
      rw [written] at exponent
      cases exponent
    | some present =>
      rw [written] at exponent
      rcases List.mem_cons.mp exponent with rfl | rest
      · decide
      · rcases List.mem_append.mp rest with sign | digit
        · rcases signed : present.sign with _ | _ | _ <;> rw [signed] at sign
          · cases sign
          · rw [List.mem_singleton.mp sign]
            decide
          · rw [List.mem_singleton.mp sign]
            decide
        · exact printable_digitsText _ char digit

end LiteHorse.JsonTexts
