/-
This file is about JSON texts: `dumps` writes a value without blanks and in ASCII, `loads`
reads a text into a value. The reader is that of the common library: it takes `NaN` and the
infinities as numbers, keeps the last value of a key, refuses an integer with too many
digits, and gives up at a bracket that is nested too deep before it looks at what follows.

The value of a number with a point or an exponent is left to a `FloatFormat`, of which only
the round trip of a finite float is known. The main result is `loads_dumps`.
-/

import LiteHorse.Library.JsonNumber
import LiteHorse.Python
import Mathlib.Tactic.FinCases

namespace LiteHorse.JsonTexts

/-! ### Values -/

/-- A float: finite, or one of the three without a literal in JSON. -/
inductive Floating (Finite : Type) where
  | finite (value : Finite)
  | infinite (negative : Bool)
  | nan

/-- How floats are written and read. The literal of a finite float is read as that float. -/
structure FloatFormat (Finite : Type) where
  parse : NumberToken → Floating Finite
  repr : Finite → NumberToken
  isFloat : ∀ value, (repr value).isInteger = false
  parse_repr : ∀ value, parse (repr value) = .finite value

/-- A value. The fields of an object keep their order. -/
inductive Json (Finite : Type) where
  | null
  | bool (value : Bool)
  | int (value : Int)
  | float (value : Floating Finite)
  | str (value : Text)
  | array (items : List (Json Finite))
  | object (fields : List (Text × Json Finite))

variable {Finite : Type}

mutual

/-- How deep the brackets of a value are nested. -/
def Json.depth : Json Finite → Nat
  | .array items => depthItems items + 1
  | .object fields => depthFields fields + 1
  | .null | .bool _ | .int _ | .float _ | .str _ => 0

def depthItems : List (Json Finite) → Nat
  | [] => 0
  | item :: rest => max item.depth (depthItems rest)

def depthFields : List (Text × Json Finite) → Nat
  | [] => 0
  | (_, value) :: rest => max value.depth (depthFields rest)

end

mutual

/-- A property of the value and of every value inside. -/
def Json.Everywhere (property : Json Finite → Prop) : Json Finite → Prop
  | .array items => property (.array items) ∧ EverywhereItems property items
  | .object fields => property (.object fields) ∧ EverywhereFields property fields
  | .null => property .null
  | .bool value => property (.bool value)
  | .int value => property (.int value)
  | .float value => property (.float value)
  | .str value => property (.str value)

def EverywhereItems (property : Json Finite → Prop) : List (Json Finite) → Prop
  | [] => True
  | item :: rest => item.Everywhere property ∧ EverywhereItems property rest

def EverywhereFields (property : Json Finite → Prop) : List (Text × Json Finite) → Prop
  | [] => True
  | (_, value) :: rest => value.Everywhere property ∧ EverywhereFields property rest

end

/-- Induction over the values inside a value. -/
@[elab_as_elim]
theorem Json.induction {motive : Json Finite → Prop} (null : motive .null)
    (bool : ∀ value, motive (.bool value)) (int : ∀ value, motive (.int value))
    (float : ∀ value, motive (.float value)) (str : ∀ value, motive (.str value))
    (array : ∀ items, (∀ item ∈ items, motive item) → motive (.array items))
    (object : ∀ fields, (∀ field ∈ fields, motive field.2) → motive (.object fields)) :
    ∀ value, motive value
  | .null => null
  | .bool value => bool value
  | .int value => int value
  | .float value => float value
  | .str value => str value
  | .array items => array items fun item _ =>
    Json.induction null bool int float str array object item
  | .object fields => object fields fun field member =>
    have : sizeOf field.2 < sizeOf fields := by
      have inside := List.sizeOf_lt_of_mem member
      have second : sizeOf field.2 < sizeOf field := by
        cases field
        simp +arith
      omega
    Json.induction null bool int float str array object field.2

theorem depthItems_le_iff {items : List (Json Finite)} {limit : Nat} :
    depthItems items ≤ limit ↔ ∀ item ∈ items, item.depth ≤ limit := by
  induction items with
  | nil => simp [depthItems]
  | cons item items inductionHypothesis =>
    rw [depthItems, Nat.max_le, inductionHypothesis, List.forall_mem_cons]

theorem depthFields_le_iff {fields : List (Text × Json Finite)} {limit : Nat} :
    depthFields fields ≤ limit ↔ ∀ field ∈ fields, field.2.depth ≤ limit := by
  induction fields with
  | nil => simp [depthFields]
  | cons field fields inductionHypothesis =>
    rw [depthFields, Nat.max_le, inductionHypothesis, List.forall_mem_cons]

theorem everywhereItems_iff {property : Json Finite → Prop} {items : List (Json Finite)} :
    EverywhereItems property items ↔ ∀ item ∈ items, item.Everywhere property := by
  induction items with
  | nil => simp [EverywhereItems]
  | cons item items inductionHypothesis =>
    rw [EverywhereItems, inductionHypothesis, List.forall_mem_cons]

theorem everywhereFields_iff {property : Json Finite → Prop}
    {fields : List (Text × Json Finite)} :
    EverywhereFields property fields ↔ ∀ field ∈ fields, field.2.Everywhere property := by
  induction fields with
  | nil => simp [EverywhereFields]
  | cons field fields inductionHypothesis =>
    rw [EverywhereFields, inductionHypothesis, List.forall_mem_cons]

/-! ### Writing -/

def openBracket : CodePoint := codePoint '['
def closeBracket : CodePoint := codePoint ']'
def openBrace : CodePoint := codePoint '\x7b'
def closeBrace : CodePoint := codePoint '\x7d'
def comma : CodePoint := codePoint ','
def colon : CodePoint := codePoint ':'

def infinityText (negative : Bool) : Text := negativeText negative ++ text "Infinity"

section Write

variable (format : FloatFormat Finite)

def floatText : Floating Finite → Text
  | .finite value => (format.repr value).text
  | .infinite negative => infinityText negative
  | .nan => text "NaN"

/-- The texts of the items with commas between them, and the closing bracket. -/
def sequenceText (closing : CodePoint) : List Text → Text
  | [] => [closing]
  | [item] => item ++ [closing]
  | item :: next :: rest => item ++ comma :: sequenceText closing (next :: rest)

mutual

/-- `json.dumps` with the separators `,` and `:`. -/
def Json.dumps : Json Finite → Text
  | .null => text "null"
  | .bool true => text "true"
  | .bool false => text "false"
  | .int value => (NumberToken.ofInt value).text
  | .float value => floatText format value
  | .str value => quote value
  | .array items => openBracket :: sequenceText closeBracket (itemTexts items)
  | .object fields => openBrace :: sequenceText closeBrace (fieldTexts fields)

def itemTexts : List (Json Finite) → List Text
  | [] => []
  | item :: rest => item.dumps :: itemTexts rest

def fieldTexts : List (Text × Json Finite) → List Text
  | [] => []
  | (key, value) :: rest => (quote key ++ colon :: value.dumps) :: fieldTexts rest

end

def fieldText (field : Text × Json Finite) : Text :=
  quote field.1 ++ colon :: field.2.dumps format

theorem itemTexts_eq (items : List (Json Finite)) :
    itemTexts format items = items.map (Json.dumps format) := by
  induction items with
  | nil => rfl
  | cons item items inductionHypothesis => rw [itemTexts, inductionHypothesis, List.map_cons]

theorem fieldTexts_eq (fields : List (Text × Json Finite)) :
    fieldTexts format fields = fields.map (fieldText format) := by
  induction fields with
  | nil => rfl
  | cons field fields inductionHypothesis =>
    rw [fieldTexts, inductionHypothesis, List.map_cons]
    rfl

end Write

/-! ### Reading -/

inductive ScanError where
  | malformed
  | tooManyDigits
  | tooDeep
  deriving DecidableEq

/-- What reads a value at the start of a text, and returns what follows it. -/
abbrev Scanner (Finite : Type) := Text → Except ScanError (Json Finite × Text)

def isBlank (char : CodePoint) : Bool :=
  char.val = 0x20 || char.val = 0x09 || char.val = 0x0a || char.val = 0x0d

def skipBlanks (text : Text) : Text := text.dropWhile isBlank

/-- `fields[key] = value`: a key that is there keeps its place. -/
def setField (fields : List (Text × Json Finite)) (key : Text) (value : Json Finite) :
    List (Text × Json Finite) :=
  if key ∈ fields.map Prod.fst then
    fields.map fun field => if field.1 = key then (key, value) else field
  else fields ++ [(key, value)]

def keywords : List (Text × Json Finite) :=
  [(text "null", .null), (text "true", .bool true), (text "false", .bool false),
    (text "NaN", .float .nan), (text "Infinity", .float (.infinite false)),
    (text "-Infinity", .float (.infinite true))]

def scanKeyword (text : Text) : Option (Json Finite × Text) :=
  keywords.findSome? fun keyword =>
    (keyword.1.isPrefixOf? text).map fun rest => (keyword.2, rest)

section Read

variable (format : FloatFormat Finite) (maxDigits : Nat)

def numberValue (token : NumberToken) : Except ScanError (Json Finite) :=
  if token.isInteger then
    if token.whole.length ≤ maxDigits then .ok (.int token.value) else .error .tooManyDigits
  else .ok (.float (format.parse token))

section Loops

variable {Item : Type} (closing : CodePoint) (scanItem : Text → Except ScanError (Item × Text))

/-- The items up to the closing bracket, at least one. Every turn of the loop takes a
character at least, so the length of the text bounds their number. -/
def scanSequence : Nat → Text → Except ScanError (List Item × Text)
  | 0, _ => .error .malformed
  | bound + 1, text =>
    match scanItem text with
    | .error error => .error error
    | .ok (item, rest) =>
      match skipBlanks rest with
      | [] => .error .malformed
      | char :: rest =>
        if char = closing then .ok ([item], rest)
        else if char = comma then
          (scanSequence bound (skipBlanks rest)).map fun more => (item :: more.1, more.2)
        else .error .malformed

/-- What follows an opening bracket. -/
def scanBrackets (text : Text) : Except ScanError (List Item × Text) :=
  match skipBlanks text with
  | [] => .error .malformed
  | char :: rest =>
    if char = closing then .ok ([], rest)
    else scanSequence closing scanItem (text.length + 1) (char :: rest)

end Loops

section Brackets

variable (scan : Scanner Finite)

def scanArray (text : Text) : Except ScanError (Json Finite × Text) :=
  (scanBrackets closeBracket scan text).map fun scanned => (.array scanned.1, scanned.2)

/-- A key, a colon and a value. -/
def scanField : Text → Except ScanError ((Text × Json Finite) × Text)
  | [] => .error .malformed
  | char :: rest =>
    if char = quoteMark then
      match scanString rest with
      | none => .error .malformed
      | some (key, rest) =>
        match skipBlanks rest with
        | [] => .error .malformed
        | char :: rest =>
          if char = colon then
            (scan (skipBlanks rest)).map fun scanned => ((key, scanned.1), scanned.2)
          else .error .malformed
    else .error .malformed

def objectOf (fields : List (Text × Json Finite)) : Json Finite :=
  .object (fields.foldl (fun fields field => setField fields field.1 field.2) [])

def scanObject (text : Text) : Except ScanError (Json Finite × Text) :=
  (scanBrackets closeBrace (scanField scan) text).map fun scanned =>
    (objectOf scanned.1, scanned.2)

end Brackets

/-- A number or a keyword. -/
def scanAtom (text : Text) : Except ScanError (Json Finite × Text) :=
  match scanKeyword text with
  | some scanned => .ok scanned
  | none =>
    match scanNumber text with
    | none => .error .malformed
    | some (token, rest) =>
      (numberValue format maxDigits token).map fun value => (value, rest)

/-- A value, with the scanner of what is nested inside, if that is not too deep. -/
def scanValue (nested : Option (Scanner Finite)) : Scanner Finite
  | [] => .error .malformed
  | char :: rest =>
    if char = quoteMark then
      match scanString rest with
      | none => .error .malformed
      | some (value, rest) => .ok (.str value, rest)
    else if char = openBracket then
      match nested with
      | none => .error .tooDeep
      | some scan => scanArray scan rest
    else if char = openBrace then
      match nested with
      | none => .error .tooDeep
      | some scan => scanObject scan rest
    else scanAtom format maxDigits (char :: rest)

/-- `scan_once`, with the number of brackets that may still be nested. -/
def scanOnce : Nat → Scanner Finite
  | 0 => scanValue format maxDigits none
  | limit + 1 => scanValue format maxDigits (some (scanOnce limit))

def byteOrderMark : CodePoint := ⟨0xfeff, by decide⟩

/-- `json.loads` -/
def loads (limit : Nat) (text : Text) : Except ScanError (Json Finite) :=
  if text.head? = some byteOrderMark then .error .malformed
  else do
    let (value, rest) ← scanOnce format maxDigits limit (skipBlanks text)
    if skipBlanks rest = [] then return value else .error .malformed

end Read

/-! ### The round trip -/

/-- What a value has to meet for its text to be read as the value, apart from what is inside:
few enough digits, no split pair, and no key twice. -/
def Readable (maxDigits : Nat) : Json Finite → Prop
  | .int value => (Whole.ofNat value.natAbs).length ≤ maxDigits
  | .str value => NoSplitPair value
  | .object fields =>
    (fields.map Prod.fst).Nodup ∧ ∀ field ∈ fields, NoSplitPair field.1
  | .null | .bool _ | .float _ | .array _ => True

section RoundTrip

variable (format : FloatFormat Finite) (maxDigits : Nat)

theorem delimited_of_mem {char : CodePoint} {rest : Text}
    (member : char ∈ [comma, closeBracket, closeBrace]) : Delimited (char :: rest) := by
  intro other same
  cases same
  simp only [List.mem_cons, List.not_mem_nil, or_false] at member
  rcases member with rfl | rfl | rfl
  all_goals exact ⟨by decide, by decide, by decide, by decide⟩

theorem delimited_nil : Delimited [] := by
  intro char same
  cases same

/-- A literal starts with a digit, or with a minus and a digit. -/
theorem number_head (token : NumberToken) :
    ∃ digit rest, token.text = digitChar digit :: rest ∨
      token.text = minus :: digitChar digit :: rest := by
  obtain ⟨negative, whole, fraction, exponent⟩ := token
  refine ⟨whole.first, digitsText whole.more ++ (fractionText fraction ++
    exponentText exponent), ?_⟩
  cases negative with
  | false =>
    left
    simp only [NumberToken.text, negativeText, Whole.text, digitsText, List.map_cons,
      List.append_assoc, List.cons_append]
    rfl
  | true =>
    right
    simp only [NumberToken.text, negativeText, Whole.text, digitsText, List.map_cons,
      List.append_assoc, List.cons_append]
    rfl

theorem scanKeyword_digit (digit : Digit) (rest : Text) :
    (scanKeyword (digitChar digit :: rest) : Option (Json Finite × Text)) = none := by
  fin_cases digit <;> rfl

theorem scanKeyword_minus (digit : Digit) (rest : Text) :
    (scanKeyword (minus :: digitChar digit :: rest) : Option (Json Finite × Text)) = none := by
  fin_cases digit <;> rfl

theorem scanKeyword_number (token : NumberToken) (rest : Text) :
    (scanKeyword (token.text ++ rest) : Option (Json Finite × Text)) = none := by
  obtain ⟨digit, more, plain | signed⟩ := number_head token
  · rw [plain]
    exact scanKeyword_digit digit _
  · rw [signed]
    exact scanKeyword_minus digit _

theorem digitChar_atom (digit : Digit) :
    digitChar digit ≠ quoteMark ∧ digitChar digit ≠ openBracket ∧
      digitChar digit ≠ openBrace := by
  revert digit
  decide

/-- A text that starts as an atom does is scanned as one. -/
theorem scanValue_atom {nested : Option (Scanner Finite)} {char : CodePoint} {rest : Text}
    (atom : char ≠ quoteMark ∧ char ≠ openBracket ∧ char ≠ openBrace) :
    scanValue format maxDigits nested (char :: rest) =
      scanAtom format maxDigits (char :: rest) := by
  simp only [scanValue, if_neg atom.1, if_neg atom.2.1, if_neg atom.2.2]

theorem scanValue_number {nested : Option (Scanner Finite)} (token : NumberToken) {rest : Text}
    (delimited : Delimited rest) :
    scanValue format maxDigits nested (token.text ++ rest) =
      (numberValue format maxDigits token).map fun value => (value, rest) := by
  have scanned : scanValue format maxDigits nested (token.text ++ rest) =
      scanAtom format maxDigits (token.text ++ rest) := by
    obtain ⟨digit, more, plain | signed⟩ := number_head token
    · rw [plain]
      exact scanValue_atom format maxDigits (digitChar_atom digit)
    · rw [signed]
      exact scanValue_atom format maxDigits (by decide)
  rw [scanned, scanAtom, scanKeyword_number]
  simp only [scanNumber_text token delimited]

/-- The text of a keyword is read as its value. -/
theorem scanValue_keyword {nested : Option (Scanner Finite)} {value : Json Finite} {rest : Text}
    (keyword : scanKeyword (value.dumps format ++ rest) = some (value, rest))
    (atom : ∃ char more, value.dumps format = char :: more ∧
      char ≠ quoteMark ∧ char ≠ openBracket ∧ char ≠ openBrace) :
    scanValue format maxDigits nested (value.dumps format ++ rest) = .ok (value, rest) := by
  obtain ⟨char, more, starts, isAtom⟩ := atom
  rw [starts, List.cons_append, scanValue_atom format maxDigits isAtom, ← List.cons_append,
    ← starts, scanAtom, keyword]

theorem scanValue_quote {nested : Option (Scanner Finite)} {value rest : Text}
    (noSplit : NoSplitPair value) :
    scanValue format maxDigits nested (quote value ++ rest) = .ok (.str value, rest) := by
  have scanned := scanString_quote noSplit rest
  show scanValue format maxDigits nested
    (quoteMark :: ((value.flatMap escapeChar ++ [quoteMark]) ++ rest)) = _
  rw [List.append_assoc, List.singleton_append]
  simp only [scanValue, if_true, scanned]

/-- How a value's text starts. -/
theorem dumps_head (value : Json Finite) :
    ∃ char rest, value.dumps format = char :: rest ∧ isBlank char = false ∧
      char ≠ closeBracket := by
  have number : ∀ token : NumberToken, ∃ char rest, token.text = char :: rest ∧
      isBlank char = false ∧ char ≠ closeBracket := by
    intro token
    obtain ⟨digit, more, plain | signed⟩ := number_head token
    · have all : ∀ digit : Digit,
          isBlank (digitChar digit) = false ∧ digitChar digit ≠ closeBracket := by decide
      exact ⟨_, _, plain, all digit⟩
    · exact ⟨_, _, signed, by decide, by decide⟩
  cases value with
  | null => exact ⟨_, _, rfl, by decide, by decide⟩
  | bool value =>
    cases value with
    | false => exact ⟨_, _, rfl, by decide, by decide⟩
    | true => exact ⟨_, _, rfl, by decide, by decide⟩
  | int value => exact number (NumberToken.ofInt value)
  | float value =>
    cases value with
    | finite value => exact number (format.repr value)
    | infinite negative =>
      cases negative with
      | false => exact ⟨_, _, rfl, by decide, by decide⟩
      | true => exact ⟨_, _, rfl, by decide, by decide⟩
    | nan => exact ⟨_, _, rfl, by decide, by decide⟩
  | str value => exact ⟨_, _, rfl, by decide, by decide⟩
  | array items => exact ⟨_, _, rfl, by decide, by decide⟩
  | object fields => exact ⟨_, _, rfl, by decide, by decide⟩

theorem skipBlanks_cons {char : CodePoint} (notBlank : isBlank char = false) (rest : Text) :
    skipBlanks (char :: rest) = char :: rest := by
  rw [skipBlanks, List.dropWhile_cons_of_neg (by rw [notBlank]; exact Bool.false_ne_true)]

theorem skipBlanks_dumps (value : Json Finite) (rest : Text) :
    skipBlanks (value.dumps format ++ rest) = value.dumps format ++ rest := by
  obtain ⟨char, more, starts, notBlank, _⟩ := dumps_head format value
  rw [starts, List.cons_append, skipBlanks_cons notBlank]

/-- The scanner reads the text of the value, whatever follows it. -/
def Reads (scan : Scanner Finite) (value : Json Finite) : Prop :=
  ∀ rest, Delimited rest → scan (value.dumps format ++ rest) = .ok (value, rest)

/-! A sequence is read by what reads each of its items. -/

/-- What may follow an item: a comma, or the closing bracket. -/
def Follows (closing : CodePoint) (rest : Text) : Prop :=
  rest.head? = some comma ∨ rest.head? = some closing

section Sequence

variable {Item : Type} {closing : CodePoint} {scanItem : Text → Except ScanError (Item × Text)}

theorem scanSequence_last {bound : Nat} {text rest : Text} {item : Item}
    (notBlank : isBlank closing = false) (scanned : scanItem text = .ok (item, closing :: rest)) :
    scanSequence closing scanItem (bound + 1) text = .ok ([item], rest) := by
  rw [scanSequence, scanned]
  simp only [skipBlanks_cons notBlank, if_true]

theorem scanSequence_next {bound : Nat} {text rest : Text} {item : Item}
    (notComma : comma ≠ closing) (scanned : scanItem text = .ok (item, comma :: rest)) :
    scanSequence closing scanItem (bound + 1) text =
      (scanSequence closing scanItem bound (skipBlanks rest)).map
        fun more => (item :: more.1, more.2) := by
  rw [scanSequence, scanned]
  simp only [skipBlanks_cons (show isBlank comma = false by decide), if_neg notComma, if_true]

variable {textOf : Item → Text}

/-- The text of an item starts with no blank and no closing bracket. -/
def Starts (closing : CodePoint) (text : Text) : Prop :=
  ∃ char rest, text = char :: rest ∧ isBlank char = false ∧ char ≠ closing

theorem starts_sequenceText {texts : List Text} {first : Text} (starts : Starts closing first) :
    Starts closing (sequenceText closing (first :: texts)) := by
  obtain ⟨char, rest, rfl, notBlank, notClosing⟩ := starts
  cases texts with
  | nil => exact ⟨char, _, rfl, notBlank, notClosing⟩
  | cons next texts => exact ⟨char, _, rfl, notBlank, notClosing⟩

theorem skipBlanks_starts {text : Text} (starts : Starts closing text) (rest : Text) :
    skipBlanks (text ++ rest) = text ++ rest := by
  obtain ⟨char, more, rfl, notBlank, _⟩ := starts
  exact skipBlanks_cons notBlank _

theorem scanSequence_text (notBlank : isBlank closing = false) (notComma : comma ≠ closing)
    {items : List Item} (starts : ∀ item ∈ items, Starts closing (textOf item))
    (reads : ∀ item ∈ items, ∀ rest, Follows closing rest →
      scanItem (textOf item ++ rest) = .ok (item, rest))
    (nonempty : items ≠ []) (bound : Nat) (enough : items.length ≤ bound) (rest : Text) :
    scanSequence closing scanItem bound (sequenceText closing (items.map textOf) ++ rest) =
      .ok (items, rest) := by
  induction items generalizing bound with
  | nil => exact absurd rfl nonempty
  | cons item items inductionHypothesis =>
    cases bound with
    | zero => exact absurd enough (Nat.not_succ_le_zero _)
    | succ bound =>
      have readsItem := reads item List.mem_cons_self
      cases items with
      | nil =>
        show scanSequence closing scanItem (bound + 1) ((textOf item ++ [closing]) ++ rest) = _
        rw [List.append_assoc]
        exact scanSequence_last notBlank (readsItem _ (Or.inr rfl))
      | cons next items =>
        have more := inductionHypothesis
          (fun other member => starts other (List.mem_cons_of_mem item member))
          (fun other member => reads other (List.mem_cons_of_mem item member))
          (List.cons_ne_nil next items) bound (Nat.le_of_succ_le_succ enough)
        have startsNext : Starts closing (sequenceText closing ((next :: items).map textOf)) :=
          starts_sequenceText (starts next (List.mem_cons_of_mem item List.mem_cons_self))
        show scanSequence closing scanItem (bound + 1)
          ((textOf item ++ comma :: sequenceText closing ((next :: items).map textOf)) ++ rest) = _
        rw [List.append_assoc, List.cons_append, scanSequence_next notComma
          (readsItem _ (Or.inl rfl)), skipBlanks_starts startsNext, more]
        rfl

theorem length_sequenceText (closing : CodePoint) (texts : List Text) :
    texts.length ≤ (sequenceText closing texts).length := by
  induction texts with
  | nil => exact Nat.zero_le _
  | cons text texts inductionHypothesis =>
    cases texts with
    | nil =>
      rw [sequenceText, List.length_append]
      exact Nat.le_add_left 1 _
    | cons next texts =>
      rw [sequenceText]
      simp only [List.length_append, List.length_cons] at inductionHypothesis ⊢
      omega

theorem scanBrackets_empty (notBlank : isBlank closing = false) (rest : Text) :
    scanBrackets closing scanItem (closing :: rest) = .ok ([], rest) := by
  rw [scanBrackets, skipBlanks_cons notBlank]
  simp only [if_true]

theorem scanBrackets_starts {text : Text} (starts : Starts closing text) (rest : Text) :
    scanBrackets closing scanItem (text ++ rest) =
      scanSequence closing scanItem ((text ++ rest).length + 1) (text ++ rest) := by
  obtain ⟨char, more, rfl, notBlank, notClosing⟩ := starts
  rw [List.cons_append, scanBrackets, skipBlanks_cons notBlank]
  simp only [if_neg notClosing]

theorem scanBrackets_text (notBlank : isBlank closing = false) (notComma : comma ≠ closing)
    {items : List Item} (starts : ∀ item ∈ items, Starts closing (textOf item))
    (reads : ∀ item ∈ items, ∀ rest, Follows closing rest →
      scanItem (textOf item ++ rest) = .ok (item, rest)) (rest : Text) :
    scanBrackets closing scanItem (sequenceText closing (items.map textOf) ++ rest) =
      .ok (items, rest) := by
  cases items with
  | nil => exact scanBrackets_empty notBlank rest
  | cons item items =>
    have length := length_sequenceText closing ((item :: items).map textOf)
    have begins : Starts closing (sequenceText closing ((item :: items).map textOf)) :=
      starts_sequenceText (starts item List.mem_cons_self)
    rw [scanBrackets_starts begins]
    refine scanSequence_text notBlank notComma starts reads (List.cons_ne_nil item items) _ ?_ rest
    rw [List.length_map] at length
    rw [List.length_append]
    omega

theorem printable_sequenceText {texts : List Text} (closed : Printable closing)
    (printable : ∀ text ∈ texts, ∀ char ∈ text, Printable char) :
    ∀ char ∈ sequenceText closing texts, Printable char := by
  induction texts with
  | nil =>
    intro char member
    rw [List.mem_singleton.mp member]
    exact closed
  | cons first texts inductionHypothesis =>
    have ofFirst := printable first List.mem_cons_self
    cases texts with
    | nil =>
      intro char member
      rcases List.mem_append.mp member with inside | last
      · exact ofFirst char inside
      · rw [List.mem_singleton.mp last]
        exact closed
    | cons next texts =>
      have more := inductionHypothesis fun text member =>
        printable text (List.mem_cons_of_mem first member)
      intro char member
      rcases List.mem_append.mp member with inside | rest
      · exact ofFirst char inside
      · rcases List.mem_cons.mp rest with rfl | rest
        · decide
        · exact more char rest

end Sequence

theorem delimited_of_follows {closing : CodePoint} {rest : Text}
    (isBracket : closing = closeBracket ∨ closing = closeBrace) (follows : Follows closing rest) :
    Delimited rest := by
  cases rest with
  | nil => exact delimited_nil
  | cons char rest =>
    refine delimited_of_mem ?_
    rcases follows with isComma | isClosing
    · rw [List.head?_cons, Option.some.injEq] at isComma
      rw [isComma]
      exact List.mem_cons_self
    · rw [List.head?_cons, Option.some.injEq] at isClosing
      rw [isClosing]
      rcases isBracket with rfl | rfl
      · decide
      · decide

theorem scanArray_dumps {scan : Scanner Finite} {items : List (Json Finite)}
    (reads : ∀ item ∈ items, Reads format scan item) (rest : Text) :
    scanArray scan (sequenceText closeBracket (itemTexts format items) ++ rest) =
      .ok (.array items, rest) := by
  rw [itemTexts_eq, scanArray, scanBrackets_text (by decide) (by decide)
    (fun item _ => dumps_head format item)
    (fun item member rest follows =>
      reads item member rest (delimited_of_follows (Or.inl rfl) follows))]
  rfl

/-! The fields of an object come back in their order, as no key comes twice. -/

theorem setField_new {fields : List (Text × Json Finite)} {key : Text} {value : Json Finite}
    (new : key ∉ fields.map Prod.fst) : setField fields key value = fields ++ [(key, value)] :=
  if_neg new

theorem foldl_setField (before fields : List (Text × Json Finite))
    (distinct : ((before ++ fields).map Prod.fst).Nodup) :
    fields.foldl (fun fields field => setField fields field.1 field.2) before =
      before ++ fields := by
  induction fields generalizing before with
  | nil => exact (List.append_nil before).symm
  | cons field fields inductionHypothesis =>
    have new : field.1 ∉ before.map Prod.fst := by
      intro member
      rw [List.map_append, List.nodup_append] at distinct
      exact distinct.2.2 field.1 member field.1 List.mem_cons_self rfl
    rw [List.append_cons] at distinct
    rw [List.foldl_cons, setField_new new, inductionHypothesis _ distinct, List.append_assoc]
    rfl

theorem scanField_dumps {scan : Scanner Finite} {field : Text × Json Finite}
    (noSplit : NoSplitPair field.1) (reads : Reads format scan field.2) {rest : Text}
    (delimited : Delimited rest) :
    scanField scan (fieldText format field ++ rest) = .ok (field, rest) := by
  obtain ⟨key, value⟩ := field
  have scanned := scanString_quote noSplit (colon :: (value.dumps format ++ rest))
  show scanField scan (quoteMark ::
    (((key.flatMap escapeChar ++ [quoteMark]) ++ colon :: value.dumps format) ++ rest)) = _
  rw [List.append_assoc, List.append_assoc, List.singleton_append, List.cons_append, scanField]
  simp only [if_true, scanned, skipBlanks_cons (show isBlank colon = false by decide)]
  rw [skipBlanks_dumps, reads rest delimited]
  rfl

theorem starts_fieldText (field : Text × Json Finite) :
    Starts closeBrace (fieldText format field) :=
  ⟨quoteMark, _, rfl, by decide, by decide⟩

theorem scanObject_dumps {scan : Scanner Finite} {fields : List (Text × Json Finite)}
    (distinct : (fields.map Prod.fst).Nodup) (noSplit : ∀ field ∈ fields, NoSplitPair field.1)
    (reads : ∀ field ∈ fields, Reads format scan field.2) (rest : Text) :
    scanObject scan (sequenceText closeBrace (fieldTexts format fields) ++ rest) =
      .ok (.object fields, rest) := by
  rw [fieldTexts_eq, scanObject, scanBrackets_text (by decide) (by decide)
    (fun field _ => starts_fieldText format field)
    (fun field member rest follows => scanField_dumps format (noSplit field member)
      (reads field member) (delimited_of_follows (Or.inr rfl) follows))]
  show Except.ok (objectOf fields, rest) = _
  rw [objectOf, foldl_setField [] _ distinct]
  rfl

/-- The scanner of what is nested inside. -/
def nestedScanner : Nat → Option (Scanner Finite)
  | 0 => none
  | limit + 1 => some (scanOnce format maxDigits limit)

theorem scanOnce_eq (limit : Nat) :
    scanOnce format maxDigits limit =
      scanValue format maxDigits (nestedScanner format maxDigits limit) := by
  cases limit <;> rfl

/-- More opening brackets than may be nested are too deep, whatever follows. -/
theorem scanOnce_brackets (limit : Nat) (rest : Text) :
    scanOnce format maxDigits limit (List.replicate (limit + 1) openBracket ++ rest) =
      .error .tooDeep := by
  induction limit with
  | zero => rfl
  | succ limit inductionHypothesis =>
    show scanArray (scanOnce format maxDigits limit)
      (openBracket :: (List.replicate limit openBracket ++ rest)) = _
    have nested : scanOnce format maxDigits limit
        (openBracket :: (List.replicate limit openBracket ++ rest)) = .error .tooDeep :=
      inductionHypothesis
    rw [scanArray, scanBrackets, skipBlanks_cons (by decide)]
    show Except.map _ (if openBracket = closeBracket then _ else _) = _
    rw [if_neg (by decide), scanSequence, nested]
    rfl

theorem loads_brackets (limit : Nat) :
    loads format maxDigits limit (List.replicate (limit + 1) openBracket) = .error .tooDeep := by
  have scanned := scanOnce_brackets format maxDigits limit []
  rw [List.append_nil] at scanned
  have noMark : ¬ some openBracket = some byteOrderMark := by decide
  rw [loads, List.replicate_succ, List.head?_cons, if_neg noMark, skipBlanks_cons (by decide),
    ← List.replicate_succ, scanned]
  rfl

/-- A value that is not nested too deep and readable everywhere is read back from its text. -/
theorem scanOnce_dumps {value : Json Finite} {limit : Nat} (fits : value.depth ≤ limit)
    (readable : value.Everywhere (Readable maxDigits)) :
    Reads format (scanOnce format maxDigits limit) value := by
  induction value using Json.induction generalizing limit with
  | null =>
    intro rest _
    rw [scanOnce_eq]
    exact scanValue_keyword format maxDigits rfl ⟨_, _, rfl, by decide, by decide, by decide⟩
  | bool value =>
    intro rest _
    rw [scanOnce_eq]
    cases value with
    | false =>
      exact scanValue_keyword format maxDigits rfl ⟨_, _, rfl, by decide, by decide, by decide⟩
    | true =>
      exact scanValue_keyword format maxDigits rfl ⟨_, _, rfl, by decide, by decide, by decide⟩
  | int value =>
    intro rest delimited
    have few : (NumberToken.ofInt value).whole.length ≤ maxDigits := readable
    have isValue : numberValue format maxDigits (NumberToken.ofInt value) = .ok (.int value) := by
      rw [numberValue, if_pos (show (NumberToken.ofInt value).isInteger = true from rfl),
        if_pos few, value_ofInt]
    rw [scanOnce_eq]
    refine (scanValue_number format maxDigits _ delimited).trans ?_
    rw [isValue]
    rfl
  | float value =>
    intro rest delimited
    rw [scanOnce_eq]
    cases value with
    | finite value =>
      refine (scanValue_number format maxDigits (format.repr value) delimited).trans ?_
      rw [numberValue, format.isFloat, format.parse_repr]
      rfl
    | infinite negative =>
      cases negative with
      | false =>
        exact scanValue_keyword format maxDigits rfl
          ⟨_, _, rfl, by decide, by decide, by decide⟩
      | true =>
        exact scanValue_keyword format maxDigits rfl
          ⟨_, _, rfl, by decide, by decide, by decide⟩
    | nan =>
      exact scanValue_keyword format maxDigits rfl ⟨_, _, rfl, by decide, by decide, by decide⟩
  | str value =>
    intro rest _
    rw [scanOnce_eq]
    exact scanValue_quote format maxDigits readable
  | array items inductionHypothesis =>
    intro rest _
    obtain ⟨less, rfl⟩ : ∃ less, limit = less + 1 :=
      ⟨limit - 1, by rw [Json.depth] at fits; omega⟩
    have inside := everywhereItems_iff.mp readable.2
    have shallow := depthItems_le_iff.mp (Nat.le_of_succ_le_succ fits)
    have reads : ∀ item ∈ items, Reads format (scanOnce format maxDigits less) item := by
      intro item member
      exact inductionHypothesis item member (shallow item member) (inside item member)
    exact scanArray_dumps format reads rest
  | object fields inductionHypothesis =>
    intro rest _
    obtain ⟨less, rfl⟩ : ∃ less, limit = less + 1 :=
      ⟨limit - 1, by rw [Json.depth] at fits; omega⟩
    have inside := everywhereFields_iff.mp readable.2
    have shallow := depthFields_le_iff.mp (Nat.le_of_succ_le_succ fits)
    have reads : ∀ field ∈ fields, Reads format (scanOnce format maxDigits less) field.2 := by
      intro field member
      exact inductionHypothesis field member (shallow field member) (inside field member)
    exact scanObject_dumps format readable.1.1 readable.1.2 reads rest

theorem printable_of_all (value : Text)
    (all : value.all (fun char => decide (Printable char)) = true) :
    ∀ char ∈ value, Printable char := by
  intro char member
  exact of_decide_eq_true (List.all_eq_true.mp all char member)

/-- A text is ASCII without control characters, so it is one line. -/
theorem printable_dumps (value : Json Finite) : ∀ char ∈ value.dumps format, Printable char := by
  induction value using Json.induction with
  | null => exact printable_of_all (text "null") rfl
  | bool value =>
    cases value with
    | false => exact printable_of_all (text "false") rfl
    | true => exact printable_of_all (text "true") rfl
  | int value => exact printable_number _
  | float value =>
    cases value with
    | finite value => exact printable_number _
    | infinite negative =>
      cases negative with
      | false => exact printable_of_all (infinityText false) rfl
      | true => exact printable_of_all (infinityText true) rfl
    | nan => exact printable_of_all (text "NaN") rfl
  | str value => exact printable_quote value
  | array items inductionHypothesis =>
    intro char member
    rcases List.mem_cons.mp member with rfl | member
    · decide
    · rw [itemTexts_eq] at member
      refine printable_sequenceText (by decide) (fun text isText => ?_) char member
      obtain ⟨item, isItem, rfl⟩ := List.mem_map.mp isText
      exact inductionHypothesis item isItem
  | object fields inductionHypothesis =>
    intro char member
    rcases List.mem_cons.mp member with rfl | member
    · decide
    · rw [fieldTexts_eq] at member
      refine printable_sequenceText (by decide) (fun text isText => ?_) char member
      obtain ⟨field, isField, rfl⟩ := List.mem_map.mp isText
      intro char member
      rcases List.mem_append.mp member with key | value
      · exact printable_quote _ char key
      · rcases List.mem_cons.mp value with rfl | value
        · decide
        · exact inductionHypothesis field isField char value

/-- The round trip of a text. -/
theorem loads_dumps {value : Json Finite} {limit : Nat} (fits : value.depth ≤ limit)
    (readable : value.Everywhere (Readable maxDigits)) :
    loads format maxDigits limit (value.dumps format) = .ok value := by
  have scanned := scanOnce_dumps format maxDigits fits readable [] delimited_nil
  have blanks := skipBlanks_dumps format value []
  rw [List.append_nil] at scanned blanks
  have noMark : (value.dumps format).head? ≠ some byteOrderMark := by
    intro mark
    have printable := printable_dumps format value _ (List.mem_of_mem_head? mark)
    exact absurd printable (by decide)
  rw [loads, if_neg noMark, blanks, scanned]
  rfl

end RoundTrip

/-! ### The bounds of the loops -/

/-- The scanner takes a character at least. -/
def Consumes {Item : Type} (scanItem : Text → Except ScanError (Item × Text)) : Prop :=
  ∀ text item rest, scanItem text = .ok (item, rest) → rest.length < text.length

theorem length_scanKeyword {text rest : Text} {value : Json Finite}
    (scanned : scanKeyword text = some (value, rest)) : rest.length < text.length := by
  obtain ⟨keyword, member, scanned⟩ := List.exists_of_findSome?_eq_some scanned
  obtain ⟨after, isPrefix, same⟩ := Option.map_eq_some_iff.mp scanned
  cases same
  have split := List.isPrefixOf?_eq_some_iff_append_eq.mp isPrefix
  have nonempty : 0 < keyword.1.length := by
    simp only [keywords, List.mem_cons, List.not_mem_nil, or_false] at member
    rcases member with rfl | rfl | rfl | rfl | rfl | rfl
    all_goals exact Nat.succ_pos _
  rw [← split, List.length_append]
  omega

theorem length_skipBlanks (text : Text) : (skipBlanks text).length ≤ text.length :=
  List.Sublist.length_le (List.dropWhile_sublist _)

theorem length_of_skipBlanks {text rest : Text} {char : CodePoint}
    (skipped : skipBlanks text = char :: rest) : rest.length < text.length := by
  have shorter := length_skipBlanks text
  rw [skipped, List.length_cons] at shorter
  exact shorter

section Loops

variable {Item : Type} {closing : CodePoint} {scanItem : Text → Except ScanError (Item × Text)}

/-- A bound above the length of the text never ends the loop. -/
theorem scanSequence_bound (consumes : Consumes scanItem) {text : Text} {bound other : Nat}
    (enough : text.length < bound) (alsoEnough : text.length < other) :
    scanSequence closing scanItem bound text = scanSequence closing scanItem other text := by
  induction bound generalizing text other with
  | zero => exact absurd enough (Nat.not_lt_zero _)
  | succ bound inductionHypothesis =>
    cases other with
    | zero => exact absurd alsoEnough (Nat.not_lt_zero _)
    | succ other =>
      rw [scanSequence, scanSequence]
      cases scannedItem : scanItem text with
      | error error => rfl
      | ok scanned =>
        obtain ⟨item, after⟩ := scanned
        have shorter := consumes text item after scannedItem
        cases skipped : skipBlanks after with
        | nil => simp only [skipped]
        | cons char more =>
          have shorterMore := length_of_skipBlanks skipped
          have blanks := length_skipBlanks more
          have same : scanSequence closing scanItem bound (skipBlanks more) =
              scanSequence closing scanItem other (skipBlanks more) :=
            inductionHypothesis (by omega) (by omega)
          simp only [skipped, same]

theorem consumes_scanSequence (consumes : Consumes scanItem) (bound : Nat) :
    Consumes (scanSequence closing scanItem bound) := by
  induction bound with
  | zero =>
    intro text items rest scanned
    cases scanned
  | succ bound inductionHypothesis =>
    intro text items rest scanned
    rw [scanSequence] at scanned
    split at scanned
    · cases scanned
    · next item after scannedItem =>
      have shorter := consumes text item after scannedItem
      split at scanned
      · cases scanned
      · next char more skipped =>
        have shorterMore := length_of_skipBlanks skipped
        split at scanned
        · cases scanned
          omega
        · split at scanned
          · obtain ⟨others, scannedMore, same⟩ := Python.map_eq_ok_iff.mp scanned
            cases same
            have shorterLast := inductionHypothesis _ _ _ scannedMore
            have blanks := length_skipBlanks more
            omega
          · cases scanned

theorem consumes_scanBrackets (consumes : Consumes scanItem) :
    Consumes (scanBrackets closing scanItem) := by
  intro text items rest scanned
  unfold scanBrackets at scanned
  split at scanned
  · cases scanned
  · next char more skipped =>
    have shorter := length_skipBlanks text
    have shorterMore := length_of_skipBlanks skipped
    split at scanned
    · cases scanned
      exact shorterMore
    · have shorterLast := consumes_scanSequence consumes _ _ _ _ scanned
      rw [skipped] at shorter
      exact Nat.lt_of_lt_of_le shorterLast shorter

end Loops

theorem consumes_scanField {scan : Scanner Finite} (consumes : Consumes scan) :
    Consumes (scanField scan) := by
  intro text field rest scanned
  unfold scanField at scanned
  split at scanned
  · cases scanned
  · split at scanned
    · split at scanned
      · cases scanned
      · next key after scannedKey =>
        have shorterKey := length_scanString scannedKey
        split at scanned
        · cases scanned
        · next char more skipped =>
          have shorterMore := length_of_skipBlanks skipped
          split at scanned
          · obtain ⟨value, scannedValue, same⟩ := Python.map_eq_ok_iff.mp scanned
            cases same
            have shorter := consumes _ _ _ scannedValue
            have blanks := length_skipBlanks more
            rw [List.length_cons]
            omega
          · cases scanned
    · cases scanned

theorem consumes_scanAtom (format : FloatFormat Finite) (maxDigits : Nat) :
    Consumes (scanAtom format maxDigits) := by
  intro text value rest scanned
  unfold scanAtom at scanned
  split at scanned
  · next keyword =>
    cases scanned
    exact length_scanKeyword keyword
  · split at scanned
    · cases scanned
    · next token after number =>
      obtain ⟨other, _, same⟩ := Python.map_eq_ok_iff.mp scanned
      cases same
      exact length_scanNumber number

theorem consumes_scanValue (format : FloatFormat Finite) (maxDigits : Nat)
    {nested : Option (Scanner Finite)} (consumes : ∀ scan ∈ nested, Consumes scan) :
    Consumes (scanValue format maxDigits nested) := by
  intro text value rest scanned
  unfold scanValue at scanned
  split at scanned
  · cases scanned
  · split at scanned
    · split at scanned
      · cases scanned
      · next literal =>
        cases scanned
        exact Nat.lt_succ_of_lt (length_scanString literal)
    · split at scanned
      · split at scanned
        · cases scanned
        · next scan =>
          obtain ⟨items, scannedItems, same⟩ := Python.map_eq_ok_iff.mp scanned
          cases same
          exact Nat.lt_succ_of_lt (consumes_scanBrackets (consumes scan rfl) _ _ _ scannedItems)
      · split at scanned
        · split at scanned
          · cases scanned
          · next scan =>
            obtain ⟨fields, scannedFields, same⟩ := Python.map_eq_ok_iff.mp scanned
            cases same
            exact Nat.lt_succ_of_lt
              (consumes_scanBrackets (consumes_scanField (consumes scan rfl)) _ _ _ scannedFields)
        · exact consumes_scanAtom format maxDigits _ _ _ scanned

/-- Every scanner takes a character at least, so the loops are never ended by their bound. -/
theorem consumes_scanOnce (format : FloatFormat Finite) (maxDigits limit : Nat) :
    Consumes (scanOnce format maxDigits limit) := by
  induction limit with
  | zero =>
    exact consumes_scanValue format maxDigits fun scan none => by cases none
  | succ limit inductionHypothesis =>
    refine consumes_scanValue format maxDigits fun scan same => ?_
    rw [Option.mem_some_iff] at same
    exact same ▸ inductionHypothesis

end LiteHorse.JsonTexts
