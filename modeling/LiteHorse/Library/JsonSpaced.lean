/-
This file is about JSON texts with a blank after every comma and colon, as `json.dumps` writes
them by default, and about what `loads` makes of the text of any value.

A value does not always come back. A high surrogate directly before a low one comes back as the
one character the two are the halves of (`rejoin`), and two keys may become one this way. A value
that is nested too deep, or has an integer with too many digits, is not read at all. The main
result is `loads_dumpsSpaced`, which says for every value what is read (`readBack`), and
`readBack_eq_ok_iff`, which says when that is a value.
-/

import LiteHorse.Library.JsonText

namespace LiteHorse.JsonTexts

/-! ### Texts with split pairs -/

/-- What a text is read back as. -/
def rejoinText (value : Text) : Text := joinUnits (value.flatMap piecesOf)

/-- Only ASCII has short escapes. -/
theorem noEscape_of_large {char : CodePoint} (large : 0x7e < char.val) :
    shortEscapes.lookup char = none := by
  have ascii : ∀ pair ∈ shortEscapes, pair.1.val ≤ 0x7e := by
    unfold shortEscapes
    simp only [List.forall_mem_cons]
    refine ⟨?_, ?_, ?_, ?_, ?_, ?_, ?_, List.forall_mem_nil _⟩ <;> exact of_decide_eq_true rfl
  rw [List.lookup_eq_none_iff]
  intro pair member
  have small := ascii pair member
  rw [bne_iff_ne]
  intro same
  rw [same] at large
  omega

/-- A surrogate is written as one unit. -/
theorem piecesOf_surrogate {char : CodePoint} (low : 0xd800 ≤ char.val) (high : char.val ≤ 0xdfff) :
    piecesOf char = [.unit ⟨char.val, by omega⟩] := by
  have small : char.val < 0x10000 := by omega
  unfold piecesOf
  rw [noEscape_of_large (by omega), if_neg, dif_pos small]
  rintro (isShort | ⟨_, printable⟩)
  · cases isShort
  · omega

theorem escapeChar_surrogate {char : CodePoint} (low : 0xd800 ≤ char.val)
    (high : char.val ≤ 0xdfff) : escapeChar char = escapeUnit ⟨char.val, by omega⟩ := by
  have small : char.val < 0x10000 := by omega
  unfold escapeChar
  rw [noEscape_of_large (by omega)]
  show (if 0x20 ≤ char.val ∧ char.val ≤ 0x7e then _ else _) = _
  rw [if_neg (by omega), dif_pos small]

/-- The two are the halves of one character, which is written as they are. -/
theorem escapeChar_joinPair {first second : CodePoint} (firstLow : 0xd800 ≤ first.val)
    (firstHigh : first.val ≤ 0xdbff) (secondLow : 0xdc00 ≤ second.val)
    (secondHigh : second.val ≤ 0xdfff) :
    0x10000 ≤ (joinPair ⟨first.val, by omega⟩ ⟨second.val, by omega⟩).val ∧
      escapeChar (joinPair ⟨first.val, by omega⟩ ⟨second.val, by omega⟩) =
        escapeChar first ++ escapeChar second := by
  have value : (joinPair ⟨first.val, by omega⟩ ⟨second.val, by omega⟩).val =
      0x10000 + (first.val - 0xd800) * 0x400 + (second.val - 0xdc00) := by
    show (0x10000 + (first.val - 0xd800) * 0x400 + (second.val - 0xdc00)) % 0x110000 = _
    omega
  generalize joinPair ⟨first.val, by omega⟩ ⟨second.val, by omega⟩ = joined at value
  have high : highOf joined = ⟨first.val, by omega⟩ := by
    refine Fin.ext ?_
    show 0xd800 + (joined.val - 0x10000) / 0x400 = first.val
    omega
  have low : lowOf joined = ⟨second.val, by omega⟩ := by
    refine Fin.ext ?_
    show 0xdc00 + (joined.val - 0x10000) % 0x400 = second.val
    omega
  refine ⟨by omega, ?_⟩
  rw [escapeChar_surrogate firstLow (by omega), escapeChar_surrogate (by omega) secondHigh, ← high,
    ← low, escapeChar, noEscape_of_large (by omega)]
  show (if 0x20 ≤ joined.val ∧ joined.val ≤ 0x7e then _ else _) = _
  rw [if_neg (by omega), dif_neg (by omega)]

theorem rejoinText_pair {first second : CodePoint} (high : isHigh first = true)
    (low : isLow second = true) (rest : Text) :
    ∃ joined : CodePoint, 0x10000 ≤ joined.val ∧
      escapeChar joined = escapeChar first ++ escapeChar second ∧
      rejoinText (first :: second :: rest) = joined :: rejoinText rest := by
  obtain ⟨firstLow, firstHigh⟩ := isHigh_iff.mp high
  obtain ⟨secondLow, secondHigh⟩ := isLow_iff.mp low
  obtain ⟨large, written⟩ := escapeChar_joinPair firstLow firstHigh secondLow secondHigh
  refine ⟨joinPair ⟨first.val, by omega⟩ ⟨second.val, by omega⟩, large, written, ?_⟩
  unfold rejoinText
  rw [List.flatMap_cons, List.flatMap_cons, piecesOf_surrogate firstLow (by omega),
    piecesOf_surrogate (by omega) secondHigh]
  show joinUnits (.unit ⟨first.val, _⟩ :: .unit ⟨second.val, _⟩ :: _) = _
  rw [joinUnits, high, low]
  rfl

/-- A character that does not start a split pair is kept. -/
theorem rejoinText_cons {char : CodePoint} {rest : Text}
    (noPair : ∀ next ∈ rest.head?, ¬ (isHigh char = true ∧ isLow next = true)) :
    rejoinText (char :: rest) = char :: rejoinText rest := by
  unfold rejoinText
  rw [List.flatMap_cons]
  rcases piecesOf_cases char with plain | ⟨small, unit⟩ | ⟨large, halves⟩
  · rw [plain]
    rfl
  · rw [unit, List.singleton_append, joinUnits_unit]
    intro low head isPair
    obtain ⟨next, isNext, lowNext⟩ := head_pieces_low isPair.2 head
    exact noPair next isNext ⟨isPair.1, lowNext⟩
  · rw [halves]
    show joinUnits (.unit (highOf char) :: .unit (lowOf char) :: _) = _
    rw [joinUnits, isHigh_highOf, isLow_lowOf, joinPair_halves large]
    rfl

/-- Either the text starts with a split pair, or its first character is kept. -/
theorem rejoinText_cases (char : CodePoint) (rest : Text) :
    (∃ next more, rest = next :: more ∧ ∃ joined : CodePoint, 0x10000 ≤ joined.val ∧
        escapeChar joined = escapeChar char ++ escapeChar next ∧
        rejoinText (char :: rest) = joined :: rejoinText more) ∨
      ((∀ next ∈ rest.head?, ¬ (isHigh char = true ∧ isLow next = true)) ∧
        rejoinText (char :: rest) = char :: rejoinText rest) := by
  by_cases noPair : ∀ next ∈ rest.head?, ¬ (isHigh char = true ∧ isLow next = true)
  · exact Or.inr ⟨noPair, rejoinText_cons noPair⟩
  · left
    push Not at noPair
    obtain ⟨next, isNext, high, low⟩ := noPair
    cases rest with
    | nil => cases isNext
    | cons other more =>
      cases isNext
      exact ⟨next, more, rfl, rejoinText_pair high low more⟩

/-- A low surrogate at the head of what is read back was at the head before. -/
theorem head_rejoinText_low {value : Text} {low : CodePoint} (isLowHead : isLow low = true)
    (head : low ∈ (rejoinText value).head?) : low ∈ value.head? := by
  cases value with
  | nil => cases head
  | cons char rest =>
    rcases rejoinText_cases char rest with ⟨_, _, _, joined, large, _, isText⟩ | ⟨_, isText⟩
    · rw [isText] at head
      cases head
      have small := (isLow_iff.mp isLowHead).2
      omega
    · rw [isText] at head
      cases head
      rfl

/-- What is read back has no split pair. -/
theorem noSplitPair_rejoinText (value : Text) : NoSplitPair (rejoinText value) := by
  induction length : value.length using Nat.strong_induction_on generalizing value with
  | _ size inductionHypothesis =>
    cases value with
    | nil => exact List.isChain_nil
    | cons char rest =>
      rw [List.length_cons] at length
      rcases rejoinText_cases char rest with
        ⟨next, more, rfl, joined, large, _, isText⟩ | ⟨noPair, isText⟩
      · rw [List.length_cons] at length
        rw [isText, NoSplitPair, List.isChain_cons]
        refine ⟨fun low _ isPair => ?_, inductionHypothesis more.length (by omega) more rfl⟩
        have small := (isHigh_iff.mp isPair.1).2
        omega
      · rw [isText, NoSplitPair, List.isChain_cons]
        refine ⟨fun low head isPair => ?_, inductionHypothesis rest.length (by omega) rest rfl⟩
        exact noPair low (head_rejoinText_low isPair.2 head) isPair

/-- What is read back has the same literal. -/
theorem quote_rejoinText (value : Text) : quote (rejoinText value) = quote value := by
  have written : (rejoinText value).flatMap escapeChar = value.flatMap escapeChar := by
    induction length : value.length using Nat.strong_induction_on generalizing value with
    | _ size inductionHypothesis =>
      cases value with
      | nil => rfl
      | cons char rest =>
        rw [List.length_cons] at length
        rcases rejoinText_cases char rest with
          ⟨next, more, rfl, joined, _, isWritten, isText⟩ | ⟨_, isText⟩
        · rw [List.length_cons] at length
          rw [isText, List.flatMap_cons, List.flatMap_cons, List.flatMap_cons, isWritten,
            inductionHypothesis more.length (by omega) more rfl, List.append_assoc]
        · rw [isText, List.flatMap_cons, List.flatMap_cons,
            inductionHypothesis rest.length (by omega) rest rfl]
  rw [quote, quote, written]

theorem rejoinText_eq_self_iff {value : Text} : rejoinText value = value ↔ NoSplitPair value := by
  refine ⟨fun same => ?_, joinUnits_pieces⟩
  rw [← same]
  exact noSplitPair_rejoinText value

theorem scanString_literal (value rest : Text) :
    scanString (value.flatMap escapeChar ++ quoteMark :: rest) = some (rejoinText value, rest) := by
  rw [scanString, scanPieces_quote]
  rfl

/-! ### Writing -/

def blank : CodePoint := codePoint ' '

/-- The texts of the items with a comma and a blank between them, and the closing bracket. -/
def spacedText (closing : CodePoint) : List Text → Text
  | [] => [closing]
  | [item] => item ++ [closing]
  | item :: next :: rest => item ++ comma :: blank :: spacedText closing (next :: rest)

variable {Finite : Type}

section Write

variable (format : FloatFormat Finite)

mutual

/-- `json.dumps` with its default separators `, ` and `: `. -/
def Json.dumpsSpaced : Json Finite → Text
  | .null => Json.null.dumps format
  | .bool value => (Json.bool value).dumps format
  | .int value => (Json.int value).dumps format
  | .float value => (Json.float value).dumps format
  | .str value => quote value
  | .array items => openBracket :: spacedText closeBracket (spacedItems items)
  | .object fields => openBrace :: spacedText closeBrace (spacedFields fields)

def spacedItems : List (Json Finite) → List Text
  | [] => []
  | item :: rest => item.dumpsSpaced :: spacedItems rest

def spacedFields : List (Text × Json Finite) → List Text
  | [] => []
  | (key, value) :: rest =>
    (quote key ++ colon :: blank :: value.dumpsSpaced) :: spacedFields rest

end

def spacedField (field : Text × Json Finite) : Text :=
  quote field.1 ++ colon :: blank :: field.2.dumpsSpaced format

theorem spacedItems_eq (items : List (Json Finite)) :
    spacedItems format items = items.map (Json.dumpsSpaced format) := by
  induction items with
  | nil => rfl
  | cons item items inductionHypothesis => rw [spacedItems, inductionHypothesis, List.map_cons]

theorem spacedFields_eq (fields : List (Text × Json Finite)) :
    spacedFields format fields = fields.map (spacedField format) := by
  induction fields with
  | nil => rfl
  | cons field fields inductionHypothesis =>
    rw [spacedFields, inductionHypothesis, List.map_cons]
    rfl

/-- How a value's text starts. -/
theorem dumpsSpaced_head (value : Json Finite) :
    ∃ char rest, value.dumpsSpaced format = char :: rest ∧ isBlank char = false ∧
      char ≠ closeBracket ∧ Printable char := by
  have atom : ∀ value : Json Finite, ∃ char rest, value.dumps format = char :: rest ∧
      isBlank char = false ∧ char ≠ closeBracket ∧ Printable char := by
    intro value
    obtain ⟨char, rest, starts, notBlank, notClosing⟩ := dumps_head format value
    have printable := printable_dumps format value char (by rw [starts]; exact List.mem_cons_self)
    exact ⟨char, rest, starts, notBlank, notClosing, printable⟩
  cases value with
  | null => exact atom .null
  | bool value => exact atom (.bool value)
  | int value => exact atom (.int value)
  | float value => exact atom (.float value)
  | str value => exact atom (.str value)
  | array items => exact ⟨_, _, rfl, by decide, by decide, by decide⟩
  | object fields => exact ⟨_, _, rfl, by decide, by decide, by decide⟩

theorem skipBlanks_dumpsSpaced (value : Json Finite) (rest : Text) :
    skipBlanks (value.dumpsSpaced format ++ rest) = value.dumpsSpaced format ++ rest := by
  obtain ⟨char, more, starts, notBlank, _⟩ := dumpsSpaced_head format value
  rw [starts, List.cons_append, skipBlanks_cons notBlank]

end Write

/-! ### What is read back -/

section ReadBack

variable (maxDigits : Nat)

mutual

/-- What `loads` makes of the text of a value, with the number of brackets that may be nested. -/
def Json.readBack : Nat → Json Finite → Except ScanError (Json Finite)
  | _, .null => .ok .null
  | _, .bool value => .ok (.bool value)
  | _, .int value =>
    if (Whole.ofNat value.natAbs).length ≤ maxDigits then .ok (.int value)
    else .error .tooManyDigits
  | _, .float value => .ok (.float value)
  | _, .str value => .ok (.str (rejoinText value))
  | 0, .array _ | 0, .object _ => .error .tooDeep
  | limit + 1, .array items => (readBackItems limit items).map .array
  | limit + 1, .object fields => (readBackFields limit fields).map objectOf

def readBackItems : Nat → List (Json Finite) → Except ScanError (List (Json Finite))
  | _, [] => .ok []
  | limit, item :: rest => do
    let value ← item.readBack limit
    let values ← readBackItems limit rest
    return value :: values

def readBackFields : Nat → List (Text × Json Finite) →
    Except ScanError (List (Text × Json Finite))
  | _, [] => .ok []
  | limit, (key, item) :: rest => do
    let value ← item.readBack limit
    let values ← readBackFields limit rest
    return (rejoinText key, value) :: values

end

def readBackField (limit : Nat) (field : Text × Json Finite) :
    Except ScanError (Text × Json Finite) :=
  (field.2.readBack maxDigits limit).map fun value => (rejoinText field.1, value)

theorem readBackItems_eq (limit : Nat) (items : List (Json Finite)) :
    readBackItems maxDigits limit items = items.mapM (Json.readBack maxDigits limit) := by
  induction items with
  | nil => rfl
  | cons item items inductionHypothesis =>
    rw [readBackItems, inductionHypothesis, List.mapM_cons]

theorem readBackFields_eq (limit : Nat) (fields : List (Text × Json Finite)) :
    readBackFields maxDigits limit fields = fields.mapM (readBackField maxDigits limit) := by
  induction fields with
  | nil => rfl
  | cons field fields inductionHypothesis =>
    obtain ⟨key, value⟩ := field
    rw [readBackFields, inductionHypothesis, List.mapM_cons, readBackField]
    cases value.readBack maxDigits limit with
    | error error => rfl
    | ok value => rfl

end ReadBack

/-! ### When a value is read back -/

/-- The integers `loads` converts. -/
def FewDigits (maxDigits : Nat) : Json Finite → Prop
  | .int value => (Whole.ofNat value.natAbs).length ≤ maxDigits
  | .null | .bool _ | .float _ | .str _ | .array _ | .object _ => True

mutual

/-- The value that is read back, within the limits. -/
def Json.rejoin : Json Finite → Json Finite
  | .null => .null
  | .bool value => .bool value
  | .int value => .int value
  | .float value => .float value
  | .str value => .str (rejoinText value)
  | .array items => .array (rejoinItems items)
  | .object fields => objectOf (rejoinFields fields)

def rejoinItems : List (Json Finite) → List (Json Finite)
  | [] => []
  | item :: rest => item.rejoin :: rejoinItems rest

def rejoinFields : List (Text × Json Finite) → List (Text × Json Finite)
  | [] => []
  | (key, value) :: rest => (rejoinText key, value.rejoin) :: rejoinFields rest

end

def rejoinField (field : Text × Json Finite) : Text × Json Finite :=
  (rejoinText field.1, field.2.rejoin)

theorem rejoinItems_eq (items : List (Json Finite)) :
    rejoinItems items = items.map Json.rejoin := by
  induction items with
  | nil => rfl
  | cons item items inductionHypothesis => rw [rejoinItems, inductionHypothesis, List.map_cons]

theorem rejoinFields_eq (fields : List (Text × Json Finite)) :
    rejoinFields fields = fields.map rejoinField := by
  induction fields with
  | nil => rfl
  | cons field fields inductionHypothesis =>
    rw [rejoinFields, inductionHypothesis, List.map_cons]
    rfl

section MapM

variable {Source Item Error : Type} {read : Source → Except Error Item}

theorem mapM_ok {view : Source → Item} {sources : List Source}
    (reads : ∀ source ∈ sources, read source = .ok (view source)) :
    sources.mapM read = .ok (sources.map view) := by
  induction sources with
  | nil => rfl
  | cons source sources inductionHypothesis =>
    rw [List.mapM_cons, reads source List.mem_cons_self,
      inductionHypothesis fun other member => reads other (List.mem_cons_of_mem source member)]
    rfl

theorem mapM_map_ok {Value : Type} {write : Value → Source} {view : Value → Item}
    {values : List Value} (reads : ∀ value ∈ values, read (write value) = .ok (view value)) :
    (values.map write).mapM read = .ok (values.map view) := by
  rw [List.mapM_map]
  exact mapM_ok reads

theorem ok_of_mapM {sources : List Source} {items : List Item}
    (isOk : sources.mapM read = .ok items) :
    ∀ source ∈ sources, ∃ item, read source = .ok item := by
  induction sources generalizing items with
  | nil => exact fun source member => absurd member List.not_mem_nil
  | cons source sources inductionHypothesis =>
    rw [List.mapM_cons] at isOk
    cases isRead : read source with
    | error error =>
      rw [isRead] at isOk
      cases isOk
    | ok item =>
      cases areRead : sources.mapM read with
      | error error =>
        rw [isRead, areRead] at isOk
        cases isOk
      | ok items =>
        exact List.forall_mem_cons.mpr ⟨⟨item, isRead⟩, inductionHypothesis areRead⟩

end MapM

section ReadBackOk

variable {maxDigits : Nat}

theorem readBack_of_fits {value : Json Finite} {limit : Nat} (fits : value.depth ≤ limit)
    (few : value.Everywhere (FewDigits maxDigits)) :
    value.readBack maxDigits limit = .ok value.rejoin := by
  induction value using Json.induction generalizing limit with
  | null => rfl
  | bool value => rfl
  | int value => exact if_pos few
  | float value => rfl
  | str value => rfl
  | array items inductionHypothesis =>
    cases limit with
    | zero => exact absurd fits (Nat.not_succ_le_zero _)
    | succ limit =>
      have shallow := depthItems_le_iff.mp (Nat.le_of_succ_le_succ fits)
      have inside := everywhereItems_iff.mp few.2
      rw [Json.readBack, readBackItems_eq, mapM_ok fun item member =>
        inductionHypothesis item member (shallow item member) (inside item member), Json.rejoin,
        rejoinItems_eq]
      rfl
  | object fields inductionHypothesis =>
    cases limit with
    | zero => exact absurd fits (Nat.not_succ_le_zero _)
    | succ limit =>
      have shallow := depthFields_le_iff.mp (Nat.le_of_succ_le_succ fits)
      have inside := everywhereFields_iff.mp few.2
      have reads : ∀ field ∈ fields, readBackField maxDigits limit field =
          .ok (rejoinField field) := by
        intro field member
        rw [readBackField,
          inductionHypothesis field member (shallow field member) (inside field member)]
        rfl
      rw [Json.readBack, readBackFields_eq, mapM_ok reads, Json.rejoin, rejoinFields_eq]
      rfl

theorem fits_of_readBack {value other : Json Finite} {limit : Nat}
    (isOk : value.readBack maxDigits limit = .ok other) :
    value.depth ≤ limit ∧ value.Everywhere (FewDigits maxDigits) := by
  induction value using Json.induction generalizing limit other with
  | null => exact ⟨Nat.zero_le limit, trivial⟩
  | bool value => exact ⟨Nat.zero_le limit, trivial⟩
  | int value =>
    refine ⟨Nat.zero_le limit, ?_⟩
    by_cases few : (Whole.ofNat value.natAbs).length ≤ maxDigits
    · exact few
    · rw [Json.readBack, if_neg few] at isOk
      cases isOk
  | float value => exact ⟨Nat.zero_le limit, trivial⟩
  | str value => exact ⟨Nat.zero_le limit, trivial⟩
  | array items inductionHypothesis =>
    cases limit with
    | zero => cases isOk
    | succ limit =>
      rw [Json.readBack, readBackItems_eq] at isOk
      cases areRead : items.mapM (Json.readBack maxDigits limit) with
      | error error =>
        rw [areRead] at isOk
        cases isOk
      | ok values =>
        have fit : ∀ item ∈ items, item.depth ≤ limit ∧ item.Everywhere (FewDigits maxDigits) := by
          intro item member
          obtain ⟨value, isRead⟩ := ok_of_mapM areRead item member
          exact inductionHypothesis item member isRead
        exact ⟨Nat.succ_le_succ (depthItems_le_iff.mpr fun item member => (fit item member).1),
          trivial, everywhereItems_iff.mpr fun item member => (fit item member).2⟩
  | object fields inductionHypothesis =>
    cases limit with
    | zero => cases isOk
    | succ limit =>
      rw [Json.readBack, readBackFields_eq] at isOk
      cases areRead : fields.mapM (readBackField maxDigits limit) with
      | error error =>
        rw [areRead] at isOk
        cases isOk
      | ok values =>
        have fit : ∀ field ∈ fields,
            field.2.depth ≤ limit ∧ field.2.Everywhere (FewDigits maxDigits) := by
          intro field member
          obtain ⟨value, isRead⟩ := ok_of_mapM areRead field member
          rw [readBackField] at isRead
          cases isValue : field.2.readBack maxDigits limit with
          | error error =>
            rw [isValue] at isRead
            cases isRead
          | ok value => exact inductionHypothesis field member isValue
        exact ⟨Nat.succ_le_succ (depthFields_le_iff.mpr fun field member => (fit field member).1),
          trivial, everywhereFields_iff.mpr fun field member => (fit field member).2⟩

/-- A value is read back where it is not nested too deep and its integers have few digits. -/
theorem readBack_eq_ok_iff {value other : Json Finite} {limit : Nat} :
    value.readBack maxDigits limit = .ok other ↔
      (value.depth ≤ limit ∧ value.Everywhere (FewDigits maxDigits)) ∧ value.rejoin = other := by
  constructor
  · intro isOk
    have within := fits_of_readBack isOk
    rw [readBack_of_fits within.1 within.2] at isOk
    exact ⟨within, Except.ok.inj isOk⟩
  · rintro ⟨within, rfl⟩
    exact readBack_of_fits within.1 within.2

end ReadBackOk

/-! ### Reading what was written -/

/-- What follows is kept where an item was read. -/
def followed {Item : Type} (read : Except ScanError Item) (rest : Text) :
    Except ScanError (Item × Text) :=
  read.map fun item => (item, rest)

section Sequence

variable {Source Item : Type} {closing : CodePoint}
  {scanItem : Text → Except ScanError (Item × Text)} {textOf : Source → Text}
  {read : Source → Except ScanError Item}

theorem starts_spacedText {texts : List Text} {first : Text} (starts : Starts closing first) :
    Starts closing (spacedText closing (first :: texts)) := by
  obtain ⟨char, rest, rfl, notBlank, notClosing⟩ := starts
  cases texts with
  | nil => exact ⟨char, _, rfl, notBlank, notClosing⟩
  | cons next texts => exact ⟨char, _, rfl, notBlank, notClosing⟩

theorem skipBlanks_blank (rest : Text) : skipBlanks (blank :: rest) = skipBlanks rest := by
  rw [skipBlanks, List.dropWhile_cons_of_pos (by decide)]
  rfl

/-- A sequence is read item by item, up to the first item that is not read. -/
theorem scanSequence_spaced (notBlank : isBlank closing = false) (notComma : comma ≠ closing)
    {sources : List Source} (starts : ∀ source ∈ sources, Starts closing (textOf source))
    (reads : ∀ source ∈ sources, ∀ rest, Follows closing rest →
      scanItem (textOf source ++ rest) = followed (read source) rest)
    (nonempty : sources ≠ []) (bound : Nat) (enough : sources.length ≤ bound) (rest : Text) :
    scanSequence closing scanItem bound (spacedText closing (sources.map textOf) ++ rest) =
      followed (sources.mapM read) rest := by
  induction sources generalizing bound with
  | nil => exact absurd rfl nonempty
  | cons source sources inductionHypothesis =>
    cases bound with
    | zero => exact absurd enough (Nat.not_succ_le_zero _)
    | succ bound =>
      have readsSource := reads source List.mem_cons_self
      cases sources with
      | nil =>
        show scanSequence closing scanItem (bound + 1) ((textOf source ++ [closing]) ++ rest) = _
        rw [List.append_assoc, List.mapM_cons]
        have scanned := readsSource ([closing] ++ rest) (Or.inr rfl)
        cases isRead : read source with
        | error error =>
          rw [isRead] at scanned
          rw [scanSequence, scanned]
          rfl
        | ok item =>
          rw [isRead] at scanned
          exact scanSequence_last notBlank scanned
      | cons next sources =>
        have more := inductionHypothesis
          (fun other member => starts other (List.mem_cons_of_mem source member))
          (fun other member => reads other (List.mem_cons_of_mem source member))
          (List.cons_ne_nil next sources) bound (Nat.le_of_succ_le_succ enough)
        have startsNext : Starts closing (spacedText closing ((next :: sources).map textOf)) :=
          starts_spacedText (starts next (List.mem_cons_of_mem source List.mem_cons_self))
        show scanSequence closing scanItem (bound + 1)
          ((textOf source ++
            comma :: blank :: spacedText closing ((next :: sources).map textOf)) ++ rest) = _
        rw [List.append_assoc, List.cons_append, List.cons_append, List.mapM_cons]
        have scanned := readsSource
          (comma :: blank :: (spacedText closing ((next :: sources).map textOf) ++ rest))
          (Or.inl rfl)
        cases isRead : read source with
        | error error =>
          rw [isRead] at scanned
          rw [scanSequence, scanned]
          rfl
        | ok item =>
          rw [isRead] at scanned
          rw [scanSequence_next notComma scanned, skipBlanks_blank, skipBlanks_starts startsNext,
            more]
          cases (next :: sources).mapM read with
          | error error => rfl
          | ok items => rfl

theorem length_spacedText (closing : CodePoint) (texts : List Text) :
    texts.length ≤ (spacedText closing texts).length := by
  induction texts with
  | nil => exact Nat.zero_le _
  | cons text texts inductionHypothesis =>
    cases texts with
    | nil =>
      rw [spacedText, List.length_append]
      exact Nat.le_add_left 1 _
    | cons next texts =>
      rw [spacedText]
      simp only [List.length_append, List.length_cons] at inductionHypothesis ⊢
      omega

theorem scanBrackets_spaced (notBlank : isBlank closing = false) (notComma : comma ≠ closing)
    {sources : List Source} (starts : ∀ source ∈ sources, Starts closing (textOf source))
    (reads : ∀ source ∈ sources, ∀ rest, Follows closing rest →
      scanItem (textOf source ++ rest) = followed (read source) rest) (rest : Text) :
    scanBrackets closing scanItem (spacedText closing (sources.map textOf) ++ rest) =
      followed (sources.mapM read) rest := by
  cases sources with
  | nil => exact scanBrackets_empty notBlank rest
  | cons source sources =>
    have length := length_spacedText closing ((source :: sources).map textOf)
    have begins : Starts closing (spacedText closing ((source :: sources).map textOf)) :=
      starts_spacedText (starts source List.mem_cons_self)
    rw [scanBrackets_starts begins]
    refine scanSequence_spaced notBlank notComma starts reads (List.cons_ne_nil source sources) _
      ?_ rest
    rw [List.length_map] at length
    rw [List.length_append]
    omega

end Sequence

section Read

variable (format : FloatFormat Finite) (maxDigits : Nat)

theorem starts_dumpsSpaced (value : Json Finite) :
    Starts closeBracket (value.dumpsSpaced format) := by
  obtain ⟨char, rest, starts, notBlank, notClosing, _⟩ := dumpsSpaced_head format value
  exact ⟨char, rest, starts, notBlank, notClosing⟩

theorem starts_spacedField (field : Text × Json Finite) :
    Starts closeBrace (spacedField format field) :=
  ⟨quoteMark, _, rfl, by decide, by decide⟩

theorem scanField_spaced {scan : Scanner Finite} {field : Text × Json Finite} {limit : Nat}
    {rest : Text} (reads : scan (field.2.dumpsSpaced format ++ rest) =
      followed (field.2.readBack maxDigits limit) rest) :
    scanField scan (spacedField format field ++ rest) =
      followed (readBackField maxDigits limit field) rest := by
  obtain ⟨key, value⟩ := field
  have scanned := scanString_literal key (colon :: blank :: (value.dumpsSpaced format ++ rest))
  show scanField scan (quoteMark ::
    (((key.flatMap escapeChar ++ [quoteMark]) ++ colon :: blank :: value.dumpsSpaced format) ++
      rest)) = _
  rw [List.append_assoc, List.append_assoc, List.singleton_append, List.cons_append,
    List.cons_append, scanField]
  simp only [if_true, scanned, skipBlanks_cons (show isBlank colon = false by decide)]
  rw [skipBlanks_blank, skipBlanks_dumpsSpaced, reads, readBackField]
  cases value.readBack maxDigits limit with
  | error error => rfl
  | ok value => rfl

/-- The text of a value without brackets is read whatever the limit. -/
theorem scanOnce_atom {value : Json Finite} (shallow : value.depth = 0)
    (readable : value.Everywhere (Readable maxDigits)) {limit : Nat} {rest : Text}
    (delimited : Delimited rest) :
    scanOnce format maxDigits limit (value.dumps format ++ rest) = .ok (value, rest) :=
  scanOnce_dumps format maxDigits (shallow ▸ Nat.zero_le limit) readable rest delimited

/-- The scanner reads the text of any value as `readBack` says. -/
theorem scanOnce_dumpsSpaced (value : Json Finite) (limit : Nat) {rest : Text}
    (delimited : Delimited rest) :
    scanOnce format maxDigits limit (value.dumpsSpaced format ++ rest) =
      followed (value.readBack maxDigits limit) rest := by
  induction value using Json.induction generalizing limit rest with
  | null =>
    have readable : (Json.null : Json Finite).Everywhere (Readable maxDigits) := trivial
    exact scanOnce_atom format maxDigits rfl readable delimited
  | bool value =>
    have readable : (Json.bool value : Json Finite).Everywhere (Readable maxDigits) := trivial
    exact scanOnce_atom format maxDigits rfl readable delimited
  | int value =>
    by_cases few : (Whole.ofNat value.natAbs).length ≤ maxDigits
    · have readable : (Json.int value : Json Finite).Everywhere (Readable maxDigits) := few
      rw [Json.readBack, if_pos few]
      exact scanOnce_atom format maxDigits rfl readable delimited
    · have isValue : numberValue format maxDigits (NumberToken.ofInt value) =
          .error .tooManyDigits := by
        rw [numberValue, if_pos (show (NumberToken.ofInt value).isInteger = true from rfl)]
        exact if_neg few
      rw [Json.readBack, if_neg few, scanOnce_eq]
      refine (scanValue_number format maxDigits _ delimited).trans ?_
      rw [isValue]
      rfl
  | float value =>
    have readable : (Json.float value).Everywhere (Readable maxDigits) := trivial
    exact scanOnce_atom format maxDigits rfl readable delimited
  | str value =>
    have scanned := scanString_literal value rest
    rw [scanOnce_eq]
    show scanValue format maxDigits _
      (quoteMark :: ((value.flatMap escapeChar ++ [quoteMark]) ++ rest)) = _
    rw [List.append_assoc, List.singleton_append]
    simp only [scanValue, if_true, scanned]
    rfl
  | array items inductionHypothesis =>
    cases limit with
    | zero => rfl
    | succ limit =>
      show scanArray (scanOnce format maxDigits limit)
        (spacedText closeBracket (spacedItems format items) ++ rest) = _
      rw [spacedItems_eq, scanArray, scanBrackets_spaced (by decide) (by decide)
        (fun item _ => starts_dumpsSpaced format item)
        (fun item member rest follows => inductionHypothesis item member limit
          (delimited_of_follows (Or.inl rfl) follows)), Json.readBack, readBackItems_eq]
      cases items.mapM (Json.readBack maxDigits limit) with
      | error error => rfl
      | ok values => rfl
  | object fields inductionHypothesis =>
    cases limit with
    | zero => rfl
    | succ limit =>
      show scanObject (scanOnce format maxDigits limit)
        (spacedText closeBrace (spacedFields format fields) ++ rest) = _
      rw [spacedFields_eq, scanObject, scanBrackets_spaced (by decide) (by decide)
        (fun field _ => starts_spacedField format field)
        (fun field member rest follows => scanField_spaced format maxDigits
          (inductionHypothesis field member limit (delimited_of_follows (Or.inr rfl) follows))),
        Json.readBack, readBackFields_eq]
      cases fields.mapM (readBackField maxDigits limit) with
      | error error => rfl
      | ok values => rfl

/-- What `loads` makes of the text of a value. -/
theorem loads_dumpsSpaced (value : Json Finite) (limit : Nat) :
    loads format maxDigits limit (value.dumpsSpaced format) = value.readBack maxDigits limit := by
  have scanned := scanOnce_dumpsSpaced format maxDigits value limit delimited_nil
  have blanks := skipBlanks_dumpsSpaced format value []
  rw [List.append_nil] at scanned blanks
  have noMark : (value.dumpsSpaced format).head? ≠ some byteOrderMark := by
    obtain ⟨char, rest, starts, _, _, printable⟩ := dumpsSpaced_head format value
    rw [starts]
    rintro ⟨⟩
    exact absurd printable (by decide)
  rw [loads, if_neg noMark, blanks, scanned]
  cases value.readBack maxDigits limit with
  | error error => rfl
  | ok value => rfl

end Read

end LiteHorse.JsonTexts
