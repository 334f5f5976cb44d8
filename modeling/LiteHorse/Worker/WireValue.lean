/-
This file models what the codecs of the queue messages do with a decoded value: item access,
`get`, `str`, `int`, `list` and the truth value, each with the exceptions it raises, and what
the interpreter does with a text and a value.

The limits of the interpreter are parameters: how deep it follows brackets when it reads a
text and when it writes a value, and how many digits it converts. So are the tables of the
Unicode database that `repr` and `int` look at, and what is known of floats.
-/

import LiteHorse.Library.JsonText

namespace LiteHorse.Worker.Queue

open JsonTexts

inductive PyError where
  | valueError
  | keyError
  | typeError
  | attributeError
  | overflowError
  | recursionError
  deriving DecidableEq

structure Interpreter (Finite : Type) where
  format : FloatFormat Finite
  /-- `int(value)` of a finite float. -/
  truncate : Finite → Int
  isZero : Finite → Bool
  /-- `sys.get_int_max_str_digits()`, which cannot be set lower. -/
  maxStrDigits : Nat
  enoughDigits : 640 ≤ maxStrDigits
  /-- How deep `json.loads` follows brackets. -/
  scannerDepth : Nat
  /-- How deep `asdict` and `json.dumps` follow lists and dictionaries. -/
  encoderDepth : Nat
  deepEnough : 2 ≤ scannerDepth ∧ 2 ≤ encoderDepth
  isPrintable : CodePoint → Bool
  /-- The value of a decimal digit of any script. -/
  decimal : CodePoint → Option Digit

variable {Finite : Type}

/-! ### Texts -/

def scanError : ScanError → PyError
  | .malformed | .tooManyDigits => .valueError
  | .tooDeep => .recursionError

mutual

/-- The most digits that an integer inside the value has. -/
def longestInt : Json Finite → Nat
  | .int value => (Whole.ofNat value.natAbs).length
  | .array items => longestIntItems items
  | .object fields => longestIntFields fields
  | .null | .bool _ | .float _ | .str _ => 0

def longestIntItems : List (Json Finite) → Nat
  | [] => 0
  | item :: rest => max (longestInt item) (longestIntItems rest)

def longestIntFields : List (Text × Json Finite) → Nat
  | [] => 0
  | (_, value) :: rest => max (longestInt value) (longestIntFields rest)

end

/-! ### Values -/

/-- `bool(value)`. -/
def truthy (isZero : Finite → Bool) : Json Finite → Bool
  | .null => false
  | .bool value => value
  | .int value => value != 0
  | .float (.finite value) => !isZero value
  | .float (.infinite _) | .float .nan => true
  | .str value => !value.isEmpty
  | .array items => !items.isEmpty
  | .object fields => !fields.isEmpty

/-- `data[key]` -/
def item (data : Json Finite) (key : Text) : Except PyError (Json Finite) :=
  match data with
  | .object fields => (fields.lookup key).elim (.error .keyError) .ok
  | .null | .bool _ | .int _ | .float _ | .str _ | .array _ => .error .typeError

/-- `data.get(key)` -/
def get (data : Json Finite) (key : Text) : Except PyError (Option (Json Finite)) :=
  match data with
  | .object fields => .ok (fields.lookup key)
  | .null | .bool _ | .int _ | .float _ | .str _ | .array _ => .error .attributeError

/-- The characters `str.strip` and `int` pass over. -/
def isSpace (char : CodePoint) : Bool :=
  let code := char.val
  (0x09 ≤ code && code ≤ 0x0d) || (0x1c ≤ code && code ≤ 0x20) || code = 0x85 || code = 0xa0 ||
    code = 0x1680 || (0x2000 ≤ code && code ≤ 0x200a) || code = 0x2028 || code = 0x2029 ||
    code = 0x202f || code = 0x205f || code = 0x3000

def strip (value : Text) : Text :=
  ((value.dropWhile isSpace).reverse.dropWhile isSpace).reverse

def underscore : CodePoint := codePoint '_'

/-! ### `repr` -/

section Repr

variable (isPrintable : CodePoint → Bool)

/-- A code point as hexadecimal digits. -/
def hexText (width value : Nat) : Text :=
  let digits := (Nat.toDigits 16 value).map codePoint
  List.replicate (width - digits.length) (codePoint '0') ++ digits

def reprChar (quote char : CodePoint) : Text :=
  if char = quote ∨ char = backslash then [backslash, char]
  else if char = codePoint '\t' then text "\\t"
  else if char = codePoint '\n' then text "\\n"
  else if char = codePoint '\r' then text "\\r"
  else if 0x20 ≤ char.val ∧ char.val ≤ 0x7e then [char]
  else if 0x7f < char.val ∧ isPrintable char then [char]
  else if char.val < 0x100 then text "\\x" ++ hexText 2 char
  else if char.val < 0x10000 then text "\\u" ++ hexText 4 char
  else text "\\U" ++ hexText 8 char

/-- Single quotes, unless the text has one and no double quote. -/
def reprText (value : Text) : Text :=
  let single := codePoint '\x27'
  let quote := if single ∈ value ∧ quoteMark ∉ value then quoteMark else single
  quote :: value.flatMap (reprChar isPrintable quote) ++ [quote]

variable (format : FloatFormat Finite)

def reprFloat : Floating Finite → Text
  | .finite value => (format.repr value).text
  | .infinite negative => negativeText negative ++ text "inf"
  | .nan => text "nan"

/-- Texts with `, ` between them. -/
def commaSeparated (texts : List Text) : Text := (text ", ").intercalate texts

mutual

def reprValue : Json Finite → Text
  | .null => text "None"
  | .bool true => text "True"
  | .bool false => text "False"
  | .int value => (NumberToken.ofInt value).text
  | .float value => reprFloat format value
  | .str value => reprText isPrintable value
  | .array items => openBracket :: commaSeparated (reprItems items) ++ [closeBracket]
  | .object fields => openBrace :: commaSeparated (reprFields fields) ++ [closeBrace]

def reprItems : List (Json Finite) → List Text
  | [] => []
  | item :: rest => reprValue item :: reprItems rest

def reprFields : List (Text × Json Finite) → List Text
  | [] => []
  | (key, value) :: rest =>
    (reprText isPrintable key ++ text ": " ++ reprValue value) :: reprFields rest

end

end Repr

namespace Interpreter

variable (interpreter : Interpreter Finite)

/-- `json.loads` -/
def loads (raw : Text) : Except PyError (Json Finite) :=
  (JsonTexts.loads interpreter.format interpreter.maxStrDigits interpreter.scannerDepth
    raw).mapError scanError

/-- `json.dumps`, of what `asdict` makes; `none` where one of them raises. -/
def dumps (value : Json Finite) : Option Text :=
  if value.depth ≤ interpreter.encoderDepth ∧ longestInt value ≤ interpreter.maxStrDigits then
    some (value.dumps interpreter.format)
  else none

/-- `str(value)` -/
def str : Json Finite → Text
  | .str value => value
  | other => reprValue interpreter.isPrintable interpreter.format other

/-- The digits of a text, with single underscores between them. -/
def decimalDigits (value : Text) : Option (List Digit) := do
  let groups ← (value.splitOn underscore).mapM fun group =>
    if group = [] then none else group.mapM interpreter.decimal
  return groups.flatten

/-- `int(value)` of a string; `none` where it raises `ValueError`. -/
def intOfText (value : Text) : Option Int := do
  let (sign, rest) := scanSign (strip value)
  let digits ← interpreter.decimalDigits rest
  let number : Nat := digits.foldl (fun number digit => number * 10 + digit.val) 0
  if digits.length ≤ interpreter.maxStrDigits then
    return if sign = some true then - (number : Int) else number
  else none

/-- `int(value)` -/
def int : Json Finite → Except PyError Int
  | .bool value => .ok (if value then 1 else 0)
  | .int value => .ok value
  | .float (.finite value) => .ok (interpreter.truncate value)
  | .float (.infinite _) => .error .overflowError
  | .float .nan => .error .valueError
  | .str value => (interpreter.intOfText value).elim (.error .valueError) .ok
  | .null | .array _ | .object _ => .error .typeError

/-- `list(value)` -/
def list : Json Finite → Except PyError (List (Json Finite))
  | .array items => .ok items
  | .object fields => .ok (fields.map fun field => .str field.1)
  | .str value => .ok (value.map fun char => .str [char])
  | .null | .bool _ | .int _ | .float _ => .error .typeError

/-- `value or default` -/
def orElse (value : Option (Json Finite)) (default : Json Finite) : Json Finite :=
  match value with
  | some value => if truthy interpreter.isZero value then value else default
  | none => default

/-! ### The round trip -/

theorem str_orElse (value : Text) :
    interpreter.str (interpreter.orElse (some (.str value)) (.str [])) = value := by
  cases value <;> rfl

theorem list_orElse (items : List (Json Finite)) :
    list (interpreter.orElse (some (.array items)) (.array [])) = .ok items := by
  cases items <;> rfl

theorem longestIntItems_le_iff {items : List (Json Finite)} {most : Nat} :
    longestIntItems items ≤ most ↔ ∀ item ∈ items, longestInt item ≤ most := by
  induction items with
  | nil => simp [longestIntItems]
  | cons item items inductionHypothesis =>
    rw [longestIntItems, Nat.max_le, inductionHypothesis, List.forall_mem_cons]

theorem longestIntFields_le_iff {fields : List (Text × Json Finite)} {most : Nat} :
    longestIntFields fields ≤ most ↔ ∀ field ∈ fields, longestInt field.2 ≤ most := by
  induction fields with
  | nil => simp [longestIntFields]
  | cons field fields inductionHypothesis =>
    rw [longestIntFields, Nat.max_le, inductionHypothesis, List.forall_mem_cons]

/-- What the values inside have to meet besides the limits of the interpreter: no key twice,
no split pair. -/
def Plain : Json Finite → Prop
  | .str value => NoSplitPair value
  | .object fields => (fields.map Prod.fst).Nodup ∧ ∀ field ∈ fields, NoSplitPair field.1
  | .null | .bool _ | .int _ | .float _ | .array _ => True

theorem readable_of_plain {value : Json Finite} {most : Nat} (few : longestInt value ≤ most)
    (plain : value.Everywhere Plain) : value.Everywhere (Readable most) := by
  induction value using Json.induction with
  | null => trivial
  | bool value => trivial
  | int value => exact few
  | float value => trivial
  | str value => exact plain
  | array items inductionHypothesis =>
    have inside := everywhereItems_iff.mp plain.2
    have fewInside := longestIntItems_le_iff.mp few
    exact ⟨trivial, everywhereItems_iff.mpr fun item member =>
      inductionHypothesis item member (fewInside item member) (inside item member)⟩
  | object fields inductionHypothesis =>
    have inside := everywhereFields_iff.mp plain.2
    have fewInside := longestIntFields_le_iff.mp few
    exact ⟨plain.1, everywhereFields_iff.mpr fun field member =>
      inductionHypothesis field member (fewInside field member) (inside field member)⟩

/-- A value that is written within the limits and not nested deeper than the reader follows
is read back. -/
theorem loads_of_dumps {value : Json Finite} {raw : Text}
    (written : interpreter.dumps value = some raw) (fits : value.depth ≤ interpreter.scannerDepth)
    (plain : value.Everywhere Plain) : interpreter.loads raw = .ok value := by
  unfold dumps at written
  split at written
  · next within =>
    cases written
    have readable := readable_of_plain within.2 plain
    rw [loads, loads_dumps interpreter.format interpreter.maxStrDigits fits readable]
    rfl
  · cases written

end Interpreter

end LiteHorse.Worker.Queue
