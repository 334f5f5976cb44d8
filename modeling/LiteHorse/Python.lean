/-
This file models the Python values and built-ins the repository's code rests on: the JSON
values a `dict[str, Any]` holds, their truth value, `str` and `repr`, and the methods of `str`.

A float is kept as the text of its `repr`. Which non-ASCII characters `repr` prints as they
are is a table of the Unicode database, so it is a parameter.
-/

import Mathlib.Data.List.Infix
import Mathlib.Data.String.Basic

namespace LiteHorse.Python

/-- A UUID, read as its integer value. -/
abbrev UUID := Nat

def hexValue (char : Char) : Nat :=
  if char.isDigit then char.toNat - '0'.toNat else char.toLower.toNat - 'a'.toNat + 10

/-- `UUID(text)`, for the text of a UUID. -/
def uuidOf (text : String) : UUID :=
  (text.toList.filter (· ≠ '-')).foldl (fun value char => value * 16 + hexValue char) 0

/-- A JSON value as Python holds it. Objects keep the order of their keys. -/
inductive Json where
  | null
  | bool (value : Bool)
  | int (value : Int)
  | float (repr : String)
  | str (value : String)
  | array (items : List Json)
  | object (fields : List (String × Json))

/-- `fields.get(key)`. -/
def getField (fields : List (String × Json)) (key : String) : Option Json :=
  fields.lookup key

/-- `bool(value)`. -/
def Json.truthy : Json → Bool
  | .null => false
  | .bool value => value
  | .int value => value != 0
  | .float repr => repr != "0.0" && repr != "-0.0"
  | .str value => value != ""
  | .array items => !items.isEmpty
  | .object fields => !fields.isEmpty

/-! ### `str` and `repr` -/

section Repr

variable (isPrintable : Char → Bool)

/-- The lowercase hexadecimal digits of a code point, padded to a width. -/
def hexDigits (width value : Nat) : String :=
  let digits := String.ofList (Nat.toDigits 16 value)
  "".pushn '0' (width - digits.length) ++ digits

/-- One character of a string literal delimited by the given quote. -/
def reprChar (quote char : Char) : String :=
  if char = quote || char = '\x5c' then "\\".push char
  else if char = '\t' then "\\t"
  else if char = '\n' then "\\n"
  else if char = '\r' then "\\r"
  else if isPrintable char then char.toString
  else if char.toNat < 256 then "\\x" ++ hexDigits 2 char.toNat
  else if char.toNat < 65536 then "\\u" ++ hexDigits 4 char.toNat
  else "\\U" ++ hexDigits 8 char.toNat

/-- `repr` of a string: single quotes, unless the text has one and no double quote. -/
def reprString (value : String) : String :=
  let quote :=
    if value.toList.contains '\x27' && !value.toList.contains '\x22' then '\x22' else '\x27'
  String.join (quote.toString :: value.toList.map (reprChar isPrintable quote)) ++
    quote.toString

mutual

/-- `repr(value)`. -/
def Json.repr : Json → String
  | .null => "None"
  | .bool true => "True"
  | .bool false => "False"
  | .int value => toString value
  | .float text => text
  | .str value => reprString isPrintable value
  | .array items => "[" ++ ", ".intercalate (reprItems items) ++ "]"
  | .object fields => "\x7b" ++ ", ".intercalate (reprFields fields) ++ "\x7d"

def reprItems : List Json → List String
  | [] => []
  | item :: rest => Json.repr item :: reprItems rest

def reprFields : List (String × Json) → List String
  | [] => []
  | (key, value) :: rest =>
    (reprString isPrintable key ++ ": " ++ Json.repr value) :: reprFields rest

end

/-- `str(value)`: a string is itself, every other JSON value is printed as its `repr`. -/
def Json.toStr : Json → String
  | .str value => value
  | other => other.repr isPrintable

end Repr

/-! ### `str.strip` -/

/-- The characters `str.strip()` removes. -/
def isSpace (char : Char) : Bool :=
  let code := char.toNat
  (0x09 ≤ code && code ≤ 0x0d) || (0x1c ≤ code && code ≤ 0x20) || code = 0x85 || code = 0xa0 ||
    code = 0x1680 || (0x2000 ≤ code && code ≤ 0x200a) || code = 0x2028 || code = 0x2029 ||
    code = 0x202f || code = 0x205f || code = 0x3000

def stripChars (chars : List Char) : List Char :=
  ((chars.dropWhile isSpace).reverse.dropWhile isSpace).reverse

/-- `value.strip()`. -/
def strip (value : String) : String := String.ofList (stripChars value.toList)

/-! ### `str.split` and `in` -/

/-- `value.split(separator)`, for a separator of one character. -/
def splitAt (separator : Char) (value : String) : List String :=
  (value.toList.splitOn separator).map String.ofList

/-- `part in value`. -/
def isIn (part value : String) : Bool := decide (part.toList <:+: value.toList)

/-! ### Text files -/

/-- The universal newlines of a text that is read. -/
def universalNewlines : List Char → List Char
  | '\r' :: '\n' :: rest => '\n' :: universalNewlines rest
  | '\r' :: rest => '\n' :: universalNewlines rest
  | char :: rest => char :: universalNewlines rest
  | [] => []

/-- `path.read_text()`, of a file with a text. -/
def readText (text : String) : String := String.ofList (universalNewlines text.toList)

section Newlines

variable {text : List Char}

theorem universalNewlines_cons {char : Char} (notReturn : char ≠ '\r') (rest : List Char) :
    universalNewlines (char :: rest) = char :: universalNewlines rest := by
  rw [universalNewlines]
  · exact fun _ same _ => notReturn same
  · exact fun same => notReturn same

theorem universalNewlines_return {rest : List Char} (noNewline : ∀ more, rest ≠ '\n' :: more) :
    universalNewlines ('\r' :: rest) = '\n' :: universalNewlines rest := by
  rw [universalNewlines]
  exact noNewline

theorem universalNewlines_append {symbol : Char} (notReturn : symbol ≠ '\r')
    (notNewline : symbol ≠ '\n') (front rest : List Char) :
    universalNewlines (front ++ symbol :: rest) =
      universalNewlines front ++ symbol :: universalNewlines rest := by
  fun_induction universalNewlines front with
  | case1 front inductionHypothesis =>
    exact congrArg _ inductionHypothesis
  | case2 front noNewline inductionHypothesis =>
    rw [List.cons_append, universalNewlines_return, inductionHypothesis, List.cons_append]
    intro more same
    cases front with
    | nil => exact notNewline (List.cons.inj same).1
    | cons first front =>
      rw [List.cons_append, List.cons.injEq] at same
      exact noNewline front (congrArg (· :: front) same.1)
  | case3 char front noReturn notReturn inductionHypothesis =>
    rw [List.cons_append, universalNewlines_cons notReturn, inductionHypothesis, List.cons_append]
  | case4 => exact universalNewlines_cons notReturn rest

/-- Every character is one of the text or a newline for a carriage return. -/
theorem mem_universalNewlines {char : Char} (member : char ∈ universalNewlines text) :
    char ≠ '\r' ∧ (char ∈ text ∨ char = '\n') := by
  fun_induction universalNewlines text with
  | case1 rest inductionHypothesis =>
    rcases List.mem_cons.mp member with rfl | member
    · exact ⟨by decide, Or.inr rfl⟩
    · exact ⟨(inductionHypothesis member).1, (inductionHypothesis member).2.imp_left fun inRest =>
        List.mem_cons_of_mem _ (List.mem_cons_of_mem _ inRest)⟩
  | case2 rest noNewline inductionHypothesis =>
    rcases List.mem_cons.mp member with rfl | member
    · exact ⟨by decide, Or.inr rfl⟩
    · exact ⟨(inductionHypothesis member).1, (inductionHypothesis member).2.imp_left
        (List.mem_cons_of_mem _)⟩
  | case3 first rest noReturn notReturn inductionHypothesis =>
    rcases List.mem_cons.mp member with rfl | member
    · exact ⟨notReturn, Or.inl List.mem_cons_self⟩
    · exact ⟨(inductionHypothesis member).1, (inductionHypothesis member).2.imp_left
        (List.mem_cons_of_mem _)⟩
  | case4 => cases member

/-- A text comes back as it was if it has no carriage return. -/
theorem universalNewlines_eq_self : universalNewlines text = text ↔ '\r' ∉ text := by
  constructor
  · intro same hasReturn
    rw [← same] at hasReturn
    exact (mem_universalNewlines hasReturn).1 rfl
  · intro noReturn
    induction text with
    | nil => rfl
    | cons first rest inductionHypothesis =>
      rw [List.mem_cons, not_or] at noReturn
      rw [universalNewlines_cons (Ne.symm noReturn.1), inductionHypothesis noReturn.2]

theorem readText_eq_self {text : String} : readText text = text ↔ '\r' ∉ text.toList := by
  unfold readText
  rw [← universalNewlines_eq_self, ← String.toList_inj, String.toList_ofList]

/-- What has been read has universal newlines. -/
theorem readText_readText (text : String) : readText (readText text) = readText text := by
  refine readText_eq_self.mpr fun hasReturn => ?_
  unfold readText at hasReturn
  rw [String.toList_ofList] at hasReturn
  exact (mem_universalNewlines hasReturn).1 rfl

end Newlines

/-! ### Code that may raise -/

theorem ok_bind {Raised Value Result : Type} (value : Value)
    (next : Value → Except Raised Result) : (.ok value >>= next) = next value := rfl

theorem bind_eq_ok_iff {Raised Value Result : Type} {first : Except Raised Value}
    {next : Value → Except Raised Result} {result : Result} :
    (first >>= next) = .ok result ↔ ∃ value, first = .ok value ∧ next value = .ok result := by
  cases first with
  | error error =>
    refine ⟨fun returned => ?_, fun ⟨value, returned, _⟩ => ?_⟩
    · cases returned
    · cases returned
  | ok value =>
    refine ⟨fun returned => ⟨value, rfl, returned⟩, fun ⟨other, same, returned⟩ => ?_⟩
    cases same
    exact returned

theorem map_eq_ok_iff {Raised Value Result : Type} {first : Except Raised Value}
    {translate : Value → Result} {result : Result} :
    first.map translate = .ok result ↔ ∃ value, first = .ok value ∧ translate value = result := by
  cases first with
  | error error =>
    refine iff_of_false (fun returned => ?_) fun ⟨value, returned, _⟩ => ?_
    · cases returned
    · cases returned
  | ok value =>
    refine ⟨fun returned => ⟨value, rfl, Except.ok.inj returned⟩, ?_⟩
    rintro ⟨other, same, rfl⟩
    cases same
    rfl

theorem mapError_bind {Raised Other Value Result : Type} (translate : Raised → Other)
    (first : Except Raised Value) (next : Value → Except Raised Result) :
    (first >>= next).mapError translate =
      first.mapError translate >>= fun value => (next value).mapError translate := by
  cases first with
  | error error => rfl
  | ok value => rfl

theorem mapValue_bind {Raised Value Result Final : Type} (translate : Result → Final)
    (first : Except Raised Value) (next : Value → Except Raised Result) :
    (first >>= next).map translate = first >>= fun value => (next value).map translate := by
  cases first with
  | error error => rfl
  | ok value => rfl

theorem mapError_eq_ok_iff {Raised Other Value : Type} {result : Except Raised Value}
    {translate : Raised → Other} {value : Value} :
    result.mapError translate = .ok value ↔ result = .ok value := by
  cases result with
  | error error =>
    constructor
    · intro same
      cases same
    · intro same
      cases same
  | ok other =>
    show Except.ok other = Except.ok value ↔ Except.ok other = Except.ok value
    rw [Except.ok.injEq, Except.ok.injEq]

end LiteHorse.Python
