/-
This file relates the two models of a JSON value: as Python holds it, with the texts of its floats,
and as it is written and read. A text that is read may have surrogates, which a string of the first
model cannot have.
-/

import LiteHorse.Library.JsonSorted
import LiteHorse.Python

namespace LiteHorse.Python

open JsonTexts (CodePoint DistinctKeys Floating NoSplitPair Text Unsplit codePoint
  noSplitPair_text text)

/-! ### Strings -/

/-- The character of a code point, if it is no surrogate. -/
def charOfPoint (point : CodePoint) : Option Char :=
  if point.val.isValidChar then some (Char.ofNat point.val) else none

/-- The string of a text without surrogates. -/
def stringOf (value : Text) : Option String := (value.mapM charOfPoint).map String.ofList

theorem charOfPoint_codePoint (char : Char) : charOfPoint (codePoint char) = some char := by
  have valid : (codePoint char).val.isValidChar := char.valid
  unfold charOfPoint
  rw [if_pos valid]
  exact congrArg some (Char.ofNat_toNat char)

theorem stringOf_text (value : String) : stringOf (text value) = some value := by
  have chars : ∀ chars : List Char, (chars.map codePoint).mapM charOfPoint = some chars := by
    intro chars
    induction chars with
    | nil => rfl
    | cons char chars inductionHypothesis =>
      rw [List.map_cons, List.mapM_cons, charOfPoint_codePoint, inductionHypothesis]
      rfl
  unfold stringOf text
  rw [chars]
  exact congrArg some String.ofList_toList

theorem text_injective : Function.Injective text := by
  intro first second same
  have strings := congrArg stringOf same
  rw [stringOf_text, stringOf_text] at strings
  exact Option.some.inj strings

/-! ### Values -/

variable {Finite : Type}

def optionText : Option String → JsonTexts.Json Finite
  | some value => .str (text value)
  | none => .null

/-- The texts of floats. -/
structure FloatNames (Finite : Type) where
  value : String → Floating Finite
  name : Floating Finite → String

namespace FloatNames

variable (names : FloatNames Finite)

mutual

/-- The value as it is written. -/
def written : Json → JsonTexts.Json Finite
  | .null => .null
  | .bool value => .bool value
  | .int value => .int value
  | .float name => .float (names.value name)
  | .str value => .str (text value)
  | .array items => .array (writtenItems items)
  | .object fields => .object (writtenFields fields)

def writtenItems : List Json → List (JsonTexts.Json Finite)
  | [] => []
  | item :: rest => written item :: writtenItems rest

def writtenFields : List (String × Json) → List (Text × JsonTexts.Json Finite)
  | [] => []
  | (key, value) :: rest => (text key, written value) :: writtenFields rest

end

mutual

/-- The value that is read; `none` for one with surrogates. -/
def ofWritten : JsonTexts.Json Finite → Option Json
  | .null => some .null
  | .bool value => some (.bool value)
  | .int value => some (.int value)
  | .float value => some (.float (names.name value))
  | .str value => (stringOf value).map .str
  | .array items => (ofWrittenItems items).map .array
  | .object fields => (ofWrittenFields fields).map .object

def ofWrittenItems : List (JsonTexts.Json Finite) → Option (List Json)
  | [] => some []
  | item :: rest => do
    let value ← ofWritten item
    let values ← ofWrittenItems rest
    return value :: values

def ofWrittenFields : List (Text × JsonTexts.Json Finite) → Option (List (String × Json))
  | [] => some []
  | (key, item) :: rest => do
    let key ← stringOf key
    let value ← ofWritten item
    let values ← ofWrittenFields rest
    return (key, value) :: values

end

mutual

/-- A dictionary has no key twice, and a float is called by its name. -/
def Canonical : Json → Prop
  | .null | .bool _ | .int _ | .str _ => True
  | .float name => names.name (names.value name) = name
  | .array items => CanonicalItems items
  | .object fields => (fields.map Prod.fst).Nodup ∧ CanonicalFields fields

def CanonicalItems : List Json → Prop
  | [] => True
  | item :: rest => Canonical item ∧ CanonicalItems rest

def CanonicalFields : List (String × Json) → Prop
  | [] => True
  | (_, value) :: rest => Canonical value ∧ CanonicalFields rest

end

mutual

theorem ofWritten_written :
    ∀ value : Json, names.Canonical value → names.ofWritten (names.written value) = some value
  | .null, _ | .bool _, _ | .int _, _ => rfl
  | .float name, canonical => congrArg (fun name => some (Json.float name)) canonical
  | .str value, _ => by rw [written, ofWritten, stringOf_text]; rfl
  | .array items, canonical => by
    rw [written, ofWritten, ofWrittenItems_written items canonical]
    rfl
  | .object fields, canonical => by
    rw [written, ofWritten, ofWrittenFields_written fields canonical.2]
    rfl

theorem ofWrittenItems_written : ∀ items : List Json, names.CanonicalItems items →
    names.ofWrittenItems (names.writtenItems items) = some items
  | [], _ => rfl
  | item :: rest, canonical => by
    rw [writtenItems, ofWrittenItems, ofWritten_written item canonical.1,
      ofWrittenItems_written rest canonical.2]
    rfl

theorem ofWrittenFields_written : ∀ fields : List (String × Json),
    names.CanonicalFields fields →
      names.ofWrittenFields (names.writtenFields fields) = some fields
  | [], _ => rfl
  | (key, value) :: rest, canonical => by
    rw [writtenFields, ofWrittenFields, stringOf_text, ofWritten_written value canonical.1,
      ofWrittenFields_written rest canonical.2]
    rfl

end

theorem map_fst_writtenFields (fields : List (String × Json)) :
    (names.writtenFields fields).map Prod.fst = (fields.map Prod.fst).map text := by
  induction fields with
  | nil => rfl
  | cons field fields inductionHypothesis =>
    rw [writtenFields, List.map_cons, List.map_cons, List.map_cons, inductionHypothesis]

mutual

theorem distinctKeys_written : ∀ value : Json, names.Canonical value →
    (names.written value).Everywhere DistinctKeys
  | .null, _ | .bool _, _ | .int _, _ | .float _, _ | .str _, _ => trivial
  | .array items, canonical => ⟨trivial, distinctKeys_writtenItems items canonical⟩
  | .object fields, canonical => by
    refine ⟨?_, distinctKeys_writtenFields fields canonical.2⟩
    show ((names.writtenFields fields).map Prod.fst).Nodup
    rw [map_fst_writtenFields]
    exact canonical.1.map text_injective

theorem distinctKeys_writtenItems : ∀ items : List Json, names.CanonicalItems items →
    JsonTexts.EverywhereItems DistinctKeys (names.writtenItems items)
  | [], _ => trivial
  | item :: rest, canonical =>
    ⟨distinctKeys_written item canonical.1, distinctKeys_writtenItems rest canonical.2⟩

theorem distinctKeys_writtenFields : ∀ fields : List (String × Json),
    names.CanonicalFields fields →
      JsonTexts.EverywhereFields DistinctKeys (names.writtenFields fields)
  | [], _ => trivial
  | (_, value) :: rest, canonical =>
    ⟨distinctKeys_written value canonical.1, distinctKeys_writtenFields rest canonical.2⟩

end

mutual

theorem unsplit_written : ∀ value : Json, (names.written value).Everywhere Unsplit
  | .null | .bool _ | .int _ | .float _ => trivial
  | .str value => noSplitPair_text value
  | .array items => ⟨trivial, unsplit_writtenItems items⟩
  | .object fields => by
    refine ⟨?_, unsplit_writtenFields fields⟩
    intro field member
    have isKey := List.mem_map_of_mem (f := Prod.fst) member
    rw [map_fst_writtenFields] at isKey
    obtain ⟨key, _, isText⟩ := List.mem_map.mp isKey
    exact isText ▸ noSplitPair_text key

theorem unsplit_writtenItems : ∀ items : List Json,
    JsonTexts.EverywhereItems Unsplit (names.writtenItems items)
  | [] => trivial
  | item :: rest => ⟨unsplit_written item, unsplit_writtenItems rest⟩

theorem unsplit_writtenFields : ∀ fields : List (String × Json),
    JsonTexts.EverywhereFields Unsplit (names.writtenFields fields)
  | [] => trivial
  | (_, value) :: rest => ⟨unsplit_written value, unsplit_writtenFields rest⟩

end

end FloatNames

end LiteHorse.Python
