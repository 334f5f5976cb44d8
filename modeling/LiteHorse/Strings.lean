/-
This file models Python strings. A string may have lone surrogates, which a Lean string cannot
have: the checks of texts let them through, but no file can be written with them.
-/

import LiteHorse.Library.Delimited
import LiteHorse.Library.JsonString
import LiteHorse.Python

namespace LiteHorse.Python

inductive StrChar where
  | char (value : Char)
  | surrogate (index : Fin 0x800)
deriving DecidableEq

abbrev Str := List StrChar

namespace Str

def ofString (value : String) : Str := value.toList.map .char

/-- The character as a file can have it. -/
def charOf : StrChar → Option Char
  | .char value => some value
  | .surrogate _ => none

/-- The string as a file can have it; `none` if encoding it raises. -/
def encode (value : Str) : Option String := (value.mapM charOf).map String.ofList

/-- The string with a replacement character for each surrogate. Neither is a blank, invisible or
in a match of a pattern, so no check tells them apart. -/
def shown (value : Str) : String :=
  String.ofList (value.map fun char => (charOf char).getD '\uFFFD')

/-- `part in value`, for a value that was read from a file. -/
def isIn (part : Str) (value : String) : Bool :=
  match part.encode with
  | some part => Python.isIn part value
  | none => false

def reprChar (isPrintable : Char → Bool) (quote : Char) : StrChar → String
  | .char value => Python.reprChar isPrintable quote value
  | .surrogate index => "\\u" ++ hexDigits 4 (0xd800 + index.val)

/-- `repr(value)` -/
def repr (isPrintable : Char → Bool) (value : Str) : String :=
  let quote :=
    if value.contains (.char '\x27') && !value.contains (.char '\x22') then '\x22' else '\x27'
  String.join (quote.toString :: value.map (reprChar isPrintable quote)) ++ quote.toString

end Str

/-! ### Strings without surrogates -/

section Strings

variable {content : Str} {text : String}

theorem encode_ofString (text : String) : (Str.ofString text).encode = some text := by
  have chars : ∀ chars : List Char, (chars.map StrChar.char).mapM Str.charOf = some chars := by
    intro chars
    induction chars with
    | nil => rfl
    | cons first rest inductionHypothesis =>
      rw [List.map_cons, List.mapM_cons, inductionHypothesis]
      rfl
  unfold Str.encode Str.ofString
  rw [chars]
  exact congrArg some String.ofList_toList

theorem ofString_of_encode (encoded : content.encode = some text) :
    content = Str.ofString text := by
  have chars : ∀ (content : Str) (chars : List Char), content.mapM Str.charOf = some chars →
      content = chars.map .char := by
    intro content
    induction content with
    | nil =>
      intro chars same
      cases same
      rfl
    | cons first rest inductionHypothesis =>
      intro chars same
      rw [List.mapM_cons] at same
      obtain ⟨char, isChar, same⟩ := Option.bind_eq_some_iff.mp same
      obtain ⟨others, areOthers, same⟩ := Option.bind_eq_some_iff.mp same
      cases same
      rw [inductionHypothesis others areOthers]
      cases first with
      | char value =>
        cases isChar
        rfl
      | surrogate index => cases isChar
  obtain ⟨found, areChars, rfl⟩ := Option.map_eq_some_iff.mp encoded
  unfold Str.ofString
  rw [String.toList_ofList]
  exact chars content found areChars

theorem ofString_injective : Function.Injective Str.ofString := by
  intro first second same
  have encoded := congrArg Str.encode same
  rw [encode_ofString, encode_ofString] at encoded
  exact Option.some.inj encoded

theorem shown_ofString (text : String) : (Str.ofString text).shown = text := by
  unfold Str.shown Str.ofString
  rw [List.map_map]
  exact (congrArg String.ofList (List.map_id _)).trans String.ofList_toList

theorem length_shown (content : Str) : content.shown.length = content.length := by
  unfold Str.shown
  rw [String.length_ofList, List.length_map]

theorem isIn_ofString (part : String) : (Str.ofString part).isIn = Python.isIn part := by
  funext value
  unfold Str.isIn
  rw [encode_ofString]

theorem mapM_encode_ofString (entries : List String) :
    (entries.map Str.ofString).mapM Str.encode = some entries := by
  induction entries with
  | nil => rfl
  | cons first rest inductionHypothesis =>
    rw [List.map_cons, List.mapM_cons, encode_ofString, inductionHypothesis]
    rfl

/-- Entries with one new string among them can be encoded if the string can be. -/
theorem mapM_encode_place (before after : List String) :
    (before.map Str.ofString ++ content :: after.map Str.ofString).mapM Str.encode =
      content.encode.map fun text => before ++ text :: after := by
  rw [List.mapM_append, mapM_encode_ofString before, List.mapM_cons, mapM_encode_ofString after]
  cases content.encode with
  | none => rfl
  | some text => rfl

theorem repr_ofString (isPrintable : Char → Bool) (value : String) :
    (Str.ofString value).repr isPrintable = reprString isPrintable value := by
  have contains : ∀ char, (Str.ofString value).contains (.char char) =
      value.toList.contains char := by
    intro char
    unfold Str.ofString
    induction value.toList with
    | nil => rfl
    | cons first rest inductionHypothesis =>
      rw [List.map_cons, List.contains_cons, List.contains_cons, inductionHypothesis]
      refine congrArg (· || rest.contains char) (Bool.eq_iff_iff.mpr ?_)
      rw [beq_iff_eq, beq_iff_eq, StrChar.char.injEq]
  have chars : ∀ quote, (Str.ofString value).map (Str.reprChar isPrintable quote) =
      value.toList.map (reprChar isPrintable quote) := by
    intro quote
    unfold Str.ofString
    rw [List.map_map]
    rfl
  unfold Str.repr reprString
  rw [contains, contains]
  dsimp only
  rw [chars]

end Strings

/-! ### Strings as code points -/

/-- What `value.strip()` drops. -/
def isSpacePoint (char : JsonTexts.CodePoint) : Bool := isSpace (Char.ofNat char.val)

/-- `value.strip()` -/
def stripText (value : JsonTexts.Text) : JsonTexts.Text := Delimited.trim isSpacePoint value

end LiteHorse.Python
