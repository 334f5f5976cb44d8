/-
This file models the paths and files of `pathlib`, where there are no symbolic links. A path of the
code has strings for its parts; the tree of files has the bytes of their names.

A part that has no bytes or has a null byte is a `ValueError`, from the first look at the path.
Writing a text empties the file before the text is encoded.
-/

import LiteHorse.Library.FileTree
import LiteHorse.Library.Utf8
import LiteHorse.Strings

namespace LiteHorse.Pathlib

open FileTrees Python

/-- A file name as the operating system has it. -/
abbrev Name := List UInt8

abbrev Tree := FileTree Name ByteArray

/-- A `ValueError` of a path. -/
inductive PathError where
  | unicodeEncodeError
  | embeddedNull
deriving DecidableEq

inductive Raised where
  | os (raised : OsError)
  | path (raised : PathError)
  | unicodeDecodeError
  | unicodeEncodeError
deriving DecidableEq

/-! ### Paths -/

/-- The bytes of a character. The surrogates from U+DC80 on stand for the bytes from 80 on. -/
def fsencodeChar : StrChar → Option (List UInt8)
  | .char value => some (String.utf8EncodeChar value)
  | .surrogate index =>
    if 0x480 ≤ index.val ∧ index.val ≤ 0x4ff then some [UInt8.ofNat (index.val - 0x400)] else none

/-- `os.fsencode` -/
def fsencode (text : Str) : Option Name := (text.mapM fsencodeChar).map List.flatten

/-- `os.fsdecode`: a byte that is not a character's stands for itself. -/
def fsdecode : Name → Str
  | [] => []
  | byte :: rest =>
    match Utf8.leading byte.toNat with
    | none => .surrogate (Fin.ofNat 0x800 (0x400 + byte.toNat)) :: fsdecode rest
    | some (bits, count, low, high) =>
      have := Utf8.length_continued bits count low high rest
      match (Utf8.continued bits count low high rest).1 with
      | some code =>
        .char (Char.ofNat code) :: fsdecode (Utf8.continued bits count low high rest).2
      | none => .surrogate (Fin.ofNat 0x800 (0x400 + byte.toNat)) :: fsdecode rest
termination_by name => name.length

def nameOf (text : Str) : Except PathError Name :=
  match fsencode text with
  | none => .error .unicodeEncodeError
  | some name => if 0 ∈ name then .error .embeddedNull else .ok name

/-- The bytes of the parts of a path that has been looked at. -/
def osPath (parts : List Str) : List Name := parts.map fun part => (fsencode part).getD []

/-- Go from a directory along the parts of a path. -/
def follow : List Str → List Str → Except PathError (List Str)
  | base, [] => .ok base
  | base, part :: rest =>
    if part = [] ∨ part = Str.ofString "." then follow base rest
    else if part = Str.ofString ".." then follow base.dropLast rest
    else (nameOf part).bind fun _ => follow (base ++ [part]) rest

/-- `(base / path).resolve()` -/
def resolve (base : List Str) (path : Str) : Except PathError (List Str) :=
  follow (if path.head? = some (.char '/') then [] else base) (path.splitOn (.char '/'))

theorem fsencode_ofString (text : String) :
    fsencode (Str.ofString text) = some (text.toList.flatMap String.utf8EncodeChar) := by
  have chars : ∀ chars : List Char, (chars.map StrChar.char).mapM fsencodeChar =
      some (chars.map String.utf8EncodeChar) := by
    intro chars
    induction chars with
    | nil => rfl
    | cons first rest inductionHypothesis =>
      rw [List.map_cons, List.mapM_cons, inductionHypothesis]
      rfl
  unfold fsencode Str.ofString
  rw [chars]
  rfl

/-- Different texts have different bytes. -/
theorem eq_of_osPath {first second : String}
    (same : osPath [Str.ofString first] = osPath [Str.ofString second]) : first = second := by
  unfold osPath at same
  rw [List.map_singleton, List.map_singleton, fsencode_ofString, fsencode_ofString] at same
  have bytes : first.toList.utf8Encode = second.toList.utf8Encode :=
    congrArg List.toByteArray (List.cons.inj same).1
  rw [String.utf8Encode_toList, String.utf8Encode_toList] at bytes
  exact String.toByteArray_inj.mp bytes

/-! ### Texts of files -/

/-- The text of a file that has one. -/
def textOf (content : ByteArray) : Option String := String.fromUTF8? content

/-- `path.read_text(encoding="utf-8")` -/
def readText (tree : Tree) (path : List Name) : Except Raised String :=
  match tree.readFile path with
  | .error raised => .error (.os raised)
  | .ok content =>
    match textOf content with
    | some text => .ok (Python.readText text)
    | none => .error .unicodeDecodeError

/-- The content of a file after a text is written to it, or failed to be. -/
def written (text : Str) : ByteArray :=
  match text.encode with
  | some text => text.toUTF8
  | none => ByteArray.empty

/-- `path.write_text(text, encoding="utf-8")` -/
def writeText (tree : Tree) (path : List Name) (text : Str) : Except Raised Unit × Tree :=
  match tree.writeFile path (written text) with
  | .error raised => (.error (.os raised), tree)
  | .ok next => (if text.encode.isSome then .ok () else .error .unicodeEncodeError, next)

theorem textOf_toUTF8 (text : String) : textOf text.toUTF8 = some text := by
  unfold textOf String.fromUTF8?
  rw [dif_pos (show text.toUTF8.IsValidUTF8 from text.isValidUTF8)]
  rfl

theorem eq_of_isEmpty_toUTF8 {text : String} (isEmpty : text.toUTF8.isEmpty = true) :
    text = "" :=
  String.utf8ByteSize_eq_zero_iff.mp (beq_iff_eq.mp isEmpty)

/-- A text without surrogates is what the file has. -/
theorem written_of_encode {text : Str} {stored : String} (encoded : text.encode = some stored) :
    written text = stored.toUTF8 := by
  unfold written
  rw [encoded]

theorem writeText_ofString {tree next : Tree} {path : List Name} {text : String}
    (isWritten : tree.writeFile path text.toUTF8 = .ok next) :
    writeText tree path (Str.ofString text) = (.ok (), next) := by
  unfold writeText
  rw [written_of_encode (encode_ofString text), isWritten, encode_ofString]
  rfl

theorem readText_eq_ok_iff {tree : Tree} {path : List Name} {text : String} :
    readText tree path = .ok text ↔
      ∃ content stored, tree.file path = some content ∧ textOf content = some stored ∧
        Python.readText stored = text := by
  unfold readText
  split
  next raised isRaised =>
    refine iff_of_false (fun same => ?_) fun ⟨content, stored, isFile, _⟩ => ?_
    · cases same
    · cases isRaised.symm.trans (FileTree.readFile_eq_ok_iff.mpr isFile)
  next content isContent =>
    have isFile := FileTree.readFile_eq_ok_iff.mp isContent
    split
    next stored isText =>
      rw [Except.ok.injEq]
      constructor
      · intro same
        exact ⟨content, stored, isFile, isText, same⟩
      · rintro ⟨other, found, isOther, isFound, same⟩
        cases isFile.symm.trans isOther
        cases isText.symm.trans isFound
        exact same
    next notText =>
      refine iff_of_false (fun same => ?_) fun ⟨other, stored, isOther, isText, _⟩ => ?_
      · cases same
      · cases isFile.symm.trans isOther
        cases notText.symm.trans isText

/-- What was written is read back with universal newlines. -/
theorem readText_of_writeFile {tree next : Tree} {path : List Name} {text : String}
    (isWritten : tree.writeFile path text.toUTF8 = .ok next) :
    readText next path = .ok (Python.readText text) :=
  readText_eq_ok_iff.mpr ⟨text.toUTF8, text,
    (FileTree.file_of_writeFile isWritten path).trans (if_pos rfl), textOf_toUTF8 text, rfl⟩

end LiteHorse.Pathlib
