/-
This file models the statistics of a skill, a JSON file beside its SKILL.md, as the approval of a
proposal stamps them.

A file that has no JSON object counts as a new one, and an error of the operating system is passed
over. But an integer with too many digits, and brackets that are nested too deep, raise what
nothing handles (`markOptimized_eq_ok_iff`).
-/

import LiteHorse.Library.JsonSorted
import LiteHorse.Pathlib
import LiteHorse.Worker.WireValue

namespace LiteHorse.Skills.Stats

open FileTrees JsonTexts Pathlib
open Python (bind_eq_ok_iff)
open Worker.Queue (Interpreter PyError)

variable {Finite : Type} (interpreter : Interpreter Finite)

/-! ### Writing with an indent -/

section Indent

variable (format : FloatFormat Finite)

def newline (level : Nat) : Text := codePoint '\n' :: List.replicate (2 * level) blank

mutual

/-- `json.dumps(value, indent=2)`, of a value that is nested so deep. -/
def dumpsIndented : Json Finite → Nat → Text
  | .null, _ => Json.null.dumps format
  | .bool value, _ => (Json.bool value).dumps format
  | .int value, _ => (Json.int value).dumps format
  | .float value, _ => (Json.float value).dumps format
  | .str value, _ => quote value
  | .array [], _ => [openBracket, closeBracket]
  | .array (first :: rest), level =>
    openBracket :: newline (level + 1) ++ dumpsIndented first (level + 1) ++
      indentedItems rest (level + 1) ++ newline level ++ [closeBracket]
  | .object [], _ => [openBrace, closeBrace]
  | .object ((key, first) :: rest), level =>
    openBrace :: newline (level + 1) ++ quote key ++ colon :: blank ::
      dumpsIndented first (level + 1) ++ indentedFields rest (level + 1) ++ newline level ++
      [closeBrace]

def indentedItems : List (Json Finite) → Nat → Text
  | [], _ => []
  | item :: rest, level =>
    comma :: newline level ++ dumpsIndented item level ++ indentedItems rest level

def indentedFields : List (Text × Json Finite) → Nat → Text
  | [], _ => []
  | (key, value) :: rest, level =>
    comma :: newline level ++ quote key ++ colon :: blank :: dumpsIndented value level ++
      indentedFields rest level

end

end Indent

/-! ### The statistics -/

def schemaVersion : Int := 1

def defaultStats : List (Text × Json Finite) :=
  [(text "usage_count", .int 0),
   (text "success_count", .int 0),
   (text "error_count", .int 0),
   (text "last_used_at", .null),
   (text "last_error_at", .null),
   (text "last_error_summary", .null),
   (text "last_optimized_at", .null),
   (text "schema_version", .int schemaVersion)]

/-- The defaults with what the file has for their keys. -/
def merged (data : List (Text × Json Finite)) : List (Text × Json Finite) :=
  defaultStats.map fun field => (field.1, (data.lookup field.1).getD field.2)

/-- `_read_fd` -/
def readFd (raw : ByteArray) : Except PyError (List (Text × Json Finite)) :=
  if raw.isEmpty then .ok defaultStats
  else
    match textOf raw with
    | none => .ok defaultStats
    | some text =>
      match loads interpreter.format interpreter.maxStrDigits interpreter.scannerDepth
          (text.toList.map codePoint) with
      | .ok (.object data) => .ok (merged data)
      | .ok _ | .error .malformed => .ok defaultStats
      | .error .tooManyDigits => .error .valueError
      | .error .tooDeep => .error .recursionError

/-- What `_write_fd` writes. -/
def writeFd (data : List (Text × Json Finite)) : Except PyError ByteArray :=
  if (Json.object data).depth ≤ interpreter.encoderDepth then
    let payload := dumpsIndented interpreter.format (Json.object data).sortKeys 0
    .ok (String.ofList (payload.map fun code => Char.ofNat code.val)).toUTF8
  else .error .recursionError

/-- The statistics with a new time of the last optimization. -/
def optimizedAt (now : Text) (data : List (Text × Json Finite)) : List (Text × Json Finite) :=
  setField data (text "last_optimized_at") (.str now)

/-- The content of the file with a new time of the last optimization. -/
def stamp (now : Text) (raw : ByteArray) : Except PyError ByteArray :=
  (readFd interpreter raw).bind fun data => writeFd interpreter (optimizedAt now data)

/-- The content is read, and what is read is not nested too deep to be written. -/
def Stampable (now : Text) (raw : ByteArray) : Prop :=
  ∃ data, readFd interpreter raw = .ok data ∧
    (Json.object (optimizedAt now data)).depth ≤ interpreter.encoderDepth

def sidecar (skillDir : List Name) : List Name :=
  skillDir ++ osPath [Python.Str.ofString ".stats.json"]

/-- `mark_optimized` -/
def markOptimized (now : Text) (tree : Tree) (skillDir : List Name) : Except PyError Unit × Tree :=
  match tree.makeDirectories true skillDir with
  | .error _ => (.ok (), tree)
  | .ok made =>
    match made.openFile (sidecar skillDir) ByteArray.empty with
    | .error _ => (.ok (), made)
    | .ok (raw, opened) =>
      match stamp interpreter now raw with
      | .error raised => (.error raised, opened)
      | .ok payload =>
        match opened.writeFile (sidecar skillDir) payload with
        | .error _ => (.ok (), opened)
        | .ok next => (.ok (), next)

/-! ### What becomes of the files -/

section Files

variable {interpreter} {now : Text} {tree : Tree} {skillDir path : List Name}

theorem stamp_eq_ok_iff {raw : ByteArray} :
    (∃ payload, stamp interpreter now raw = .ok payload) ↔ Stampable interpreter now raw := by
  constructor
  · rintro ⟨payload, isStamped⟩
    obtain ⟨data, isRead, isWritten⟩ := bind_eq_ok_iff.mp isStamped
    refine ⟨data, isRead, ?_⟩
    unfold writeFd at isWritten
    split at isWritten
    next shallow => exact shallow
    next => cases isWritten
  · rintro ⟨data, isRead, shallow⟩
    refine ⟨_, bind_eq_ok_iff.mpr ⟨data, isRead, if_pos shallow⟩⟩

/-- A new file is read as the defaults, which can be written. -/
theorem stampable_empty (now : Text) : Stampable interpreter now ByteArray.empty :=
  ⟨defaultStats, rfl, Nat.le_of_lt interpreter.deepEnough.2⟩

theorem readFd_of_tooDeep {content : String}
    (tooDeep : loads interpreter.format interpreter.maxStrDigits interpreter.scannerDepth
      (content.toList.map codePoint) = .error .tooDeep) :
    readFd interpreter content.toUTF8 = .error .recursionError := by
  have notEmpty : ¬ content.toUTF8.isEmpty = true := by
    intro isEmpty
    rw [eq_of_isEmpty_toUTF8 isEmpty, loads, scanOnce_eq] at tooDeep
    cases tooDeep
  unfold readFd
  rw [if_neg notEmpty, textOf_toUTF8]
  dsimp only
  rw [tooDeep]

/-- Only the file of the statistics changes, and it does not go away. -/
theorem file_of_markOptimized (path : List Name) :
    (markOptimized interpreter now tree skillDir).2.file path = tree.file path ∨
      path = sidecar skillDir ∧
        ((markOptimized interpreter now tree skillDir).2.file path).isSome = true := by
  unfold markOptimized
  split
  next => exact Or.inl rfl
  next made isMade =>
    have same := congrFun (FileTree.file_of_makeDirectories isMade) path
    split
    next => exact Or.inl same
    next raw opened isOpened =>
      have kept : opened.file path = tree.file path ∨
          path = sidecar skillDir ∧ (opened.file path).isSome = true := by
        rcases FileTree.openFile_cases isOpened with ⟨_, rfl⟩ | ⟨_, _, isWritten⟩
        · exact Or.inl same
        · rw [FileTree.file_of_writeFile isWritten]
          by_cases isPath : path = sidecar skillDir
          · rw [if_pos isPath]
            exact Or.inr ⟨isPath, rfl⟩
          · rw [if_neg isPath]
            exact Or.inl same
      split
      next => exact kept
      next payload _ =>
        split
        next => exact kept
        next next isWritten =>
          rw [FileTree.file_of_writeFile isWritten]
          by_cases isPath : path = sidecar skillDir
          · rw [if_pos isPath]
            exact Or.inr ⟨isPath, rfl⟩
          · rw [if_neg isPath]
            exact kept

/-- The stamping raises exactly if what is in the file cannot be stamped. -/
theorem markOptimized_eq_ok_iff (isDirectory : tree.IsDirectory skillDir) :
    (markOptimized interpreter now tree skillDir).1 = .ok () ↔
      ∀ raw, tree.file (sidecar skillDir) = some raw → Stampable interpreter now raw := by
  unfold markOptimized
  rw [FileTree.makeDirectories_of_isDirectory isDirectory]
  dsimp only
  split
  next raised notOpened =>
    refine iff_of_true rfl fun raw isFile => ?_
    cases notOpened.symm.trans (FileTree.openFile_of_file isFile _)
  next raw opened isOpened =>
    have isRaw : ∀ found, tree.file (sidecar skillDir) = some found → found = raw := by
      intro found isFile
      cases isOpened.symm.trans (FileTree.openFile_of_file isFile _)
      rfl
    split
    next raised notStamped =>
      refine iff_of_false (fun same => by cases same) fun stamped => ?_
      have stampable : Stampable interpreter now raw := by
        rcases FileTree.openFile_cases isOpened with ⟨isFile, _⟩ | ⟨_, isNew, _⟩
        · exact stamped raw isFile
        · rw [isNew]
          exact stampable_empty now
      obtain ⟨payload, isStamped⟩ := stamp_eq_ok_iff.mpr stampable
      cases notStamped.symm.trans isStamped
    next payload isStamped =>
      have stampable : Stampable interpreter now raw := stamp_eq_ok_iff.mp ⟨payload, isStamped⟩
      refine iff_of_true ?_ fun found isFile => isRaw found isFile ▸ stampable
      split
      next => rfl
      next => rfl

end Files

end LiteHorse.Skills.Stats
