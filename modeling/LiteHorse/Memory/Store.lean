/-
This file models the memory of the command line: one text file for each of MEMORY.md and
USER.md. The file holds the entries as the document of a cloud turn does, but it is read with
universal newlines, so a carriage return that is written comes back as a newline.

`entries_save` says which entries come back: the entries of the joined text, with their carriage
returns rewritten.
-/

import LiteHorse.Agent.MemoryCloud
import LiteHorse.Library.BlankRewrite

namespace LiteHorse.Memory

open Agent Delimited Python Security

/-! ### The store -/

/-- A store and the text of its file. -/
structure MemoryStore where
  text : String
  charLimit : Nat

inductive StoreError where
  | valueError (message : String)
  | memoryFull (current limit attempted : Nat)
  | unsafeMemoryContent (message : String)

namespace MemoryStore

variable (isPrintable : Char → Bool) (store : MemoryStore)

/-- `MemoryStore.entries` -/
def entries : List String :=
  let raw := strip (readText store.text)
  if raw = "" then [] else ((splitAt '§' raw).map strip).filter fun entry => entry ≠ ""

/-- The characters of some entries, with the delimiters between them. -/
def charsOf (entries : List String) : Nat :=
  entries.foldl (fun total entry => total + entry.length) 0 +
    (entries.length - 1) * entryDelimiter.length

def totalChars : Nat := charsOf store.entries

/-- `_validate` -/
def validate (content : String) : Except StoreError Unit :=
  if strip content = "" then .error (.valueError "empty memory entry")
  else (checkUntrusted content).mapError .unsafeMemoryContent

/-- `_save` -/
def save (entries : List String) : MemoryStore :=
  let text := entryDelimiter.intercalate entries
  { store with text := if text ≠ "" then text ++ "\n" else "" }

def add (content : String) : Except StoreError MemoryStore := do
  validate content
  let existing := store.entries
  if content ∈ existing then return store
  let newTotal := store.totalChars + content.length +
    (if existing.isEmpty then 0 else entryDelimiter.length)
  if newTotal > store.charLimit then
    throw (.memoryFull store.totalChars store.charLimit content.length)
  return store.save (existing ++ [content])

/-- The place of the one entry with a substring, which `replace` and `remove` look for. -/
def matchOf (substring : String) (entries : List String) : Except StoreError Nat :=
  match entries.findIdxs (isIn substring) with
  | [] => .error (.valueError ("no entry matches substring: " ++ reprString isPrintable substring))
  | [index] => .ok index
  | found =>
    .error (.valueError ("substring " ++ reprString isPrintable substring ++ " matches " ++
      toString found.length ++ " entries; be more specific"))

def replace (oldSubstring newContent : String) : Except StoreError MemoryStore := do
  validate newContent
  let index ← matchOf isPrintable oldSubstring store.entries
  let entries := store.entries.set index newContent
  let total := charsOf entries
  if total > store.charLimit then
    throw (.memoryFull total store.charLimit newContent.length)
  return store.save entries

def remove (substring : String) : Except StoreError MemoryStore := do
  let index ← matchOf isPrintable substring store.entries
  return store.save (store.entries.eraseIdx index)

end MemoryStore

theorem validate_ok_iff {content : String} :
    MemoryStore.validate content = .ok () ↔
      strip content ≠ "" ∧ checkUntrusted content = .ok () := by
  unfold MemoryStore.validate
  split
  next isBlank =>
    refine ⟨fun accepted => ?_, fun both => absurd isBlank both.1⟩
    cases accepted
  next nonblank => rw [mapError_eq_ok_iff, and_iff_right nonblank]

/-! ### Universal newlines -/

/-- Reading the file, as it acts on the blanks of its text. -/
def newlineRewrite : BlankRewrite isSpace where
  apply := universalNewlines
  apply_nil := rfl
  apply_solid := fun front symbol rest solid =>
    universalNewlines_append (fun same => solid (by rw [same]; rfl))
      (fun same => solid (by rw [same]; rfl)) front rest
  apply_blanks := fun text allBlank symbol member => by
    rcases (mem_universalNewlines member).2 with isThere | isNewline
    · exact allBlank symbol isThere
    · rw [isNewline]
      rfl

/-! ### The entries that come back -/

section Entries

variable {store : MemoryStore} {text entry : String} {entries : List String}

theorem splitEntries_strip (text : String) : splitEntries (strip text) = splitEntries text := by
  refine List.map_injective_iff.mpr (fun _ _ => String.toList_injective) ?_
  rw [toList_splitEntries, toList_splitEntries, toList_strip]
  show memoryFormat.entries (trim memoryFormat.blank text.toList) = _
  exact Format.entries_trim text.toList

theorem entries_eq (store : MemoryStore) : store.entries = splitEntries (readText store.text) :=
  splitEntries_strip _

theorem toList_splitEntries_readText (text : String) :
    (splitEntries (readText text)).map String.toList =
      (splitEntries text).map fun entry => universalNewlines entry.toList := by
  unfold readText
  rw [toList_splitEntries, String.toList_ofList]
  refine (@Format.entries_apply Char _ memoryFormat newlineRewrite text.toList).trans ?_
  rw [← toList_splitEntries, List.map_map]
  rfl

theorem splitEntries_readText (text : String) :
    splitEntries (readText text) = (splitEntries text).map readText := by
  refine List.map_injective_iff.mpr (fun _ _ => String.toList_injective) ?_
  rw [toList_splitEntries_readText, List.map_map]
  refine congrArg (fun read => (splitEntries text).map read) (funext fun entry => ?_)
  exact String.toList_ofList.symm

theorem splitEntries_newline (text : String) : splitEntries (text ++ "\n") = splitEntries text := by
  refine List.map_injective_iff.mpr (fun _ _ => String.toList_injective) ?_
  rw [toList_splitEntries, toList_splitEntries, String.toList_append]
  show memoryFormat.entries (text.toList ++ [memoryFormat.padding]) = _
  exact Format.entries_concat_blank memoryFormat.padding_blank

/-- The newline at the end of the file is no part of an entry. -/
theorem entries_save (entries : List String) :
    (store.save entries).entries = (splitEntries (joinEntries entries)).map readText := by
  have saved : splitEntries (store.save entries).text = splitEntries (joinEntries entries) := by
    unfold MemoryStore.save
    dsimp only
    split
    next => exact splitEntries_newline _
    next isEmpty =>
      rw [joinEntries, not_not.mp isEmpty]
  rw [entries_eq, splitEntries_readText, saved]

/-- The entries of a file have no carriage return. -/
theorem no_return_of_mem_entries (member : entry ∈ store.entries) : '\r' ∉ entry.toList := by
  rw [entries_eq, splitEntries_readText] at member
  obtain ⟨written, _, rfl⟩ := List.mem_map.mp member
  unfold readText
  rw [String.toList_ofList]
  exact fun hasReturn => (mem_universalNewlines hasReturn).1 rfl

end Entries

end LiteHorse.Memory
