/-
This file models the memory backend of the command line, which wraps the store of one file.
`call_eq` says that a mutation is the change of the entries the cloud backend makes too, and
then a save of the changed list that asks nothing of it.
-/

import LiteHorse.Memory.Store

namespace LiteHorse.Agent

open Memory Python

/-- The texts of MEMORY.md and USER.md. -/
abbrev MemoryFiles := MemoryKind → String

/-- `_store_for` -/
def storeFor (files : MemoryFiles) (kind : MemoryKind) : MemoryStore where
  text := files kind
  charLimit := kindLimit kind

/-- The error the backend makes of the store's. `remove` has no handler: its store raises value
errors alone. -/
def storeError (kind : MemoryKind) : StoreError → MemoryError
  | .valueError message => .valueError message
  | .memoryFull current limit _ => .memoryFull kind current limit
  | .unsafeMemoryContent message => .unsafeMemoryContent message

namespace MemoryLocalBackend

variable (isPrintable : Char → Bool) (files : MemoryFiles) (kind : MemoryKind)

def entries : List String := (storeFor files kind).entries

def get : String := entryDelimiter.intercalate (storeFor files kind).entries

def totalChars : Nat := (storeFor files kind).totalChars

/-- The files after a mutation of the store. -/
def mutate (changed : Except StoreError MemoryStore) : Except MemoryError MemoryFiles :=
  (changed.mapError (storeError kind)).map fun store => Function.update files kind store.text

def add (content : String) : Except MemoryError MemoryFiles :=
  mutate files kind ((storeFor files kind).add content)

def replace (old new : String) : Except MemoryError MemoryFiles :=
  mutate files kind ((storeFor files kind).replace isPrintable old new)

def remove (old : String) : Except MemoryError MemoryFiles :=
  mutate files kind ((storeFor files kind).remove isPrintable old)

/-- The files after a call that succeeds. -/
def call : MemoryCall → Except MemoryError MemoryFiles
  | .add content => add files kind content
  | .replace old new => replace isPrintable files kind old new
  | .remove old => remove isPrintable files kind old

end MemoryLocalBackend

/-! ### What a call does -/

/-- The entries a call would leave; `none` if it leaves them as they are. -/
def MemoryCall.planned (isPrintable : Char → Bool) (kind : MemoryKind) (call : MemoryCall)
    (entries : List String) : Except MemoryError (Option (List String)) := do
  call.check
  call.change isPrintable kind entries

/-- The files with some entries for a document. -/
def saved (files : MemoryFiles) (kind : MemoryKind) : Option (List String) → MemoryFiles
  | none => files
  | some entries => Function.update files kind ((storeFor files kind).save entries).text

section Call

variable {isPrintable : Char → Bool} {files : MemoryFiles} {kind : MemoryKind}
  {old : String} {entries : List String}

theorem validate_eq (content : String) :
    (MemoryStore.validate content).mapError (storeError kind) = checkEntry content := by
  unfold MemoryStore.validate checkEntry
  split
  next => rfl
  next =>
    cases Security.checkUntrusted content with
    | error refused => rfl
    | ok accepted => rfl

theorem storeMatchOf_eq :
    (MemoryStore.matchOf isPrintable old entries).mapError (storeError kind) =
      matchOf isPrintable old entries := by
  unfold MemoryStore.matchOf matchOf
  cases entries.findIdxs (isIn old) with
  | nil => rfl
  | cons index others =>
    cases others with
    | nil => rfl
    | cons second others => rfl

theorem add_eq (content : String) :
    MemoryLocalBackend.add files kind content = checkEntry content >>= fun _ =>
      (addEntry kind content (MemoryLocalBackend.entries files kind)).map (saved files kind) := by
  have sameTotal : (storeFor files kind).totalChars =
      totalChars (storeFor files kind).entries := rfl
  have sameLimit : (storeFor files kind).charLimit = kindLimit kind := rfl
  have unchanged : Function.update files kind (storeFor files kind).text = files :=
    Function.update_eq_self kind files
  unfold MemoryLocalBackend.add MemoryLocalBackend.mutate MemoryStore.add
    MemoryLocalBackend.entries addEntry
  rw [mapError_bind, mapValue_bind, validate_eq]
  refine congrArg _ (funext fun _ => ?_)
  dsimp only
  by_cases isThere : content ∈ (storeFor files kind).entries
  · rw [if_pos isThere, if_pos isThere]
    exact congrArg Except.ok unchanged
  · rw [if_neg isThere, if_neg isThere, sameTotal, sameLimit]
    by_cases tooLong : totalChars (storeFor files kind).entries + content.length +
        (if (storeFor files kind).entries.isEmpty = true then 0 else entryDelimiter.length) >
          kindLimit kind
    · rw [if_pos tooLong, if_pos tooLong]
      rfl
    · rw [if_neg tooLong, if_neg tooLong]
      rfl

theorem replace_eq (old new : String) :
    MemoryLocalBackend.replace isPrintable files kind old new = checkEntry new >>= fun _ =>
      (replaceEntry isPrintable kind old new (MemoryLocalBackend.entries files kind)).map
        (saved files kind) := by
  have sameLimit : (storeFor files kind).charLimit = kindLimit kind := rfl
  unfold MemoryLocalBackend.replace MemoryLocalBackend.mutate MemoryStore.replace
    MemoryLocalBackend.entries replaceEntry
  rw [mapError_bind, mapValue_bind, validate_eq]
  refine congrArg _ (funext fun _ => ?_)
  rw [mapError_bind, mapValue_bind, mapValue_bind, storeMatchOf_eq]
  refine congrArg _ (funext fun index => ?_)
  have sameTotal : MemoryStore.charsOf ((storeFor files kind).entries.set index new) =
      totalChars ((storeFor files kind).entries.set index new) := rfl
  dsimp only
  rw [sameTotal, sameLimit]
  by_cases tooLong : totalChars ((storeFor files kind).entries.set index new) > kindLimit kind
  · rw [if_pos tooLong, if_pos tooLong]
    rfl
  · rw [if_neg tooLong, if_neg tooLong]
    rfl

theorem remove_eq (old : String) :
    MemoryLocalBackend.remove isPrintable files kind old =
      (removeEntry isPrintable old (MemoryLocalBackend.entries files kind)).map
        (saved files kind) := by
  unfold MemoryLocalBackend.remove MemoryLocalBackend.mutate MemoryStore.remove
    MemoryLocalBackend.entries removeEntry
  rw [mapError_bind, mapValue_bind, mapValue_bind, storeMatchOf_eq]
  exact congrArg _ (funext fun index => rfl)

theorem MemoryLocalBackend.call_eq (call : MemoryCall) :
    MemoryLocalBackend.call isPrintable files kind call =
      (call.planned isPrintable kind (MemoryLocalBackend.entries files kind)).map
        (saved files kind) := by
  unfold MemoryCall.planned
  rw [mapValue_bind]
  cases call with
  | add content => exact add_eq content
  | replace old new => exact replace_eq old new
  | remove old =>
    have noCheck : ∀ next : Unit → Except MemoryError MemoryFiles,
        ((MemoryCall.remove old).check >>= next) = next () := fun _ => rfl
    rw [noCheck]
    exact remove_eq old

/-- The cloud backend asks of the joined text that it can be stored. -/
theorem MemoryCall.textAfter_eq (call : MemoryCall) (body : String) :
    call.textAfter isPrintable kind body =
      call.planned isPrintable kind (splitEntries body) >>= fun changed =>
        match changed with
        | none => .ok none
        | some entries =>
          (storable kind (joinEntries entries)).map fun _ => some (joinEntries entries) := by
  unfold MemoryCall.textAfter MemoryCall.planned
  cases call.check with
  | error refused => rfl
  | ok accepted => rfl

end Call

end LiteHorse.Agent
