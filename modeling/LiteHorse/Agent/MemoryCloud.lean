/-
This file models the memory backend of the cloud turns. A document is a list of entries kept as
one text, and each of the three mutations reads the text, changes the list and writes the text
back, in a transaction of the user that names no agent.

What a call makes of a document depends on the document's text alone. `MemoryCall.textAfter` is
that function, and `call_eq` says that the backend computes it.
-/

import LiteHorse.Library.Delimited
import LiteHorse.Repositories.MemoryRepo

namespace LiteHorse.Agent

open Delimited Python Repositories Security Storage

/-! ### The kinds and the entries of a document -/

inductive MemoryKind where
  | memory
  | user
deriving DecidableEq

/-- `_KIND_DOC` -/
def kindDoc : MemoryKind → String
  | .memory => "memory.md"
  | .user => "user.md"

def memoryCharLimit : Nat := 2200

def userProfileCharLimit : Nat := 1375

/-- `_KIND_LIMIT` -/
def kindLimit : MemoryKind → Nat
  | .memory => memoryCharLimit
  | .user => userProfileCharLimit

def entryDelimiter : String := "\n§\n"

/-- `_split_entries`. The stripped delimiter is the section sign. -/
def splitEntries (text : String) : List String :=
  if text = "" then [] else ((splitAt '§' text).map strip).filter fun entry => entry ≠ ""

/-- `_join_entries` -/
def joinEntries (entries : List String) : String := entryDelimiter.intercalate entries

/-- `_total_chars` -/
def totalChars (entries : List String) : Nat :=
  entries.foldl (fun total entry => total + entry.length) 0 +
    (entries.length - 1) * entryDelimiter.length

/-! ### Reading back what was written -/

/-- How the entries are set apart in a document. -/
def memoryFormat : Format Char where
  separator := '§'
  padding := '\n'
  blank := isSpace
  padding_blank := rfl
  separator_solid := rfl

theorem toList_strip (text : String) : (strip text).toList = trim isSpace text.toList :=
  String.toList_ofList

theorem toList_splitEntries (text : String) :
    (splitEntries text).map String.toList = memoryFormat.entries text.toList := by
  have stripped : String.toList ∘ strip ∘ String.ofList = trim isSpace := by
    funext piece
    exact (toList_strip _).trans (congrArg _ String.toList_ofList)
  have kept : (fun entry => decide (entry ≠ "")) ∘ strip ∘ String.ofList =
      (fun piece => !piece.isEmpty) ∘ trim isSpace := by
    funext piece
    have sameText : strip (String.ofList piece) = String.ofList (trim isSpace piece) := by
      unfold strip
      rw [String.toList_ofList]
      rfl
    rw [Function.comp_apply, Function.comp_apply, Function.comp_apply, sameText]
    cases trim isSpace piece with
    | nil => rfl
    | cons first rest =>
      refine decide_eq_true fun isEmpty => ?_
      have isNil := congrArg String.toList isEmpty
      rw [String.toList_ofList] at isNil
      cases isNil
  unfold splitEntries
  split
  next isEmpty =>
    rw [isEmpty]
    rfl
  next =>
    unfold splitAt Format.entries
    rw [List.map_map, List.filter_map, List.map_map, kept, stripped, List.filter_map]
    rfl

theorem toList_joinEntries (entries : List String) :
    (joinEntries entries).toList = memoryFormat.join (entries.map String.toList) :=
  String.toList_intercalate

section Entries

variable {text entry : String} {entries : List String}

theorem clean_of_mem_splitEntries (member : entry ∈ splitEntries text) :
    memoryFormat.Clean entry.toList := by
  have inText : entry.toList ∈ memoryFormat.entries text.toList := by
    rw [← toList_splitEntries]
    exact List.mem_map_of_mem member
  exact Format.clean_of_mem_entries inText

theorem inside_of_mem_splitEntries (member : entry ∈ splitEntries text) :
    entry.toList <:+: text.toList := by
  have inText : entry.toList ∈ memoryFormat.entries text.toList := by
    rw [← toList_splitEntries]
    exact List.mem_map_of_mem member
  exact Format.infix_of_mem_entries inText

theorem inside_joinEntries (member : entry ∈ entries) :
    entry.toList <:+: (joinEntries entries).toList := by
  rw [toList_joinEntries]
  exact infix_intercalate (List.mem_map_of_mem member)

/-- A joined text has the entries of its parts. -/
theorem splitEntries_joinEntries (entries : List String) :
    splitEntries (joinEntries entries) = entries.flatMap splitEntries := by
  refine List.map_injective_iff.mpr (fun _ _ => String.toList_injective) ?_
  rw [toList_splitEntries, toList_joinEntries, Format.entries_join, List.flatMap_map,
    List.map_flatMap]
  exact congrArg (fun read => entries.flatMap read)
    (funext fun entry => (toList_splitEntries entry).symm)

theorem splitEntries_joinEntries_clean
    (clean : ∀ entry ∈ entries, memoryFormat.Clean entry.toList) :
    splitEntries (joinEntries entries) = entries := by
  refine List.map_injective_iff.mpr (fun _ _ => String.toList_injective) ?_
  rw [toList_splitEntries, toList_joinEntries]
  refine Format.entries_join_clean fun part member => ?_
  obtain ⟨entry, isEntry, rfl⟩ := List.mem_map.mp member
  exact clean entry isEntry

end Entries

/-! ### The errors -/

inductive MemoryError where
  | valueError (message : String)
  | memoryFull (kind : MemoryKind) (current limit : Nat)
  | unsafeMemoryContent (message : String)
  /-- An error of the repository that the backend lets through. -/
  | repo (error : MemoryRepoError)

/-- The error `_put` makes of the repository's. -/
def putError (kind : MemoryKind) : MemoryRepoError → MemoryError
  | .memoryFull _ attempted limit => .memoryFull kind attempted limit
  | .unsafeMemoryContent message => .unsafeMemoryContent message
  | error => .repo error

/-! ### The changes of the list -/

/-- What `add` and `replace` ask of the new entry. -/
def checkEntry (content : String) : Except MemoryError Unit :=
  if strip content = "" then .error (.valueError "empty memory entry")
  else (checkUntrusted content).mapError .unsafeMemoryContent

/-- The entries with a new one; `none` if it is there already. -/
def addEntry (kind : MemoryKind) (content : String) (entries : List String) :
    Except MemoryError (Option (List String)) :=
  if content ∈ entries then .ok none
  else
    let newTotal := totalChars entries + content.length +
      (if entries.isEmpty then 0 else entryDelimiter.length)
    let limit := kindLimit kind
    if newTotal > limit then .error (.memoryFull kind (totalChars entries) limit)
    else .ok (some (entries ++ [content]))

variable (isPrintable : Char → Bool)

/-- The place of the one entry with a substring. -/
def matchOf (old : String) (entries : List String) : Except MemoryError Nat :=
  match entries.findIdxs (isIn old) with
  | [] => .error (.valueError ("no entry matches substring: " ++ reprString isPrintable old))
  | [index] => .ok index
  | found =>
    .error (.valueError ("substring " ++ reprString isPrintable old ++ " matches " ++
      toString found.length ++ " entries; be more specific"))

def replaceEntry (kind : MemoryKind) (old new : String) (entries : List String) :
    Except MemoryError (Option (List String)) := do
  let index ← matchOf isPrintable old entries
  let entries := entries.set index new
  let limit := kindLimit kind
  if totalChars entries > limit then throw (.memoryFull kind (totalChars entries) limit)
  return some entries

def removeEntry (old : String) (entries : List String) :
    Except MemoryError (Option (List String)) := do
  let index ← matchOf isPrintable old entries
  return some (entries.eraseIdx index)

/-! ### The backend -/

structure MemoryCloudBackend where
  userId : UUID

namespace MemoryCloudBackend

variable (backend : MemoryCloudBackend) (documents : UserDocuments) (owner : UUID)
  (kind : MemoryKind)

def get : Except MemoryRepoError String :=
  MemoryRepo.get isPrintable documents (dbSession (some backend.userId)) (kindDoc kind)

def entries : Except MemoryRepoError (List String) :=
  (backend.get isPrintable documents kind).map splitEntries

/-- `total_chars` -/
def totalChars : Except MemoryRepoError Nat :=
  (backend.entries isPrintable documents kind).map Agent.totalChars

/-- The body of the three mutations. -/
def mutate (change : List String → Except MemoryError (Option (List String))) :
    Except MemoryError UserDocuments := do
  let session := dbSession (some backend.userId)
  let body ← (MemoryRepo.get isPrintable documents session (kindDoc kind)).mapError .repo
  match ← change (splitEntries body) with
  | none => return documents
  | some entries =>
    (MemoryRepo.put isPrintable documents session owner (kindDoc kind)
      (joinEntries entries)).mapError (putError kind)

def add (content : String) : Except MemoryError UserDocuments := do
  checkEntry content
  backend.mutate isPrintable documents owner kind (addEntry kind content)

def replace (old new : String) : Except MemoryError UserDocuments := do
  checkEntry new
  backend.mutate isPrintable documents owner kind (replaceEntry isPrintable kind old new)

def remove (old : String) : Except MemoryError UserDocuments :=
  backend.mutate isPrintable documents owner kind (removeEntry isPrintable old)

end MemoryCloudBackend

/-! ### What a call makes of a text -/

inductive MemoryCall where
  | add (content : String)
  | replace (old new : String)
  | remove (old : String)

/-- The rows after a call that succeeds. -/
def MemoryCloudBackend.call (backend : MemoryCloudBackend) (documents : UserDocuments)
    (owner : UUID) (kind : MemoryKind) : MemoryCall → Except MemoryError UserDocuments
  | .add content => backend.add isPrintable documents owner kind content
  | .replace old new => backend.replace isPrintable documents owner kind old new
  | .remove old => backend.remove isPrintable documents owner kind old

/-- The check of the call's argument. -/
def MemoryCall.check : MemoryCall → Except MemoryError Unit
  | .add content => checkEntry content
  | .replace _ new => checkEntry new
  | .remove _ => .ok ()

/-- The call's change of the entries. -/
def MemoryCall.change (kind : MemoryKind) :
    MemoryCall → List String → Except MemoryError (Option (List String))
  | .add content => addEntry kind content
  | .replace old new => replaceEntry isPrintable kind old new
  | .remove old => removeEntry isPrintable old

/-- The limit of the repository. -/
def docLimit : MemoryKind → Nat
  | .memory => memoryMdCharLimit
  | .user => userMdCharLimit

/-- The repository takes the text. -/
def storable (kind : MemoryKind) (content : String) : Except MemoryError Unit :=
  (do
    checkContent (kindDoc kind) content (docLimit kind)
    textColumn content).mapError (putError kind)

/-- The text a call writes over a text; `none` if it succeeds without a write. -/
def MemoryCall.textAfter (kind : MemoryKind) (call : MemoryCall) (body : String) :
    Except MemoryError (Option String) := do
  call.check
  match ← call.change isPrintable kind (splitEntries body) with
  | none => return none
  | some entries =>
    storable kind (joinEntries entries)
    return some (joinEntries entries)

/-- The text of the document once the call is over. -/
def MemoryCall.result (kind : MemoryKind) (call : MemoryCall) (body : String) : String :=
  match call.textAfter isPrintable kind body with
  | .ok (some text) => text
  | _ => body

/-- The rows with a text for a document of the user. -/
def written (documents : UserDocuments) (userId owner : UUID) (kind : MemoryKind) :
    Option String → UserDocuments
  | none => documents
  | some content =>
    writeRow documents userId (kindDoc kind)
      (upserted documents userId (kindDoc kind) { agentId := owner, content, version := 1 })

section Written

variable {documents : UserDocuments} {userId owner : UUID} {kind other : MemoryKind}

theorem kindDoc_injective : Function.Injective kindDoc := by
  intro kind other same
  cases kind with
  | memory =>
    cases other with
    | memory => rfl
    | user => exact absurd same (by decide)
  | user =>
    cases other with
    | memory => exact absurd same (by decide)
    | user => rfl

theorem written_self (text : String) :
    written documents userId owner kind (some text) userId (kindDoc kind) =
      some (upserted documents userId (kindDoc kind)
        { agentId := owner, content := text, version := 1 }) := writeRow_self

theorem written_other (different : other ≠ kind) (after : Option String) :
    written documents userId owner kind after userId (kindDoc other) =
      documents userId (kindDoc other) := by
  cases after with
  | none => rfl
  | some text => exact writeRow_other fun same => different (kindDoc_injective same)

theorem documentText_written (after : Option String) :
    documentText (written documents userId owner kind after) userId (kindDoc kind) =
      after.getD (documentText documents userId (kindDoc kind)) := by
  cases after with
  | none => rfl
  | some text =>
    unfold documentText
    rw [written_self]
    exact upserted_content _

end Written

theorem limitOf_kindDoc (kind : MemoryKind) :
    limitOf isPrintable (kindDoc kind) = .ok (docLimit kind) := by
  cases kind with
  | memory => rfl
  | user => rfl

theorem get_kindDoc (documents : UserDocuments) (userId : UUID) (kind : MemoryKind) :
    MemoryRepo.get isPrintable documents (dbSession (some userId)) (kindDoc kind) =
      .ok (documentText documents userId (kindDoc kind)) := by
  rw [MemoryRepo.get_user, limitOf_kindDoc]
  rfl

theorem put_kindDoc (documents : UserDocuments) (userId owner : UUID) (kind : MemoryKind)
    (content : String) :
    (MemoryRepo.put isPrintable documents (dbSession (some userId)) owner (kindDoc kind)
        content).mapError (putError kind) =
      (storable kind content).map fun _ => written documents userId owner kind content := by
  rw [MemoryRepo.put_user, limitOf_kindDoc]
  unfold storable
  show Except.mapError _ (checkContent _ _ _ >>= fun _ => textColumn _ >>= fun _ => _) =
    Except.map _ (Except.mapError _ (checkContent _ _ _ >>= fun _ => textColumn _))
  cases checkContent (kindDoc kind) content (docLimit kind) with
  | error error => rfl
  | ok checked =>
    show Except.mapError _ (textColumn _ >>= fun _ => _) =
      Except.map _ (Except.mapError _ (textColumn _))
    cases textColumn content with
    | error error => rfl
    | ok stored => rfl

theorem MemoryCloudBackend.mutate_eq (backend : MemoryCloudBackend) (documents : UserDocuments)
    (owner : UUID) (kind : MemoryKind)
    (change : List String → Except MemoryError (Option (List String))) :
    backend.mutate isPrintable documents owner kind change =
      (do
        match ← change (splitEntries (documentText documents backend.userId (kindDoc kind))) with
        | none => return documents
        | some entries =>
          storable kind (joinEntries entries)
          return written documents backend.userId owner kind (joinEntries entries)) := by
  unfold MemoryCloudBackend.mutate
  dsimp only
  rw [get_kindDoc]
  show (change _ >>= fun _ => _) = _
  cases change (splitEntries (documentText documents backend.userId (kindDoc kind))) with
  | error error => rfl
  | ok changed =>
    cases changed with
    | none => rfl
    | some entries =>
      refine (put_kindDoc isPrintable documents backend.userId owner kind _).trans ?_
      show _ = storable kind (joinEntries entries) >>= fun _ => _
      cases storable kind (joinEntries entries) with
      | error error => rfl
      | ok stored => rfl

/-- What the backend does is a matter of the document's text. -/
theorem MemoryCloudBackend.call_eq (backend : MemoryCloudBackend) (documents : UserDocuments)
    (owner : UUID) (kind : MemoryKind) (call : MemoryCall) :
    backend.call isPrintable documents owner kind call =
      (call.textAfter isPrintable kind
        (documentText documents backend.userId (kindDoc kind))).map
          (written documents backend.userId owner kind) := by
  have checkedFirst : backend.call isPrintable documents owner kind call = (do
      call.check
      backend.mutate isPrintable documents owner kind (call.change isPrintable kind)) := by
    cases call with
    | add content => rfl
    | replace old new => rfl
    | remove old => rfl
  rw [checkedFirst, mutate_eq]
  unfold MemoryCall.textAfter
  cases call.check with
  | error error => rfl
  | ok checked =>
    show (MemoryCall.change _ _ _ _ >>= fun _ => _) =
      Except.map _ (MemoryCall.change _ _ _ _ >>= fun _ => _)
    cases call.change isPrintable kind
        (splitEntries (documentText documents backend.userId (kindDoc kind))) with
    | error error => rfl
    | ok entries =>
      cases entries with
      | none => rfl
      | some entries =>
        show (storable _ _ >>= fun _ => _) = Except.map _ (storable _ _ >>= fun _ => _)
        cases storable kind (joinEntries entries) with
        | error error => rfl
        | ok stored => rfl

/-! ### What a call that succeeds has done -/

section Succeeds

variable {isPrintable} {kind : MemoryKind} {body content old new text : String}
  {entries changed : List String} {after : Option String} {call : MemoryCall}

theorem le_foldl_length (total : Nat) :
    total ≤ entries.foldl (fun total entry => total + entry.length) total := by
  induction entries generalizing total with
  | nil => exact le_rfl
  | cons first rest inductionHypothesis =>
    exact (Nat.le_add_right total first.length).trans (inductionHypothesis _)

theorem length_le_foldl_length {entry : String} (total : Nat) (member : entry ∈ entries) :
    entry.length ≤ entries.foldl (fun total entry => total + entry.length) total := by
  induction entries generalizing total with
  | nil => cases member
  | cons first rest inductionHypothesis =>
    rcases List.mem_cons.mp member with same | member
    · rw [same]
      exact (Nat.le_add_left first.length total).trans (le_foldl_length _)
    · exact inductionHypothesis _ member

theorem length_le_totalChars {entry : String} (member : entry ∈ entries) :
    entry.length ≤ totalChars entries :=
  (length_le_foldl_length 0 member).trans (Nat.le_add_right _ _)

theorem totalChars_concat : totalChars (entries ++ [content]) =
    totalChars entries + content.length +
      (if entries.isEmpty then 0 else entryDelimiter.length) := by
  unfold totalChars
  rw [List.foldl_append, List.foldl_cons, List.foldl_nil, List.length_append,
    List.length_singleton, Nat.add_sub_cancel]
  cases entries with
  | nil => rfl
  | cons first rest =>
    rw [List.isEmpty_cons, if_neg Bool.false_ne_true, List.length_cons, Nat.add_sub_cancel,
      Nat.succ_mul]
    omega

theorem addEntry_eq : addEntry kind content entries =
    if content ∈ entries then .ok none
    else if totalChars (entries ++ [content]) > kindLimit kind then
      .error (.memoryFull kind (totalChars entries) (kindLimit kind))
    else .ok (some (entries ++ [content])) := by
  unfold addEntry
  rw [totalChars_concat]

theorem addEntry_some (succeeds : addEntry kind content entries = .ok (some changed)) :
    changed = entries ++ [content] ∧ totalChars changed ≤ kindLimit kind := by
  rw [addEntry_eq] at succeeds
  split at succeeds
  next => cases succeeds
  next =>
    split at succeeds
    next => cases succeeds
    next fits =>
      cases succeeds
      exact ⟨rfl, not_lt.mp fits⟩

theorem addEntry_none (succeeds : addEntry kind content entries = .ok none) :
    content ∈ entries := by
  rw [addEntry_eq] at succeeds
  split at succeeds
  next present => exact present
  next =>
    split at succeeds
    next => cases succeeds
    next => cases succeeds

theorem matchOf_ok {index : Nat} (succeeds : matchOf isPrintable old entries = .ok index) :
    entries.findIdxs (isIn old) = [index] ∧ index < entries.length := by
  unfold matchOf at succeeds
  split at succeeds
  next => cases succeeds
  next found isFound =>
    cases succeeds
    have member : index ∈ entries.findIdxs (isIn old) := by
      rw [isFound]
      exact List.mem_singleton_self index
    exact ⟨isFound, (List.mem_findIdxs_iff_exists_getElem_pos.mp member).1⟩
  next => cases succeeds

theorem replaceEntry_ok {changed : Option (List String)}
    (succeeds : replaceEntry isPrintable kind old new entries = .ok changed) :
    ∃ index, entries.findIdxs (isIn old) = [index] ∧ index < entries.length ∧
      changed = some (entries.set index new) ∧
      totalChars (entries.set index new) ≤ kindLimit kind := by
  obtain ⟨index, found, succeeds⟩ := bind_eq_ok_iff.mp succeeds
  obtain ⟨isFound, inside⟩ := matchOf_ok found
  change (if totalChars (entries.set index new) > kindLimit kind then _ else _) = _ at succeeds
  split at succeeds
  next => cases succeeds
  next fits =>
    cases succeeds
    exact ⟨index, isFound, inside, rfl, not_lt.mp fits⟩

theorem removeEntry_ok {changed : Option (List String)}
    (succeeds : removeEntry isPrintable old entries = .ok changed) :
    ∃ index, entries.findIdxs (isIn old) = [index] ∧ index < entries.length ∧
      changed = some (entries.eraseIdx index) := by
  obtain ⟨index, found, succeeds⟩ := bind_eq_ok_iff.mp succeeds
  obtain ⟨isFound, inside⟩ := matchOf_ok found
  cases succeeds
  exact ⟨index, isFound, inside, rfl⟩

theorem textAfter_none_iff :
    call.textAfter isPrintable kind body = .ok none ↔
      call.check = .ok () ∧ call.change isPrintable kind (splitEntries body) = .ok none := by
  constructor
  · intro succeeds
    obtain ⟨_, checked, succeeds⟩ := bind_eq_ok_iff.mp succeeds
    obtain ⟨changed, isChange, succeeds⟩ := bind_eq_ok_iff.mp succeeds
    cases changed with
    | none => exact ⟨checked, isChange⟩
    | some entries =>
      obtain ⟨_, _, succeeds⟩ := bind_eq_ok_iff.mp succeeds
      cases succeeds
  · rintro ⟨checked, isChange⟩
    exact bind_eq_ok_iff.mpr ⟨(), checked, bind_eq_ok_iff.mpr ⟨none, isChange, rfl⟩⟩

theorem textAfter_some_iff :
    call.textAfter isPrintable kind body = .ok (some text) ↔
      call.check = .ok () ∧ ∃ changed,
        call.change isPrintable kind (splitEntries body) = .ok (some changed) ∧
          storable kind (joinEntries changed) = .ok () ∧ joinEntries changed = text := by
  constructor
  · intro succeeds
    obtain ⟨_, checked, succeeds⟩ := bind_eq_ok_iff.mp succeeds
    obtain ⟨changed, isChange, succeeds⟩ := bind_eq_ok_iff.mp succeeds
    cases changed with
    | none => cases succeeds
    | some changed =>
      obtain ⟨_, stored, succeeds⟩ := bind_eq_ok_iff.mp succeeds
      cases succeeds
      exact ⟨checked, changed, isChange, stored, rfl⟩
  · rintro ⟨checked, changed, isChange, stored, rfl⟩
    refine bind_eq_ok_iff.mpr ⟨(), checked, bind_eq_ok_iff.mpr ⟨some changed, isChange, ?_⟩⟩
    exact bind_eq_ok_iff.mpr ⟨(), stored, rfl⟩

theorem storable_ok_iff :
    storable kind text = .ok () ↔
      (text.length ≤ docLimit kind ∧ (text ≠ "" → checkUntrusted text = .ok ())) ∧
        '\x00' ∉ text.toList := by
  unfold storable
  rw [mapError_eq_ok_iff, bind_eq_ok_iff]
  have checks : checkContent (kindDoc kind) text (docLimit kind) = .ok () ↔
      text.length ≤ docLimit kind ∧ (text ≠ "" → checkUntrusted text = .ok ()) := by
    unfold checkContent
    split
    next tooLong =>
      refine ⟨fun accepted => ?_, fun both => absurd both.1 (not_le.mpr tooLong)⟩
      cases accepted
    next fits =>
      rw [and_iff_right (not_lt.mp fits)]
      split
      next nonempty => rw [mapError_eq_ok_iff, forall_prop_of_true nonempty]
      next isEmpty => exact ⟨fun _ nonempty => absurd nonempty isEmpty, fun _ => rfl⟩
  have column : textColumn text = .ok () ↔ '\x00' ∉ text.toList := by
    unfold textColumn
    split
    next hasNul =>
      refine ⟨fun accepted => ?_, fun noNul => absurd hasNul noNul⟩
      cases accepted
    next noNul => exact ⟨fun _ => noNul, fun _ => rfl⟩
  rw [← checks, ← column]
  exact ⟨fun ⟨_, checked, stored⟩ => ⟨checked, stored⟩,
    fun ⟨checked, stored⟩ => ⟨(), checked, stored⟩⟩

/-! ### The texts the backend stores -/

/-- Every entry of the text fits the document on its own, and the column takes it. -/
structure Kept (kind : MemoryKind) (text : String) : Prop where
  fits : ∀ entry ∈ splitEntries text, entry.length ≤ kindLimit kind
  stored : '\x00' ∉ text.toList

theorem kept_empty : Kept kind "" where
  fits := fun _ member => absurd member List.not_mem_nil
  stored := List.not_mem_nil

theorem length_le_of_inside {part whole : String} (inside : part.toList <:+: whole.toList) :
    part.length ≤ whole.length := by
  rw [← String.length_toList, ← String.length_toList]
  exact inside.length_le

/-- An entry of the new list is an old one, or its length was counted. -/
theorem MemoryCall.fits_of_change (kept : Kept kind body)
    (isChange : call.change isPrintable kind (splitEntries body) = .ok (some changed)) :
    ∀ entry ∈ changed, entry.length ≤ kindLimit kind := by
  intro entry member
  cases call with
  | add content =>
    obtain ⟨rfl, counted⟩ := addEntry_some isChange
    exact (length_le_totalChars member).trans counted
  | replace old new =>
    obtain ⟨index, _, _, same, counted⟩ := replaceEntry_ok isChange
    cases same
    exact (length_le_totalChars member).trans counted
  | remove old =>
    obtain ⟨index, _, _, same⟩ := removeEntry_ok isChange
    cases same
    exact kept.fits entry (List.mem_of_mem_eraseIdx member)

theorem Kept.textAfter (kept : Kept kind body)
    (writes : call.textAfter isPrintable kind body = .ok (some text)) : Kept kind text := by
  obtain ⟨_, changed, isChange, stored, rfl⟩ := textAfter_some_iff.mp writes
  refine ⟨fun entry member => ?_, (storable_ok_iff.mp stored).2⟩
  rw [splitEntries_joinEntries, List.mem_flatMap] at member
  obtain ⟨part, isPart, member⟩ := member
  exact (length_le_of_inside (inside_of_mem_splitEntries member)).trans
    (call.fits_of_change kept isChange part isPart)

theorem kindLimit_le_docLimit : kindLimit kind ≤ docLimit kind := by
  cases kind with
  | memory => decide
  | user => decide

/-- What it takes to add an entry to an empty document. -/
theorem textAfter_add_first (nonblank : strip content ≠ "")
    (accepted : checkUntrusted content = .ok ()) (fits : content.length ≤ kindLimit kind)
    (noNul : '\x00' ∉ content.toList) :
    (MemoryCall.add content).textAfter isPrintable kind "" = .ok (some content) := by
  have alone : joinEntries [content] = content := String.intercalate_singleton
  have checked : checkEntry content = .ok () := by
    unfold checkEntry
    rw [if_neg nonblank, accepted]
    rfl
  refine textAfter_some_iff.mpr ⟨checked, [content], ?_, ?_, alone⟩
  · have read : splitEntries "" = [] := if_pos rfl
    rw [read]
    show addEntry kind content [] = _
    have total : totalChars [content] = content.length := Nat.zero_add _
    rw [addEntry_eq, if_neg List.not_mem_nil, List.nil_append, total, if_neg (not_lt.mpr fits)]
  · rw [alone]
    exact storable_ok_iff.mpr ⟨⟨fits.trans kindLimit_le_docLimit, fun _ => accepted⟩, noNul⟩

/-- An entry that could be added to a document can be added to an empty one. -/
theorem textAfter_add_empty (kept : Kept kind body)
    (succeeds : (MemoryCall.add content).textAfter isPrintable kind body = .ok after) :
    (MemoryCall.add content).textAfter isPrintable kind "" = .ok (some content) ∧
      content ≠ "" := by
  have both : (MemoryCall.add content).check = .ok () ∧ content.length ≤ kindLimit kind ∧
      '\x00' ∉ content.toList := by
    cases after with
    | none =>
      obtain ⟨checked, isChange⟩ := textAfter_none_iff.mp succeeds
      have member := addEntry_none isChange
      exact ⟨checked, kept.fits content member,
        fun hasNul => kept.stored ((inside_of_mem_splitEntries member).subset hasNul)⟩
    | some text =>
      obtain ⟨checked, changed, isChange, stored, _⟩ := textAfter_some_iff.mp succeeds
      have isLast : content ∈ changed := by
        rw [(addEntry_some isChange).1]
        exact List.mem_append_right _ (List.mem_singleton_self content)
      exact ⟨checked, MemoryCall.fits_of_change kept isChange content isLast,
        fun hasNul => (storable_ok_iff.mp stored).2 ((inside_joinEntries isLast).subset hasNul)⟩
  obtain ⟨checked, fits, noNul⟩ := both
  have accepted : strip content ≠ "" ∧ checkUntrusted content = .ok () := by
    change checkEntry content = .ok () at checked
    unfold checkEntry at checked
    split at checked
    next => cases checked
    next nonempty => exact ⟨nonempty, mapError_eq_ok_iff.mp checked⟩
  refine ⟨textAfter_add_first accepted.1 accepted.2 fits noNul, ?_⟩
  · intro isEmpty
    rw [isEmpty] at accepted
    exact accepted.1 rfl

/-- Without entries there is nothing to replace. -/
theorem textAfter_replace_empty :
    (MemoryCall.replace old new).textAfter isPrintable kind "" ≠ .ok after := by
  intro succeeds
  obtain ⟨_, _, succeeds⟩ := bind_eq_ok_iff.mp succeeds
  obtain ⟨_, isChange, _⟩ := bind_eq_ok_iff.mp succeeds
  cases isChange

/-- A removal leaves one entry less to read. -/
theorem textAfter_remove_ne
    (succeeds : (MemoryCall.remove old).textAfter isPrintable kind body = .ok after) :
    ∃ text, after = some text ∧ text ≠ body := by
  cases after with
  | none =>
    obtain ⟨index, _, _, same⟩ := removeEntry_ok (textAfter_none_iff.mp succeeds).2
    cases same
  | some text =>
    obtain ⟨_, changed, isChange, _, rfl⟩ := textAfter_some_iff.mp succeeds
    obtain ⟨index, _, inside, same⟩ := removeEntry_ok isChange
    cases same
    refine ⟨_, rfl, fun unchanged => ?_⟩
    have read : splitEntries (joinEntries ((splitEntries body).eraseIdx index)) =
        (splitEntries body).eraseIdx index :=
      splitEntries_joinEntries_clean fun entry member =>
        clean_of_mem_splitEntries (List.mem_of_mem_eraseIdx member)
    rw [unchanged] at read
    have shorter := congrArg List.length read
    rw [List.length_eraseIdx_of_lt inside] at shorter
    omega

/-- A replacement that puts the text back as it was. -/
def MemoryCall.PutsBack (body : String) : MemoryCall → Prop
  | .replace old new => ∃ index, (splitEntries body).findIdxs (isIn old) = [index] ∧
      joinEntries ((splitEntries body).set index new) = body
  | .add _ | .remove _ => False

theorem textAfter_replace
    (succeeds : (MemoryCall.replace old new).textAfter isPrintable kind body = .ok after) :
    ∃ text, after = some text ∧
      ((MemoryCall.replace old new).PutsBack body ↔ text = body) := by
  cases after with
  | none =>
    obtain ⟨index, _, _, same, _⟩ := replaceEntry_ok (textAfter_none_iff.mp succeeds).2
    cases same
  | some text =>
    obtain ⟨_, changed, isChange, _, rfl⟩ := textAfter_some_iff.mp succeeds
    obtain ⟨index, isFound, _, same, _⟩ := replaceEntry_ok isChange
    cases same
    refine ⟨_, rfl, fun ⟨other, found, back⟩ => ?_, fun unchanged => ⟨index, isFound, unchanged⟩⟩
    rw [isFound] at found
    cases found
    exact back

theorem textAfter_putsBack (back : call.PutsBack body)
    (succeeds : call.textAfter isPrintable kind body = .ok after) : after = some body := by
  cases call with
  | add content => exact back.elim
  | replace old new =>
    obtain ⟨text, same, backIff⟩ := textAfter_replace succeeds
    rw [same, backIff.mp back]
  | remove old => exact back.elim

/-- A call that succeeds and is neither an addition nor puts the text back changes the text. -/
theorem textAfter_changes (notBack : ¬ call.PutsBack body)
    (succeeds : call.textAfter isPrintable kind body = .ok after) :
    (∃ content, call = .add content) ∨ ∃ text, after = some text ∧ text ≠ body := by
  cases call with
  | add content => exact Or.inl ⟨content, rfl⟩
  | replace old new =>
    obtain ⟨text, same, backIff⟩ := textAfter_replace succeeds
    exact Or.inr ⟨text, same, fun unchanged => notBack (backIff.mpr unchanged)⟩
  | remove old => exact Or.inr (textAfter_remove_ne succeeds)

theorem MemoryCall.result_of_ok (succeeds : call.textAfter isPrintable kind body = .ok after) :
    call.result isPrintable kind body = after.getD body := by
  unfold MemoryCall.result
  rw [succeeds]
  cases after with
  | none => rfl
  | some text => rfl

theorem MemoryCall.result_putsBack_empty (back : call.PutsBack body) :
    call.result isPrintable kind "" = "" := by
  cases call with
  | add content => exact back.elim
  | replace old new =>
    unfold MemoryCall.result
    split
    next text writes => exact absurd writes textAfter_replace_empty
    next => rfl
  | remove old => exact back.elim

end Succeeds

end LiteHorse.Agent
