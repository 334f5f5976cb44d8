/-
This file compares the two memory backends: the same calls are made of a file and of a document
of the table, from empty ones, and after each of them the answers and the entries are compared.

`backends_equivalent_iff` says when they never differ: as long as the cloud backend accepts the
text that a change joins, no written entry has a carriage return inside, and a document that is
read whole is the join of its entries.
-/

import LiteHorse.Agent.MemoryConcurrency
import LiteHorse.Agent.MemoryLocal

namespace LiteHorse.Agent

open Memory Python Repositories Runs Storage

/-! ### The calls and their answers -/

inductive BackendCall where
  | change (call : MemoryCall)
  | entries
  | get
  | totalChars

inductive Answer where
  | done
  | list (entries : List String)
  | text (body : String)
  | count (chars : Nat)

/-- What a caller can tell of an error. -/
inductive ErrorKind where
  | valueError
  | memoryFull (current limit : Nat)
  | unsafeMemoryContent
  | other

def MemoryError.seen : MemoryError → ErrorKind
  | .valueError _ => .valueError
  | .memoryFull _ current limit => .memoryFull current limit
  | .unsafeMemoryContent _ => .unsafeMemoryContent
  | .repo _ => .other

section System

variable (isPrintable : Char → Bool) (userId owner : UUID)

def MemoryLocalBackend.answer (files : MemoryFiles) (kind : MemoryKind) :
    BackendCall → Except MemoryError Answer × MemoryFiles
  | .change call =>
    match MemoryLocalBackend.call isPrintable files kind call with
    | .error raised => (.error raised, files)
    | .ok changed => (.ok .done, changed)
  | .entries => (.ok (.list (MemoryLocalBackend.entries files kind)), files)
  | .get => (.ok (.text (MemoryLocalBackend.get files kind)), files)
  | .totalChars => (.ok (.count (MemoryLocalBackend.totalChars files kind)), files)

def MemoryCloudBackend.answer (backend : MemoryCloudBackend) (documents : UserDocuments)
    (kind : MemoryKind) : BackendCall → Except MemoryError Answer × UserDocuments
  | .change call =>
    match backend.call isPrintable documents owner kind call with
    | .error raised => (.error raised, documents)
    | .ok changed => (.ok .done, changed)
  | .entries =>
    (((backend.entries isPrintable documents kind).mapError .repo).map .list, documents)
  | .get => (((backend.get isPrintable documents kind).mapError .repo).map .text, documents)
  | .totalChars =>
    (((backend.totalChars isPrintable documents kind).mapError .repo).map .count, documents)

/-- The two backends, and what they have answered last. -/
structure Backends where
  files : MemoryFiles
  documents : UserDocuments
  localAnswer : Except MemoryError Answer
  cloudAnswer : Except MemoryError Answer

def Backends.initial (documents : UserDocuments) : Backends where
  files := fun _ => ""
  documents := documents
  localAnswer := .ok .done
  cloudAnswer := .ok .done

/-- A call of both backends. -/
def parityStep (state : Backends) (event : MemoryKind × BackendCall) : Option Backends :=
  let localSide := MemoryLocalBackend.answer isPrintable state.files event.1 event.2
  let cloudSide :=
    MemoryCloudBackend.answer isPrintable owner { userId } state.documents event.1 event.2
  some { files := localSide.2, documents := cloudSide.2,
         localAnswer := localSide.1, cloudAnswer := cloudSide.1 }

structure Equivalent (state : Backends) : Prop where
  answers : state.localAnswer.mapError MemoryError.seen =
    state.cloudAnswer.mapError MemoryError.seen
  entries : ∀ kind, MemoryCloudBackend.entries isPrintable { userId } state.documents kind =
    .ok (MemoryLocalBackend.entries state.files kind)

/-- The backends do the same for the call, by the text of the cloud's document. -/
def AnswersAlike (state : Backends) (event : MemoryKind × BackendCall) : Prop :=
  let body := documentText state.documents userId (kindDoc event.1)
  match event.2 with
  | .change call => ∀ entries,
      call.planned isPrintable event.1 (splitEntries body) = .ok (some entries) →
        storable event.1 (joinEntries entries) = .ok () ∧
          ∀ entry ∈ call.writes, '\r' ∉ entry.toList
  | .get => joinEntries (splitEntries body) = body
  | .entries | .totalChars => True

end System

/-! ### The entries after a change -/

section Changes

variable {isPrintable : Char → Bool} {userId owner : UUID} {files : MemoryFiles}
  {documents : UserDocuments} {kind other : MemoryKind} {call : MemoryCall} {body entry : String}
  {changed : List String}

variable (isPrintable) in
theorem cloudEntries_eq (documents : UserDocuments) (userId : UUID) (kind : MemoryKind) :
    MemoryCloudBackend.entries isPrintable { userId } documents kind =
      .ok (splitEntries (documentText documents userId (kindDoc kind))) := by
  unfold MemoryCloudBackend.entries MemoryCloudBackend.get
  rw [get_kindDoc]
  rfl

theorem localEntries_saved :
    MemoryLocalBackend.entries (saved files kind (some changed)) kind =
      (splitEntries (joinEntries changed)).map readText := by
  have isSaved : storeFor (saved files kind (some changed)) kind =
      (storeFor files kind).save changed :=
    congrArg (fun text => MemoryStore.mk text (kindLimit kind)) (Function.update_self ..)
  unfold MemoryLocalBackend.entries
  rw [isSaved, entries_save]

theorem localEntries_saved_other (different : other ≠ kind) (after : Option (List String)) :
    MemoryLocalBackend.entries (saved files kind after) other =
      MemoryLocalBackend.entries files other := by
  cases after with
  | none => rfl
  | some entries =>
    have unchanged : storeFor (saved files kind (some entries)) other = storeFor files other :=
      congrArg (fun text => MemoryStore.mk text (kindLimit other))
        (Function.update_of_ne different ..)
    unfold MemoryLocalBackend.entries
    rw [unchanged]

theorem documentText_written_other (different : other ≠ kind) (after : Option String) :
    documentText (written documents userId owner kind after) userId (kindDoc other) =
      documentText documents userId (kindDoc other) := by
  unfold documentText
  rw [written_other different]

/-- The entries of a changed list's text were there or are written. -/
theorem mem_or_writes
    (isPlan : call.planned isPrintable kind (splitEntries body) = .ok (some changed))
    (member : entry ∈ splitEntries (joinEntries changed)) :
    entry ∈ splitEntries body ∨ entry ∈ call.writes := by
  obtain ⟨_, _, isChange⟩ := bind_eq_ok_iff.mp isPlan
  rw [splitEntries_joinEntries] at member
  obtain ⟨source, isSource, isEntry⟩ := List.mem_flatMap.mp member
  have ofOld : source ∈ splitEntries body → entry ∈ splitEntries body := by
    intro isOld
    rw [splitEntries_entry isOld, List.mem_singleton] at isEntry
    exact isEntry ▸ isOld
  cases call with
  | add content =>
    obtain ⟨rfl, _⟩ := addEntry_some isChange
    rcases List.mem_append.mp isSource with isOld | isNew
    · exact Or.inl (ofOld isOld)
    · exact Or.inr (List.mem_singleton.mp isNew ▸ isEntry)
  | replace old new =>
    obtain ⟨index, _, _, same, _⟩ := replaceEntry_ok isChange
    cases same
    rcases List.mem_or_eq_of_mem_set isSource with isOld | rfl
    · exact Or.inl (ofOld isOld)
    · exact Or.inr isEntry
  | remove old =>
    obtain ⟨index, _, _, same⟩ := removeEntry_ok isChange
    cases same
    exact Or.inl (ofOld (List.mem_of_mem_eraseIdx isSource))

/-- The file gives the entries of a changed list as the table does if none that the call writes
has a carriage return. -/
theorem map_readText_iff
    (isPlan : call.planned isPrintable kind (splitEntries body) = .ok (some changed))
    (noReturn : ∀ entry ∈ splitEntries body, '\r' ∉ entry.toList) :
    (splitEntries (joinEntries changed)).map readText = splitEntries (joinEntries changed) ↔
      ∀ entry ∈ call.writes, '\r' ∉ entry.toList := by
  obtain ⟨_, _, isChange⟩ := bind_eq_ok_iff.mp isPlan
  have unchangedIff : ∀ entries : List String,
      entries.map readText = entries ↔ ∀ entry ∈ entries, readText entry = entry := by
    intro entries
    conv_lhs => rhs; rw [← List.map_id entries]
    exact List.map_inj_left
  rw [unchangedIff]
  constructor
  · intro unchanged entry isWritten
    exact readText_eq_self.mp (unchanged entry (mem_text_of_writes isChange isWritten))
  · intro clean entry member
    rcases mem_or_writes isPlan member with isOld | isWritten
    · exact readText_eq_self.mpr (noReturn entry isOld)
    · exact readText_eq_self.mpr (clean entry isWritten)

end Changes

/-! ### One call -/

section Step

variable {isPrintable : Char → Bool} {userId owner : UUID} {state : Backends} {kind : MemoryKind}
  {call : MemoryCall} {body : String}

theorem splitEntries_of_equivalent (equivalent : Equivalent isPrintable userId state)
    (kind : MemoryKind) :
    splitEntries (documentText state.documents userId (kindDoc kind)) =
      MemoryLocalBackend.entries state.files kind :=
  Except.ok.inj ((cloudEntries_eq isPrintable ..).symm.trans (equivalent.entries kind))

theorem parityStep_change (equivalent : Equivalent isPrintable userId state) :
    parityStep isPrintable userId owner state (kind, .change call) = some
      (match call.planned isPrintable kind (MemoryLocalBackend.entries state.files kind) with
      | .error raised => { state with localAnswer := .error raised, cloudAnswer := .error raised }
      | .ok none => { state with localAnswer := .ok .done, cloudAnswer := .ok .done }
      | .ok (some entries) =>
        { files := saved state.files kind (some entries)
          documents :=
            match storable kind (joinEntries entries) with
            | .error _ => state.documents
            | .ok _ => written state.documents userId owner kind (some (joinEntries entries))
          localAnswer := .ok .done
          cloudAnswer := (storable kind (joinEntries entries)).map fun _ => .done }) := by
  unfold parityStep MemoryLocalBackend.answer MemoryCloudBackend.answer
  dsimp only
  rw [MemoryLocalBackend.call_eq, MemoryCloudBackend.call_eq, MemoryCall.textAfter_eq,
    splitEntries_of_equivalent equivalent kind]
  cases call.planned isPrintable kind (MemoryLocalBackend.entries state.files kind) with
  | error raised => rfl
  | ok changed =>
    cases changed with
    | none => rfl
    | some entries =>
      have noPlan : ∀ next : Option (List String) → Except MemoryError (Option String),
          ((.ok (some entries) : Except MemoryError (Option (List String))) >>= next) =
            next (some entries) := fun _ => rfl
      rw [noPlan]
      dsimp only
      cases storable kind (joinEntries entries) with
      | error raised => rfl
      | ok stored => rfl

/-- A call that only reads gives the same answer, unless the document is read whole and is not the
join of its entries. -/
theorem equivalent_read_iff {asked : BackendCall} (isRead : ∀ call, asked ≠ .change call)
    (equivalent : Equivalent isPrintable userId state) :
    ∃ next, parityStep isPrintable userId owner state (kind, asked) = some next ∧
      (Equivalent isPrintable userId next ↔
        AnswersAlike isPrintable userId state (kind, asked)) := by
  have sameEntries := splitEntries_of_equivalent equivalent kind
  have sameList := equivalent.entries kind
  cases asked with
  | change call => exact absurd rfl (isRead call)
  | entries =>
    refine ⟨_, rfl, iff_of_true ⟨?_, equivalent.entries⟩ trivial⟩
    dsimp only [MemoryLocalBackend.answer, MemoryCloudBackend.answer]
    rw [sameList]
    rfl
  | totalChars =>
    refine ⟨_, rfl, iff_of_true ⟨?_, equivalent.entries⟩ trivial⟩
    dsimp only [MemoryLocalBackend.answer, MemoryCloudBackend.answer, MemoryCloudBackend.totalChars]
    rw [sameList]
    rfl
  | get =>
    have joined : MemoryLocalBackend.get state.files kind =
        joinEntries (splitEntries (documentText state.documents userId (kindDoc kind))) := by
      rw [sameEntries]
      rfl
    have isText : MemoryCloudBackend.get isPrintable { userId } state.documents kind =
      .ok (documentText state.documents userId (kindDoc kind)) := get_kindDoc ..
    refine ⟨_, rfl, fun next => ?_, fun isJoin => ⟨?_, equivalent.entries⟩⟩
    · have same := next.answers
      dsimp only [MemoryLocalBackend.answer, MemoryCloudBackend.answer] at same
      rw [isText, joined] at same
      exact Answer.text.inj (Except.ok.inj same)
    · dsimp only [MemoryLocalBackend.answer, MemoryCloudBackend.answer]
      rw [isText, joined]
      exact congrArg (fun body => (Except.ok (Answer.text body) : Except ErrorKind Answer)) isJoin

/-- A change that the cloud stores leaves the same entries if the file gives back what the call
writes. -/
theorem equivalent_stored_iff {changed : List String}
    (equivalent : Equivalent isPrintable userId state)
    (isPlan : call.planned isPrintable kind (MemoryLocalBackend.entries state.files kind) =
      .ok (some changed)) :
    Equivalent isPrintable userId
        { files := saved state.files kind (some changed)
          documents := written state.documents userId owner kind (some (joinEntries changed))
          localAnswer := .ok .done
          cloudAnswer := .ok .done } ↔
      ∀ entry ∈ call.writes, '\r' ∉ entry.toList := by
  have noReturn : ∀ entry ∈ MemoryLocalBackend.entries state.files kind, '\r' ∉ entry.toList :=
    fun entry member => no_return_of_mem_entries member
  rw [← splitEntries_of_equivalent equivalent kind] at isPlan noReturn
  rw [← map_readText_iff isPlan noReturn]
  constructor
  · intro next
    have same := next.entries kind
    dsimp only at same
    rw [cloudEntries_eq, documentText_written, localEntries_saved] at same
    exact (Except.ok.inj same).symm
  · intro unchanged
    refine ⟨rfl, fun other => ?_⟩
    dsimp only
    rw [cloudEntries_eq]
    by_cases same : other = kind
    · rw [same, documentText_written, localEntries_saved, unchanged]
      rfl
    · rw [documentText_written_other same, localEntries_saved_other same,
        splitEntries_of_equivalent equivalent other]

theorem equivalent_change_iff (equivalent : Equivalent isPrintable userId state) :
    ∃ next, parityStep isPrintable userId owner state (kind, .change call) = some next ∧
      (Equivalent isPrintable userId next ↔
        AnswersAlike isPrintable userId state (kind, .change call)) := by
  have sameEntries := splitEntries_of_equivalent equivalent kind
  refine ⟨_, parityStep_change equivalent, ?_⟩
  unfold AnswersAlike
  dsimp only
  rw [sameEntries]
  cases isPlan : call.planned isPrintable kind (MemoryLocalBackend.entries state.files kind) with
  | error raised =>
    refine iff_of_true ⟨rfl, equivalent.entries⟩ fun entries same => ?_
    cases same
  | ok changed =>
    cases changed with
    | none =>
      refine iff_of_true ⟨rfl, equivalent.entries⟩ fun entries same => ?_
      cases same
    | some entries =>
      have unique : ∀ condition : List String → Prop,
          (∀ other, (.ok (some entries) : Except MemoryError (Option (List String))) =
            .ok (some other) → condition other) ↔ condition entries := by
        intro condition
        refine ⟨fun all => all entries rfl, fun holds other same => ?_⟩
        cases same
        exact holds
      rw [unique]
      cases stored : storable kind (joinEntries entries) with
      | error raised =>
        refine iff_of_false (fun next => ?_) (fun both => ?_)
        · have same := next.answers
          dsimp only at same
          rw [stored] at same
          cases same
        · cases both.1
      | ok accepted =>
        rw [and_iff_right rfl, ← equivalent_stored_iff equivalent isPlan]
        dsimp only
        rw [stored]
        rfl

/-- After one call the backends are still equivalent exactly if they answer it alike. -/
theorem equivalent_step_iff (event : MemoryKind × BackendCall)
    (equivalent : Equivalent isPrintable userId state) :
    ∃ next, parityStep isPrintable userId owner state event = some next ∧
      (Equivalent isPrintable userId next ↔ AnswersAlike isPrintable userId state event) := by
  obtain ⟨kind, asked⟩ := event
  cases asked with
  | change call => exact equivalent_change_iff equivalent
  | entries => exact equivalent_read_iff (fun _ same => by cases same) equivalent
  | get => exact equivalent_read_iff (fun _ same => by cases same) equivalent
  | totalChars => exact equivalent_read_iff (fun _ same => by cases same) equivalent

theorem equivalent_initial {documents : UserDocuments}
    (empty : ∀ kind, documentText documents userId (kindDoc kind) = "") :
    Equivalent isPrintable userId (Backends.initial documents) := by
  refine ⟨rfl, fun kind => ?_⟩
  rw [cloudEntries_eq]
  unfold Backends.initial
  dsimp only
  rw [empty kind]
  have isEmpty : readText "" = "" := readText_eq_self.mpr List.not_mem_nil
  have noEntries : (storeFor (fun _ => "") kind).entries = splitEntries (readText "") :=
    entries_eq _
  rw [isEmpty] at noEntries
  exact congrArg Except.ok noEntries.symm

end Step

end LiteHorse.Agent
