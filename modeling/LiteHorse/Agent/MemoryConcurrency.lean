/-
This file is about the memory backend's mutations when several run at once. Each of them reads
the document and writes it back in one transaction, but the read takes no lock and the write
does not look at what it goes over, so what others have committed in between is lost.

`mutations_serial` says when nothing is lost: as long as every write finds the text its call has
read, the document is what the calls that succeeded make of it one after the other, and has
every entry that was added and not taken away since.
-/

import LiteHorse.Agent.MemoryCloud
import LiteHorse.Library.ReadModifyWrite
import Mathlib.Data.List.Permutation

namespace LiteHorse.Agent

open Python ReadModifyWrite Repositories Runs Storage

/-! ### The entries a call keeps -/

/-- The entry is the one that a replacement or a removal finds. -/
def isMatch (old body entry : String) : Bool :=
  match (splitEntries body).findIdxs (isIn old) with
  | [index] => (splitEntries body)[index]? = some entry
  | _ => false

/-- The call replaces or removes the entry. -/
def MemoryCall.takes (body entry : String) : MemoryCall → Bool
  | .add _ => false
  | .replace old _ | .remove old => isMatch old body entry

/-- The entries the call adds. -/
def MemoryCall.adds : MemoryCall → List String
  | .add content => splitEntries content
  | .replace _ _ | .remove _ => []

/-- The entries of the text the call is given. -/
def MemoryCall.writes : MemoryCall → List String
  | .add content => splitEntries content
  | .replace _ new => splitEntries new
  | .remove _ => []

section Kept

variable {isPrintable : Char → Bool} {kind : MemoryKind} {body entry text : String}
  {changed : List String} {after : Option String} {call : MemoryCall}

/-- An entry that was read from a text reads as itself. -/
theorem splitEntries_entry (member : entry ∈ splitEntries text) : splitEntries entry = [entry] := by
  have alone : joinEntries [entry] = entry := String.intercalate_singleton
  refine (congrArg splitEntries alone).symm.trans (splitEntries_joinEntries_clean ?_)
  intro other isOther
  rw [List.mem_singleton.mp isOther]
  exact clean_of_mem_splitEntries member

theorem isMatch_of_found {old : String} {index : Nat}
    (found : (splitEntries body).findIdxs (isIn old) = [index]) :
    isMatch old body entry = decide ((splitEntries body)[index]? = some entry) := by
  unfold isMatch
  rw [found]

/-- A call that does not take an entry away has it in the changed list. -/
theorem mem_change
    (isChange : call.change isPrintable kind (splitEntries body) = .ok (some changed))
    (member : entry ∈ splitEntries body) (spared : call.takes body entry = false) :
    entry ∈ changed := by
  obtain ⟨place, inside, isThere⟩ := List.mem_iff_getElem.mp member
  cases call with
  | add content =>
    obtain ⟨rfl, _⟩ := addEntry_some isChange
    exact List.mem_append_left _ member
  | replace old new =>
    obtain ⟨index, found, _, same, _⟩ := replaceEntry_ok isChange
    cases same
    change isMatch old body entry = false at spared
    rw [isMatch_of_found found, decide_eq_false_iff_not] at spared
    have elsewhere : index ≠ place := fun same =>
      spared (same ▸ List.getElem?_eq_some_iff.mpr ⟨inside, isThere⟩)
    refine List.mem_iff_getElem.mpr ⟨place, (List.length_set ..).symm ▸ inside, ?_⟩
    rw [List.getElem_set_ne elsewhere]
    exact isThere
  | remove old =>
    obtain ⟨index, found, _, same⟩ := removeEntry_ok isChange
    cases same
    change isMatch old body entry = false at spared
    rw [isMatch_of_found found, decide_eq_false_iff_not] at spared
    refine List.mem_eraseIdx_iff_getElem.mpr ⟨place, inside, fun same => ?_, isThere⟩
    exact spared (same ▸ List.getElem?_eq_some_iff.mpr ⟨inside, isThere⟩)

/-- The text of the changed list has the entries that were read and not taken away. -/
theorem mem_text_of_spared
    (isChange : call.change isPrintable kind (splitEntries body) = .ok (some changed))
    (member : entry ∈ splitEntries body) (spared : call.takes body entry = false) :
    entry ∈ splitEntries (joinEntries changed) := by
  rw [splitEntries_joinEntries]
  refine List.mem_flatMap.mpr ⟨entry, mem_change isChange member spared, ?_⟩
  rw [splitEntries_entry member]
  exact List.mem_singleton_self entry

/-- The text of the changed list has the entries that were written. -/
theorem mem_text_of_writes
    (isChange : call.change isPrintable kind (splitEntries body) = .ok (some changed))
    (isWritten : entry ∈ call.writes) : entry ∈ splitEntries (joinEntries changed) := by
  rw [splitEntries_joinEntries]
  cases call with
  | add content =>
    obtain ⟨rfl, _⟩ := addEntry_some isChange
    exact List.mem_flatMap.mpr ⟨content, List.mem_append_right _ (List.mem_singleton_self content),
      isWritten⟩
  | replace old new =>
    obtain ⟨index, _, inside, same, _⟩ := replaceEntry_ok isChange
    cases same
    exact List.mem_flatMap.mpr ⟨new, List.mem_set inside new, isWritten⟩
  | remove old => cases isWritten

theorem writes_of_adds (added : entry ∈ call.adds) : entry ∈ call.writes := by
  cases call with
  | add content => exact added
  | replace old new => cases added
  | remove old => cases added

/-- A call that changes nothing adds what is there. -/
theorem mem_of_adds_unchanged
    (isChange : call.change isPrintable kind (splitEntries body) = .ok none)
    (added : entry ∈ call.adds) : entry ∈ splitEntries body := by
  cases call with
  | add content =>
    have member := addEntry_none isChange
    change entry ∈ splitEntries content at added
    rw [splitEntries_entry member, List.mem_singleton] at added
    exact added ▸ member
  | replace old new => cases added
  | remove old => cases added

/-- After a call that succeeds the document has the entries that it had and that the call does
not take away. -/
theorem mem_of_spared (succeeds : call.textAfter isPrintable kind body = .ok after)
    (member : entry ∈ splitEntries body) (spared : call.takes body entry = false) :
    entry ∈ splitEntries (after.getD body) := by
  cases after with
  | none => exact member
  | some text =>
    obtain ⟨_, changed, isChange, _, rfl⟩ := textAfter_some_iff.mp succeeds
    exact mem_text_of_spared isChange member spared

/-- After a call that succeeds the document has the entries that the call adds. -/
theorem mem_of_adds (succeeds : call.textAfter isPrintable kind body = .ok after)
    (added : entry ∈ call.adds) : entry ∈ splitEntries (after.getD body) := by
  cases after with
  | none => exact mem_of_adds_unchanged (textAfter_none_iff.mp succeeds).2 added
  | some text =>
    obtain ⟨_, changed, isChange, _, rfl⟩ := textAfter_some_iff.mp succeeds
    exact mem_text_of_writes isChange (writes_of_adds added)

end Kept

/-! ### The statements of a mutation -/

section Mutations

variable (isPrintable : Char → Bool) (userId owner : UUID) (kind : MemoryKind)

/-- The get statement, what the mutation makes of the body, and the put statement. -/
def memoryAccess :
    Access UserDocuments (Except MemoryRepoError String) MemoryCall (List String) MemoryError where
  read _ documents := MemoryRepo.get isPrintable documents (dbSession (some userId)) (kindDoc kind)
  plan call seen := do
    call.check
    let body ← seen.mapError .repo
    call.change isPrintable kind (splitEntries body)
  write _ entries documents :=
    (MemoryRepo.put isPrintable documents (dbSession (some userId)) owner (kindDoc kind)
      (joinEntries entries)).mapError (putError kind)

/-- Without others in between the statements are the backend's method. -/
theorem effect_memoryAccess (call : MemoryCall) (documents : UserDocuments) :
    (memoryAccess isPrintable userId owner kind).effect call documents =
      MemoryCloudBackend.call isPrintable { userId } documents owner kind call := by
  rw [MemoryCloudBackend.call_eq]
  unfold Access.effect memoryAccess MemoryCall.textAfter
  dsimp only
  rw [get_kindDoc]
  cases call.check with
  | error error => rfl
  | ok checked =>
    have planned : (do
        let _ ← Except.ok checked
        let body ← Except.mapError MemoryError.repo
          (.ok (documentText documents userId (kindDoc kind)))
        call.change isPrintable kind (splitEntries body)) =
          call.change isPrintable kind
            (splitEntries (documentText documents userId (kindDoc kind))) := rfl
    rw [planned]
    cases call.change isPrintable kind (splitEntries (documentText documents userId (kindDoc kind)))
      with
    | error error => rfl
    | ok changed =>
      cases changed with
      | none => rfl
      | some entries =>
        refine (put_kindDoc isPrintable documents userId owner kind _).trans ?_
        show _ = Except.map _ (storable kind (joinEntries entries) >>= fun _ => _)
        cases storable kind (joinEntries entries) with
        | error error => rfl
        | ok stored => rfl

abbrev MemoryState := State UserDocuments (Except MemoryRepoError String) MemoryCall MemoryError Nat

/-- Any number of mutations of one document, statement by statement. -/
def mutationStep (state : MemoryState) (event : Event Nat MemoryCall) : Option MemoryState :=
  step (memoryAccess isPrintable userId owner kind) state event

/-- The rows after a call that runs alone and succeeds. -/
def callStep (documents : UserDocuments) (call : MemoryCall) : Option UserDocuments :=
  (MemoryCloudBackend.call isPrintable { userId } documents owner kind call).toOption

/-- The document is what the calls that succeeded make of it one after the other in some order,
and has what an addition among them added and none after it took away. -/
def NoLostUpdate (documents : UserDocuments) (state : MemoryState) : Prop :=
  ∃ order : List (Nat × MemoryCall), order.Perm state.served ∧
    (∃ final, exec (callStep isPrintable userId owner kind) documents (order.map Prod.snd) =
        some final ∧
      documentText final userId (kindDoc kind) = documentText state.store userId (kindDoc kind)) ∧
    ∀ earlier later added reached, order.map Prod.snd = earlier ++ added :: later →
      exec (callStep isPrintable userId owner kind) documents (earlier ++ [added]) = some reached →
        ∀ entry ∈ added.adds,
          StepsMeet (callStep isPrintable userId owner kind) (fun documents call =>
            call.takes (documentText documents userId (kindDoc kind)) entry = false) reached later →
          entry ∈ splitEntries (documentText state.store userId (kindDoc kind))

end Mutations

section Serial

variable {isPrintable : Char → Bool} {userId owner : UUID} {kind : MemoryKind}
  {documents next : UserDocuments} {call : MemoryCall} {entry : String}

theorem callStep_text (taken : callStep isPrintable userId owner kind documents call = some next) :
    ∃ after, call.textAfter isPrintable kind (documentText documents userId (kindDoc kind)) =
        .ok after ∧
      documentText next userId (kindDoc kind) =
        after.getD (documentText documents userId (kindDoc kind)) := by
  unfold callStep at taken
  rw [MemoryCloudBackend.call_eq] at taken
  cases succeeds : call.textAfter isPrintable kind (documentText documents userId (kindDoc kind))
    with
  | error error =>
    rw [succeeds] at taken
    cases taken
  | ok after =>
    rw [succeeds] at taken
    cases taken
    exact ⟨after, rfl, documentText_written after⟩

theorem next_memoryAccess :
    (memoryAccess isPrintable userId owner kind).next = callStep isPrintable userId owner kind := by
  funext documents call
  unfold Access.next callStep
  rw [effect_memoryAccess]

/-- An entry stays while no call takes it away. -/
theorem mem_of_exec {later : List MemoryCall} {final : UserDocuments}
    (member : entry ∈ splitEntries (documentText documents userId (kindDoc kind)))
    (spared : StepsMeet (callStep isPrintable userId owner kind) (fun documents call =>
      call.takes (documentText documents userId (kindDoc kind)) entry = false) documents later)
    (run : exec (callStep isPrintable userId owner kind) documents later = some final) :
    entry ∈ splitEntries (documentText final userId (kindDoc kind)) := by
  have kept : ∀ documents call next,
      entry ∈ splitEntries (documentText documents userId (kindDoc kind)) →
        call.takes (documentText documents userId (kindDoc kind)) entry = false →
          callStep isPrintable userId owner kind documents call = some next →
            entry ∈ splitEntries (documentText next userId (kindDoc kind)) := by
    intro documents call next member spared taken
    obtain ⟨after, succeeds, text⟩ := callStep_text taken
    rw [text]
    exact mem_of_spared succeeds member spared
  exact (always_of_invariant _ kept member spared).last _ run

/-- A serial run has what its additions have added. -/
theorem mem_of_serial {earlier later : List MemoryCall} {reached final : UserDocuments}
    (run : exec (callStep isPrintable userId owner kind) documents (earlier ++ call :: later) =
      some final)
    (start : exec (callStep isPrintable userId owner kind) documents (earlier ++ [call]) =
      some reached)
    (added : entry ∈ call.adds)
    (spared : StepsMeet (callStep isPrintable userId owner kind) (fun documents call =>
      call.takes (documentText documents userId (kindDoc kind)) entry = false) reached later) :
    entry ∈ splitEntries (documentText final userId (kindDoc kind)) := by
  have member : entry ∈ splitEntries (documentText reached userId (kindDoc kind)) := by
    rw [exec_append, Option.bind_eq_some_iff] at start
    obtain ⟨before, _, last⟩ := start
    rw [exec_cons, Option.bind_eq_some_iff] at last
    obtain ⟨next, taken, same⟩ := last
    cases same
    obtain ⟨after, succeeds, text⟩ := callStep_text taken
    rw [text]
    exact mem_of_adds succeeds added
  rw [List.append_cons, exec_append, start] at run
  exact mem_of_exec member spared run

end Serial

/-- Nothing is lost if every write finds the text its call has read. -/
theorem mutations_serial (isPrintable : Char → Bool) (userId owner : UUID) (kind : MemoryKind)
    (documents : UserDocuments) (events : List (Event Nat MemoryCall))
    (fresh : StepsMeet (mutationStep isPrintable userId owner kind)
      (Fresh (memoryAccess isPrintable userId owner kind)) (State.initial documents) events) :
    Always (mutationStep isPrintable userId owner kind)
      (NoLostUpdate isPrintable userId owner kind documents) (State.initial documents) events := by
  refine Always.mono _ (fun state serial => ?_) (always_serial fresh)
  have run := serial.served
  rw [next_memoryAccess] at run
  refine ⟨state.served, List.Perm.refl _, ⟨state.store, run, rfl⟩, ?_⟩
  intro earlier later added reached isSplit start entry isAdded spared
  rw [isSplit] at run
  exact mem_of_serial run start isAdded spared

/-- A removal reads while an addition's write is not committed, and finds nothing. -/
def waitingWrites : List (Event Nat MemoryCall) :=
  [.get 1 (.add "tea"), .put 1, .get 2 (.remove "tea"), .commit 1, .get 3 (.add "milk"), .put 3,
    .commit 3]

theorem waitingWrites_serial :
    Always (mutationStep (fun _ => true) 7 1 .memory)
      (NoLostUpdate (fun _ => true) 7 1 .memory fun _ _ => none)
      (State.initial fun _ _ => none) waitingWrites := by
  refine mutations_serial (fun _ => true) 7 1 .memory (fun _ _ => none) waitingWrites ?_
  refine StepsMeet.cons _ trivial rfl (StepsMeet.cons _ (fun call seen isReading => ?_) rfl
    (StepsMeet.cons _ trivial rfl (StepsMeet.cons _ trivial rfl (StepsMeet.cons _ trivial rfl
      (StepsMeet.cons _ (fun call seen isReading => ?_) rfl
        (StepsMeet.cons _ trivial rfl trivial))))))
  · cases isReading
    rfl
  · cases isReading
    rfl

/-- Two additions read the empty document, and the one that writes last leaves only its own. -/
theorem second_write_loses_first :
    ¬ ∀ (isPrintable : Char → Bool) (userId owner : UUID) (kind : MemoryKind)
      (documents : UserDocuments) (events : List (Event Nat MemoryCall)) (last : MemoryState),
      exec (mutationStep isPrintable userId owner kind) (State.initial documents) events =
          some last →
        NoLostUpdate isPrintable userId owner kind documents last := by
  intro assumed
  obtain ⟨order, isOrder, ⟨final, run, text⟩, _⟩ := assumed (fun _ => true) 7 1 .memory
    (fun _ _ => none) [.get 1 (.add "tea"), .get 2 (.add "milk"), .put 1, .commit 1, .put 2,
      .commit 2] _ rfl
  change documentText final 7 "memory.md" = "milk" at text
  rcases List.perm_pair.mp isOrder with rfl | rfl
  · cases run
    exact absurd text (by decide)
  · cases run
    exact absurd text (by decide)

end LiteHorse.Agent
