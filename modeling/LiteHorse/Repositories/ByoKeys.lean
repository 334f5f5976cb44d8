/-
This file models the store of a user's own provider keys: one encrypted document in a column of
the user's row, which a call decrypts, edits and writes back in a transaction of its own.

The read takes no lock, and the write goes over whatever was committed since. `independent_iff`
says in which runs of any number of calls the keys of different providers stay independent.

`json.dumps` followed by `json.loads` gives an equal dictionary back, so the plaintext is modelled
by the dictionary. It is Mathlib's `AList`, without the order of the keys, which nothing reads.
-/

import LiteHorse.Library.RowVersions
import LiteHorse.Library.Runs
import LiteHorse.Python
import Mathlib.Data.List.AList
import Mathlib.Logic.Function.Basic

namespace LiteHorse.Repositories.ByoKeys

open Python RowVersions Runs

/-! ### The document -/

/-- The entries by provider. -/
abbrev Doc := AList fun _ : String => Json

/-- What `json.loads` makes of a plaintext. -/
inductive Plaintext where
  | object (doc : Doc)
  | otherValue
  | notJson

structure KmsDecryptError where
  message : String

/-- The key service. What is encrypted for a user comes back for that user. -/
structure Kms (Ciphertext : Type) where
  encrypt : String → Doc → Ciphertext
  decrypt : String → Ciphertext → Except KmsDecryptError Plaintext
  decrypt_encrypt : ∀ userId doc, decrypt userId (encrypt userId doc) = .ok (.object doc)

section Store

variable {Ciphertext : Type} (kms : Kms Ciphertext) (userId : String)

/-- `_load_doc` -/
def loadDoc (column : Option Ciphertext) : Except KmsDecryptError Doc :=
  match column with
  | none => .ok ∅
  | some ciphertext => do
    match ← kms.decrypt userId ciphertext with
    | .object doc => .ok doc
    | .otherValue => .error { message := "byo_provider_key_ct is not a JSON object" }
    | .notJson => .error { message := "byo_provider_key_ct is not valid JSON" }

/-- What `_save_doc` writes to the column. -/
def saveDoc (doc : Doc) : Option Ciphertext :=
  if doc.entries.isEmpty then none else some (kms.encrypt userId doc)

/-- The key that an entry holds. -/
def keyOf (isPrintable : Char → Bool) : Option Json → Option String
  | none | some .null => none
  | some (.object fields) =>
    match getField fields "access_token" with
    | some (.str access) => some access
    | _ => none
  | some value => some (value.toStr isPrintable)

variable (isPrintable : Char → Bool)

def getKey (column : Option Ciphertext) (provider : String) :
    Except KmsDecryptError (Option String) := do
  let doc ← loadDoc kms userId column
  return keyOf isPrintable (doc.lookup provider)

theorem loadDoc_saveDoc (doc : Doc) : loadDoc kms userId (saveDoc kms userId doc) = .ok doc := by
  unfold saveDoc
  split
  next isEmpty =>
    refine congrArg Except.ok (AList.ext ?_)
    exact (List.isEmpty_iff.mp isEmpty).symm
  next =>
    unfold loadDoc
    simp only [kms.decrypt_encrypt]
    rfl

theorem getKey_saveDoc (doc : Doc) (provider : String) :
    getKey kms userId isPrintable (saveDoc kms userId doc) provider =
      .ok (keyOf isPrintable (doc.lookup provider)) := by
  unfold getKey
  rw [loadDoc_saveDoc]
  rfl

end Store

/-! ### The calls -/

inductive Call where
  | setKey (provider value : String)
  | setGithubOauth (accessToken : String) (refreshToken : Option String) (expiresAt : Option Int)
  | deleteKey (provider : String)

/-- The provider that a call concerns. -/
def Call.provider : Call → String
  | .setKey provider _ | .deleteKey provider => provider
  | .setGithubOauth _ _ _ => "github"

/-- The key that a call leaves for its provider. -/
def Call.key : Call → Option String
  | .setKey _ value => some value
  | .setGithubOauth accessToken _ _ => some accessToken
  | .deleteKey _ => none

/-- The entry of a GitHub token. -/
def githubBundle (accessToken : String) (refreshToken : Option String) (expiresAt : Option Int) :
    List (String × Json) :=
  ("access_token", .str accessToken) ::
    ((refreshToken.map fun token => ("refresh_token", Json.str token)).toList ++
      (expiresAt.map fun time => ("expires_at", Json.int time)).toList)

/-- The document that a call saves, or none where there is nothing to delete. -/
def Call.edit (doc : Doc) : Call → Option Doc
  | .setKey provider value => some (doc.insert provider (.str value))
  | .setGithubOauth accessToken refreshToken expiresAt =>
    some (doc.insert "github" (.object (githubBundle accessToken refreshToken expiresAt)))
  | .deleteKey provider =>
    if (doc.lookup provider).isSome then some (doc.erase provider) else none

section Edit

variable {isPrintable : Char → Bool} {call : Call} {doc edited : Doc}

/-- An edited document holds the key of the call. -/
theorem keyOf_edit_own (isEdit : call.edit doc = some edited) :
    keyOf isPrintable (edited.lookup call.provider) = call.key := by
  cases call with
  | setKey provider value =>
    cases isEdit
    exact congrArg (keyOf isPrintable) (AList.lookup_insert doc)
  | setGithubOauth accessToken refreshToken expiresAt =>
    cases isEdit
    exact congrArg (keyOf isPrintable) (AList.lookup_insert doc)
  | deleteKey provider =>
    change (if (doc.lookup provider).isSome then some (doc.erase provider) else none) = _ at isEdit
    split at isEdit
    · cases isEdit
      exact congrArg (keyOf isPrintable) (AList.lookup_erase provider doc)
    · cases isEdit

/-- The entries of the other providers are as they were loaded. -/
theorem lookup_edit_other (isEdit : call.edit doc = some edited) {provider : String}
    (other : provider ≠ call.provider) : edited.lookup provider = doc.lookup provider := by
  cases call with
  | setKey own value =>
    cases isEdit
    exact AList.lookup_insert_ne other
  | setGithubOauth accessToken refreshToken expiresAt =>
    cases isEdit
    exact AList.lookup_insert_ne other
  | deleteKey own =>
    change (if (doc.lookup own).isSome then some (doc.erase own) else none) = _ at isEdit
    split at isEdit
    · cases isEdit
      exact AList.lookup_erase_ne other
    · cases isEdit

/-- Only a deletion saves nothing. -/
theorem key_of_edit_none (isEdit : call.edit doc = none) : call.key = none := by
  cases call with
  | setKey provider value => cases isEdit
  | setGithubOauth accessToken refreshToken expiresAt => cases isEdit
  | deleteKey provider => rfl

end Edit

/-! ### Interleaved calls -/

/-- Where a call stands, with the document it loaded and the one it saved. -/
inductive Phase where
  | idle
  | loaded (call : Call) (doc : Doc)
  | saved (call : Call) (doc edited : Doc)
  | ended

inductive Event (Id : Type) where
  | load (id : Id) (call : Call)
  | save (id : Id)
  | commit (id : Id)
  | rollback (id : Id)

structure State (Id Ciphertext : Type) where
  /-- `byo_provider_key_ct` of the user's row. -/
  column : Cell Id (Option Ciphertext)
  phase : Id → Phase
  /-- The calls that have committed, in that order. -/
  committed : List Call

section System

variable {Id Ciphertext : Type}

/-- No call has started. -/
def State.initial (column : Option Ciphertext) : State Id Ciphertext where
  column := .still column
  phase := fun _ => .idle
  committed := []

variable [DecidableEq Id]

def State.move (state : State Id Ciphertext) (id : Id) (phase : Phase) : State Id Ciphertext :=
  { state with phase := Function.update state.phase id phase }

/-- The transaction of a call commits. -/
def State.finish (state : State Id Ciphertext) (id : Id) (call : Call) : State Id Ciphertext :=
  { state.move id .ended with
    column := state.column.commit id, committed := state.committed ++ [call] }

variable (kms : Kms Ciphertext) (userId : String)

/-- A call starts with `_load_doc`; a column that cannot be read ends it. -/
def load (state : State Id Ciphertext) (id : Id) (call : Call) : Option (State Id Ciphertext) :=
  match state.phase id with
  | .idle =>
    match loadDoc kms userId (state.column.view id) with
    | .ok doc => some (state.move id (.loaded call doc))
    | .error _ => some (state.move id .ended)
  | _ => none

/-- The UPDATE of `_save_doc`, which waits for the lock of the row. -/
def save (state : State Id Ciphertext) (id : Id) : Option (State Id Ciphertext) :=
  match state.phase id with
  | .loaded call doc =>
    match call.edit doc with
    | some edited =>
      if state.column.freeFor id then
        some { state.move id (.saved call doc edited) with
          column := state.column.write id (saveDoc kms userId edited) }
      else none
    | none => none
  | _ => none

/-- A call commits after its save, or without one where there was nothing to delete. -/
def commit (state : State Id Ciphertext) (id : Id) : Option (State Id Ciphertext) :=
  match state.phase id with
  | .saved call _ _ => some (state.finish id call)
  | .loaded call doc =>
    match call.edit doc with
    | some _ => none
    | none => some (state.finish id call)
  | _ => none

def rollback (state : State Id Ciphertext) (id : Id) : Option (State Id Ciphertext) :=
  match state.phase id with
  | .saved _ _ _ | .loaded _ _ =>
    some { state.move id .ended with column := state.column.rollback id }
  | _ => none

def step (state : State Id Ciphertext) : Event Id → Option (State Id Ciphertext)
  | .load id call => load kms userId state id call
  | .save id => save kms userId state id
  | .commit id => commit state id
  | .rollback id => rollback state id

/-! ### Independence -/

variable (isPrintable : Char → Bool)

/-- A document that is stored for the user. -/
structure StoredKeys where
  column : Option Ciphertext
  doc : Doc
  loads : loadDoc kms userId column = .ok doc

/-- The key that the last of the calls to concern a provider leaves, or the first one. -/
def lastKey (doc : Doc) (calls : List Call) (provider : String) : Option String :=
  match (calls.filter fun call => call.provider = provider).getLast? with
  | some call => call.key
  | none => keyOf isPrintable (doc.lookup provider)

/-- Every provider's key is what the last committed call that concerned it leaves. -/
def Independent (doc : Doc) (state : State Id Ciphertext) : Prop :=
  ∀ provider, getKey kms userId isPrintable state.column.committed provider =
    .ok (lastKey isPrintable doc state.committed provider)

/-- Of a call that saved, the others' keys still are what it loaded; where it found nothing to
delete there still is no key. -/
def Undisturbed (column : Option Ciphertext) : Phase → Prop
  | .saved call doc _ => ∀ provider, provider ≠ call.provider →
    getKey kms userId isPrintable column provider = .ok (keyOf isPrintable (doc.lookup provider))
  | .loaded call doc => call.edit doc = none →
    getKey kms userId isPrintable column call.provider = .ok none
  | .idle | .ended => True

/-- A call commits undisturbed. -/
def CommitsUndisturbed (state : State Id Ciphertext) : Event Id → Prop
  | .commit id => Undisturbed kms userId isPrintable state.column.committed (state.phase id)
  | .load _ _ | .save _ | .rollback _ => True

/-! ### What a step does -/

section Cases

variable {kms userId} {state next : State Id Ciphertext} {id : Id} {call : Call}

theorem load_cases (taken : load kms userId state id call = some next) :
    state.phase id = .idle ∧ ((∃ doc, next = state.move id (.loaded call doc)) ∨
      next = state.move id .ended) := by
  unfold load at taken
  split at taken
  next isIdle =>
    refine ⟨isIdle, ?_⟩
    split at taken
    next doc _ =>
      cases taken
      exact Or.inl ⟨doc, rfl⟩
    next =>
      cases taken
      exact Or.inr rfl
  next => cases taken

theorem save_cases (taken : save kms userId state id = some next) :
    ∃ call doc edited, state.phase id = .loaded call doc ∧ call.edit doc = some edited ∧
      state.column.freeFor id = true ∧
        next = { state.move id (.saved call doc edited) with
          column := state.column.write id (saveDoc kms userId edited) } := by
  unfold save at taken
  split at taken
  next call doc isLoaded =>
    split at taken
    next edited isEdit =>
      split at taken
      next isFree =>
        cases taken
        exact ⟨call, doc, edited, isLoaded, isEdit, isFree, rfl⟩
      next => cases taken
    next => cases taken
  next => cases taken

theorem commit_cases (taken : commit state id = some next) :
    ∃ call, ((∃ doc edited, state.phase id = .saved call doc edited) ∨
        ∃ doc, state.phase id = .loaded call doc ∧ call.edit doc = none) ∧
      next = state.finish id call := by
  unfold commit at taken
  split at taken
  next call doc edited isSaved =>
    cases taken
    exact ⟨call, Or.inl ⟨doc, edited, isSaved⟩, rfl⟩
  next call doc isLoaded =>
    split at taken
    next => cases taken
    next isEdit =>
      cases taken
      exact ⟨call, Or.inr ⟨doc, isLoaded, isEdit⟩, rfl⟩
  next => cases taken

theorem rollback_cases (taken : rollback state id = some next) :
    next = { state.move id .ended with column := state.column.rollback id } := by
  unfold rollback at taken
  split at taken
  next =>
    cases taken
    rfl
  next =>
    cases taken
    rfl
  next => cases taken

end Cases

/-! ### Who holds the row -/

/-- What a call has written to the column. -/
def draft : Phase → Option (Option Ciphertext)
  | .saved _ _ edited => some (saveDoc kms userId edited)
  | _ => none

/-- The draft of the row is what a call has saved, an edit of the document it loaded. -/
structure Locks (state : State Id Ciphertext) : Prop where
  column : Guarded state.column fun id => draft kms userId (state.phase id)
  edits : ∀ id call doc edited, state.phase id = .saved call doc edited →
    call.edit doc = some edited

section Holder

variable {kms userId} {state next : State Id Ciphertext} {id : Id} {call : Call}

omit [DecidableEq Id] in
theorem locks_initial (column : Option Ciphertext) :
    Locks kms userId (State.initial column : State Id Ciphertext) where
  column := guarded_still _ fun _ => rfl
  edits := fun _ _ _ _ isSaved => by cases isSaved

theorem draft_move (phase : Phase) :
    (fun other => draft kms userId ((state.move id phase).phase other)) =
      Function.update (fun other => draft kms userId (state.phase other)) id
        (draft kms userId phase) := by
  funext other
  exact Function.apply_update (fun _ => draft kms userId) state.phase id phase other

/-- A call that moves on keeps what is known of the others. -/
theorem Locks.edits_move (locks : Locks kms userId state) {phase : Phase}
    (own : ∀ call doc edited, phase = .saved call doc edited → call.edit doc = some edited) :
    ∀ other call doc edited, (state.move id phase).phase other = .saved call doc edited →
      call.edit doc = some edited := by
  intro other call doc edited isSaved
  by_cases same : other = id
  · subst same
    exact own call doc edited ((Function.update_self ..).symm.trans isSaved)
  · exact locks.edits other call doc edited ((Function.update_of_ne same ..).symm.trans isSaved)

theorem Locks.move (locks : Locks kms userId state) {phase : Phase}
    (same : draft kms userId phase = draft kms userId (state.phase id))
    (own : ∀ call doc edited, phase = .saved call doc edited → call.edit doc = some edited) :
    Locks kms userId (state.move id phase) where
  column := by
    rw [draft_move]
    exact locks.column.move same
  edits := locks.edits_move own

theorem Locks.load (locks : Locks kms userId state)
    (taken : load kms userId state id call = some next) : Locks kms userId next := by
  obtain ⟨isIdle, ⟨doc, rfl⟩ | rfl⟩ := load_cases taken
  · refine locks.move ?_ fun _ _ _ isSaved => by cases isSaved
    rw [isIdle]
    rfl
  · refine locks.move ?_ fun _ _ _ isSaved => by cases isSaved
    rw [isIdle]
    rfl

theorem Locks.save (locks : Locks kms userId state)
    (taken : save kms userId state id = some next) : Locks kms userId next := by
  obtain ⟨call, doc, edited, isLoaded, isEdit, isFree, rfl⟩ := save_cases taken
  constructor
  · show Guarded (state.column.write id (saveDoc kms userId edited)) fun other =>
      draft kms userId ((state.move id (.saved call doc edited)).phase other)
    rw [draft_move]
    exact locks.column.write isFree _
  · refine locks.edits_move fun _ _ _ isSaved => ?_
    cases isSaved
    exact isEdit

theorem Locks.finish (locks : Locks kms userId state) (call : Call) :
    Locks kms userId (state.finish id call) where
  column := by
    show Guarded (state.column.commit id) fun other =>
      draft kms userId ((state.move id .ended).phase other)
    rw [draft_move]
    exact locks.column.commit id
  edits := locks.edits_move fun _ _ _ isSaved => by cases isSaved

theorem Locks.rollback (locks : Locks kms userId state)
    (taken : rollback state id = some next) : Locks kms userId next := by
  rw [rollback_cases taken]
  constructor
  · show Guarded (state.column.rollback id) fun other =>
      draft kms userId ((state.move id .ended).phase other)
    rw [draft_move]
    exact locks.column.rollback id
  · exact locks.edits_move fun _ _ _ isSaved => by cases isSaved

theorem Locks.step {event : Event Id} (locks : Locks kms userId state)
    (taken : step kms userId state event = some next) : Locks kms userId next := by
  cases event with
  | load id call => exact locks.load taken
  | save id => exact locks.save taken
  | commit id =>
    obtain ⟨call, _, rfl⟩ := commit_cases taken
    exact locks.finish call
  | rollback id => exact locks.rollback taken

end Holder

/-! ### Which runs keep the keys apart -/

section Main

variable {kms userId isPrintable} {state next : State Id Ciphertext} {id : Id} {call : Call}
  {doc edited initial : Doc}

theorem lastKey_append_own (calls : List Call) :
    lastKey isPrintable initial (calls ++ [call]) call.provider = call.key := by
  unfold lastKey
  have own : [call].filter (fun other => decide (other.provider = call.provider)) = [call] :=
    List.filter_cons_of_pos (decide_eq_true rfl)
  rw [List.filter_append, own, List.getLast?_concat]

theorem lastKey_append_other (calls : List Call) {provider : String}
    (other : provider ≠ call.provider) :
    lastKey isPrintable initial (calls ++ [call]) provider =
      lastKey isPrintable initial calls provider := by
  unfold lastKey
  rw [List.filter_append, List.filter_cons_of_neg (by simpa using Ne.symm other), List.filter_nil,
    List.append_nil]

/-- The commit of a call that saved keeps the keys apart exactly if it goes over none. -/
theorem independent_finish_saved (locks : Locks kms userId state)
    (independent : Independent kms userId isPrintable initial state)
    (isSaved : state.phase id = .saved call doc edited) :
    Independent kms userId isPrintable initial (state.finish id call) ↔
      ∀ provider, provider ≠ call.provider →
        getKey kms userId isPrintable state.column.committed provider =
          .ok (keyOf isPrintable (doc.lookup provider)) := by
  have isEdit := locks.edits id call doc edited isSaved
  have isDraft : draft kms userId (state.phase id) = some (saveDoc kms userId edited) := by
    rw [isSaved]
    rfl
  have after : ∀ provider,
      getKey kms userId isPrintable (state.column.commit id).committed provider =
        .ok (keyOf isPrintable (edited.lookup provider)) := by
    rw [locks.column.committed isDraft]
    exact getKey_saveDoc kms userId isPrintable edited
  constructor
  · intro kept provider other
    have isLast := kept provider
    change getKey kms userId isPrintable (state.column.commit id).committed provider =
      .ok (lastKey isPrintable initial (state.committed ++ [call]) provider) at isLast
    rw [after, lookup_edit_other isEdit other, lastKey_append_other _ other] at isLast
    rw [isLast]
    exact independent provider
  · intro undisturbed provider
    show getKey kms userId isPrintable (state.column.commit id).committed provider =
      .ok (lastKey isPrintable initial (state.committed ++ [call]) provider)
    rw [after]
    by_cases own : provider = call.provider
    · rw [own, keyOf_edit_own isEdit, lastKey_append_own]
    · rw [lookup_edit_other isEdit own, lastKey_append_other _ own, ← undisturbed provider own]
      exact independent provider

/-- The commit of a call with nothing to delete keeps them apart exactly if there is none still. -/
theorem independent_finish_loaded (locks : Locks kms userId state)
    (independent : Independent kms userId isPrintable initial state)
    (isLoaded : state.phase id = .loaded call doc) (isEdit : call.edit doc = none) :
    Independent kms userId isPrintable initial (state.finish id call) ↔
      getKey kms userId isPrintable state.column.committed call.provider = .ok none := by
  have noDraft : draft kms userId (state.phase id) = none := by
    rw [isLoaded]
    rfl
  have unchanged : (state.finish id call).column.committed = state.column.committed :=
    congrArg Cell.committed (locks.column.committed_none noDraft)
  constructor
  · intro kept
    have isLast := kept call.provider
    rw [unchanged] at isLast
    refine isLast.trans (congrArg Except.ok ?_)
    exact (lastKey_append_own state.committed).trans (key_of_edit_none isEdit)
  · intro missing provider
    rw [unchanged]
    show getKey kms userId isPrintable state.column.committed provider =
      .ok (lastKey isPrintable initial (state.committed ++ [call]) provider)
    by_cases own : provider = call.provider
    · rw [own, lastKey_append_own, key_of_edit_none isEdit]
      exact missing
    · rw [lastKey_append_other _ own]
      exact independent provider

omit [DecidableEq Id] in
/-- Between commits every key stays. -/
theorem independent_of_committed (independent : Independent kms userId isPrintable initial state)
    (sameColumn : next.column.committed = state.column.committed)
    (sameCalls : next.committed = state.committed) :
    Independent kms userId isPrintable initial next := by
  intro provider
  rw [sameColumn, sameCalls]
  exact independent provider

theorem independent_step {event : Event Id} (locks : Locks kms userId state)
    (independent : Independent kms userId isPrintable initial state)
    (undisturbed : CommitsUndisturbed kms userId isPrintable state event)
    (taken : step kms userId state event = some next) :
    Independent kms userId isPrintable initial next := by
  cases event with
  | load id call =>
    obtain ⟨_, ⟨_, rfl⟩ | rfl⟩ := load_cases taken
    · exact independent_of_committed independent rfl rfl
    · exact independent_of_committed independent rfl rfl
  | save id =>
    obtain ⟨_, _, _, _, _, _, rfl⟩ := save_cases taken
    exact independent_of_committed independent rfl rfl
  | commit id =>
    obtain ⟨call, ⟨doc, edited, isSaved⟩ | ⟨doc, isLoaded, isEdit⟩, rfl⟩ := commit_cases taken
    · change Undisturbed kms userId isPrintable _ (state.phase id) at undisturbed
      rw [isSaved] at undisturbed
      exact (independent_finish_saved locks independent isSaved).mpr undisturbed
    · change Undisturbed kms userId isPrintable _ (state.phase id) at undisturbed
      rw [isLoaded] at undisturbed
      exact (independent_finish_loaded locks independent isLoaded isEdit).mpr (undisturbed isEdit)
  | rollback id =>
    rw [rollback_cases taken]
    exact independent_of_committed independent Cell.committed_rollback rfl

/-- A disturbed commit goes through, and a key is not what its last call left. -/
theorem breaks_of_disturbed {event : Event Id} (locks : Locks kms userId state)
    (independent : Independent kms userId isPrintable initial state)
    (disturbed : ¬ CommitsUndisturbed kms userId isPrintable state event) :
    ∃ next, step kms userId state event = some next ∧
      ¬ Independent kms userId isPrintable initial next := by
  cases event with
  | load id call => exact absurd trivial disturbed
  | save id => exact absurd trivial disturbed
  | commit id =>
    change ¬ Undisturbed kms userId isPrintable _ (state.phase id) at disturbed
    cases isPhase : state.phase id with
    | idle =>
      rw [isPhase] at disturbed
      exact absurd trivial disturbed
    | saved call doc edited =>
      rw [isPhase] at disturbed
      refine ⟨state.finish id call, ?_, fun kept =>
        disturbed ((independent_finish_saved locks independent isPhase).mp kept)⟩
      show commit state id = _
      unfold commit
      rw [isPhase]
    | loaded call doc =>
      rw [isPhase] at disturbed
      obtain ⟨isEdit, disturbed⟩ := Classical.not_imp.mp disturbed
      refine ⟨state.finish id call, ?_, fun kept =>
        disturbed ((independent_finish_loaded locks independent isPhase isEdit).mp kept)⟩
      show commit state id = _
      unfold commit
      rw [isPhase]
      dsimp only
      rw [isEdit]
    | ended =>
      rw [isPhase] at disturbed
      exact absurd trivial disturbed
  | rollback id => exact absurd trivial disturbed

end Main

/-- The keys of different providers are independent in every state of a run exactly if each call
commits undisturbed. -/
theorem independent_iff (initial : StoredKeys kms userId) (events : List (Event Id)) :
    Always (step kms userId) (Independent kms userId isPrintable initial.doc)
        (State.initial initial.column) events ↔
      StepsMeet (step kms userId) (CommitsUndisturbed kms userId isPrintable)
        (State.initial initial.column) events := by
  have start : Locks kms userId (State.initial initial.column : State Id Ciphertext) ∧
      Independent kms userId isPrintable initial.doc
        (State.initial initial.column : State Id Ciphertext) := by
    refine ⟨locks_initial initial.column, fun provider => ?_⟩
    show getKey kms userId isPrintable initial.column provider = _
    unfold getKey
    rw [initial.loads]
    rfl
  have preserved : ∀ (state : State Id Ciphertext) event next,
      Locks kms userId state ∧ Independent kms userId isPrintable initial.doc state →
        CommitsUndisturbed kms userId isPrintable state event →
          step kms userId state event = some next →
          Locks kms userId next ∧ Independent kms userId isPrintable initial.doc next :=
    fun state event next holds undisturbed taken =>
      ⟨holds.1.step taken, independent_step holds.1 holds.2 undisturbed taken⟩
  exact always_iff_of_invariant _ preserved (fun state holds => holds.2)
    (fun state event holds disturbed => breaks_of_disturbed holds.1 holds.2 disturbed) start

end System

/-! ### Two providers at once -/

/-- Ciphertexts that carry their user, as the encryption context has it. -/
def boxKms : Kms (String × Doc) where
  encrypt := fun userId doc => (userId, doc)
  decrypt := fun userId ciphertext =>
    if ciphertext.1 = userId then .ok (.object ciphertext.2)
    else .error { message := "encryption context mismatch" }
  decrypt_encrypt := fun _ _ => if_pos rfl

def noKeys : StoredKeys boxKms "user" where
  column := none
  doc := ∅
  loads := rfl

/-- Both calls load before either saves, and both commit. -/
def bothSet : List (Event Nat) :=
  [.load 0 (.setKey "openai" "first"), .load 1 (.setKey "anthropic" "second"), .save 0, .commit 0,
    .save 1, .commit 1]

/-- The key that was set first is lost. -/
theorem key_of_other_provider_is_lost :
    ∃ last, exec (step boxKms "user") (State.initial noKeys.column) bothSet = some last ∧
      getKey boxKms "user" (fun _ => true) last.column.committed "openai" = .ok none ∧
      lastKey (fun _ => true) noKeys.doc last.committed "openai" = some "first" :=
  ⟨_, rfl, rfl, rfl⟩

end LiteHorse.Repositories.ByoKeys
