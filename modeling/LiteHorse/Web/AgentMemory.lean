/-
This file is about the memory documents of a user with several agents. A turn of an agent reads
the documents in a transaction of the user and the agent, and writes them through the backend of
its tenant context, whose transactions name the user alone.

The table has one row for a user and a kind. The first writer's agent owns it, the writes of
every other agent's turns go to it too, and only the owner's turns read it.
`agents_read_own_iff` says when this does no harm: as long as no agent changes a document that
belongs to another.
-/

import LiteHorse.Agent.MemoryCloud
import LiteHorse.Library.Runs

namespace LiteHorse.Web

open Agent Python Repositories Runs Storage

/-! ### A turn -/

/-- The context of a turn's tools. -/
structure TenantContext where
  userId : UUID
  agentId : Option UUID
  memory : MemoryCloudBackend

/-- `build_cloud_tenant_context` -/
def buildCloudTenantContext (userId : UUID) (agentId : Option UUID := none) : TenantContext :=
  { userId, agentId, memory := { userId } }

/-- The texts that `run_turn_streaming_for_user` reads for the prompt: memory.md and user.md. -/
def turnTexts (isPrintable : Char → Bool) (documents : UserDocuments) (userId agentId : UUID) :
    Except MemoryRepoError (String × String) := do
  let session := dbSession (some userId) (some agentId)
  let memoryText ← MemoryRepo.get isPrintable documents session "memory.md"
  let userMdText ← MemoryRepo.get isPrintable documents session "user.md"
  return (memoryText, userMdText)

/-- The text of a document that a turn of the agent sees. -/
def ownText (documents : UserDocuments) (userId agentId : UUID) (kind : MemoryKind) : String :=
  (((documents userId (kindDoc kind)).filter fun row => row.agentId = agentId).map
    UserDocument.content).getD ""

/-- The agent whose row a write of the agent ends up in. -/
def rowAgent (documents : UserDocuments) (userId agentId : UUID) (kind : MemoryKind) : UUID :=
  ((documents userId (kindDoc kind)).map UserDocument.agentId).getD agentId

section Texts

variable (isPrintable : Char → Bool) {documents : UserDocuments} {userId agentId writer : UUID}
  {kind : MemoryKind}

theorem get_own (kind : MemoryKind) :
    MemoryRepo.get isPrintable documents (dbSession (some userId) (some agentId)) (kindDoc kind) =
      .ok (ownText documents userId agentId kind) := by
  unfold MemoryRepo.get ownText
  rw [limitOf_kindDoc]
  have visible : (fun row : UserDocument => tenantIsolation
      (dbSession (some userId) (some agentId)) userId row.agentId) =
        fun row => decide (row.agentId = agentId) :=
    funext fun row => tenantIsolation_agent userId agentId row.agentId
  show Except.ok _ = Except.ok _
  rw [visible]

theorem turnTexts_eq : turnTexts isPrintable documents userId agentId =
    .ok (ownText documents userId agentId .memory, ownText documents userId agentId .user) := by
  refine bind_eq_ok_iff.mpr ⟨_, get_own isPrintable .memory, ?_⟩
  exact bind_eq_ok_iff.mpr ⟨_, get_own isPrintable .user, rfl⟩

/-- Only the row's agent sees the document. -/
theorem ownText_eq (writer : UUID) : ownText documents userId agentId kind =
    if agentId = rowAgent documents userId writer kind then
      documentText documents userId (kindDoc kind)
    else "" := by
  unfold ownText rowAgent documentText
  cases documents userId (kindDoc kind) with
  | none => exact (ite_self "").symm
  | some row =>
    show ((Option.filter _ (some row)).map UserDocument.content).getD "" =
      if agentId = row.agentId then row.content else ""
    rw [Option.filter_some]
    by_cases same : row.agentId = agentId
    · rw [if_pos (decide_eq_true same), if_pos same.symm]
      rfl
    · rw [if_neg (ne_true_of_eq_false (decide_eq_false same)), if_neg (Ne.symm same)]
      rfl

/-- A write changes the text, and the row's agent still is the only one to see it. -/
theorem ownText_written (after : Option String) :
    ownText (written documents userId writer kind after) userId agentId kind =
      if agentId = rowAgent documents userId writer kind then
        after.getD (documentText documents userId (kindDoc kind))
      else "" := by
  cases after with
  | none => exact ownText_eq writer
  | some text =>
    rw [ownText_eq writer]
    unfold rowAgent documentText
    rw [written_self]
    unfold upserted
    cases documents userId (kindDoc kind) with
    | none => rfl
    | some row => rfl

theorem ownText_written_other {other : MemoryKind} (different : other ≠ kind)
    (after : Option String) :
    ownText (written documents userId writer kind after) userId agentId other =
      ownText documents userId agentId other := by
  unfold ownText
  rw [written_other different]

end Texts

/-! ### The turns of one user -/

/-- A call of the memory tool in a turn of an agent. -/
structure TurnWrite where
  agentId : UUID
  kind : MemoryKind
  call : MemoryCall

structure AgentMemory where
  documents : UserDocuments
  /-- What the successful writes of each agent's turns make of a document of its own. -/
  produced : UUID → MemoryKind → String

/-- No write yet. -/
def AgentMemory.initial (documents : UserDocuments) : AgentMemory :=
  { documents, produced := fun _ _ => "" }

section System

variable (isPrintable : Char → Bool) (userId : UUID)

/-- The state after a write that leads to the rows. -/
def AgentMemory.record (state : AgentMemory) (write : TurnWrite) (documents : UserDocuments) :
    AgentMemory where
  documents := documents
  produced := Function.update state.produced write.agentId
    (Function.update (state.produced write.agentId) write.kind
      (write.call.result isPrintable write.kind (state.produced write.agentId write.kind)))

def memoryStep (state : AgentMemory) (write : TurnWrite) : Option AgentMemory :=
  let context := buildCloudTenantContext userId (some write.agentId)
  match context.memory.call isPrintable state.documents write.agentId write.kind write.call with
  | .error _ => some state
  | .ok documents => some (state.record isPrintable write documents)

/-- A turn of an agent reads what the agent's turns have written, and nothing else. -/
def ReadsOwn (state : AgentMemory) : Prop :=
  ∀ agentId, turnTexts isPrintable state.documents userId agentId =
    .ok (state.produced agentId .memory, state.produced agentId .user)

/-- The call succeeds on a document that belongs to another agent, and does not just put its
text back as it was. -/
def CrossesAgents (state : AgentMemory) (write : TurnWrite) : Prop :=
  ∃ row, state.documents userId (kindDoc write.kind) = some row ∧
    row.agentId ≠ write.agentId ∧
    (∃ after, write.call.textAfter isPrintable write.kind row.content = .ok after) ∧
    ¬ write.call.PutsBack row.content

end System

section Steps

variable {isPrintable : Char → Bool} {userId : UUID} {state next : AgentMemory}
  {write : TurnWrite}

theorem readsOwn_iff : ReadsOwn isPrintable userId state ↔
    ∀ agentId kind, ownText state.documents userId agentId kind = state.produced agentId kind := by
  refine forall_congr' fun agentId => ?_
  rw [turnTexts_eq, Except.ok.injEq, Prod.mk.injEq]
  refine ⟨fun both kind => ?_, fun all => ⟨all .memory, all .user⟩⟩
  cases kind with
  | memory => exact both.1
  | user => exact both.2

/-- The invariant: turns read what is theirs, and the backend can read what it stored. -/
structure Separate (userId : UUID) (state : AgentMemory) : Prop where
  own : ∀ agentId kind, ownText state.documents userId agentId kind = state.produced agentId kind
  kept : ∀ kind, Kept kind (documentText state.documents userId (kindDoc kind))

/-- The outcome of the call on the text of the document. -/
def writeOutcome (isPrintable : Char → Bool) (userId : UUID) (state : AgentMemory)
    (write : TurnWrite) : Except MemoryError (Option String) :=
  write.call.textAfter isPrintable write.kind
    (documentText state.documents userId (kindDoc write.kind))

theorem memoryStep_eq : memoryStep isPrintable userId state write =
    match writeOutcome isPrintable userId state write with
    | .error _ => some state
    | .ok after => some (state.record isPrintable write
        (written state.documents userId write.agentId write.kind after)) := by
  have called : MemoryCloudBackend.call isPrintable { userId } state.documents write.agentId
      write.kind write.call = (writeOutcome isPrintable userId state write).map
        (written state.documents userId write.agentId write.kind) :=
    MemoryCloudBackend.call_eq isPrintable { userId } state.documents write.agentId write.kind
      write.call
  unfold memoryStep buildCloudTenantContext
  dsimp only
  rw [called]
  cases writeOutcome isPrintable userId state write with
  | error error => rfl
  | ok after => rfl

theorem record_self (documents : UserDocuments) :
    (state.record isPrintable write documents).produced write.agentId write.kind =
      write.call.result isPrintable write.kind (state.produced write.agentId write.kind) := by
  show Function.update state.produced write.agentId _ write.agentId write.kind = _
  rw [Function.update_self, Function.update_self]

theorem record_other (documents : UserDocuments) {agentId : UUID} {kind : MemoryKind}
    (different : agentId ≠ write.agentId ∨ kind ≠ write.kind) :
    (state.record isPrintable write documents).produced agentId kind =
      state.produced agentId kind := by
  show Function.update state.produced write.agentId _ agentId kind = _
  by_cases sameAgent : agentId = write.agentId
  · have otherKind : kind ≠ write.kind := different.resolve_left (not_not_intro sameAgent)
    rw [sameAgent, Function.update_self, Function.update_of_ne otherKind]
  · rw [Function.update_of_ne sameAgent]

/-- Where the writer's row is not its own, another agent's row is there. -/
theorem row_of_rowAgent_ne {documents : UserDocuments} {agentId : UUID} {kind : MemoryKind}
    (foreign : rowAgent documents userId agentId kind ≠ agentId) :
    ∃ row, documents userId (kindDoc kind) = some row ∧
      rowAgent documents userId agentId kind = row.agentId ∧
      documentText documents userId (kindDoc kind) = row.content := by
  unfold rowAgent at foreign ⊢
  unfold documentText
  cases found : documents userId (kindDoc kind) with
  | none =>
    rw [found] at foreign
    exact absurd rfl foreign
  | some row => exact ⟨row, rfl, rfl, rfl⟩

/-- The writer's own document is the text of the row if the row is the writer's. -/
theorem Separate.produced_writer (invariant : Separate userId state) :
    state.produced write.agentId write.kind =
      if write.agentId = rowAgent state.documents userId write.agentId write.kind then
        documentText state.documents userId (kindDoc write.kind)
      else "" := by
  rw [← invariant.own, ownText_eq write.agentId]

theorem Separate.kept_written (invariant : Separate userId state)
    {after : Option String} (succeeds : writeOutcome isPrintable userId state write = .ok after)
    (kind : MemoryKind) :
    Kept kind (documentText (written state.documents userId write.agentId write.kind after) userId
      (kindDoc kind)) := by
  by_cases sameKind : kind = write.kind
  · rw [sameKind, documentText_written]
    cases after with
    | none => exact invariant.kept write.kind
    | some text => exact (invariant.kept write.kind).textAfter succeeds
  · unfold documentText
    rw [written_other sameKind]
    exact invariant.kept kind

/-- On another agent's row a call that does not cross only puts the text back. -/
theorem putsBack_of_foreign {after : Option String}
    (succeeds : writeOutcome isPrintable userId state write = .ok after)
    (foreign : rowAgent state.documents userId write.agentId write.kind ≠ write.agentId)
    (apart : ¬ CrossesAgents isPrintable userId state write) :
    write.call.PutsBack (documentText state.documents userId (kindDoc write.kind)) := by
  obtain ⟨row, isRow, rowOwner, rowText⟩ := row_of_rowAgent_ne foreign
  unfold writeOutcome at succeeds
  rw [rowText] at succeeds ⊢
  by_contra notBack
  exact apart ⟨row, isRow, rowOwner ▸ foreign, ⟨after, succeeds⟩, notBack⟩

/-- The step lemma, for a call that succeeds. -/
theorem Separate.record (invariant : Separate userId state) {after : Option String}
    (succeeds : writeOutcome isPrintable userId state write = .ok after)
    (apart : ¬ CrossesAgents isPrintable userId state write) :
    Separate userId (state.record isPrintable write
      (written state.documents userId write.agentId write.kind after)) := by
  refine ⟨fun agentId kind => ?_, invariant.kept_written succeeds⟩
  show ownText (written _ _ _ _ _) userId agentId kind = _
  by_cases sameKind : kind = write.kind
  · rw [sameKind, ownText_written]
    by_cases belongs : write.agentId = rowAgent state.documents userId write.agentId write.kind
    · by_cases sameAgent : agentId = write.agentId
      · rw [sameAgent, record_self, invariant.produced_writer, if_pos belongs, if_pos belongs]
        exact (MemoryCall.result_of_ok succeeds).symm
      · have notOwner : agentId ≠ rowAgent state.documents userId write.agentId write.kind :=
          fun same => sameAgent (same.trans belongs.symm)
        rw [record_other _ (Or.inl sameAgent), ← invariant.own, ownText_eq write.agentId,
          if_neg notOwner, if_neg notOwner]
    · have back := putsBack_of_foreign succeeds (Ne.symm belongs) apart
      have unchanged : after = some (documentText state.documents userId (kindDoc write.kind)) :=
        textAfter_putsBack back succeeds
      rw [unchanged, Option.getD_some, ← ownText_eq write.agentId, invariant.own]
      by_cases sameAgent : agentId = write.agentId
      · rw [sameAgent, record_self, invariant.produced_writer, if_neg belongs,
          MemoryCall.result_putsBack_empty back]
      · rw [record_other _ (Or.inl sameAgent)]
  · rw [ownText_written_other sameKind, record_other _ (Or.inr sameKind)]
    exact invariant.own agentId kind

/-- After a call that crosses, the writer does not read what it added, or the row's agent reads
a text that it did not write. -/
theorem Separate.breaks (invariant : Separate userId state) {after : Option String}
    (succeeds : writeOutcome isPrintable userId state write = .ok after)
    (foreign : rowAgent state.documents userId write.agentId write.kind ≠ write.agentId)
    (notBack : ¬ write.call.PutsBack
      (documentText state.documents userId (kindDoc write.kind))) :
    ¬ ReadsOwn isPrintable userId (state.record isPrintable write
      (written state.documents userId write.agentId write.kind after)) := by
  rw [readsOwn_iff]
  intro readsOwn
  have reads : ∀ agentId, ownText (written state.documents userId write.agentId write.kind after)
      userId agentId write.kind = _ := fun agentId => readsOwn agentId write.kind
  have notOwner : write.agentId ≠ rowAgent state.documents userId write.agentId write.kind :=
    Ne.symm foreign
  rcases textAfter_changes notBack succeeds with ⟨content, isAdd⟩ | ⟨text, same, changed⟩
  · unfold writeOutcome at succeeds
    rw [isAdd] at succeeds
    obtain ⟨onEmpty, nonempty⟩ := textAfter_add_empty (invariant.kept write.kind) succeeds
    have writerReads := reads write.agentId
    rw [ownText_written, if_neg notOwner, record_self, invariant.produced_writer,
      if_neg notOwner, isAdd, MemoryCall.result_of_ok onEmpty, Option.getD_some] at writerReads
    exact nonempty writerReads.symm
  · have ownerReads := reads (rowAgent state.documents userId write.agentId write.kind)
    rw [ownText_written, if_pos rfl, record_other _ (Or.inl foreign), ← invariant.own,
      ownText_eq write.agentId, if_pos rfl, same, Option.getD_some] at ownerReads
    exact changed ownerReads

/-- The step lemma. -/
theorem separate_step (invariant : Separate userId state)
    (apart : ¬ CrossesAgents isPrintable userId state write)
    (taken : memoryStep isPrintable userId state write = some next) :
    Separate userId next := by
  rw [memoryStep_eq] at taken
  cases succeeds : writeOutcome isPrintable userId state write with
  | error error =>
    rw [succeeds] at taken
    cases taken
    exact invariant
  | ok after =>
    rw [succeeds] at taken
    cases taken
    exact invariant.record succeeds apart

theorem crossesAgents_breaks (invariant : Separate userId state)
    (crosses : CrossesAgents isPrintable userId state write) :
    ∃ next, memoryStep isPrintable userId state write = some next ∧
      ¬ ReadsOwn isPrintable userId next := by
  obtain ⟨row, isRow, otherAgent, ⟨after, rowSucceeds⟩, notBack⟩ := crosses
  have rowText : documentText state.documents userId (kindDoc write.kind) = row.content := by
    unfold documentText
    rw [isRow]
    rfl
  have foreign : rowAgent state.documents userId write.agentId write.kind ≠ write.agentId := by
    unfold rowAgent
    rw [isRow]
    exact otherAgent
  have succeeds : writeOutcome isPrintable userId state write = .ok after := by
    unfold writeOutcome
    rw [rowText]
    exact rowSucceeds
  rw [memoryStep_eq, succeeds]
  refine ⟨_, rfl, invariant.breaks succeeds foreign ?_⟩
  rw [rowText]
  exact notBack

end Steps

/-- Every turn reads exactly what its agent's turns have written if and only if no call succeeds
on a document that belongs to another agent, except to put its text back as it was. -/
theorem agents_read_own_iff (isPrintable : Char → Bool) (userId : UUID)
    (documents : UserDocuments) (fresh : ∀ kind, documents userId (kindDoc kind) = none)
    (writes : List TurnWrite) :
    Always (memoryStep isPrintable userId) (ReadsOwn isPrintable userId)
        (AgentMemory.initial documents) writes ↔
      StepsMeet (memoryStep isPrintable userId)
        (fun state write => ¬ CrossesAgents isPrintable userId state write)
        (AgentMemory.initial documents) writes := by
  have initial : Separate userId (AgentMemory.initial documents) := by
    refine ⟨fun agentId kind => ?_, fun kind => ?_⟩
    · show ownText documents userId agentId kind = ""
      unfold ownText
      rw [fresh kind]
      rfl
    · show Kept kind (documentText documents userId (kindDoc kind))
      unfold documentText
      rw [fresh kind]
      exact kept_empty
  have preserved : ∀ state write next, Separate userId state →
      ¬ CrossesAgents isPrintable userId state write →
        memoryStep isPrintable userId state write = some next →
          Separate userId next := fun state write next => separate_step
  exact always_iff_of_invariant _ preserved
    (fun state invariant => readsOwn_iff.mpr invariant.own)
    (fun state write invariant crosses => crossesAgents_breaks invariant (not_not.mp crosses))
    initial

/-- Two agents, each with a document of its own. -/
def writesApart : List TurnWrite :=
  [⟨1, .memory, .add "tea"⟩, ⟨2, .user, .add "vegan"⟩, ⟨1, .memory, .replace "tea" "milk"⟩]

theorem writesApart_readOwn :
    Always (memoryStep (fun _ => true) 7) (ReadsOwn (fun _ => true) 7)
      (AgentMemory.initial fun _ _ => none) writesApart := by
  refine (agents_read_own_iff (fun _ => true) 7 (fun _ _ => none) (fun _ => rfl)
    writesApart).mpr ?_
  refine StepsMeet.cons _ (fun crosses => ?_) rfl (StepsMeet.cons _ (fun crosses => ?_) rfl
    (StepsMeet.cons _ (fun crosses => ?_) rfl trivial))
  · obtain ⟨row, isRow, _⟩ := crosses
    cases isRow
  · obtain ⟨row, isRow, _⟩ := crosses
    cases isRow
  · obtain ⟨row, isRow, otherAgent, _⟩ := crosses
    cases isRow
    exact otherAgent rfl

/-- Two agents write the same document, and the second does not read what it wrote. -/
theorem second_agent_reads_nothing :
    ¬ ∀ (isPrintable : Char → Bool) (userId : UUID) (documents : UserDocuments),
      (∀ kind, documents userId (kindDoc kind) = none) → ∀ writes : List TurnWrite,
        Always (memoryStep isPrintable userId) (ReadsOwn isPrintable userId)
          (AgentMemory.initial documents) writes := by
  intro assumed
  have always := assumed (fun _ => true) 7 (fun _ _ => none) (fun _ => rfl)
    [⟨1, .memory, .add "tea"⟩, ⟨2, .memory, .add "milk"⟩]
  have reads := always.last _ rfl 2
  have texts : ("", "") = ("milk", "") := Except.ok.inj reads
  exact absurd (congrArg Prod.fst texts) (by decide)

end LiteHorse.Web
