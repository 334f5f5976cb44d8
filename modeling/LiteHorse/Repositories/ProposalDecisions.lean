/-
This file models the decision of a skill proposal by `approve` and `reject` requests that run at
the same time, each in a transaction of its own.

A request reads the status, and its UPDATE later sets the status whatever it is by then.
`decidedOnce_iff` says in which runs the proposal is nevertheless decided once. Which skills the
checks of the table let in is a parameter.
-/

import LiteHorse.Library.RowVersions
import LiteHorse.Library.Runs
import LiteHorse.Repositories.UserScope

namespace LiteHorse.Repositories.ProposalDecisions

open Python RowVersions Runs Versions

/-! ### Requests and statements -/

inductive Status where
  | pending
  | approved
  | rejected
  | superseded
  deriving DecidableEq

inductive Decision where
  | approve
  | reject
  deriving DecidableEq

def Decision.status : Decision → Status
  | .approve => .approved
  | .reject => .rejected

/-- The columns of a proposal that a decision reads besides the status. -/
structure SkillProposal where
  skillSlug : String
  body : String

inductive Raised where
  | proposalAlreadyDecided (status : Status)
  | proposalSkillSlugTaken (slug : String)
  | integrityError

/-- The row that `create_user` inserts for an approval. -/
def approvedSkill (userId : String) (proposal : SkillProposal) : UserRow Skill where
  row :=
    { name := proposal.skillSlug
      version := 1
      isCurrent := true
      content := skillUserRepo.created userId
        { frontmatter := [("slug", .str proposal.skillSlug), ("source", .str "evolve")]
          body := proposal.body
          enabledDefault := true } }
  agentId := none

/-- A current skill of the user, and which of the requests has inserted it. -/
structure SkillEntry (Id : Type) where
  row : UserRow Skill
  insertedBy : Option Id

/-- Where a request stands: it has read the proposal as pending, an approval has found no skill
of the slug and then inserted its own, and the status is updated. -/
inductive Phase where
  | idle
  | readPending (decision : Decision)
  | slugFree
  | inserted
  | updated (decision : Decision)
  | returned (result : Except Raised Decision)
  | aborted

inductive Event (Id : Type) where
  | read (id : Id) (decision : Decision)
  | lookUp (id : Id)
  | insert (id : Id)
  | update (id : Id)
  | commit (id : Id)
  | rollback (id : Id)

structure State (Id : Type) where
  /-- The status of the proposal. -/
  status : Cell Id Status
  /-- What the unique index has for the user and the slug. -/
  slot : Cell Id (Option (SkillEntry Id))
  phase : Id → Phase
  /-- The requests that have succeeded, in the order of their commits. -/
  served : List (Id × Decision)

section System

variable {Id : Type}

/-- A new proposal, with the user's skill of the slug if there is one. -/
def State.initial (existing : Option (UserRow Skill)) : State Id where
  status := .still .pending
  slot := .still (existing.map fun row => { row, insertedBy := none })
  phase := fun _ => .idle
  served := []

variable [DecidableEq Id]

def State.move (state : State Id) (id : Id) (phase : Phase) : State Id :=
  { state with phase := Function.update state.phase id phase }

/-- The SELECT of the proposal and the check of its status. -/
def read (state : State Id) (id : Id) (decision : Decision) : Option (State Id) :=
  match state.phase id with
  | .idle =>
    match state.status.view id with
    | .pending => some (state.move id (.readPending decision))
    | status => some (state.move id (.returned (.error (.proposalAlreadyDecided status))))
  | _ => none

/-- The transaction of a request commits. -/
def State.finish (state : State Id) (id : Id) (decision : Decision) : State Id :=
  { state.move id (.returned (.ok decision)) with
    status := state.status.commit id
    slot := state.slot.commit id
    served := state.served ++ [(id, decision)] }

/-- The transaction of a request is rolled back. -/
def State.abort (state : State Id) (id : Id) : State Id :=
  { state.move id .aborted with
    status := state.status.rollback id
    slot := state.slot.rollback id }

variable (accepts : UserRow Skill → Bool) (userId : String) (proposal : SkillProposal)

/-- `get_user` of the slug. -/
def lookUp (state : State Id) (id : Id) : Option (State Id) :=
  match state.phase id with
  | .readPending .approve =>
    match state.slot.view id with
    | none => some (state.move id .slugFree)
    | some _ =>
      some (state.move id (.returned (.error (.proposalSkillSlugTaken proposal.skillSlug))))
  | _ => none

/-- The INSERT of `create_user`. Where another transaction has an entry of the slug that is not
committed it waits, and where there is one it raises. -/
def insert (state : State Id) (id : Id) : Option (State Id) :=
  match state.phase id with
  | .slugFree =>
    if accepts (approvedSkill userId proposal) then
      if state.slot.freeFor id then
        match state.slot.view id with
        | none =>
          some { state.move id .inserted with
            slot := state.slot.write id
              (some { row := approvedSkill userId proposal, insertedBy := some id }) }
        | some _ => some (state.move id (.returned (.error .integrityError)))
      else none
    else some (state.move id (.returned (.error .integrityError)))
  | _ => none

/-- The decision that the request is about to write. -/
def Phase.deciding : Phase → Option Decision
  | .inserted => some .approve
  | .readPending .reject => some .reject
  | _ => none

/-- The UPDATE of the proposal, by its id alone. It waits for the lock of the row. -/
def update (state : State Id) (id : Id) : Option (State Id) :=
  match (state.phase id).deciding with
  | some decision =>
    if state.status.freeFor id then
      some { state.move id (.updated decision) with
        status := state.status.write id decision.status }
    else none
  | none => none

def commit (state : State Id) (id : Id) : Option (State Id) :=
  match state.phase id with
  | .updated decision => some (state.finish id decision)
  | _ => none

def rollback (state : State Id) (id : Id) : Option (State Id) :=
  match state.phase id with
  | .idle | .returned _ | .aborted => none
  | _ => some (state.abort id)

def step (state : State Id) : Event Id → Option (State Id)
  | .read id decision => read state id decision
  | .lookUp id => lookUp proposal state id
  | .insert id => insert accepts userId proposal state id
  | .update id => update state id
  | .commit id => commit state id
  | .rollback id => rollback state id

end System

/-! ### One decision -/

section Decided

variable {Id : Type}

/-- The status that the last request to succeed has set. -/
def finalStatus (served : List (Id × Decision)) : Status :=
  match served.getLast? with
  | some (_, decision) => decision.status
  | none => .pending

/-- A skill was created from the proposal. -/
def Created (state : State Id) : Prop :=
  ∃ entry id, state.slot.committed = some entry ∧ entry.insertedBy = some id

/-- At most one request has succeeded, the status is the one it set, and there is a skill from
the proposal exactly if it is approved. -/
structure DecidedOnce (state : State Id) : Prop where
  once : state.served.length ≤ 1
  final : state.status.committed = finalStatus state.served
  skill : Created state ↔ state.status.committed = .approved

/-- A request commits its decision while the proposal is pending. -/
def CommitsPending (state : State Id) : Event Id → Prop
  | .commit id => ∀ decision, state.phase id = .updated decision →
    state.status.committed = .pending
  | .read _ _ | .lookUp _ | .insert _ | .update _ | .rollback _ => True

end Decided

/-! ### Who holds the rows -/

/-- What a request has written to the status. -/
def Phase.statusDraft : Phase → Option Status
  | .updated decision => some decision.status
  | _ => none

section Locks

variable {Id : Type} (userId : String) (proposal : SkillProposal)

/-- What a request has written under the slug. -/
def slotDraft (id : Id) : Phase → Option (Option (SkillEntry Id))
  | .inserted | .updated .approve =>
    some (some { row := approvedSkill userId proposal, insertedBy := some id })
  | _ => none

structure Locks (state : State Id) : Prop where
  status : Guarded state.status fun id => (state.phase id).statusDraft
  slot : Guarded state.slot fun id => slotDraft userId proposal id (state.phase id)

variable {userId proposal} {accepts : UserRow Skill → Bool} {state next : State Id} {id : Id}

theorem locks_initial (existing : Option (UserRow Skill)) :
    Locks userId proposal (State.initial existing : State Id) where
  status := guarded_still _ fun _ => rfl
  slot := guarded_still _ fun _ => rfl

variable [DecidableEq Id]

theorem statusDraft_move (phase : Phase) :
    (fun other => ((state.move id phase).phase other).statusDraft) =
      Function.update (fun other => (state.phase other).statusDraft) id phase.statusDraft := by
  funext other
  exact Function.apply_update (fun _ => Phase.statusDraft) state.phase id phase other

theorem slotDraft_move (phase : Phase) :
    (fun other => slotDraft userId proposal other ((state.move id phase).phase other)) =
      Function.update (fun other => slotDraft userId proposal other (state.phase other)) id
        (slotDraft userId proposal id phase) := by
  funext other
  exact Function.apply_update (fun other => slotDraft userId proposal other) state.phase id phase
    other

/-- A request that writes nothing moves on. -/
theorem Locks.move (locks : Locks userId proposal state) {phase : Phase}
    (sameStatus : phase.statusDraft = (state.phase id).statusDraft)
    (sameSlot :
      slotDraft userId proposal id phase = slotDraft userId proposal id (state.phase id)) :
    Locks userId proposal (state.move id phase) where
  status := by
    rw [statusDraft_move]
    exact locks.status.move sameStatus
  slot := by
    rw [slotDraft_move]
    exact locks.slot.move sameSlot

/-! ### What a step does -/

theorem read_cases {decision : Decision} (taken : read state id decision = some next) :
    state.phase id = .idle ∧ ∃ phase : Phase, phase.statusDraft = none ∧
      (∀ userId proposal, slotDraft userId proposal id phase = none) ∧
        next = state.move id phase := by
  unfold read at taken
  split at taken
  next isIdle =>
    refine ⟨isIdle, ?_⟩
    split at taken
    next =>
      cases taken
      exact ⟨_, rfl, fun _ _ => rfl, rfl⟩
    next =>
      cases taken
      exact ⟨_, rfl, fun _ _ => rfl, rfl⟩
  next => cases taken

theorem lookUp_cases (taken : lookUp proposal state id = some next) :
    state.phase id = .readPending .approve ∧ ∃ phase : Phase, phase.statusDraft = none ∧
      (∀ userId proposal, slotDraft userId proposal id phase = none) ∧
        next = state.move id phase := by
  unfold lookUp at taken
  split at taken
  next isReading =>
    refine ⟨isReading, ?_⟩
    split at taken
    next =>
      cases taken
      exact ⟨_, rfl, fun _ _ => rfl, rfl⟩
    next =>
      cases taken
      exact ⟨_, rfl, fun _ _ => rfl, rfl⟩
  next => cases taken

theorem insert_cases (taken : insert accepts userId proposal state id = some next) :
    state.phase id = .slugFree ∧
      (next = state.move id (.returned (.error .integrityError)) ∨
        state.slot.freeFor id = true ∧
          next = { state.move id .inserted with
            slot := state.slot.write id
              (some { row := approvedSkill userId proposal, insertedBy := some id }) }) := by
  unfold insert at taken
  split at taken
  next isFree =>
    refine ⟨isFree, ?_⟩
    split at taken
    next =>
      split at taken
      next lockFree =>
        split at taken
        next =>
          cases taken
          exact Or.inr ⟨lockFree, rfl⟩
        next =>
          cases taken
          exact Or.inl rfl
      next => cases taken
    next =>
      cases taken
      exact Or.inl rfl
  next => cases taken

theorem update_cases (taken : update state id = some next) :
    ∃ decision, (state.phase id).deciding = some decision ∧ state.status.freeFor id = true ∧
      next = { state.move id (.updated decision) with
        status := state.status.write id decision.status } := by
  unfold update at taken
  split at taken
  next decision isDeciding =>
    split at taken
    next isFree =>
      cases taken
      exact ⟨decision, isDeciding, isFree, rfl⟩
    next => cases taken
  next => cases taken

theorem commit_cases (taken : commit state id = some next) :
    ∃ decision, state.phase id = .updated decision ∧ next = state.finish id decision := by
  unfold commit at taken
  split at taken
  next decision isUpdated =>
    cases taken
    exact ⟨decision, isUpdated, rfl⟩
  next => cases taken

theorem rollback_cases (taken : rollback state id = some next) : next = state.abort id := by
  unfold rollback at taken
  split at taken
  next => cases taken
  next => cases taken
  next => cases taken
  next =>
    cases taken
    rfl

omit [DecidableEq Id] in
/-- A request that is about to decide has already written what its decision has under the slug. -/
theorem slotDraft_deciding {phase : Phase} {decision : Decision}
    (isDeciding : phase.deciding = some decision) (userId : String) (proposal : SkillProposal)
    (id : Id) :
    slotDraft userId proposal id (.updated decision) = slotDraft userId proposal id phase := by
  unfold Phase.deciding at isDeciding
  split at isDeciding
  next =>
    cases isDeciding
    rfl
  next =>
    cases isDeciding
    rfl
  next => cases isDeciding

theorem Locks.insert (locks : Locks userId proposal state)
    (taken : insert accepts userId proposal state id = some next) :
    Locks userId proposal next := by
  obtain ⟨isFree, rfl | ⟨lockFree, rfl⟩⟩ := insert_cases taken
  · refine locks.move ?_ ?_
    · rw [isFree]
      rfl
    · rw [isFree]
      rfl
  · constructor
    · show Guarded state.status fun other =>
        ((state.move id .inserted).phase other).statusDraft
      rw [statusDraft_move]
      refine locks.status.move ?_
      rw [isFree]
      rfl
    · show Guarded (state.slot.write id _) fun other =>
        slotDraft userId proposal other ((state.move id .inserted).phase other)
      rw [slotDraft_move]
      exact locks.slot.write lockFree _

theorem Locks.update (locks : Locks userId proposal state)
    (taken : update state id = some next) : Locks userId proposal next := by
  obtain ⟨decision, isDeciding, isFree, rfl⟩ := update_cases taken
  constructor
  · show Guarded (state.status.write id decision.status) fun other =>
      ((state.move id (.updated decision)).phase other).statusDraft
    rw [statusDraft_move]
    exact locks.status.write isFree decision.status
  · show Guarded state.slot fun other =>
      slotDraft userId proposal other ((state.move id (.updated decision)).phase other)
    rw [slotDraft_move]
    exact locks.slot.move (slotDraft_deciding isDeciding userId proposal id)

theorem Locks.finish (locks : Locks userId proposal state) (decision : Decision) :
    Locks userId proposal (state.finish id decision) := by
  constructor
  · show Guarded (state.status.commit id) fun other =>
      ((state.move id (.returned (.ok decision))).phase other).statusDraft
    rw [statusDraft_move]
    exact locks.status.commit id
  · show Guarded (state.slot.commit id) fun other =>
      slotDraft userId proposal other ((state.move id (.returned (.ok decision))).phase other)
    rw [slotDraft_move]
    exact locks.slot.commit id

theorem Locks.abort (locks : Locks userId proposal state) :
    Locks userId proposal (state.abort id) := by
  constructor
  · show Guarded (state.status.rollback id) fun other =>
      ((state.move id .aborted).phase other).statusDraft
    rw [statusDraft_move]
    exact locks.status.rollback id
  · show Guarded (state.slot.rollback id) fun other =>
      slotDraft userId proposal other ((state.move id .aborted).phase other)
    rw [slotDraft_move]
    exact locks.slot.rollback id

theorem Locks.step {event : Event Id} (locks : Locks userId proposal state)
    (taken : step accepts userId proposal state event = some next) :
    Locks userId proposal next := by
  cases event with
  | read id decision =>
    obtain ⟨isIdle, phase, noStatus, noSlot, rfl⟩ := read_cases taken
    refine locks.move ?_ ?_
    · rw [noStatus, isIdle]
      rfl
    · rw [noSlot userId proposal, isIdle]
      rfl
  | lookUp id =>
    obtain ⟨isReading, phase, noStatus, noSlot, rfl⟩ := lookUp_cases taken
    refine locks.move ?_ ?_
    · rw [noStatus, isReading]
      rfl
    · rw [noSlot userId proposal, isReading]
      rfl
  | insert id => exact locks.insert taken
  | update id => exact locks.update taken
  | commit id =>
    obtain ⟨decision, _, rfl⟩ := commit_cases taken
    exact locks.finish decision
  | rollback id =>
    rw [rollback_cases taken]
    exact locks.abort

end Locks

/-! ### Which runs decide once -/

section Main

variable {Id : Type} {userId : String} {proposal : SkillProposal}
  {accepts : UserRow Skill → Bool} {state next : State Id} {id : Id} {decision : Decision}

/-- Before a commit nothing is decided. -/
theorem decidedOnce_of_committed (decided : DecidedOnce state)
    (sameStatus : next.status.committed = state.status.committed)
    (sameSlot : next.slot.committed = state.slot.committed)
    (sameServed : next.served = state.served) : DecidedOnce next := by
  constructor
  · rw [sameServed]
    exact decided.once
  · rw [sameStatus, sameServed]
    exact decided.final
  · unfold Created
    rw [sameStatus, sameSlot]
    exact decided.skill

theorem decidedOnce_initial (existing : Option (UserRow Skill)) :
    DecidedOnce (State.initial existing : State Id) where
  once := Nat.zero_le 1
  final := rfl
  skill := by
    refine ⟨?_, fun isApproved => by cases isApproved⟩
    rintro ⟨entry, id, isEntry, inserted⟩
    obtain ⟨row, _, rfl⟩ := Option.map_eq_some_iff.mp isEntry
    cases inserted

/-- A pending proposal has not been decided. -/
theorem served_eq_nil (decided : DecidedOnce state) (pending : state.status.committed = .pending) :
    state.served = [] := by
  have isLast := decided.final
  rw [pending] at isLast
  unfold finalStatus at isLast
  split at isLast
  next id decision _ =>
    cases decision with
    | approve => cases isLast
    | reject => cases isLast
  next noLast => exact List.getLast?_eq_none_iff.mp noLast

variable [DecidableEq Id]

theorem status_finish (locks : Locks userId proposal state)
    (isUpdated : state.phase id = .updated decision) :
    (state.finish id decision).status.committed = decision.status := by
  have isDraft : (state.phase id).statusDraft = some decision.status := by
    rw [isUpdated]
    rfl
  exact congrArg Cell.committed (locks.status.committed isDraft)

/-- A decision of a pending proposal makes a skill exactly if it is an approval. -/
theorem created_finish (locks : Locks userId proposal state) (decided : DecidedOnce state)
    (pending : state.status.committed = .pending) (isUpdated : state.phase id = .updated decision) :
    Created (state.finish id decision) ↔ decision.status = .approved := by
  cases decision with
  | approve =>
    have isDraft : slotDraft userId proposal id (state.phase id) =
        some (some { row := approvedSkill userId proposal, insertedBy := some id }) := by
      rw [isUpdated]
      rfl
    refine iff_of_true ⟨_, id, congrArg Cell.committed (locks.slot.committed isDraft), rfl⟩ rfl
  | reject =>
    have noDraft : slotDraft userId proposal id (state.phase id) = none := by
      rw [isUpdated]
      rfl
    have unchanged : (state.finish id .reject).slot.committed = state.slot.committed :=
      congrArg Cell.committed (locks.slot.committed_none noDraft)
    refine iff_of_false (fun created => ?_) (fun same => by cases same)
    unfold Created at created
    rw [unchanged] at created
    cases pending.symm.trans (decided.skill.mp created)

/-- A commit leaves the proposal decided once exactly if the proposal is pending. -/
theorem decidedOnce_finish_iff (locks : Locks userId proposal state) (decided : DecidedOnce state)
    (isUpdated : state.phase id = .updated decision) :
    DecidedOnce (state.finish id decision) ↔ state.status.committed = .pending := by
  constructor
  · intro kept
    have few : (state.served ++ [(id, decision)]).length ≤ 1 := kept.once
    rw [List.length_append, List.length_singleton] at few
    have none : state.served = [] := List.length_eq_zero_iff.mp (by omega)
    rw [decided.final, none]
    rfl
  · intro pending
    have one : (state.finish id decision).served = [(id, decision)] :=
      congrArg (· ++ [(id, decision)]) (served_eq_nil decided pending)
    constructor
    · rw [one]
      exact le_rfl
    · rw [status_finish locks isUpdated, one]
      rfl
    · rw [status_finish locks isUpdated]
      exact created_finish locks decided pending isUpdated

theorem decidedOnce_step {event : Event Id} (locks : Locks userId proposal state)
    (decided : DecidedOnce state) (commits : CommitsPending state event)
    (taken : step accepts userId proposal state event = some next) : DecidedOnce next := by
  cases event with
  | read id decision =>
    obtain ⟨_, _, _, _, rfl⟩ := read_cases taken
    exact decidedOnce_of_committed decided rfl rfl rfl
  | lookUp id =>
    obtain ⟨_, _, _, _, rfl⟩ := lookUp_cases taken
    exact decidedOnce_of_committed decided rfl rfl rfl
  | insert id =>
    obtain ⟨_, rfl | ⟨_, rfl⟩⟩ := insert_cases taken
    · exact decidedOnce_of_committed decided rfl rfl rfl
    · exact decidedOnce_of_committed decided rfl rfl rfl
  | update id =>
    obtain ⟨_, _, _, rfl⟩ := update_cases taken
    exact decidedOnce_of_committed decided rfl rfl rfl
  | commit id =>
    obtain ⟨decision, isUpdated, rfl⟩ := commit_cases taken
    exact (decidedOnce_finish_iff locks decided isUpdated).mpr (commits decision isUpdated)
  | rollback id =>
    rw [rollback_cases taken]
    exact decidedOnce_of_committed decided Cell.committed_rollback Cell.committed_rollback rfl

/-- A decision of a proposal that is not pending commits all the same. -/
theorem breaks_of_late {event : Event Id} (locks : Locks userId proposal state)
    (decided : DecidedOnce state) (late : ¬ CommitsPending state event) :
    ∃ next, step accepts userId proposal state event = some next ∧ ¬ DecidedOnce next := by
  cases event with
  | commit id =>
    change ¬ ∀ decision, _ at late
    rw [not_forall] at late
    obtain ⟨decision, late⟩ := late
    obtain ⟨isUpdated, notPending⟩ := Classical.not_imp.mp late
    refine ⟨state.finish id decision, ?_, fun kept =>
      notPending ((decidedOnce_finish_iff locks decided isUpdated).mp kept)⟩
    show commit state id = _
    unfold commit
    rw [isUpdated]
  | read id decision => exact absurd trivial late
  | lookUp id => exact absurd trivial late
  | insert id => exact absurd trivial late
  | update id => exact absurd trivial late
  | rollback id => exact absurd trivial late

variable (userId proposal accepts)

/-- The proposal is decided once in every state of a run exactly if every request that commits a
decision does so while the proposal is pending. -/
theorem decidedOnce_iff (existing : Option (UserRow Skill)) (events : List (Event Id)) :
    Always (step accepts userId proposal) DecidedOnce (State.initial existing) events ↔
      StepsMeet (step accepts userId proposal) CommitsPending (State.initial existing) events := by
  have start : Locks userId proposal (State.initial existing : State Id) ∧
      DecidedOnce (State.initial existing : State Id) :=
    ⟨locks_initial existing, decidedOnce_initial existing⟩
  have preserved : ∀ (state : State Id) event next,
      Locks userId proposal state ∧ DecidedOnce state → CommitsPending state event →
        step accepts userId proposal state event = some next →
          Locks userId proposal next ∧ DecidedOnce next :=
    fun state event next holds commits taken =>
      ⟨holds.1.step taken, decidedOnce_step holds.1 holds.2 commits taken⟩
  exact always_iff_of_invariant _ preserved (fun state holds => holds.2)
    (fun state event holds late => breaks_of_late holds.1 holds.2 late) start

end Main

/-! ### Two rejections -/

/-- Both requests read the proposal before either decides it. -/
def bothReject : List (Event Nat) :=
  [.read 0 .reject, .read 1 .reject, .update 0, .commit 0, .update 1, .commit 1]

/-- Both succeed, under the check that a user's skill has an agent. -/
theorem both_rejections_succeed :
    ∃ last, exec (step (fun row => row.agentId.isSome) "7"
        { skillSlug := "brief", body := "Answer in one line." }) (State.initial none) bothReject =
          some last ∧
      last.served = [(0, .reject), (1, .reject)] :=
  ⟨_, rfl, rfl⟩

end LiteHorse.Repositories.ProposalDecisions
