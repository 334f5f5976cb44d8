/-
This file is about the runs of one delete request: the daily tick puts messages into the
queue, every message may be delivered any number of times, and a delivery reads the request,
exports, uploads, purges and marks the request completed, each in a transaction of its own
and with a possible failure or crash after each.

The purge clears the request's own `user_id`. A delivery that reads the request in the gap
between a purge and `mark_completed` takes it for one that was purged before and is done, so
the request stays open for good. `converges_iff` says that this gap is all there is to avoid.
-/

import LiteHorse.Library.Runs
import LiteHorse.Repositories.GdprDelete
import LiteHorse.Worker.GdprPurge

namespace LiteHorse.Worker

open ForeignKeys Models Repositories GdprDeleteRepo Runs

/-- Where a delivery stands. -/
inductive Delivery where
  | waiting
  | requestRead (userId : String)
  | exported (userId : String)
  | uploaded (userId : String)
  | purged (userId : String)
  /-- The handler has returned `True`; whether a purge had been committed by then. -/
  | processed (afterPurge : Bool)
  /-- The handler has returned `False` or raised, or its worker has crashed. -/
  | stopped
  deriving DecidableEq

/-- The user a delivery is at work on. -/
def Delivery.userId : Delivery → Option String
  | .requestRead userId | .exported userId | .uploaded userId | .purged userId => some userId
  | .waiting | .processed _ | .stopped => none

structure GdprState where
  database : RequestDatabase
  /-- The messages that were sent for the request. -/
  messages : Nat
  delivery : Nat → Delivery
  /-- A purge was committed. -/
  purgeCommitted : Bool

def GdprState.initial (database : RequestDatabase) : GdprState where
  database := database
  messages := 0
  delivery _ := .waiting
  purgeCommitted := false

/-- The steps of the tick, of the numbered deliveries, and of a user who cancels. A step that
calls something may fail. -/
inductive GdprEvent where
  | tick (now : Int) (limit : Nat)
  | read (index : Nat)
  | collectExport (index : Nat) (succeeds : Bool)
  | upload (index : Nat) (succeeds : Bool)
  | purge (index : Nat) (succeeds : Bool)
  | markCompleted (index : Nat) (succeeds : Bool) (now : Int)
  | crash (index : Nat)
  | cancel (userId : String) (now : Int)

def GdprState.moveTo (state : GdprState) (index : Nat) (delivery : Delivery) : GdprState :=
  { state with delivery := Function.update state.delivery index delivery }

def archiveKey (userId requestId : String) : String :=
  "gdpr/" ++ userId ++ "/" ++ requestId ++ ".json"

/-- What `run_gdpr_delete` does with the request it has read. -/
def afterRead (purgeCommitted : Bool) : Option GdprDeleteRequest → Delivery
  | none => .processed purgeCommitted
  | some request =>
    if request.completedAt.isSome || request.cancelledAt.isSome then .processed purgeCommitted
    else
      match request.userId with
      | none => .processed purgeCommitted
      | some userId => .requestRead userId

variable (requestId : String)

/-- One step. A delivery is of a message that was sent; the queue delivers it at least once. -/
def gdprStep (state : GdprState) : GdprEvent → Option GdprState
  | .tick now limit =>
    some { state with
      messages := state.messages +
        ((listDue state.database now limit).filter fun request => request.id = requestId).length }
  | .read index =>
    match state.delivery index with
    | .waiting =>
      if state.messages = 0 then none
      else some (state.moveTo index
        (afterRead state.purgeCommitted (getById state.database requestId)))
    | _ => none
  | .collectExport index succeeds =>
    match state.delivery index with
    | .requestRead userId =>
      some (state.moveTo index (if succeeds then .exported userId else .stopped))
    | _ => none
  | .upload index succeeds =>
    match state.delivery index with
    | .exported userId =>
      some (state.moveTo index (if succeeds then .uploaded userId else .stopped))
    | _ => none
  | .purge index succeeds =>
    match state.delivery index with
    | .uploaded userId =>
      match if succeeds then purgeTenantRows userId state.database else none with
      | some purged =>
        some { state.moveTo index (.purged userId) with
          database := purged, purgeCommitted := true }
      | none => some (state.moveTo index .stopped)
    | _ => none
  | .markCompleted index succeeds now =>
    match state.delivery index with
    | .purged userId =>
      if succeeds then
        some { state.moveTo index (.processed state.purgeCommitted) with
          database :=
            (markCompleted state.database requestId (archiveKey userId requestId) now).1 }
      else some (state.moveTo index .stopped)
    | _ => none
  | .crash index =>
    if (state.delivery index).userId.isSome then some (state.moveTo index .stopped) else none
  | .cancel userId now =>
    some { state with database := (cancelPending state.database userId now).1 }

/-- Once a delivery was processed after a purge, the request is completed and archived and no
tick finds it due. -/
def Converges (state : GdprState) : Prop :=
  ∀ index, state.delivery index = .processed true →
    (∃ request, getById state.database requestId = some request ∧
      request.completedAt.isSome = true ∧ request.archiveS3Key.isSome = true) ∧
    ∀ now limit, ∀ request ∈ listDue state.database now limit, request.id ≠ requestId

/-- A delivery reads the request while its user is cleared and it is not completed. -/
def ReadsInGap (state : GdprState) : GdprEvent → Prop
  | .read index => state.delivery index = .waiting ∧ state.messages ≠ 0 ∧
      ∃ request, getById state.database requestId = some request ∧ request.userId = none ∧
        request.completedAt = none
  | _ => False

instance (state : GdprState) : ∀ event, Decidable (ReadsInGap requestId state event)
  | .read _ => inferInstanceAs (Decidable (_ ∧ _ ∧ ∃ request ∈ getById state.database requestId, _))
  | .tick .. | .collectExport .. | .upload .. | .purge .. | .markCompleted .. | .crash ..
  | .cancel .. => inferInstanceAs (Decidable False)

/-! ### What a step does -/

/-- The ways in which a step can go, with what the state lets through. -/
inductive GdprSteps (state : GdprState) : GdprEvent → GdprState → Prop where
  | ticks (now : Int) (limit : Nat) :
    GdprSteps state (.tick now limit)
      { state with
        messages := state.messages +
          ((listDue state.database now limit).filter fun request => request.id = requestId).length }
  | reads (index : Nat) (waiting : state.delivery index = .waiting) (sent : state.messages ≠ 0) :
    GdprSteps state (.read index)
      (state.moveTo index (afterRead state.purgeCommitted (getById state.database requestId)))
  /-- A delivery at work goes to its next stage, or stops. -/
  | moves {event : GdprEvent} (index : Nat) (userId : String)
      (works : (state.delivery index).userId = some userId) (delivery : Delivery)
      (isNext : delivery.userId = some userId ∨ delivery = .stopped) :
    GdprSteps state event (state.moveTo index delivery)
  | purges (index : Nat) (userId : String) (works : (state.delivery index).userId = some userId)
      (purged : RequestDatabase)
      (success : purgeTenantRows userId state.database = some purged) :
    GdprSteps state (.purge index true)
      { state.moveTo index (.purged userId) with database := purged, purgeCommitted := true }
  | completes (index : Nat) (now : Int) (userId : String)
      (works : (state.delivery index).userId = some userId) :
    GdprSteps state (.markCompleted index true now)
      { state.moveTo index (.processed state.purgeCommitted) with
        database :=
          (markCompleted state.database requestId (archiveKey userId requestId) now).1 }
  | cancels (userId : String) (now : Int) :
    GdprSteps state (.cancel userId now)
      { state with database := (cancelPending state.database userId now).1 }

theorem next_of_attempt (succeeds : Bool) {delivery : Delivery} {userId : String}
    (same : delivery.userId = some userId) :
    (if succeeds then delivery else .stopped).userId = some userId ∨
      (if succeeds then delivery else .stopped) = .stopped := by
  cases succeeds with
  | true => exact Or.inl same
  | false => exact Or.inr rfl

/-- The inversion lemma of `gdprStep`. -/
theorem gdprStep_cases {state next : GdprState} {event : GdprEvent}
    (taken : gdprStep requestId state event = some next) :
    GdprSteps requestId state event next := by
  unfold gdprStep at taken
  cases event with
  | tick now limit =>
    cases taken
    exact .ticks now limit
  | read index =>
    dsimp only at taken
    split at taken
    · next waiting =>
      split at taken
      · cases taken
      · next sent =>
        cases taken
        exact .reads index waiting sent
    · cases taken
  | collectExport index succeeds =>
    dsimp only at taken
    split at taken
    · next userId stage =>
      cases taken
      exact .moves index userId (by rw [stage]; rfl) _ (next_of_attempt succeeds rfl)
    · cases taken
  | upload index succeeds =>
    dsimp only at taken
    split at taken
    · next userId stage =>
      cases taken
      exact .moves index userId (by rw [stage]; rfl) _ (next_of_attempt succeeds rfl)
    · cases taken
  | purge index succeeds =>
    dsimp only at taken
    split at taken
    · next userId stage =>
      have works : (state.delivery index).userId = some userId := by rw [stage]; rfl
      split at taken
      · next purged attempt =>
        cases taken
        obtain ⟨rfl, success⟩ := (Option.ite_none_right_eq_some).mp attempt
        exact .purges index userId works purged success
      · cases taken
        exact .moves index userId works .stopped (Or.inr rfl)
    · cases taken
  | markCompleted index succeeds now =>
    dsimp only at taken
    split at taken
    · next userId stage =>
      have works : (state.delivery index).userId = some userId := by rw [stage]; rfl
      split at taken
      · next success =>
        cases taken
        rw [success]
        exact .completes index now userId works
      · cases taken
        exact .moves index userId works .stopped (Or.inr rfl)
    · cases taken
  | crash index =>
    dsimp only at taken
    split at taken
    · next atWork =>
      cases taken
      obtain ⟨userId, works⟩ := Option.isSome_iff_exists.mp atWork
      exact .moves index userId works .stopped (Or.inr rfl)
    · cases taken
  | cancel userId now =>
    cases taken
    exact .cancels userId now

/-! ### What one step keeps -/

section Invariant

variable {requestId} {user : String} {database : RequestDatabase}

/-- What a committed purge leaves of a request. -/
theorem getById_purge {purged : RequestDatabase}
    (success : purgeTenantRows user database = some purged) :
    getById purged requestId = (getById database requestId).map (·.forgetUser user) := by
  have forgotten (row : Row Table Column String (Option RequestColumns)) :
      GdprDeleteRequest.ofRow (forgetUser user row) =
        (GdprDeleteRequest.ofRow row).map (·.forgetUser user) := by
    unfold GdprDeleteRequest.ofRow forgetUser GdprDeleteRequest.forgetUser
    by_cases inTable : row.table = .gdprDeleteRequests
    · cases row.data <;> simp [inTable]
    · simp [inTable]
  have inRequests (request : GdprDeleteRequest) :
      request ∈ requests purged ↔ ∃ old ∈ requests database, old.forgetUser user = request := by
    unfold requests
    simp only [List.mem_filterMap]
    constructor
    · rintro ⟨row, member, ofRow⟩
      obtain ⟨old, oldMember, _, rfl⟩ := (mem_requests_of_purge success).mp
        ⟨member, (ofRow_eq_some_iff.mp ofRow).1⟩
      rw [forgotten, Option.map_eq_some_iff] at ofRow
      obtain ⟨oldRequest, ofOld, rfl⟩ := ofRow
      exact ⟨oldRequest, ⟨old, oldMember, ofOld⟩, rfl⟩
    · rintro ⟨oldRequest, ⟨old, oldMember, ofOld⟩, rfl⟩
      have inTable := (ofRow_eq_some_iff.mp ofOld).1
      refine ⟨forgetUser user old,
        ((mem_requests_of_purge success).mpr ⟨old, oldMember, inTable, rfl⟩).1, ?_⟩
      rw [forgotten, ofOld]
      rfl
  ext request
  rw [getById_eq_some_iff, inRequests, Option.map_eq_some_iff]
  constructor
  · rintro ⟨⟨old, member, rfl⟩, sameId⟩
    exact ⟨old, getById_eq_some_iff.mpr ⟨member, sameId⟩, rfl⟩
  · rintro ⟨old, found, rfl⟩
    obtain ⟨member, sameId⟩ := getById_eq_some_iff.mp found
    exact ⟨⟨old, member, rfl⟩, sameId⟩

/-- What every run keeps of the request of a user: it is there, its user is cleared exactly
when a purge is committed, it is archived when it is completed, every delivery is at work on
its user, and it is completed when a delivery was processed after a purge. -/
structure Consistent (requestId user : String) (state : GdprState) : Prop where
  request : ∃ request, getById state.database requestId = some request ∧
    request.userId = (if state.purgeCommitted then none else some user) ∧
    (request.completedAt.isSome = true → request.archiveS3Key.isSome = true) ∧
    ∀ index, state.delivery index = .processed true → request.completedAt.isSome = true
  user : ∀ index userId, (state.delivery index).userId = some userId → userId = user

variable {state next : GdprState}

/-- The step lemma for the steps of one delivery. What the request is afterwards has to keep
what `Consistent` says of it, and it does not lose its completion. -/
theorem Consistent.moved (consistent : Consistent requestId user state) (index : Nat)
    (delivery : Delivery) (moved : next.delivery = Function.update state.delivery index delivery)
    (sameUser : ∀ userId, delivery.userId = some userId → userId = user)
    (request : ∀ request, getById state.database requestId = some request →
      request.userId = (if state.purgeCommitted then none else some user) →
      (request.completedAt.isSome = true → request.archiveS3Key.isSome = true) →
      ∃ left, getById next.database requestId = some left ∧
        left.userId = (if next.purgeCommitted then none else some user) ∧
        (left.completedAt.isSome = true → left.archiveS3Key.isSome = true) ∧
        (request.completedAt.isSome = true → left.completedAt.isSome = true) ∧
        (delivery = .processed true → left.completedAt.isSome = true)) :
    Consistent requestId user next where
  request := by
    obtain ⟨old, found, userId, archived, processed⟩ := consistent.request
    obtain ⟨left, leftFound, leftUserId, leftArchived, kept, new⟩ :=
      request old found userId archived
    refine ⟨left, leftFound, leftUserId, leftArchived, fun other isProcessed => ?_⟩
    rw [moved] at isProcessed
    by_cases same : other = index
    · rw [same, Function.update_self] at isProcessed
      exact new isProcessed
    · rw [Function.update_of_ne same] at isProcessed
      exact kept (processed other isProcessed)
  user := by
    intro other userId works
    rw [moved] at works
    by_cases same : other = index
    · rw [same, Function.update_self] at works
      exact sameUser userId works
    · rw [Function.update_of_ne same] at works
      exact consistent.user other userId works

/-- A delivery that only moves, to a stage that says nothing about the request. -/
theorem Consistent.moveTo (consistent : Consistent requestId user state) (index : Nat)
    (delivery : Delivery) (sameUser : ∀ userId, delivery.userId = some userId → userId = user)
    (unprocessed : delivery ≠ .processed true) :
    Consistent requestId user (state.moveTo index delivery) :=
  consistent.moved index delivery rfl sameUser fun request found userId archived =>
    ⟨request, found, userId, archived, id, fun processed => absurd processed unprocessed⟩

/-- A request that is read outside the gap is not taken for done before it is. -/
theorem Consistent.afterRead (consistent : Consistent requestId user state) (index : Nat)
    (outside : ¬ ReadsInGap requestId state (.read index))
    (waiting : state.delivery index = .waiting) (sent : state.messages ≠ 0) :
    Consistent requestId user (state.moveTo index
      (Worker.afterRead state.purgeCommitted (getById state.database requestId))) := by
  obtain ⟨request, found, userId, archived, _⟩ := consistent.request
  rw [found]
  have settledByPurge : Worker.afterRead state.purgeCommitted (some request) = .processed true →
      request.completedAt.isSome = true := by
    intro isProcessed
    by_contra notCompleted
    rw [Option.not_isSome_iff_eq_none] at notCompleted
    refine outside ⟨waiting, sent, request, found, ?_, notCompleted⟩
    have committed : state.purgeCommitted = true := by
      unfold Worker.afterRead at isProcessed
      grind
    rw [userId, committed]
    rfl
  refine consistent.moved index _ rfl (fun other works => ?_)
    fun old oldFound oldUserId oldArchived =>
      ⟨old, oldFound, oldUserId, oldArchived, id, fun isProcessed => ?_⟩
  · have readUser : request.userId = some other := by
      unfold Worker.afterRead Delivery.userId at works
      grind
    rw [userId] at readUser
    grind
  · cases Option.some.inj (found.symm.trans oldFound)
    exact settledByPurge isProcessed

/-- A step forward or a stop of a delivery at work. -/
theorem Consistent.stage (consistent : Consistent requestId user state) {index : Nat}
    {userId : String} (works : (state.delivery index).userId = some userId) (delivery : Delivery)
    (same : delivery.userId = some userId ∨ delivery = .stopped) :
    Consistent requestId user (state.moveTo index delivery) := by
  refine consistent.moveTo index delivery (fun other otherWorks => ?_) ?_
  · rcases same with same | rfl
    · rw [← Option.some.inj (same.symm.trans otherWorks)]
      exact consistent.user index userId works
    · cases otherWorks
  · rintro rfl
    rcases same with same | same <;> cases same

theorem Consistent.purged (consistent : Consistent requestId user state) (index : Nat)
    {purged : RequestDatabase} (success : purgeTenantRows user state.database = some purged) :
    Consistent requestId user { state.moveTo index (.purged user) with
      database := purged, purgeCommitted := true } := by
  refine consistent.moved index (.purged user) rfl (fun other works => ?_)
    fun request found userId archived => ?_
  · exact (Option.some.inj works).symm
  · refine ⟨request.forgetUser user, ?_, ?_, archived, id, fun same => by cases same⟩
    · rw [getById_purge success, found]
      rfl
    · unfold GdprDeleteRequest.forgetUser
      rw [userId]
      cases state.purgeCommitted <;> simp

theorem Consistent.completed (consistent : Consistent requestId user state) (index : Nat)
    (now : Int) :
    Consistent requestId user { state.moveTo index (.processed state.purgeCommitted) with
      database :=
        (markCompleted state.database requestId (archiveKey user requestId) now).1 } := by
  refine consistent.moved index (.processed state.purgeCommitted) rfl
    (fun _ works => by cases works) fun request found userId archived => ?_
  refine ⟨_, (getById_markCompleted _ _).trans (congrArg _ found), ?_⟩
  by_cases notCompleted : request.completedAt = none
  · simp only [if_pos notCompleted]
    exact ⟨userId, fun _ => rfl, fun _ => rfl, fun _ => rfl⟩
  · simp only [if_neg notCompleted]
    exact ⟨userId, archived, id, fun _ => Option.isSome_iff_ne_none.mpr notCompleted⟩

theorem Consistent.cancelled (consistent : Consistent requestId user state) (userId : String)
    (now : Int) :
    Consistent requestId user
      { state with database := (cancelPending state.database userId now).1 } := by
  obtain ⟨request, found, isUser, archived, processed⟩ := consistent.request
  refine ⟨⟨_, (getById_cancelPending userId now).trans (congrArg _ found), ?_⟩, consistent.user⟩
  by_cases cancels : request.userId = some userId ∧ request.pending = true
  · simp only [if_pos cancels]
    exact ⟨isUser, archived, processed⟩
  · simp only [if_neg cancels]
    exact ⟨isUser, archived, processed⟩

/-- The step lemma: outside the gap every step keeps the request consistent. -/
theorem consistent_step (event : GdprEvent) (consistent : Consistent requestId user state)
    (outside : ¬ ReadsInGap requestId state event)
    (taken : gdprStep requestId state event = some next) : Consistent requestId user next := by
  cases gdprStep_cases requestId taken with
  | ticks now limit => exact ⟨consistent.request, consistent.user⟩
  | reads index waiting sent => exact consistent.afterRead index outside waiting sent
  | moves index userId works delivery isNext => exact consistent.stage works delivery isNext
  | purges index userId works purged success =>
    rw [consistent.user index userId works] at success ⊢
    exact consistent.purged index success
  | completes index now userId works =>
    rw [consistent.user index userId works]
    exact consistent.completed index now
  | cancels userId now => exact consistent.cancelled userId now

/-- A request that is consistent is settled for the tick once a delivery was processed after a
purge. -/
theorem Consistent.converges (consistent : Consistent requestId user state) :
    Converges requestId state := by
  intro index isProcessed
  obtain ⟨request, found, _, archived, processed⟩ := consistent.request
  have completed := processed index isProcessed
  refine ⟨⟨request, found, completed, archived completed⟩, fun now limit due isDue sameId => ?_⟩
  obtain ⟨member, isPending⟩ := pending_of_due isDue
  have same := found.symm.trans (getById_eq_some_iff.mpr ⟨member, sameId⟩)
  rw [Option.some.inj same] at completed
  rw [GdprDeleteRequest.pending, Bool.and_eq_true, Option.isNone_iff_eq_none] at isPending
  rw [isPending.1] at completed
  cases completed

/-- A delivery that reads the request in the gap is processed and leaves it open. -/
theorem Consistent.gap (consistent : Consistent requestId user state) {event : GdprEvent}
    (inGap : ReadsInGap requestId state event) :
    ∃ next, gdprStep requestId state event = some next ∧ ¬ Converges requestId next := by
  cases event with
  | read index =>
    obtain ⟨waiting, sent, request, found, cleared, notCompleted⟩ := inGap
    obtain ⟨same, sameFound, userId, _⟩ := consistent.request
    rw [Option.some.inj (sameFound.symm.trans found), cleared] at userId
    have committed : state.purgeCommitted = true := by
      by_contra notCommitted
      rw [if_neg notCommitted] at userId
      cases userId
    have takenForDone : Worker.afterRead true (some request) = .processed true := by
      simp only [Worker.afterRead, cleared]
      exact ite_self _
    refine ⟨state.moveTo index (.processed true), ?_, fun converges => ?_⟩
    · simp only [gdprStep, waiting, if_neg sent, found, committed, takenForDone]
    · obtain ⟨⟨left, leftFound, completed, _⟩, _⟩ :=
        converges index (Function.update_self _ _ _)
      rw [Option.some.inj (leftFound.symm.trans found), notCompleted] at completed
      cases completed
  | tick => exact absurd inGap not_false
  | collectExport => exact absurd inGap not_false
  | upload => exact absurd inGap not_false
  | purge => exact absurd inGap not_false
  | markCompleted => exact absurd inGap not_false
  | crash => exact absurd inGap not_false
  | cancel => exact absurd inGap not_false

end Invariant

/-- A run over the request of a user converges exactly when no delivery in it reads the request
between a committed purge and `mark_completed`. -/
theorem converges_iff (database : RequestDatabase) (requestId : String)
    (request : GdprDeleteRequest) (found : getById database requestId = some request)
    (ofUser : request.userId.isSome = true) (notCompleted : request.completedAt = none)
    (events : List GdprEvent) :
    Always (gdprStep requestId) (Converges requestId) (GdprState.initial database) events ↔
      StepsMeet (gdprStep requestId) (fun state event => ¬ ReadsInGap requestId state event)
        (GdprState.initial database) events := by
  obtain ⟨user, isUser⟩ := Option.isSome_iff_exists.mp ofUser
  have initial : Consistent requestId user (GdprState.initial database) := by
    refine ⟨⟨request, found, isUser, fun completed => ?_, fun _ processed => by cases processed⟩,
      fun _ _ works => by cases works⟩
    rw [notCompleted] at completed
    cases completed
  have preserved : ∀ state event next, Consistent requestId user state →
      ¬ ReadsInGap requestId state event → gdprStep requestId state event = some next →
        Consistent requestId user next :=
    fun state event next => consistent_step event
  exact always_iff_of_invariant (gdprStep requestId) preserved
    (fun state consistent => consistent.converges)
    (fun state event consistent inGap => consistent.gap (not_not.mp inGap)) initial

/-- A user with nothing but a pending request. -/
def pendingRequest : RequestDatabase where
  rows :=
    [⟨.users, "10000000-0000-0000-0000-000000000001", fun _ => none, none⟩,
      ⟨.gdprDeleteRequests, "c0000000-0000-0000-0000-000000000001", fun column =>
        if column = .userId then some "10000000-0000-0000-0000-000000000001" else none,
        some { scheduledAt := 0 }⟩]
  keysDistinct := by decide
  refsValid := by decide

/-- A worker that goes through to `mark_completed`, and a second delivery after it. -/
def uninterrupted : List GdprEvent :=
  [.tick 1 100, .read 0, .collectExport 0 true, .upload 0 true, .purge 0 true,
    .markCompleted 0 true 2, .read 1]

/-- A worker that crashes after its purge, and a second delivery after it. -/
def crashAfterPurge : List GdprEvent :=
  [.tick 1 100, .read 0, .collectExport 0 true, .upload 0 true, .purge 0 true, .crash 0, .read 1]

theorem uninterrupted_converges :
    Always (gdprStep "c0000000-0000-0000-0000-000000000001")
      (Converges "c0000000-0000-0000-0000-000000000001") (GdprState.initial pendingRequest)
      uninterrupted :=
  (converges_iff pendingRequest "c0000000-0000-0000-0000-000000000001"
    { scheduledAt := 0, id := "c0000000-0000-0000-0000-000000000001",
      userId := some "10000000-0000-0000-0000-000000000001" }
    (by decide) (by decide) (by decide) uninterrupted).mpr (by decide)

/-- The request a run leaves, with the stage of its second delivery. -/
def outcome (events : List GdprEvent) : Option (Delivery × Option GdprDeleteRequest) :=
  (exec (gdprStep "c0000000-0000-0000-0000-000000000001") (GdprState.initial pendingRequest)
    events).map fun state =>
      (state.delivery 1, getById state.database "c0000000-0000-0000-0000-000000000001")

/-- After the crash the second delivery is processed and the request stays open. -/
theorem crash_leaves_request_open :
    ¬ ∀ (database : RequestDatabase) (requestId : String) (request : GdprDeleteRequest),
      getById database requestId = some request → request.userId.isSome = true →
        request.completedAt = none → ∀ events, Always (gdprStep requestId)
          (Converges requestId) (GdprState.initial database) events := by
  intro converges
  have always := converges pendingRequest "c0000000-0000-0000-0000-000000000001"
    { scheduledAt := 0, id := "c0000000-0000-0000-0000-000000000001",
      userId := some "10000000-0000-0000-0000-000000000001" }
    (by decide) (by decide) (by decide) crashAfterPurge
  have left : outcome crashAfterPurge = some (.processed true, some
      { scheduledAt := 0, id := "c0000000-0000-0000-0000-000000000001", userId := none }) := by
    decide
  obtain ⟨last, run, shown⟩ := Option.map_eq_some_iff.mp left
  obtain ⟨processed, found⟩ := Prod.mk.inj shown
  obtain ⟨⟨request, sameFound, completed, _⟩, _⟩ := always.last _ run 1 processed
  rw [found] at sameFound
  cases sameFound
  cases completed

end LiteHorse.Worker
