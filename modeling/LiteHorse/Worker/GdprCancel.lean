/-
This file is about the cancellation of a delete request in the runs of `GdprRun`. A delivery
looks at `cancelled_at` in its first transaction only; neither the purge nor
`mark_completed` looks at it again.

`cancellation_final` says that a cancellation is never carried out where it takes effect
while no delivery is at work. `inFlight_cancellation_carried_out` is the other half: a delivery
that has read the request goes on to delete the user after the cancellation.
-/

import LiteHorse.Worker.GdprRun

namespace LiteHorse.Worker

open ForeignKeys Models Repositories GdprDeleteRepo Runs

variable (requestId : String)

/-- `cancel_pending` has returned the request: it alone writes `cancelled_at`. -/
def Cancelled (database : RequestDatabase) : Prop :=
  ∃ request, getById database requestId = some request ∧ request.cancelledAt.isSome = true

/-- The request carries both times. -/
def SettledTwice (database : RequestDatabase) : Prop :=
  ∃ request, getById database requestId = some request ∧
    request.cancelledAt.isSome = true ∧ request.completedAt.isSome = true

/-- A row of the user, or the user itself, is there before and not after. -/
def DeletesRowsOf (user : String) (before after : RequestDatabase) : Prop :=
  ∃ row ∈ before.rows, (isUser user row = true ∨ Owned user before row) ∧
    ∀ left ∈ after.rows, left.table = row.table → left.key ≠ row.key

/-- In no step of the run after the cancellation the user's rows are deleted, and in no state
the request is cancelled and completed. -/
def CancellationFinal (user : String) (state : GdprState) (events : List GdprEvent) : Prop :=
  StepsMeet (gdprStep requestId)
      (fun state event => Cancelled requestId state.database → ∀ next,
        gdprStep requestId state event = some next →
          ¬ DeletesRowsOf user state.database next.database) state events ∧
    Always (gdprStep requestId) (fun state => ¬ SettledTwice requestId state.database) state events

/-- `cancel_pending` returns the request while a delivery that has read it is at work. -/
def CancelsInFlight (state : GdprState) : GdprEvent → Prop
  | .cancel userId _ =>
    (∃ request, getById state.database requestId = some request ∧
      request.userId = some userId ∧ request.pending = true) ∧
    ∃ index, (state.delivery index).userId.isSome = true
  | _ => False

/-! ### `cancel_pending` and the flag -/

section Cancel

variable {requestId} {user : String} {database : RequestDatabase}

/-- The row that `cancel_pending` returns is cancelled. -/
theorem cancelled_of_cancelPending {request : GdprDeleteRequest} {now : Int}
    (returned : (cancelPending database user now).2 = some request) :
    Cancelled request.id (cancelPending database user now).1 := by
  unfold cancelPending updateWhere at returned
  obtain ⟨old, member, rfl⟩ := List.mem_map.mp (List.mem_of_mem_head? returned)
  rw [List.mem_filter, Bool.and_eq_true, decide_eq_true_iff] at member
  have found : getById database old.id = some old := getById_eq_some_iff.mpr ⟨member.1, rfl⟩
  refine ⟨_, (getById_cancelPending user now).trans (congrArg _ found), ?_⟩
  simp only [if_pos member.2, Option.isSome_some]

/-- An `UPDATE` of columns that are no keys deletes nothing. -/
theorem not_deletesRowsOf_setData (data : Row Table Column String (Option RequestColumns) →
    Option RequestColumns) : ¬ DeletesRowsOf user database (database.setData data) := by
  rintro ⟨row, member, _, gone⟩
  exact gone _ (List.mem_map_of_mem member) rfl rfl

theorem not_deletesRowsOf_self : ¬ DeletesRowsOf user database database := by
  rintro ⟨row, member, _, gone⟩
  exact gone row member rfl rfl

end Cancel

/-! ### What one step keeps -/

section Invariant

variable {requestId} {user : String} {state next : GdprState}

/-- When the request is cancelled it is not completed, and no delivery is at work. -/
def QuietOnceCancelled (requestId : String) (state : GdprState) : Prop :=
  ∃ request, getById state.database requestId = some request ∧
    (request.cancelledAt.isSome = true → request.completedAt = none ∧
      ∀ index, (state.delivery index).userId = none)

theorem QuietOnceCancelled.quiet (quiet : QuietOnceCancelled requestId state)
    (cancelled : Cancelled requestId state.database) (index : Nat) :
    (state.delivery index).userId = none := by
  obtain ⟨request, found, whenCancelled⟩ := quiet
  obtain ⟨other, sameFound, isCancelled⟩ := cancelled
  rw [Option.some.inj (sameFound.symm.trans found)] at isCancelled
  exact (whenCancelled isCancelled).2 index

theorem QuietOnceCancelled.not_settledTwice (quiet : QuietOnceCancelled requestId state) :
    ¬ SettledTwice requestId state.database := by
  obtain ⟨request, found, whenCancelled⟩ := quiet
  rintro ⟨other, sameFound, isCancelled, isCompleted⟩
  rw [Option.some.inj (sameFound.symm.trans found)] at isCancelled isCompleted
  rw [(whenCancelled isCancelled).1] at isCompleted
  cases isCompleted

/-- A step of a delivery at work: the request was not cancelled, so it is enough that it is
not cancelled afterwards. -/
theorem QuietOnceCancelled.ofWork (quiet : QuietOnceCancelled requestId state) {index : Nat}
    {userId : String} (works : (state.delivery index).userId = some userId)
    (kept : ∀ request, getById state.database requestId = some request →
      ∃ left, getById next.database requestId = some left ∧
        left.cancelledAt = request.cancelledAt) : QuietOnceCancelled requestId next := by
  obtain ⟨request, found, whenCancelled⟩ := quiet
  obtain ⟨left, leftFound, sameCancelled⟩ := kept request found
  refine ⟨left, leftFound, fun isCancelled => ?_⟩
  rw [sameCancelled] at isCancelled
  have idle := (whenCancelled isCancelled).2 index
  rw [works] at idle
  cases idle

/-- A request that is read cancelled is settled for the delivery. -/
theorem userId_afterRead {request : GdprDeleteRequest} (purgeCommitted : Bool)
    (isCancelled : request.cancelledAt.isSome = true) :
    (afterRead purgeCommitted (some request)).userId = none := by
  simp only [afterRead, isCancelled, Bool.or_true, if_true]
  rfl

theorem QuietOnceCancelled.read (quiet : QuietOnceCancelled requestId state) (index : Nat) :
    QuietOnceCancelled requestId (state.moveTo index
      (afterRead state.purgeCommitted (getById state.database requestId))) := by
  obtain ⟨request, found, whenCancelled⟩ := quiet
  refine ⟨request, found, fun isCancelled => ?_⟩
  obtain ⟨notCompleted, idle⟩ := whenCancelled isCancelled
  refine ⟨notCompleted, fun other => ?_⟩
  show (Function.update state.delivery index _ other).userId = none
  by_cases same : other = index
  · rw [same, Function.update_self, found]
    exact userId_afterRead _ isCancelled
  · rw [Function.update_of_ne same]
    exact idle other

/-- A cancellation that takes effect finds no delivery at work. -/
theorem QuietOnceCancelled.cancel (quiet : QuietOnceCancelled requestId state)
    (userId : String) (now : Int)
    (landsQuiet : ¬ CancelsInFlight requestId state (.cancel userId now)) :
    QuietOnceCancelled requestId
      { state with database := (cancelPending state.database userId now).1 } := by
  obtain ⟨request, found, whenCancelled⟩ := quiet
  refine ⟨_, (getById_cancelPending userId now).trans (congrArg _ found), ?_⟩
  by_cases takesEffect : request.userId = some userId ∧ request.pending = true
  · simp only [if_pos takesEffect]
    intro _
    have isPending := takesEffect.2
    rw [GdprDeleteRequest.pending, Bool.and_eq_true, Option.isNone_iff_eq_none] at isPending
    refine ⟨isPending.1, fun index => ?_⟩
    by_contra works
    exact landsQuiet ⟨⟨request, found, takesEffect⟩, index, Option.isSome_iff_ne_none.mpr works⟩
  · simp only [if_neg takesEffect]
    exact whenCancelled

/-- The step lemma. -/
theorem quietOnceCancelled_step (event : GdprEvent)
    (quiet : QuietOnceCancelled requestId state)
    (landsQuiet : ¬ CancelsInFlight requestId state event)
    (taken : gdprStep requestId state event = some next) :
    QuietOnceCancelled requestId next := by
  cases gdprStep_cases requestId taken with
  | ticks now limit => exact quiet
  | reads index waiting sent => exact quiet.read index
  | moves index userId works delivery isNext =>
    exact quiet.ofWork works fun request found => ⟨request, found, rfl⟩
  | purges index userId works purged success =>
    refine quiet.ofWork works fun request found => ⟨request.forgetUser userId, ?_, rfl⟩
    exact (getById_purge success).trans (congrArg _ found)
  | completes index now userId works =>
    refine quiet.ofWork works fun request found =>
      ⟨_, (getById_markCompleted _ now).trans (congrArg _ found), ?_⟩
    by_cases notCompleted : request.completedAt = none
    · simp only [if_pos notCompleted]
    · simp only [if_neg notCompleted]
  | cancels userId now => exact quiet.cancel userId now landsQuiet

/-- Only a purge deletes rows, and it is a step of a delivery at work. -/
theorem works_of_deletesRowsOf {event : GdprEvent}
    (taken : gdprStep requestId state event = some next)
    (deletes : DeletesRowsOf user state.database next.database) :
    ∃ index, (state.delivery index).userId.isSome = true := by
  cases gdprStep_cases requestId taken with
  | purges index userId works => exact ⟨index, Option.isSome_iff_exists.mpr ⟨userId, works⟩⟩
  | cancels userId now => exact absurd deletes (not_deletesRowsOf_setData _)
  | completes index now userId works =>
    exact ⟨index, Option.isSome_iff_exists.mpr ⟨userId, works⟩⟩
  | ticks | reads | moves => exact absurd deletes not_deletesRowsOf_self

end Invariant

/-- Where no cancellation takes effect while a delivery is at work, a cancelled request is
never carried out. -/
theorem cancellation_final (database : RequestDatabase) (requestId user : String)
    (request : GdprDeleteRequest) (found : getById database requestId = some request)
    (isPending : request.pending = true) (events : List GdprEvent)
    (landQuiet : StepsMeet (gdprStep requestId)
      (fun state event => ¬ CancelsInFlight requestId state event) (GdprState.initial database)
      events) :
    CancellationFinal requestId user (GdprState.initial database) events := by
  have initial : QuietOnceCancelled requestId (GdprState.initial database) :=
    ⟨request, found, fun isCancelled => by
      rw [GdprDeleteRequest.pending, Bool.and_eq_true, Option.isNone_iff_eq_none,
        Option.isNone_iff_eq_none] at isPending
      rw [isPending.2] at isCancelled
      cases isCancelled⟩
  have preserved : ∀ state event next, QuietOnceCancelled requestId state →
      ¬ CancelsInFlight requestId state event → gdprStep requestId state event = some next →
        QuietOnceCancelled requestId next :=
    fun state event next => quietOnceCancelled_step event
  constructor
  · refine stepsMeet_of_invariant (gdprStep requestId) preserved
      (fun state event quiet _ cancelled next taken deletes => ?_) initial landQuiet
    obtain ⟨index, works⟩ := works_of_deletesRowsOf taken deletes
    rw [quiet.quiet cancelled index] at works
    cases works
  · have quiet := always_of_invariant (gdprStep requestId) preserved initial landQuiet
    exact quiet.mono _ fun _ quiet => quiet.not_settledTwice

/-- The steps that the worker of `uninterrupted` takes, with a cancellation before its purge. -/
def cancelledBeforePurge : List GdprEvent :=
  [.tick 1 100, .read 0, .collectExport 0 true, .upload 0 true,
    .cancel "10000000-0000-0000-0000-000000000001" 2, .purge 0 true, .markCompleted 0 true 3]

/-- The same cancellation before the worker reads the request. -/
def cancelledBeforeRead : List GdprEvent :=
  [.tick 1 100, .cancel "10000000-0000-0000-0000-000000000001" 2, .read 0]

/-- The cancellation before the read is final. -/
theorem cancelledBeforeRead_final :
    CancellationFinal "c0000000-0000-0000-0000-000000000001"
      "10000000-0000-0000-0000-000000000001" (GdprState.initial pendingRequest)
      cancelledBeforeRead := by
  refine cancellation_final pendingRequest "c0000000-0000-0000-0000-000000000001"
    "10000000-0000-0000-0000-000000000001"
    { scheduledAt := 0, id := "c0000000-0000-0000-0000-000000000001",
      userId := some "10000000-0000-0000-0000-000000000001" }
    (by decide) (by decide) cancelledBeforeRead ?_
  refine ⟨not_false, fun _ ticked => ⟨?_, fun _ _ => ⟨not_false, fun _ _ => trivial⟩⟩⟩
  cases ticked
  rintro ⟨_, index, works⟩
  cases works

/-- The cancellation before the purge is carried out: the request ends up with both times. -/
theorem cancellation_carried_out :
    ¬ ∀ (database : RequestDatabase) (requestId user : String) (request : GdprDeleteRequest),
      getById database requestId = some request → request.userId = some user →
        request.pending = true → ∀ events, CancellationFinal requestId user
          (GdprState.initial database) events := by
  intro final
  have always := (final pendingRequest "c0000000-0000-0000-0000-000000000001"
    "10000000-0000-0000-0000-000000000001"
    { scheduledAt := 0, id := "c0000000-0000-0000-0000-000000000001",
      userId := some "10000000-0000-0000-0000-000000000001" }
    (by decide) (by decide) (by decide) cancelledBeforePurge).2
  have left : (exec (gdprStep "c0000000-0000-0000-0000-000000000001")
      (GdprState.initial pendingRequest) cancelledBeforePurge).bind (fun state =>
        getById state.database "c0000000-0000-0000-0000-000000000001") =
      some { scheduledAt := 0, completedAt := some 3, cancelledAt := some 2,
             archiveS3Key := some (archiveKey "10000000-0000-0000-0000-000000000001"
               "c0000000-0000-0000-0000-000000000001"),
             id := "c0000000-0000-0000-0000-000000000001", userId := none } := by
    decide
  obtain ⟨last, run, found⟩ := Option.bind_eq_some_iff.mp left
  exact always.last _ run ⟨_, found, rfl, rfl⟩

/-! ### A delivery that is past its read -/

section InFlight

variable {requestId} {user : String} {state next : GdprState}

/-- A purge of a user whose request is there deletes the user. -/
theorem deletesRowsOf_purge {database purged : RequestDatabase} {request : GdprDeleteRequest}
    (found : getById database requestId = some request) (ofUser : request.userId = some user)
    (success : purgeTenantRows user database = some purged) :
    DeletesRowsOf user database purged := by
  obtain ⟨row, member, ofRow⟩ := List.mem_filterMap.mp (mem_of_getById found)
  obtain ⟨inTable, _, userId, _⟩ := GdprDeleteRepo.ofRow_eq_some_iff.mp ofRow
  obtain ⟨owner, ownerMember, inUsers, sameKey⟩ :=
    database.refsValid ⟨.gdprDeleteRequests, .userId, .users, .setNull⟩ (by simp [foreignKeys])
      row member inTable.symm user (userId.trans ofUser)
  refine ⟨owner, ownerMember, Or.inl (isUser_iff.mpr ⟨inUsers, sameKey⟩), ?_⟩
  intro left leftMember sameTable sameUser
  exact no_user_of_purge success left leftMember (sameTable.trans inUsers)
    (sameUser.trans sameKey)

/-- A run is not final when what is left of it after a step is not. -/
theorem CancellationFinal.tail {event : GdprEvent} {rest : List GdprEvent}
    (final : CancellationFinal requestId user state (event :: rest))
    (taken : gdprStep requestId state event = some next) :
    CancellationFinal requestId user next rest :=
  ⟨final.1.2 next taken, final.2.2 next taken⟩

/-- What a delivery on its way to the purge has to do. -/
def Delivery.toPurge (index : Nat) : Delivery → List GdprEvent
  | .requestRead _ => [.collectExport index true, .upload index true, .purge index true]
  | .exported _ => [.upload index true, .purge index true]
  | .uploaded _ => [.purge index true]
  | .waiting | .purged _ | .processed _ | .stopped => []

variable {index : Nat} {request : GdprDeleteRequest} {purged : RequestDatabase}

theorem uploaded_carries_out (state : GdprState) (stage : state.delivery index = .uploaded user)
    (found : getById state.database requestId = some request)
    (ofUser : request.userId = some user) (isCancelled : request.cancelledAt.isSome = true)
    (success : purgeTenantRows user state.database = some purged) :
    ¬ CancellationFinal requestId user state [.purge index true] := by
  intro final
  refine final.1.1 ⟨request, found, isCancelled⟩ { state.moveTo index (.purged user) with
    database := purged, purgeCommitted := true } ?_ (deletesRowsOf_purge found ofUser success)
  simp only [gdprStep, stage, if_true, success]

theorem exported_carries_out (state : GdprState) (stage : state.delivery index = .exported user)
    (found : getById state.database requestId = some request)
    (ofUser : request.userId = some user) (isCancelled : request.cancelledAt.isSome = true)
    (success : purgeTenantRows user state.database = some purged) :
    ¬ CancellationFinal requestId user state [.upload index true, .purge index true] := by
  intro final
  have taken : gdprStep requestId state (.upload index true) =
      some (state.moveTo index (.uploaded user)) := by
    simp only [gdprStep, stage, if_true]
  have rest := final.tail taken
  exact uploaded_carries_out (state.moveTo index (.uploaded user))
    (Function.update_self _ _ _) found ofUser isCancelled success rest

theorem requestRead_carries_out (state : GdprState)
    (stage : state.delivery index = .requestRead user)
    (found : getById state.database requestId = some request)
    (ofUser : request.userId = some user) (isCancelled : request.cancelledAt.isSome = true)
    (success : purgeTenantRows user state.database = some purged) :
    ¬ CancellationFinal requestId user state
      [.collectExport index true, .upload index true, .purge index true] := by
  intro final
  have taken : gdprStep requestId state (.collectExport index true) =
      some (state.moveTo index (.exported user)) := by
    simp only [gdprStep, stage, if_true]
  have rest := final.tail taken
  exact exported_carries_out (state.moveTo index (.exported user))
    (Function.update_self _ _ _) found ofUser isCancelled success rest

/-- Whenever a cancellation takes effect while a delivery is on its way to a purge that goes
through, the delivery carries it out. -/
theorem inFlight_cancellation_carried_out
    (stage : state.delivery index = .requestRead user ∨ state.delivery index = .exported user ∨
      state.delivery index = .uploaded user)
    (found : getById state.database requestId = some request)
    (ofUser : request.userId = some user) (isPending : request.pending = true) (now : Int)
    (success : purgeTenantRows user (cancelPending state.database user now).1 = some purged) :
    ¬ CancellationFinal requestId user state
      (.cancel user now :: (state.delivery index).toPurge index) := by
  intro final
  let cancelled := { state with database := (cancelPending state.database user now).1 }
  have rest : CancellationFinal requestId user cancelled _ := final.tail rfl
  have leftFound : getById (cancelPending state.database user now).1 requestId =
      some { request with cancelledAt := some now } := by
    rw [getById_cancelPending, found, Option.map_some, if_pos ⟨ofUser, isPending⟩]
  rcases stage with stage | stage | stage
  · rw [stage] at rest
    exact requestRead_carries_out cancelled stage leftFound ofUser rfl success rest
  · rw [stage] at rest
    exact exported_carries_out cancelled stage leftFound ofUser rfl success rest
  · rw [stage] at rest
    exact uploaded_carries_out cancelled stage leftFound ofUser rfl success rest

end InFlight

end LiteHorse.Worker
