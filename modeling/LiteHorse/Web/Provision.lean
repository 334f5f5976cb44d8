/-
This file models how a request gets its user: the claims of its token name a subject, and the first
request of a subject inserts a row into `users`. Requests of one subject may come at once, and the
data of a user may be purged meanwhile.

The `INSERT` does nothing where the subject has a row; the `SELECT` after it finds the row of
the other request, unless it is purged between the two. `one_user` says what follows for the ids
that the requests go on with.
-/

import LiteHorse.Library.RowVersions
import LiteHorse.Web.Auth

namespace LiteHorse.Web.Provision

open Auth Python RowVersions Runs

/-! ### Transactions -/

structure UserRow where
  id : UUID
  role : Role

/-- What `authenticate_request` returns, but for the id of the request. -/
structure RequestContext where
  userId : UUID
  externalId : String
  role : Role

def contextOf (identity : Identity) (userId : UUID) : RequestContext where
  userId := userId
  externalId := identity.externalId
  role := identity.role

/-- Where a transaction stands. A request has its identity; then it has inserted a row, or has
waited for the row of another and goes on to select it. A purge has deleted the row of a user. -/
inductive Phase where
  | idle
  | authenticated (identity : Identity)
  | inserted (identity : Identity) (row : UserRow)
  | conflicted (identity : Identity) (seen : UUID)
  | selected (identity : Identity) (userId : UUID)
  | purging (userId : UUID) (subject : Option String)
  | served (context : RequestContext)
  | refused (error : AuthError)
  | raised
  | purged
  | aborted

inductive Event (Tx : Type) where
  | begin (tx : Tx) (claims : Claims)
  /-- The id is that of `uuid.uuid4`. -/
  | insert (tx : Tx) (id : UUID)
  | select (tx : Tx)
  | commit (tx : Tx)
  | purge (tx : Tx) (userId : UUID)
  | commitPurge (tx : Tx)
  | abort (tx : Tx)

structure State (Tx : Type) where
  users : Table Tx String (Option UserRow)
  phase : Tx → Phase
  /-- The ids that were ever inserted, and their subjects. -/
  used : List (UUID × String)
  served : List RequestContext
  purged : List UUID
  /-- The rows that an `INSERT` has seen and the `SELECT` after it has not. -/
  missed : List UUID

section System

variable {Tx : Type}

def State.initial : State Tx where
  users := .still fun _ => none
  phase := fun _ => .idle
  used := []
  served := []
  purged := []
  missed := []

variable [DecidableEq Tx]

def State.move (state : State Tx) (tx : Tx) (phase : Phase) : State Tx :=
  { state with phase := Function.update state.phase tx phase }

def State.write (state : State Tx) (tx : Tx) (subject : String) (row : Option UserRow)
    (phase : Phase) : State Tx :=
  { state.move tx phase with users := state.users.write tx subject row }

/-- The transaction commits. -/
def State.finish (state : State Tx) (tx : Tx) (phase : Phase) (served : List RequestContext)
    (purged : List UUID) : State Tx :=
  { state.move tx phase with
    users := state.users.commit tx
    served := served ++ state.served
    purged := purged ++ state.purged }

def State.rollback (state : State Tx) (tx : Tx) (phase : Phase) : State Tx :=
  { state.move tx phase with users := state.users.rollback tx }

/-- `authenticate_request` up to the session, with claims that are verified. -/
def begin (state : State Tx) (tx : Tx) (claims : Claims) : Option (State Tx) :=
  match state.phase tx with
  | .idle =>
    match identityOf claims with
    | .ok identity => some (state.move tx (.authenticated identity))
    | .error error => some (state.move tx (.refused error))
  | _ => none

/-- The `INSERT`. It waits for a transaction that has written the row of the subject. -/
def insert (state : State Tx) (tx : Tx) (id : UUID) : Option (State Tx) :=
  match state.phase tx with
  | .authenticated identity =>
    if (state.users identity.externalId).freeFor tx && state.used.all (fun used => used.1 ≠ id) then
      match state.users.view tx identity.externalId with
      | some row => some (state.move tx (.conflicted identity row.id))
      | none =>
        let row := { id, role := identity.role }
        some { state.write tx identity.externalId (some row) (.inserted identity row) with
          used := (id, identity.externalId) :: state.used }
    else none
  | _ => none

/-- The `SELECT`. `scalar_one` raises if there is no row. -/
def select (state : State Tx) (tx : Tx) : Option (State Tx) :=
  match state.phase tx with
  | .conflicted identity seen =>
    match state.users.view tx identity.externalId with
    | some row => some (state.move tx (.selected identity row.id))
    | none => some { state.rollback tx .raised with missed := seen :: state.missed }
  | _ => none

/-- Who is served at the commit. -/
def Phase.context : Phase → Option RequestContext
  | .inserted identity row => some (contextOf identity row.id)
  | .selected identity userId => some (contextOf identity userId)
  | _ => none

def commit (state : State Tx) (tx : Tx) : Option (State Tx) :=
  (state.phase tx).context.map fun context => state.finish tx (.served context) [context] []

/-- The last statement of `_purge_tenant_rows`, the `DELETE` from `users`. The row of a user is that
of the subject it was inserted for. -/
def purge (state : State Tx) (tx : Tx) (userId : UUID) : Option (State Tx) :=
  match state.phase tx with
  | .idle =>
    match state.used.find? fun used => used.1 = userId with
    | some (_, subject) =>
      if (state.users.view tx subject).any fun row => row.id = userId then
        if (state.users subject).freeFor tx then
          some (state.write tx subject none (.purging userId (some subject)))
        else none
      else some (state.move tx (.purging userId none))
    | none => some (state.move tx (.purging userId none))
  | _ => none

def commitPurge (state : State Tx) (tx : Tx) : Option (State Tx) :=
  match state.phase tx with
  | .purging userId subject =>
    some (state.finish tx .purged [] (subject.map fun _ => userId).toList)
  | _ => none

/-- A statement raises, or the connection goes away. -/
def abort (state : State Tx) (tx : Tx) : Option (State Tx) :=
  match state.phase tx with
  | .authenticated _ | .inserted _ _ | .conflicted _ _ | .selected _ _ | .purging _ _ =>
    some (state.rollback tx .aborted)
  | _ => none

def step (state : State Tx) : Event Tx → Option (State Tx)
  | .begin tx claims => begin state tx claims
  | .insert tx id => insert state tx id
  | .select tx => select state tx
  | .commit tx => commit state tx
  | .purge tx userId => purge state tx userId
  | .commitPurge tx => commitPurge state tx
  | .abort tx => abort state tx

end System

/-! ### What is to be kept -/

section Kept

variable {Tx : Type}

/-- The user has the row of the subject, or was purged. -/
def There (committed : String → Option UserRow) (purged : List UUID) (subject : String)
    (userId : UUID) : Prop :=
  (∃ row, committed subject = some row ∧ row.id = userId) ∨ userId ∈ purged

structure OneUser (state : State Tx) : Prop where
  served : ∀ context ∈ state.served,
    There state.users.committed state.purged context.externalId context.userId
  /-- Two requests of one subject go on as one user, or a purge has come between them. -/
  same : ∀ first ∈ state.served, ∀ second ∈ state.served, first.externalId = second.externalId →
    first.userId = second.userId ∨ first.userId ∈ state.purged ∨ second.userId ∈ state.purged
  /-- No user is that of two subjects. -/
  apart : ∀ first ∈ state.served, ∀ second ∈ state.served, first.userId = second.userId →
    first.externalId = second.externalId
  /-- A user that is purged does not come back. -/
  gone : ∀ subject row, state.users.committed subject = some row → row.id ∉ state.purged
  /-- A request finds no row after it has seen one only if the user was purged in between. -/
  missed : ∀ userId ∈ state.missed, userId ∈ state.purged

end Kept

/-! ### What a transaction knows -/

section Knows

/-- What is committed, and what a transaction has written and sees. -/
structure Sight where
  committed : String → Option UserRow
  held : String → Bool
  view : String → Option UserRow

def Phase.Knows (used : List (UUID × String)) (purged : List UUID) (sight : Sight) :
    Phase → Prop
  | .inserted identity row =>
    (∀ subject, sight.held subject = true ↔ subject = identity.externalId) ∧
      sight.view identity.externalId = some row ∧ sight.committed identity.externalId = none ∧
        (row.id, identity.externalId) ∈ used ∧ row.id ∉ purged
  | .purging userId (some subject) => (∀ other, sight.held other = true ↔ other = subject) ∧
    sight.view subject = none ∧ ∃ row, sight.committed subject = some row ∧ row.id = userId
  | .conflicted identity userId | .selected identity userId =>
    (∀ subject, sight.held subject = false) ∧ (userId, identity.externalId) ∈ used ∧
      There sight.committed purged identity.externalId userId
  | .idle | .authenticated _ | .purging _ none | .served _ | .refused _ | .raised | .purged
  | .aborted => ∀ subject, sight.held subject = false

/-- The world goes on beside a transaction: more ids are used and more users purged, and what the
transaction has written is as it was. -/
structure GoesOn (used moreUsed : List (UUID × String)) (purged morePurged : List UUID)
    (sight after : Sight) : Prop where
  still : ∀ id subject, (id, subject) ∈ used → (id, subject) ∈ moreUsed
  held : after.held = sight.held
  kept : ∀ subject, sight.held subject = true →
    after.committed subject = sight.committed subject ∧ after.view subject = sight.view subject
  there : ∀ subject userId, There sight.committed purged subject userId →
    There after.committed morePurged subject userId
  fresh : ∀ id subject, (id, subject) ∈ used → sight.committed subject = none → id ∉ purged →
    id ∉ morePurged

/-- What a transaction knows stays true. -/
theorem Phase.Knows.mono {used moreUsed : List (UUID × String)} {purged morePurged : List UUID}
    {sight after : Sight} (goesOn : GoesOn used moreUsed purged morePurged sight after)
    {phase : Phase} (knows : phase.Knows used purged sight) :
    phase.Knows moreUsed morePurged after := by
  have quiet : (∀ subject, sight.held subject = false) → ∀ subject, after.held subject = false :=
    fun noneHeld subject => (congrFun goesOn.held subject).trans (noneHeld subject)
  cases phase with
  | inserted identity row =>
    obtain ⟨isHeld, isView, isFree, isUsed, notPurged⟩ := knows
    have ⟨sameCommitted, sameView⟩ := goesOn.kept identity.externalId ((isHeld _).mpr rfl)
    exact ⟨fun subject => goesOn.held ▸ isHeld subject, sameView.trans isView,
      sameCommitted.trans isFree, goesOn.still _ _ isUsed, goesOn.fresh _ _ isUsed isFree notPurged⟩
  | purging userId subject =>
    cases subject with
    | some subject =>
      obtain ⟨isHeld, isView, row, isRow, isUser⟩ := knows
      have ⟨sameCommitted, sameView⟩ := goesOn.kept subject ((isHeld _).mpr rfl)
      exact ⟨fun other => goesOn.held ▸ isHeld other, sameView.trans isView, row,
        sameCommitted.trans isRow, isUser⟩
    | none => exact quiet knows
  | conflicted =>
    exact ⟨quiet knows.1, goesOn.still _ _ knows.2.1, goesOn.there _ _ knows.2.2⟩
  | selected => exact ⟨quiet knows.1, goesOn.still _ _ knows.2.1, goesOn.there _ _ knows.2.2⟩
  | idle => exact quiet knows
  | authenticated => exact quiet knows
  | served => exact quiet knows
  | refused => exact quiet knows
  | raised => exact quiet knows
  | purged => exact quiet knows
  | aborted => exact quiet knows

/-- A transaction holds the row that it has inserted or deleted. -/
theorem Phase.Knows.cases_held {used : List (UUID × String)} {purged : List UUID} {sight : Sight}
    {phase : Phase} {subject : String} (knows : phase.Knows used purged sight)
    (held : sight.held subject = true) :
    (∃ identity row, phase = .inserted identity row ∧ subject = identity.externalId ∧
      sight.view subject = some row ∧ sight.committed subject = none ∧
        (row.id, subject) ∈ used ∧ row.id ∉ purged) ∨
    ∃ row, phase = .purging row.id (some subject) ∧ sight.view subject = none ∧
      sight.committed subject = some row := by
  cases phase with
  | inserted identity row =>
    obtain ⟨isHeld, rest⟩ := knows
    cases (isHeld subject).mp held
    exact Or.inl ⟨identity, row, rfl, rfl, rest⟩
  | purging userId place =>
    cases place with
    | some place =>
      obtain ⟨isHeld, isView, row, isRow, isUser⟩ := knows
      cases (isHeld subject).mp held
      exact Or.inr ⟨row, by rw [isUser], isView, isRow⟩
    | none => cases (knows subject).symm.trans held
  | conflicted => cases (knows.1 subject).symm.trans held
  | selected => cases (knows.1 subject).symm.trans held
  | idle => cases (knows subject).symm.trans held
  | authenticated => cases (knows subject).symm.trans held
  | served => cases (knows subject).symm.trans held
  | refused => cases (knows subject).symm.trans held
  | raised => cases (knows subject).symm.trans held
  | purged => cases (knows subject).symm.trans held
  | aborted => cases (knows subject).symm.trans held

end Knows

/-! ### The invariant -/

section Invariant

variable {Tx : Type} [DecidableEq Tx]

def State.sight (state : State Tx) (tx : Tx) : Sight where
  committed := state.users.committed
  held := state.users.held tx
  view := state.users.view tx

structure Invariant (state : State Tx) : Prop where
  knows : ∀ tx, (state.phase tx).Knows state.used state.purged (state.sight tx)
  ids : ∀ id first second, (id, first) ∈ state.used → (id, second) ∈ state.used → first = second
  rows : ∀ subject row, state.users.committed subject = some row → (row.id, subject) ∈ state.used
  gone : ∀ subject row, state.users.committed subject = some row → row.id ∉ state.purged
  served : ∀ context ∈ state.served, (context.userId, context.externalId) ∈ state.used ∧
    There state.users.committed state.purged context.externalId context.userId
  purged : ∀ id ∈ state.purged, ∃ subject, (id, subject) ∈ state.used
  missed : ∀ id ∈ state.missed, id ∈ state.purged

variable {state next : State Tx} {tx other : Tx} {subject : String}

theorem invariant_initial : Invariant (State.initial : State Tx) where
  knows _ _ := rfl
  ids _ _ _ member := absurd member List.not_mem_nil
  rows _ _ isRow := by cases isRow
  gone _ _ isRow := by cases isRow
  served _ member := absurd member List.not_mem_nil
  purged _ member := absurd member List.not_mem_nil
  missed _ member := absurd member List.not_mem_nil

theorem cases_phase (property : Tx → Phase → Prop) {phase : Phase} (ofTx : property tx phase)
    (others : ∀ other, other ≠ tx → property other (state.phase other)) (other : Tx) :
    property other (Function.update state.phase tx phase other) := by
  by_cases same : other = tx
  · rw [same, Function.update_self]
    exact ofTx
  · rw [Function.update_of_ne same]
    exact others other same

/-- A transaction goes on and writes nothing. -/
theorem Invariant.move (invariant : Invariant state) {phase : Phase}
    (knows : phase.Knows state.used state.purged (state.sight tx)) :
    Invariant (state.move tx phase) :=
  { invariant with
    knows := cases_phase (fun other phase => phase.Knows state.used state.purged
      (state.sight other)) knows fun other _ => invariant.knows other }

theorem sight_write_other {row : Option UserRow} {phase : Phase}
    (isFree : (state.users subject).freeFor tx = true) (different : other ≠ tx) :
    (state.write tx subject row phase).sight other = state.sight other := by
  unfold State.sight State.write
  rw [Table.committed_write, Table.held_write_other isFree different,
    Table.view_write_other isFree different]

theorem sight_write {row : Option UserRow} {phase : Phase} :
    (state.write tx subject row phase).sight tx =
      { committed := state.users.committed
        held := Function.update (state.users.held tx) subject true
        view := Function.update (state.users.view tx) subject row } := by
  unfold State.sight State.write
  rw [Table.committed_write, Table.held_write, Table.view_write]

theorem held_update (quiet : ∀ place, state.users.held tx place = false) (place : String) :
    Function.update (state.users.held tx) subject true place = true ↔ place = subject := by
  by_cases same : place = subject
  · rw [same, Function.update_self]
    exact ⟨fun _ => rfl, fun _ => rfl⟩
  · rw [Function.update_of_ne same, quiet]
    exact ⟨fun held => (by cases held), fun isSame => absurd isSame same⟩

theorem Invariant.write (invariant : Invariant state)
    (isFree : (state.users subject).freeFor tx = true) {row : Option UserRow} {phase : Phase}
    {used : List (UUID × String)} (more : ∀ id place, (id, place) ∈ state.used → (id, place) ∈ used)
    (ids : ∀ id first second, (id, first) ∈ used → (id, second) ∈ used → first = second)
    (knows : phase.Knows used state.purged
      { committed := state.users.committed
        held := Function.update (state.users.held tx) subject true
        view := Function.update (state.users.view tx) subject row }) :
    Invariant { state.write tx subject row phase with used } := by
  have committed : (state.users.write tx subject row).committed = state.users.committed :=
    Table.committed_write
  exact {
    knows := fun other => by
      show Phase.Knows used state.purged ((state.write tx subject row phase).sight other)
        (Function.update state.phase tx phase other)
      by_cases same : other = tx
      · rw [same, sight_write, Function.update_self]
        exact knows
      · rw [sight_write_other isFree same, Function.update_of_ne same]
        exact (invariant.knows other).mono {
          still := more
          held := rfl
          kept := fun _ _ => ⟨rfl, rfl⟩
          there := fun _ _ there => there
          fresh := fun _ _ _ _ notPurged => notPurged }
    ids := ids
    rows := fun place found => by
      show (state.users.write tx subject row).committed place = some found → _
      rw [committed]
      exact fun isRow => more _ _ (invariant.rows place found isRow)
    gone := fun place found => by
      show (state.users.write tx subject row).committed place = some found → _
      rw [committed]
      exact invariant.gone place found
    served := fun context member => by
      show _ ∧ There (state.users.write tx subject row).committed _ _ _
      rw [committed]
      exact (invariant.served context member).imp_left (more _ _)
    purged := fun id member => (invariant.purged id member).imp fun _ => more _ _
    missed := invariant.missed }

/-! ### The end of a transaction -/

theorem Invariant.rollback (invariant : Invariant state) {phase : Phase}
    (quiet : ∀ sight : Sight, (∀ place, sight.held place = false) →
      phase.Knows state.used state.purged sight) :
    Invariant (state.rollback tx phase) := by
  have committed : (state.users.rollback tx).committed = state.users.committed :=
    Table.committed_rollback
  have others : ∀ other, other ≠ tx →
      (state.rollback tx phase).sight other = state.sight other := by
    intro other different
    unfold State.sight State.rollback
    rw [committed, Table.held_rollback_other different, Table.view_rollback_other different]
  exact { invariant with
    knows := fun other => by
      show Phase.Knows state.used state.purged ((state.rollback tx phase).sight other)
        (Function.update state.phase tx phase other)
      by_cases same : other = tx
      · rw [same, Function.update_self]
        exact quiet _ fun _ => Table.held_rollback
      · rw [others other same, Function.update_of_ne same]
        exact invariant.knows other
    rows := fun place found => by
      show (state.users.rollback tx).committed place = some found → _
      rw [committed]
      exact invariant.rows place found
    gone := fun place found => by
      show (state.users.rollback tx).committed place = some found → _
      rw [committed]
      exact invariant.gone place found
    served := fun context member => by
      show _ ∧ There (state.users.rollback tx).committed _ _ _
      rw [committed]
      exact invariant.served context member }

/-- What a transaction commits for a subject: its own row where there was none, no row where it
purges the user, and what was there elsewhere. -/
theorem Invariant.cases_view (invariant : Invariant state) (tx : Tx) (subject : String) :
    (∃ identity row, state.phase tx = .inserted identity row ∧ subject = identity.externalId ∧
      state.users.view tx subject = some row ∧ state.users.committed subject = none ∧
        (row.id, subject) ∈ state.used ∧ row.id ∉ state.purged) ∨
    (∃ row, state.phase tx = .purging row.id (some subject) ∧
      state.users.view tx subject = none ∧ state.users.committed subject = some row) ∨
    state.users.view tx subject = state.users.committed subject := by
  cases held : state.users.held tx subject with
  | false => exact Or.inr (Or.inr (Table.view_of_not_held held))
  | true =>
    rcases (invariant.knows tx).cases_held held with inserted | purging
    · exact Or.inl inserted
    · exact Or.inr (Or.inl purging)

/-- The row of a user that a transaction purges. -/
theorem Invariant.purging_row (invariant : Invariant state) {userId : UUID}
    (isPurging : state.phase tx = .purging userId (some subject)) :
    state.users.view tx subject = none ∧
      ∃ row, state.users.committed subject = some row ∧ row.id = userId := by
  have knows := invariant.knows tx
  rw [isPurging] at knows
  exact knows.2

theorem Invariant.there_commit (invariant : Invariant state) {purged : List UUID}
    (removed : ∀ userId place, state.phase tx = .purging userId (some place) → userId ∈ purged)
    {userId : UUID} (there : There state.users.committed state.purged subject userId) :
    There (state.users.view tx) (purged ++ state.purged) subject userId := by
  rcases there with ⟨row, isRow, isUser⟩ | isPurged
  · rcases invariant.cases_view tx subject with
      ⟨_, _, _, _, _, isFree, _⟩ | ⟨found, isPurging, _, isFound⟩ | same
    · cases isFree.symm.trans isRow
    · cases isFound.symm.trans isRow
      exact Or.inr (List.mem_append_left _ (isUser ▸ removed row.id subject isPurging))
    · exact Or.inl ⟨row, same.trans isRow, isUser⟩
  · exact Or.inr (List.mem_append_right _ isPurged)

theorem Invariant.finish (invariant : Invariant state) {phase : Phase}
    {served : List RequestContext} {purged : List UUID}
    (quiet : ∀ sight : Sight, (∀ place, sight.held place = false) →
      phase.Knows state.used (purged ++ state.purged) sight)
    (removed : ∀ userId place, state.phase tx = .purging userId (some place) → userId ∈ purged)
    (isPurging : ∀ id ∈ purged, ∃ place, state.phase tx = .purging id (some place))
    (isServed : ∀ context ∈ served, (context.userId, context.externalId) ∈ state.used ∧
      There (state.users.view tx) (purged ++ state.purged) context.externalId context.userId) :
    Invariant (state.finish tx phase served purged) := by
  have committed : (state.users.commit tx).committed = state.users.view tx :=
    Table.committed_commit
  have purgedRow : ∀ id ∈ purged, ∃ place row, (id, place) ∈ state.used ∧
      state.users.view tx place = none ∧ state.users.committed place = some row := by
    intro id member
    obtain ⟨place, isPhase⟩ := isPurging id member
    obtain ⟨isNone, row, isRow, isUser⟩ := invariant.purging_row isPhase
    exact ⟨place, row, isUser ▸ invariant.rows place row isRow, isNone, isRow⟩
  exact {
    knows := fun other => by
      show Phase.Knows state.used (purged ++ state.purged)
        ((state.finish tx phase served purged).sight other)
        (Function.update state.phase tx phase other)
      by_cases same : other = tx
      · rw [same, Function.update_self]
        exact quiet _ fun _ => Table.held_commit
      · rw [Function.update_of_ne same]
        exact (invariant.knows other).mono {
          still := fun _ _ isUsed => isUsed
          held := Table.held_commit_other same
          kept := fun place held => by
            have notHeld : state.users.held tx place = false :=
              Table.not_held_of_other held (Ne.symm same)
            refine ⟨?_, (Table.view_commit_other same place).trans (if_pos held)⟩
            show (state.users.commit tx).committed place = _
            rw [committed]
            exact Table.view_of_not_held notHeld
          there := fun place userId there => by
            show There (state.users.commit tx).committed _ place userId
            rw [committed]
            exact invariant.there_commit removed there
          fresh := fun id place isUsed isFree notPurged member => by
            refine (List.mem_append.mp member).elim (fun isNew => ?_) notPurged
            obtain ⟨owner, row, ownerUsed, _, isRow⟩ := purgedRow id isNew
            cases invariant.ids id place owner isUsed ownerUsed
            cases isFree.symm.trans isRow }
    ids := invariant.ids
    rows := fun place row isRow => by
      change (state.users.commit tx).committed place = some row at isRow
      rw [committed] at isRow
      rcases invariant.cases_view tx place with
        ⟨_, found, _, _, isFound, _, isUsed, _⟩ | ⟨_, _, isNone, _⟩ | same
      · cases isFound.symm.trans isRow
        exact isUsed
      · cases isNone.symm.trans isRow
      · exact invariant.rows place row (same.symm.trans isRow)
    gone := fun place row isRow member => by
      change (state.users.commit tx).committed place = some row at isRow
      rw [committed] at isRow
      rcases List.mem_append.mp member with isNew | isOld
      · obtain ⟨owner, _, ownerUsed, isNone, isThere⟩ := purgedRow row.id isNew
        rcases invariant.cases_view tx place with
          ⟨_, _, isPhase, _⟩ | ⟨_, _, isGone, _⟩ | same
        · obtain ⟨_, other⟩ := isPurging row.id isNew
          cases isPhase.symm.trans other
        · cases isGone.symm.trans isRow
        · have isUsed := invariant.rows place row (same.symm.trans isRow)
          cases invariant.ids row.id place owner isUsed ownerUsed
          cases isNone.symm.trans isRow
      · rcases invariant.cases_view tx place with
          ⟨_, found, _, _, isFound, _, _, notPurged⟩ | ⟨_, _, isGone, _⟩ | same
        · cases isFound.symm.trans isRow
          exact notPurged isOld
        · cases isGone.symm.trans isRow
        · exact invariant.gone place row (same.symm.trans isRow) isOld
    served := fun context member => by
      show _ ∧ There (state.users.commit tx).committed _ _ _
      rw [committed]
      rcases List.mem_append.mp member with isNew | isOld
      · exact isServed context isNew
      · exact (invariant.served context isOld).imp_right (invariant.there_commit removed)
    purged := fun id member => by
      rcases List.mem_append.mp member with isNew | isOld
      · obtain ⟨place, _, isUsed, _⟩ := purgedRow id isNew
        exact ⟨place, isUsed⟩
      · exact invariant.purged id isOld
    missed := fun id member => List.mem_append_right _ (invariant.missed id member) }

/-! ### Steps -/

theorem begin_kept (invariant : Invariant state) {claims : Claims}
    (taken : begin state tx claims = some next) : Invariant next := by
  have quiet := invariant.knows tx
  unfold begin at taken
  split at taken
  next isIdle =>
    rw [isIdle] at quiet
    split at taken
    next =>
      cases taken
      exact invariant.move quiet
    next =>
      cases taken
      exact invariant.move quiet
  next => cases taken

theorem view_of_quiet (quiet : ∀ place, (state.sight tx).held place = false) (place : String) :
    state.users.view tx place = state.users.committed place :=
  Table.view_of_not_held (quiet place)

theorem insert_kept (invariant : Invariant state) {id : UUID}
    (taken : insert state tx id = some next) : Invariant next := by
  have quiet := invariant.knows tx
  unfold insert at taken
  split at taken
  next identity isAuthenticated =>
    rw [isAuthenticated] at quiet
    split at taken
    next allowed =>
      obtain ⟨isFree, isNew⟩ := Bool.and_eq_true_iff.mp allowed
      have notUsed : ∀ place, (id, place) ∉ state.used := by
        intro place isUsed
        exact of_decide_eq_true (List.all_eq_true.mp isNew _ isUsed) rfl
      split at taken
      next row isRow =>
        cases taken
        rw [view_of_quiet quiet] at isRow
        exact invariant.move
          ⟨quiet, invariant.rows _ row isRow, Or.inl ⟨row, isRow, rfl⟩⟩
      next isNone =>
        cases taken
        rw [view_of_quiet quiet] at isNone
        refine invariant.write isFree (fun _ _ member => List.mem_cons_of_mem _ member) ?_ ?_
        · intro other first second ofFirst ofSecond
          rcases List.mem_cons.mp ofFirst with isFirst | oldFirst
          · rcases List.mem_cons.mp ofSecond with isSecond | oldSecond
            · cases isFirst
              cases isSecond
              rfl
            · cases isFirst
              exact absurd oldSecond (notUsed second)
          · rcases List.mem_cons.mp ofSecond with isSecond | oldSecond
            · cases isSecond
              exact absurd oldFirst (notUsed first)
            · exact invariant.ids other first second oldFirst oldSecond
        · refine ⟨held_update quiet, Function.update_self .., isNone, List.mem_cons_self, ?_⟩
          intro isPurged
          obtain ⟨place, isUsed⟩ := invariant.purged id isPurged
          exact notUsed place isUsed
    next => cases taken
  next => cases taken

theorem select_kept (invariant : Invariant state) (taken : select state tx = some next) :
    Invariant next := by
  have knows := invariant.knows tx
  unfold select at taken
  split at taken
  next identity seen isConflicted =>
    rw [isConflicted] at knows
    obtain ⟨quiet, isUsed, there⟩ := knows
    split at taken
    next row isRow =>
      cases taken
      rw [view_of_quiet quiet] at isRow
      exact invariant.move ⟨quiet, invariant.rows _ row isRow, Or.inl ⟨row, isRow, rfl⟩⟩
    next isNone =>
      cases taken
      rw [view_of_quiet quiet] at isNone
      have isPurged : seen ∈ state.purged := by
        rcases there with ⟨row, isRow, _⟩ | isPurged
        · cases isNone.symm.trans isRow
        · exact isPurged
      have kept : Invariant (state.rollback tx .raised) := invariant.rollback fun _ quiet => quiet
      exact { kept with
        missed := fun id member => by
          rcases List.mem_cons.mp member with rfl | isOld
          · exact isPurged
          · exact invariant.missed id isOld }
  next => cases taken

theorem commit_kept (invariant : Invariant state) (taken : commit state tx = some next) :
    Invariant next := by
  have knows := invariant.knows tx
  obtain ⟨context, isContext, rfl⟩ := Option.map_eq_some_iff.mp taken
  have notPurging : ∀ userId place, state.phase tx ≠ .purging userId place := by
    intro userId place isPurging
    rw [isPurging] at isContext
    cases isContext
  refine invariant.finish (fun _ quiet => quiet)
    (fun userId place isPurging => absurd isPurging (notPurging userId _))
    (fun _ member => absurd member List.not_mem_nil) ?_
  intro other member
  cases List.mem_singleton.mp member
  unfold Phase.context at isContext
  split at isContext
  next identity row isInserted =>
    cases isContext
    rw [isInserted] at knows
    exact ⟨knows.2.2.2.1, Or.inl ⟨row, knows.2.1, rfl⟩⟩
  next identity userId isSelected =>
    cases isContext
    rw [isSelected] at knows
    refine ⟨knows.2.1, ?_⟩
    exact invariant.there_commit
      (fun userId place isPurging => absurd isPurging (notPurging userId _)) knows.2.2
  next => cases isContext

theorem purge_kept (invariant : Invariant state) {userId : UUID}
    (taken : purge state tx userId = some next) : Invariant next := by
  have quiet := invariant.knows tx
  unfold purge at taken
  split at taken
  next isIdle =>
    rw [isIdle] at quiet
    split at taken
    next found place isFound =>
      split at taken
      next isThere =>
        split at taken
        next isFree =>
          cases taken
          obtain ⟨row, isRow, isUser⟩ := (Option.any_eq_true _ _).mp isThere
          rw [view_of_quiet quiet] at isRow
          refine invariant.write isFree (fun _ _ member => member) invariant.ids ?_
          exact ⟨held_update quiet, Function.update_self .., row, isRow, of_decide_eq_true isUser⟩
        next => cases taken
      next =>
        cases taken
        exact invariant.move quiet
    next =>
      cases taken
      exact invariant.move quiet
  next => cases taken

theorem commitPurge_kept (invariant : Invariant state)
    (taken : commitPurge state tx = some next) : Invariant next := by
  unfold commitPurge at taken
  split at taken
  next userId place isPurging =>
    cases taken
    refine invariant.finish (fun _ quiet => quiet) ?_ ?_
      fun _ member => absurd member List.not_mem_nil
    · intro other removed isOther
      cases isPurging.symm.trans isOther
      exact List.mem_singleton_self _
    · intro id member
      cases place with
      | some place =>
        cases List.mem_singleton.mp member
        exact ⟨place, isPurging⟩
      | none => cases member
  next => cases taken

theorem abort_kept (invariant : Invariant state) (taken : abort state tx = some next) :
    Invariant next := by
  unfold abort at taken
  split at taken
  · cases taken
    exact invariant.rollback fun _ quiet => quiet
  · cases taken
    exact invariant.rollback fun _ quiet => quiet
  · cases taken
    exact invariant.rollback fun _ quiet => quiet
  · cases taken
    exact invariant.rollback fun _ quiet => quiet
  · cases taken
    exact invariant.rollback fun _ quiet => quiet
  · cases taken

theorem step_kept (invariant : Invariant state) {event : Event Tx}
    (taken : step state event = some next) : Invariant next := by
  cases event with
  | begin => exact begin_kept invariant taken
  | insert => exact insert_kept invariant taken
  | select => exact select_kept invariant taken
  | commit => exact commit_kept invariant taken
  | purge => exact purge_kept invariant taken
  | commitPurge => exact commitPurge_kept invariant taken
  | abort => exact abort_kept invariant taken

theorem Invariant.oneUser (invariant : Invariant state) : OneUser state where
  served context member := (invariant.served context member).2
  same first isFirst second isSecond sameSubject := by
    have ofFirst := (invariant.served first isFirst).2
    have ofSecond := (invariant.served second isSecond).2
    rw [← sameSubject] at ofSecond
    rcases ofFirst with ⟨row, isRow, isUser⟩ | firstPurged
    · rcases ofSecond with ⟨other, isOther, isOtherUser⟩ | secondPurged
      · cases isRow.symm.trans isOther
        exact Or.inl (isUser.symm.trans isOtherUser)
      · exact Or.inr (Or.inr secondPurged)
    · exact Or.inr (Or.inl firstPurged)
  apart first isFirst second isSecond sameUser := by
    have ofSecond := (invariant.served second isSecond).1
    rw [← sameUser] at ofSecond
    exact invariant.ids _ _ _ (invariant.served first isFirst).1 ofSecond
  gone := invariant.gone
  missed := invariant.missed

/-- In every run the requests of one subject go on as one user until that user is purged, and no
user is that of two subjects or comes back. -/
theorem one_user (events : List (Event Tx)) :
    Always step OneUser (State.initial : State Tx) events := by
  have always : Always step Invariant (State.initial : State Tx) events :=
    always_invariant step (fun _ _ _ kept taken => step_kept kept taken) invariant_initial
  exact always.mono step fun _ kept => kept.oneUser

end Invariant

end LiteHorse.Web.Provision
