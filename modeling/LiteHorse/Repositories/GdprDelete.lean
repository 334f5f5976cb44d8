/-
This file is the repository of the `gdpr_delete_requests`: the requests of a database state
and the statements that read and settle them. Of the other tables no column besides the keys
is read here, so their rows carry nothing more.
-/

import LiteHorse.Library.Sorting
import LiteHorse.Models.Schema

namespace LiteHorse.Repositories

open ForeignKeys Models Sorting

/-- The columns of a request that are no keys. -/
structure RequestColumns where
  scheduledAt : Int
  completedAt : Option Int := none
  cancelledAt : Option Int := none
  archiveS3Key : Option String := none
  deriving DecidableEq

structure GdprDeleteRequest extends RequestColumns where
  id : String
  userId : Option String
  deriving DecidableEq

/-- A database state with the columns of its requests. -/
abbrev RequestDatabase := Database foreignKeys String (Option RequestColumns)

namespace GdprDeleteRequest

def ofRow (row : Row Table Column String (Option RequestColumns)) : Option GdprDeleteRequest :=
  if row.table = .gdprDeleteRequests then
    row.data.map fun columns => { columns with id := row.key, userId := row.refs .userId }
  else none

/-- Neither completed nor cancelled. -/
def pending (request : GdprDeleteRequest) : Bool :=
  request.completedAt.isNone && request.cancelledAt.isNone

/-- The request with other columns. -/
def withColumns (request : GdprDeleteRequest) (columns : RequestColumns) : GdprDeleteRequest :=
  { columns with id := request.id, userId := request.userId }

/-- The request without the user. -/
def forgetUser (user : String) (request : GdprDeleteRequest) : GdprDeleteRequest :=
  { request with userId := if request.userId = some user then none else request.userId }

end GdprDeleteRequest

namespace GdprDeleteRepo

open GdprDeleteRequest

/-- The rows of `gdpr_delete_requests`. -/
def requests (database : RequestDatabase) : List GdprDeleteRequest :=
  database.rows.filterMap ofRow

def getById (database : RequestDatabase) (requestId : String) : Option GdprDeleteRequest :=
  (requests database).find? fun request => request.id = requestId

def listDue (database : RequestDatabase) (now : Int) (limit : Nat := 100) :
    List GdprDeleteRequest :=
  (sortedBy (fun request => request.scheduledAt)
    ((requests database).filter fun request =>
      request.pending && request.scheduledAt ≤ now)).take limit

/-- An `UPDATE` of the requests that a condition picks; the updated rows are returned. -/
def updateWhere (database : RequestDatabase) (picked : GdprDeleteRequest → Bool)
    (update : GdprDeleteRequest → RequestColumns) : RequestDatabase × List GdprDeleteRequest :=
  (database.setData fun row =>
      match ofRow row with
      | some request => if picked request then some (update request) else row.data
      | none => row.data,
    ((requests database).filter picked).map fun request => request.withColumns (update request))

/-- One pending request of a user exists at most: `gdpr_delete_requests_pending_user` is a
unique index. -/
def cancelPending (database : RequestDatabase) (userId : String) (now : Int) :
    RequestDatabase × Option GdprDeleteRequest :=
  let updated := updateWhere database
    (fun request => request.userId = some userId && request.pending)
    fun request => { request.toRequestColumns with cancelledAt := some now }
  (updated.1, updated.2.head?)

def markCompleted (database : RequestDatabase) (requestId archiveS3Key : String) (now : Int) :
    RequestDatabase × Option GdprDeleteRequest :=
  let updated := updateWhere database
    (fun request => request.id = requestId && request.completedAt.isNone)
    fun request => { request.toRequestColumns with
      completedAt := some now, archiveS3Key := some archiveS3Key }
  (updated.1, updated.2.head?)

/-! ### What the statements do to one request -/

variable {database : RequestDatabase} {requestId : String} {request : GdprDeleteRequest}

theorem ofRow_eq_some_iff {row : Row Table Column String (Option RequestColumns)} :
    ofRow row = some request ↔
      row.table = .gdprDeleteRequests ∧ row.key = request.id ∧
        row.refs .userId = request.userId ∧ row.data = some request.toRequestColumns := by
  rw [ofRow, Option.ite_none_right_eq_some, Option.map_eq_some_iff]
  refine and_congr_right fun _ => ?_
  constructor
  · rintro ⟨columns, data, rfl⟩
    exact ⟨rfl, rfl, data⟩
  · rintro ⟨key, userId, data⟩
    refine ⟨request.toRequestColumns, data, ?_⟩
    rw [key, userId]

theorem id_of_getById (found : getById database requestId = some request) :
    request.id = requestId := by
  unfold getById at found
  have sameId := List.find?_some found
  exact of_decide_eq_true sameId

theorem mem_of_getById (found : getById database requestId = some request) :
    request ∈ requests database :=
  List.mem_of_find?_eq_some found

/-- A request is found under its id: the id is the primary key. -/
theorem getById_eq_some_iff :
    getById database requestId = some request ↔
      request ∈ requests database ∧ request.id = requestId := by
  refine ⟨fun found => ⟨mem_of_getById found, id_of_getById found⟩, ?_⟩
  rintro ⟨member, rfl⟩
  have isFound : (getById database request.id).isSome = true :=
    List.find?_isSome.mpr ⟨request, member, decide_eq_true rfl⟩
  obtain ⟨other, found⟩ := Option.isSome_iff_exists.mp isFound
  obtain ⟨otherRow, otherMember, otherOf⟩ := List.mem_filterMap.mp (mem_of_getById found)
  obtain ⟨row, rowMember, rowOf⟩ := List.mem_filterMap.mp member
  obtain ⟨otherTable, otherKey, _⟩ := ofRow_eq_some_iff.mp otherOf
  obtain ⟨table, key, _⟩ := ofRow_eq_some_iff.mp rowOf
  have sameRow : otherRow = row :=
    database.row_unique otherMember rowMember (otherTable.trans table.symm)
      (otherKey.trans ((id_of_getById found).trans key.symm))
  rw [found, ← otherOf, sameRow, rowOf]

/-- The request a statement leaves in place of this one. -/
def updated (picked : GdprDeleteRequest → Bool) (update : GdprDeleteRequest → RequestColumns)
    (request : GdprDeleteRequest) : GdprDeleteRequest :=
  if picked request then request.withColumns (update request) else request

theorem updated_id (picked : GdprDeleteRequest → Bool)
    (update : GdprDeleteRequest → RequestColumns) (request : GdprDeleteRequest) :
    (updated picked update request).id = request.id := by
  unfold updated
  split <;> rfl

theorem requests_updateWhere (picked : GdprDeleteRequest → Bool)
    (update : GdprDeleteRequest → RequestColumns) :
    requests (updateWhere database picked update).1 =
      (requests database).map (updated picked update) := by
  unfold requests updateWhere Database.setData
  rw [List.filterMap_map, List.map_filterMap]
  refine List.filterMap_congr fun row _ => ?_
  by_cases inTable : row.table = .gdprDeleteRequests
  · cases data : row.data with
    | none => simp [ofRow, inTable, data]
    | some columns =>
      simp only [Function.comp_apply, ofRow, inTable, data, if_pos, Option.map_some, updated]
      split <;> rfl
  · simp [ofRow, inTable]

theorem getById_updateWhere (picked : GdprDeleteRequest → Bool)
    (update : GdprDeleteRequest → RequestColumns) :
    getById (updateWhere database picked update).1 requestId =
      (getById database requestId).map (updated picked update) := by
  have sameTest : (fun request => decide (request.id = requestId)) ∘ updated picked update =
      fun request => decide (request.id = requestId) := by
    funext request
    rw [Function.comp_apply, updated_id]
  rw [getById, requests_updateWhere, List.find?_map, sameTest]
  rfl

/-- What `mark_completed` leaves of the request. -/
theorem getById_markCompleted (archiveS3Key : String) (now : Int) :
    getById (markCompleted database requestId archiveS3Key now).1 requestId =
      (getById database requestId).map fun request =>
        if request.completedAt = none then
          { request with completedAt := some now, archiveS3Key := some archiveS3Key }
        else request := by
  rw [markCompleted, getById_updateWhere]
  refine Option.map_congr fun request found => ?_
  simp [updated, id_of_getById found, Option.isNone_iff_eq_none, GdprDeleteRequest.withColumns]

/-- What `cancel_pending` leaves of a request. -/
theorem getById_cancelPending (userId : String) (now : Int) :
    getById (cancelPending database userId now).1 requestId =
      (getById database requestId).map fun request =>
        if request.userId = some userId ∧ request.pending = true then
          { request with cancelledAt := some now }
        else request := by
  rw [cancelPending, getById_updateWhere]
  refine Option.map_congr fun request _ => ?_
  simp [updated, GdprDeleteRequest.withColumns]

/-- A request that is due is neither completed nor cancelled. -/
theorem pending_of_due {now : Int} {limit : Nat} (due : request ∈ listDue database now limit) :
    request ∈ requests database ∧ request.pending = true := by
  have member := (mem_sortedBy _ _ _).mp (List.mem_of_mem_take due)
  rw [List.mem_filter, Bool.and_eq_true] at member
  exact ⟨member.1, member.2.1⟩

end GdprDeleteRepo

end LiteHorse.Repositories
