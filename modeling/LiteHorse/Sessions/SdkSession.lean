/-
This file models `SDKSession`, the adapter through which an agent turn reads and writes its
session, and proves that it is an object over one log: a call reads and changes the log of
its own session and leaves the rows of every other session as they are.
-/

import LiteHorse.Sessions.Local
import Mathlib.Algebra.Ring.Int.Defs

namespace LiteHorse.Sessions

open Python Sorting

/-- The adapter keeps the id of its session; the store is shared. -/
structure SDKSession where
  sessionId : String

/-- The constructor creates the session row. -/
def SDKSession.new (sessionId : String) (db : LocalSessionRepo) (source : String)
    (userId model : Option String) (now : Timestamp) : SDKSession × LocalSessionRepo :=
  (⟨sessionId⟩, db.createSession sessionId source model userId now)

/-- What SQLite stores for a value bound to a TEXT column; `none` when the driver refuses
the value. -/
def bindText : Option Json → Option (Option String)
  | none | some .null => some none
  | some (.str value) => some (some value)
  | some (.bool value) => some (some (if value then "1" else "0"))
  | some (.int value) =>
    if -2 ^ 63 ≤ value ∧ value < 2 ^ 63 then some (some (toString value)) else none
  | some (.float text) => some (some text)
  | some (.array _) | some (.object _) => none

def isObject : Json → Bool
  | .object _ => true
  | _ => false

section Items

variable (isPrintable : Char → Bool)

/-- The `content` column of an item: structured content is stored as its `str`. -/
def itemContent (item : Item) : Option String :=
  match getField item "content" with
  | none | some .null => none
  | some value => some (value.toStr isPrintable)

def itemRole (item : Item) : String :=
  match getField item "role" with
  | none => "assistant"
  | some value => value.toStr isPrintable

def itemToolCalls (item : Item) : Option (List Json) :=
  match getField item "tool_calls" with
  | some (.array calls) => some (calls.filter isObject)
  | _ => none

/-- The row one item is written as; `none` when the insert raises. -/
def itemBody (item : Item) (now : Timestamp) : Option MessageBody := do
  let toolCallId ← bindText (getField item "tool_call_id")
  let toolName ← bindText (getField item "name")
  some (LocalSessionRepo.appendedBody (itemRole isPrintable item) (itemContent isPrintable item)
    toolCallId (itemToolCalls item) toolName now)

/-- One round of the loop of `add_items`. -/
def addItem (session : SDKSession) (db : LocalSessionRepo) (item : Item) (now : Timestamp) :
    Option LocalSessionRepo := do
  let toolCallId ← bindText (getField item "tool_call_id")
  let toolName ← bindText (getField item "name")
  some (db.appendMessage session.sessionId (itemRole isPrintable item)
    (itemContent isPrintable item) toolCallId (itemToolCalls item) toolName now).1

/-- `add_items`, with the clock reading of each insert. An item that raises ends the loop;
the items before it are committed. -/
def addItems (session : SDKSession) (db : LocalSessionRepo) :
    List (Item × Timestamp) → LocalSessionRepo × Bool
  | [] => (db, true)
  | (item, now) :: rest =>
    match addItem isPrintable session db item now with
    | none => (db, false)
    | some next => addItems session next rest

/-- A call of the session protocol. -/
inductive SessionCall where
  | getItems (limit : Option Int)
  | addItems (items : List (Item × Timestamp))
  | popItem
  | clearSession

/-- What a call returns. -/
inductive CallResult where
  | items (items : List Item)
  | added (completed : Bool)
  | popped (item : Option Item)
  | cleared

/-- Make a call on a session. -/
def callSession (session : SDKSession) (db : LocalSessionRepo) :
    SessionCall → LocalSessionRepo × CallResult
  | .getItems limit => (db, .items (db.getMessages session.sessionId limit))
  | .addItems items =>
    let result := addItems isPrintable session db items
    (result.1, .added result.2)
  | .popItem =>
    let result := db.popLastMessage session.sessionId
    (result.1, .popped result.2)
  | .clearSession => (db.clearSession session.sessionId, .cleared)

/-! ### The session as one log -/

/-- `add_items` on a log. -/
def addToLog (entries : List MessageBody) :
    List (Item × Timestamp) → List MessageBody × Bool
  | [] => (entries, true)
  | (item, now) :: rest =>
    match itemBody isPrintable item now with
    | none => (entries, false)
    | some body => addToLog (insertLate MessageBody.timestamp body entries) rest

/-- What a session is for: a log that calls append to, read, pop and clear. -/
def callLog (entries : List MessageBody) : SessionCall → List MessageBody × CallResult
  | .getItems limit =>
    (entries, .items ((LocalSessionRepo.newest limit entries).map
      LocalSessionRepo.messageRowToMsg))
  | .addItems items =>
    let result := addToLog isPrintable entries items
    (result.1, .added result.2)
  | .popItem =>
    (entries.dropLast, .popped (entries.getLast?.map LocalSessionRepo.messageRowToMsg))
  | .clearSession => ([], .cleared)

/-- An item is inserted exactly when it has a row, and the row enters the log. -/
theorem addItem_log (session : SDKSession) (db : LocalSessionRepo) (item : Item)
    (now : Timestamp) :
    (addItem isPrintable session db item now).map (fun next => next.log session.sessionId) =
      (itemBody isPrintable item now).map fun body =>
        insertLate MessageBody.timestamp body (db.log session.sessionId) := by
  unfold addItem itemBody
  cases bindText (getField item "tool_call_id") with
  | none => rfl
  | some toolCallId =>
    cases bindText (getField item "name") with
    | none => rfl
    | some toolName => exact congrArg some (db.log_appendMessage_self _ _ _ _ _ _ _)

theorem rowsOf_addItem_other (session : SDKSession) (db next : LocalSessionRepo) (item : Item)
    (now : Timestamp) (other : String) (different : other ≠ session.sessionId)
    (added : addItem isPrintable session db item now = some next) :
    next.rowsOf other = db.rowsOf other := by
  unfold addItem at added
  simp only [bind, Option.bind_eq_some_iff] at added
  obtain ⟨toolCallId, _, toolName, _, equal⟩ := added
  cases equal
  exact db.rowsOf_appendMessage_other _ _ _ _ _ _ _ _ different

theorem addItems_log (session : SDKSession) (db : LocalSessionRepo)
    (items : List (Item × Timestamp)) :
    ((addItems isPrintable session db items).1.log session.sessionId,
        (addItems isPrintable session db items).2) =
      addToLog isPrintable (db.log session.sessionId) items := by
  induction items generalizing db with
  | nil => rfl
  | cons head rest inductionHypothesis =>
    obtain ⟨item, now⟩ := head
    have inserted := addItem_log isPrintable session db item now
    unfold addItems addToLog
    cases added : addItem isPrintable session db item now with
    | none =>
      rw [added] at inserted
      rw [Option.map_eq_none_iff.mp inserted.symm]
    | some next =>
      rw [added] at inserted
      obtain ⟨body, isBody, equal⟩ := Option.map_eq_some_iff.mp inserted.symm
      simp only [isBody, equal]
      exact inductionHypothesis next

theorem rowsOf_addItems_other (session : SDKSession) (db : LocalSessionRepo)
    (items : List (Item × Timestamp)) (other : String)
    (different : other ≠ session.sessionId) :
    (addItems isPrintable session db items).1.rowsOf other = db.rowsOf other := by
  induction items generalizing db with
  | nil => rfl
  | cons head rest inductionHypothesis =>
    obtain ⟨item, now⟩ := head
    unfold addItems
    cases added : addItem isPrintable session db item now with
    | none => rfl
    | some next =>
      exact (inductionHypothesis next).trans
        (rowsOf_addItem_other isPrintable session db next item now other different added)

/-- The store refines one log per session: a call changes the log of its session as the
abstract call does and returns what the abstract call returns. -/
theorem callSession_log (session : SDKSession) (db : LocalSessionRepo) (call : SessionCall) :
    ((callSession isPrintable session db call).1.log session.sessionId,
        (callSession isPrintable session db call).2) =
      callLog isPrintable (db.log session.sessionId) call := by
  cases call with
  | getItems limit => simp only [callSession, callLog, db.getMessages_eq]
  | addItems items =>
    simp only [callSession, callLog, ← addItems_log isPrintable session db items]
  | popItem =>
    simp only [callSession, callLog, db.log_popLastMessage_self, db.popLastMessage_snd]
  | clearSession => simp only [callSession, callLog, db.log_clearSession_self]

/-- A call leaves the rows of every other session as they are. -/
theorem rowsOf_callSession_other (session : SDKSession) (db : LocalSessionRepo)
    (call : SessionCall) (other : String) (different : other ≠ session.sessionId) :
    (callSession isPrintable session db call).1.rowsOf other = db.rowsOf other := by
  cases call with
  | getItems limit => rfl
  | addItems items =>
    exact rowsOf_addItems_other isPrintable session db items other different
  | popItem => exact db.rowsOf_popLastMessage_other session.sessionId other different
  | clearSession => exact db.rowsOf_clearSession_other session.sessionId other different

end Items

end LiteHorse.Sessions
