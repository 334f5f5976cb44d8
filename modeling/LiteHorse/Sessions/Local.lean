/-
This file models `LocalSessionRepo`, the SQLite session and message store, as far as turns and
forks use it: creating a session, appending, reading, popping, clearing and copying messages.

The rows of `messages` are keyed by an `AUTOINCREMENT` id, so they stand in ascending order
of their ids, and the repository carries that as a field. The content of the file is the
refinement of the table by one log per session: `log repo sessionId` is what a reader of
that session sees, in the order of the clock readings, and each operation acts on the log
of its own session alone. `appendMessage` inserts an entry behind every entry that is not
younger, `popLastMessage` drops the last entry and `clearSession` empties the log.
-/

import LiteHorse.Library.Sorting
import LiteHorse.Python
import Mathlib.Tactic.Common

namespace LiteHorse.Sessions

open Python Sorting

/-- A reading of `time.time()`. Only the order of two readings matters. -/
abbrev Timestamp := Int

/-- A `dict[str, Any]` in the shape of an agent item. -/
abbrev Item := List (String × Json)

/-! ### The tables -/

/-- A row of `sessions`. -/
structure SessionRow where
  id : String
  source : String
  userId : Option String
  model : Option String
  startedAt : Timestamp
  endedAt : Option Timestamp
  endReason : Option String
  messageCount : Int

/-- What a row of `messages` says beside its own id and its session. `tool_calls` is kept as
the list the column's JSON text encodes. -/
structure MessageBody where
  role : String
  content : Option String
  toolCallId : Option String
  toolCalls : Option (List Json)
  toolName : Option String
  timestamp : Timestamp

/-- A row of `messages`. -/
structure MessageRow extends MessageBody where
  id : Nat
  sessionId : String

/-- The store. `lastRowId` is the highest id SQLite has handed out, which `AUTOINCREMENT`
never reuses. -/
structure LocalSessionRepo where
  sessions : List SessionRow
  messages : List MessageRow
  lastRowId : Nat
  ascending : messages.Pairwise fun first second => first.id < second.id
  bounded : ∀ row ∈ messages, row.id ≤ lastRowId

namespace LocalSessionRepo

/-- The store of a fresh database file. -/
def empty : LocalSessionRepo where
  sessions := []
  messages := []
  lastRowId := 0
  ascending := List.Pairwise.nil
  bounded := by simp

/-! ### The operations -/

/-- `INSERT OR IGNORE` of a session row: an existing row of that id stays as it is. -/
def createSession (repo : LocalSessionRepo) (sessionId source : String)
    (model userId : Option String) (now : Timestamp) : LocalSessionRepo :=
  if repo.sessions.any fun session => session.id = sessionId then repo
  else
    { repo with
      sessions := repo.sessions ++
        [{ id := sessionId, source, userId, model, startedAt := now, endedAt := none,
           endReason := none, messageCount := 0 }] }

/-- `UPDATE sessions SET message_count = .. WHERE id = ?`. -/
def updateCount (repo : LocalSessionRepo) (sessionId : String) (count : Int → Int) :
    LocalSessionRepo :=
  { repo with
    sessions := repo.sessions.map fun session =>
      if session.id = sessionId then { session with messageCount := count session.messageCount }
      else session }

/-- `INSERT INTO messages`: the row gets the next id. -/
def insertMessage (repo : LocalSessionRepo) (sessionId : String) (body : MessageBody) :
    LocalSessionRepo :=
  { repo with
    messages := repo.messages ++ [{ body with id := repo.lastRowId + 1, sessionId }]
    lastRowId := repo.lastRowId + 1
    ascending := by
      refine List.pairwise_append.mpr ⟨repo.ascending, List.pairwise_singleton _ _, ?_⟩
      intro row member added isAdded
      rw [List.mem_singleton.mp isAdded]
      exact Nat.lt_succ_of_le (repo.bounded row member)
    bounded := by
      intro row member
      rcases List.mem_append.mp member with old | added
      · exact Nat.le_succ_of_le (repo.bounded row old)
      · rw [List.mem_singleton.mp added] }

/-- `DELETE FROM messages` of the rows that are not kept. -/
def deleteMessages (repo : LocalSessionRepo) (keep : MessageRow → Bool) : LocalSessionRepo :=
  { repo with
    messages := repo.messages.filter keep
    ascending := repo.ascending.filter _
    bounded := fun row member => repo.bounded row (List.mem_filter.mp member).1 }

/-- An empty list of tool calls is stored as NULL. -/
def storedToolCalls : Option (List Json) → Option (List Json)
  | some (call :: rest) => some (call :: rest)
  | _ => none

def appendMessage (repo : LocalSessionRepo) (sessionId role : String) (content : Option String)
    (toolCallId : Option String) (toolCalls : Option (List Json)) (toolName : Option String)
    (now : Timestamp) : LocalSessionRepo × Nat :=
  let inserted := repo.insertMessage sessionId
    { role, content, toolCallId, toolCalls := storedToolCalls toolCalls, toolName,
      timestamp := now }
  (inserted.updateCount sessionId (· + 1), repo.lastRowId + 1)

/-- `SELECT * FROM messages WHERE session_id = ?`, in the order of the table. -/
def rowsOf (repo : LocalSessionRepo) (sessionId : String) : List MessageRow :=
  repo.messages.filter fun row => row.sessionId = sessionId

/-- The key of `ORDER BY timestamp, id`. -/
def orderKey (row : MessageRow) : Timestamp ×ₗ Nat := toLex (row.timestamp, row.id)

/-- `SELECT * FROM messages WHERE session_id = ? ORDER BY timestamp, id`. -/
def orderedRows (repo : LocalSessionRepo) (sessionId : String) : List MessageRow :=
  sortedBy orderKey (repo.rowsOf sessionId)

/-- `_message_row_to_msg`: a NULL content and empty other columns have no key. -/
def messageRowToMsg (body : MessageBody) : Item :=
  [("role", .str body.role)] ++
    (body.content.map fun content => ("content", Json.str content)).toList ++
    ((body.toolCallId.filter (· != "")).map fun id => ("tool_call_id", Json.str id)).toList ++
    (body.toolCalls.map fun calls => ("tool_calls", Json.array calls)).toList ++
    ((body.toolName.filter (· != "")).map fun name => ("name", Json.str name)).toList

/-- The rows `get_messages` selects. With a limit the newest rows are taken first and then
put in ascending order; SQLite reads a negative `LIMIT` as no limit. -/
def selectMessages (repo : LocalSessionRepo) (sessionId : String) :
    Option Int → List MessageRow
  | none => repo.orderedRows sessionId
  | some limit =>
    let newest := (repo.orderedRows sessionId).reverse
    sortedBy orderKey (if limit < 0 then newest else newest.take limit.toNat)

def getMessages (repo : LocalSessionRepo) (sessionId : String) (limit : Option Int) :
    List Item :=
  (repo.selectMessages sessionId limit).map fun row => messageRowToMsg row.toMessageBody

def popLastMessage (repo : LocalSessionRepo) (sessionId : String) :
    LocalSessionRepo × Option Item :=
  match (repo.orderedRows sessionId).getLast? with
  | none => (repo, none)
  | some last =>
    let deleted := repo.deleteMessages fun row => row.id != last.id
    (deleted.updateCount sessionId fun count => max (count - 1) 0,
      some (messageRowToMsg last.toMessageBody))

def clearSession (repo : LocalSessionRepo) (sessionId : String) : LocalSessionRepo :=
  (repo.deleteMessages fun row => row.sessionId != sessionId).updateCount sessionId fun _ => 0

/-- The copies go behind all rows of the table, in the order of the source and with its
timestamps. -/
def copyMessages (repo : LocalSessionRepo) (srcSessionId dstSessionId : String) :
    LocalSessionRepo × Nat :=
  let rows := repo.orderedRows srcSessionId
  let copied := rows.foldl (fun repo row => repo.insertMessage dstSessionId row.toMessageBody) repo
  (if rows.isEmpty then copied else copied.updateCount dstSessionId fun _ => rows.length,
    rows.length)

/-! ### What an operation does to the rows of a session -/

@[simp]
theorem messages_createSession (repo : LocalSessionRepo) (sessionId source : String)
    (model userId : Option String) (now : Timestamp) :
    (repo.createSession sessionId source model userId now).messages = repo.messages := by
  unfold createSession
  split <;> rfl

@[simp]
theorem rowsOf_createSession (repo : LocalSessionRepo) (sessionId source : String)
    (model userId : Option String) (now : Timestamp) (other : String) :
    (repo.createSession sessionId source model userId now).rowsOf other = repo.rowsOf other := by
  unfold rowsOf
  rw [messages_createSession]

@[simp]
theorem rowsOf_updateCount (repo : LocalSessionRepo) (sessionId : String) (count : Int → Int)
    (other : String) : (repo.updateCount sessionId count).rowsOf other = repo.rowsOf other := rfl

theorem rowsOf_insertMessage_self (repo : LocalSessionRepo) (sessionId : String)
    (body : MessageBody) :
    (repo.insertMessage sessionId body).rowsOf sessionId =
      repo.rowsOf sessionId ++ [{ body with id := repo.lastRowId + 1, sessionId }] := by
  unfold rowsOf insertMessage
  rw [List.filter_append]
  simp

theorem rowsOf_insertMessage_other (repo : LocalSessionRepo) (sessionId : String)
    (body : MessageBody) (other : String) (different : other ≠ sessionId) :
    (repo.insertMessage sessionId body).rowsOf other = repo.rowsOf other := by
  unfold rowsOf insertMessage
  rw [List.filter_append]
  simp [Ne.symm different]

theorem rowsOf_deleteMessages (repo : LocalSessionRepo) (keep : MessageRow → Bool)
    (sessionId : String) :
    (repo.deleteMessages keep).rowsOf sessionId = (repo.rowsOf sessionId).filter keep := by
  unfold rowsOf deleteMessages
  rw [List.filter_filter, List.filter_filter]
  simp only [Bool.and_comm]

theorem rowsOf_ascending (repo : LocalSessionRepo) (sessionId : String) :
    (repo.rowsOf sessionId).Pairwise fun first second => first.id < second.id :=
  repo.ascending.filter _

theorem sessionId_of_mem_rowsOf (repo : LocalSessionRepo) (sessionId : String)
    (row : MessageRow) (member : row ∈ repo.rowsOf sessionId) : row.sessionId = sessionId := by
  simpa using (List.mem_filter.mp member).2

/-- Two rows of the store with one id are one row. -/
theorem eq_of_id_eq (repo : LocalSessionRepo) (first second : MessageRow)
    (firstMember : first ∈ repo.messages) (secondMember : second ∈ repo.messages)
    (same : first.id = second.id) : first = second := by
  have distinct : (repo.messages.map MessageRow.id).Nodup := by
    refine List.Pairwise.map _ (fun _ _ less => ?_) repo.ascending
    exact Nat.ne_of_lt less
  exact List.inj_on_of_nodup_map distinct firstMember secondMember same

/-! ### The log of a session -/

/-- What a reader of the session sees: the bodies of its rows in the order of the clock
readings. -/
def log (repo : LocalSessionRepo) (sessionId : String) : List MessageBody :=
  (repo.orderedRows sessionId).map MessageRow.toMessageBody

/-- The last entries of a log under a `LIMIT`. -/
def newest (limit : Option Int) (entries : List MessageBody) : List MessageBody :=
  match limit with
  | none => entries
  | some limit => if limit < 0 then entries else entries.drop (entries.length - limit.toNat)

/-- The ids ascend with the table, so ordering by `timestamp, id` is a stable sort by the
timestamp alone. -/
theorem orderedRows_eq (repo : LocalSessionRepo) (sessionId : String) :
    repo.orderedRows sessionId =
      sortedBy (fun row => row.timestamp) (repo.rowsOf sessionId) :=
  sortedBy_lex (fun row : MessageRow => row.timestamp) MessageRow.id _
    (repo.rowsOf_ascending sessionId)

theorem log_eq (repo : LocalSessionRepo) (sessionId : String) :
    repo.log sessionId =
      sortedBy MessageBody.timestamp
        ((repo.rowsOf sessionId).map MessageRow.toMessageBody) := by
  unfold log
  rw [orderedRows_eq]
  exact map_sortedBy _ _ _ _ fun _ _ => rfl

/-- The log of a session depends on the rows of that session only. -/
theorem log_congr (repo other : LocalSessionRepo) (sessionId : String)
    (same : other.rowsOf sessionId = repo.rowsOf sessionId) :
    other.log sessionId = repo.log sessionId := by
  unfold log orderedRows
  rw [same]

theorem orderKey_nodup (repo : LocalSessionRepo) (sessionId : String) :
    ((repo.rowsOf sessionId).map orderKey).Nodup := by
  refine List.Pairwise.map _ (fun first second less same => ?_) (repo.rowsOf_ascending sessionId)
  exact Nat.ne_of_lt less (congrArg (fun key => (ofLex key).2) same)

@[simp]
theorem log_empty (sessionId : String) : empty.log sessionId = [] := rfl

@[simp]
theorem log_createSession (repo : LocalSessionRepo) (sessionId source : String)
    (model userId : Option String) (now : Timestamp) (other : String) :
    (repo.createSession sessionId source model userId now).log other = repo.log other :=
  log_congr _ _ _ (by rw [rowsOf_createSession])

/-- The body `append_message` writes. -/
def appendedBody (role : String) (content toolCallId : Option String)
    (toolCalls : Option (List Json)) (toolName : Option String) (now : Timestamp) : MessageBody :=
  { role, content, toolCallId, toolCalls := storedToolCalls toolCalls, toolName, timestamp := now }

theorem log_appendMessage_self (repo : LocalSessionRepo) (sessionId role : String)
    (content toolCallId : Option String) (toolCalls : Option (List Json))
    (toolName : Option String) (now : Timestamp) :
    (repo.appendMessage sessionId role content toolCallId toolCalls toolName now).1.log sessionId =
      insertLate MessageBody.timestamp
        (appendedBody role content toolCallId toolCalls toolName now) (repo.log sessionId) := by
  rw [log_eq, log_eq]
  unfold appendMessage
  rw [rowsOf_updateCount, rowsOf_insertMessage_self, List.map_append]
  exact sortedBy_append_singleton _ _ _

theorem rowsOf_appendMessage_other (repo : LocalSessionRepo) (sessionId role : String)
    (content toolCallId : Option String) (toolCalls : Option (List Json))
    (toolName : Option String) (now : Timestamp) (other : String)
    (different : other ≠ sessionId) :
    (repo.appendMessage sessionId role content toolCallId toolCalls toolName now).1.rowsOf other =
      repo.rowsOf other := by
  unfold appendMessage
  rw [rowsOf_updateCount, rowsOf_insertMessage_other _ _ _ _ different]

theorem getLast?_log (repo : LocalSessionRepo) (sessionId : String) :
    (repo.log sessionId).getLast? =
      (repo.orderedRows sessionId).getLast?.map MessageRow.toMessageBody := by
  unfold log
  rw [List.getLast?_map]

theorem popLastMessage_snd (repo : LocalSessionRepo) (sessionId : String) :
    (repo.popLastMessage sessionId).2 = (repo.log sessionId).getLast?.map messageRowToMsg := by
  rw [getLast?_log]
  unfold popLastMessage
  cases (repo.orderedRows sessionId).getLast? <;> rfl

theorem mem_orderedRows (repo : LocalSessionRepo) (sessionId : String) (row : MessageRow) :
    row ∈ repo.orderedRows sessionId ↔ row ∈ repo.rowsOf sessionId :=
  mem_sortedBy _ _ _

/-- Dropping the row with the id of the last one drops the last one. -/
theorem filter_id_orderedRows (repo : LocalSessionRepo) (sessionId : String) (last : MessageRow)
    (isLast : (repo.orderedRows sessionId).getLast? = some last) :
    ((repo.orderedRows sessionId).filter fun row => row.id != last.id) =
      (repo.orderedRows sessionId).dropLast := by
  have split := List.dropLast_append_getLast? last isLast
  have inStore : ∀ row ∈ repo.orderedRows sessionId, row ∈ repo.messages := fun row member =>
    (List.mem_filter.mp ((repo.mem_orderedRows sessionId row).mp member)).1
  have distinct : (repo.orderedRows sessionId).Nodup := by
    have keys := ((sortedBy_perm orderKey (repo.rowsOf sessionId)).map orderKey).nodup_iff.mpr
      (repo.orderKey_nodup sessionId)
    exact keys.of_map
  rw [← split] at distinct inStore
  have kept : ∀ row ∈ (repo.orderedRows sessionId).dropLast, (row.id != last.id) = true := by
    intro row member
    rw [bne_iff_ne]
    intro same
    have equal : row = last := repo.eq_of_id_eq row last
      (inStore row (List.mem_append_left _ member))
      (inStore last (List.mem_append_right _ List.mem_cons_self)) same
    exact List.disjoint_of_nodup_append distinct (equal ▸ member) List.mem_cons_self
  conv_lhs => rw [← split]
  rw [List.filter_append, List.filter_eq_self.mpr kept]
  simp

theorem log_popLastMessage_self (repo : LocalSessionRepo) (sessionId : String) :
    (repo.popLastMessage sessionId).1.log sessionId = (repo.log sessionId).dropLast := by
  unfold popLastMessage
  cases isLast : (repo.orderedRows sessionId).getLast? with
  | none =>
    have nothing : repo.log sessionId = [] := by
      unfold log
      rw [List.getLast?_eq_none_iff.mp isLast, List.map_nil]
    simp only [nothing, List.dropLast_nil]
  | some last =>
    show ((repo.deleteMessages _).orderedRows sessionId).map _ = _
    unfold log
    rw [← List.map_dropLast, ← filter_id_orderedRows repo sessionId last isLast]
    unfold orderedRows
    rw [rowsOf_deleteMessages, filter_sortedBy]

theorem rowsOf_popLastMessage_other (repo : LocalSessionRepo) (sessionId other : String)
    (different : other ≠ sessionId) :
    (repo.popLastMessage sessionId).1.rowsOf other = repo.rowsOf other := by
  unfold popLastMessage
  cases isLast : (repo.orderedRows sessionId).getLast? with
  | none => rfl
  | some last =>
    have lastMember := (repo.mem_orderedRows sessionId last).mp (List.mem_of_getLast? isLast)
    show (repo.deleteMessages _).rowsOf other = _
    rw [rowsOf_deleteMessages, List.filter_eq_self]
    intro row member
    rw [bne_iff_ne]
    intro same
    have equal := repo.eq_of_id_eq row last (List.mem_filter.mp member).1
      (List.mem_filter.mp lastMember).1 same
    apply different
    rw [← repo.sessionId_of_mem_rowsOf other row member, equal,
      repo.sessionId_of_mem_rowsOf sessionId last lastMember]

theorem log_clearSession_self (repo : LocalSessionRepo) (sessionId : String) :
    (repo.clearSession sessionId).log sessionId = [] := by
  have nothing : (repo.clearSession sessionId).rowsOf sessionId = [] := by
    unfold clearSession
    rw [rowsOf_updateCount, rowsOf_deleteMessages, List.filter_eq_nil_iff]
    intro row member
    simp [repo.sessionId_of_mem_rowsOf sessionId row member]
  unfold log orderedRows
  rw [nothing]
  rfl

theorem rowsOf_clearSession_other (repo : LocalSessionRepo) (sessionId other : String)
    (different : other ≠ sessionId) :
    (repo.clearSession sessionId).rowsOf other = repo.rowsOf other := by
  unfold clearSession
  rw [rowsOf_updateCount, rowsOf_deleteMessages, List.filter_eq_self]
  intro row member
  rw [repo.sessionId_of_mem_rowsOf other row member]
  simpa using different

/-- `get_messages` returns the newest entries of the log, in the order of the log. -/
theorem getMessages_eq (repo : LocalSessionRepo) (sessionId : String) (limit : Option Int) :
    repo.getMessages sessionId limit =
      (newest limit (repo.log sessionId)).map messageRowToMsg := by
  cases limit with
  | none =>
    unfold getMessages selectMessages newest log
    rw [List.map_map]
    rfl
  | some limit =>
    have ordered := sortedBy_pairwise orderKey (repo.rowsOf sessionId)
    have distinct := ((sortedBy_perm orderKey (repo.rowsOf sessionId)).map orderKey).nodup_iff.mpr
      (repo.orderKey_nodup sessionId)
    have restored : ∀ rows : List MessageRow, rows.Sublist (repo.orderedRows sessionId) →
        sortedBy orderKey rows.reverse = rows := by
      intro rows sublist
      refine eq_of_perm_of_sorted orderKey ?_ (distinct.sublist (sublist.map orderKey))
        (sortedBy_pairwise _ _) (ordered.sublist sublist)
      exact (sortedBy_perm _ _).trans (List.reverse_perm rows)
    unfold getMessages selectMessages newest log
    simp only
    split
    · rw [restored _ (List.Sublist.refl _), List.map_map]
      rfl
    · rw [List.take_reverse, restored _ (List.drop_sublist _ _), List.length_map,
        ← List.map_drop, List.map_map]
      rfl

end LocalSessionRepo

end LiteHorse.Sessions
