/-
This file models the Postgres store of sessions and messages, `SessionRepo` and `MessageRepo`, as
far as the column `message_count` goes. A call runs in a transaction of a user, which may have an
agent: row security then shows it the user's sessions of that agent, but all messages of the user.

The messages of a call go to any session, for a foreign key does not ask whose it is, while the
column of a session changes only where the transaction sees its row. So the column is right in a
run exactly if the calls that change the messages of a session see it, and `copy_messages`, which
sets the number of the copies, copies into sessions without messages (`always_countsMessages_iff`).
-/

import LiteHorse.Repositories.MemoryRepo
import LiteHorse.Sessions.LocalCounts

namespace LiteHorse.Repositories.SessionMessages

open CountedRows Python Sessions Sorting Storage

/-! ### The tables -/

/-- A row of `sessions`. -/
structure SessionRow where
  id : String
  userId : UUID
  agentId : UUID
  source : String
  model : Option String
  startedAt : Timestamp
  messageCount : Int

/-- A row of `messages`. -/
structure MessageRow extends MessageBody where
  id : Nat
  userId : UUID
  sessionId : String

/-- The rows, with what the primary keys, the identity column and the foreign key from a message to
its session ensure. -/
structure Store where
  sessions : List SessionRow
  messages : List MessageRow
  lastId : Nat
  sessionIds : (sessions.map SessionRow.id).Nodup
  ascending : messages.Pairwise fun first second => first.id < second.id
  bounded : ∀ row ∈ messages, row.id ≤ lastId
  references : ∀ row ∈ messages, row.sessionId ∈ sessions.map SessionRow.id

namespace Store

def empty : Store where
  sessions := []
  messages := []
  lastId := 0
  sessionIds := List.nodup_nil
  ascending := List.Pairwise.nil
  bounded := fun _ member => absurd member List.not_mem_nil
  references := fun _ member => absurd member List.not_mem_nil

/-! ### Statements -/

/-- The column as a counter. -/
def sessionCounter : Counter SessionRow String where
  key := SessionRow.id
  count := SessionRow.messageCount
  setCount session number := { session with messageCount := number }
  key_setCount _ _ := rfl
  count_setCount _ _ := rfl

/-- Row security shows the session to the transaction. -/
def Visible (transaction : DbSession) (session : SessionRow) : Prop :=
  tenantIsolation transaction session.userId session.agentId = true

instance (transaction : DbSession) : DecidablePred (Visible transaction) :=
  fun _ => inferInstanceAs (Decidable (_ = true))

/-- `UPDATE sessions SET message_count = .. WHERE id = .. AND user_id = ..` -/
def updateCount (store : Store) (transaction : DbSession) (userId : UUID) (sessionId : String)
    (change : Int → Int) : Store :=
  { store with
    sessions := sessionCounter.update (fun session =>
      (session.id = sessionId ∧ session.userId = userId) ∧ Visible transaction session) change
      store.sessions
    sessionIds := by
      rw [show SessionRow.id = sessionCounter.key from rfl, sessionCounter.map_key_update]
      exact store.sessionIds
    references := by
      rw [show SessionRow.id = sessionCounter.key from rfl, sessionCounter.map_key_update]
      exact store.references }

/-- The foreign keys of a message: the user and the session are there. -/
def Admits (store : Store) (isUser : UUID → Bool) (userId : UUID) (sessionId : String) : Prop :=
  isUser userId = true ∧ sessionId ∈ store.sessions.map SessionRow.id

instance (store : Store) (isUser : UUID → Bool) (userId : UUID) (sessionId : String) :
    Decidable (store.Admits isUser userId sessionId) :=
  inferInstanceAs (Decidable (_ ∧ _))

/-- `INSERT INTO messages` -/
def insertMessage (store : Store) (isUser : UUID → Bool) (userId : UUID) (sessionId : String)
    (body : MessageBody) : Except MemoryRepoError Store :=
  if admits : store.Admits isUser userId sessionId then
    .ok { store with
      messages := store.messages ++ [{ body with id := store.lastId + 1, userId, sessionId }]
      lastId := store.lastId + 1
      ascending := by
        refine List.pairwise_append.mpr ⟨store.ascending, List.pairwise_singleton _ _, ?_⟩
        intro row member added isAdded
        rw [List.mem_singleton.mp isAdded]
        exact Nat.lt_succ_of_le (store.bounded row member)
      bounded := by
        refine List.forall_mem_append.mpr ⟨fun row member => ?_, ?_⟩
        · exact Nat.le_succ_of_le (store.bounded row member)
        · exact List.forall_mem_singleton.mpr (Nat.le_refl _)
      references := List.forall_mem_append.mpr
        ⟨store.references, List.forall_mem_singleton.mpr admits.2⟩ }
  else .error .dbapiError

/-- `DELETE FROM messages` of the rows that are not kept. -/
def deleteMessages (store : Store) (keep : MessageRow → Bool) : Store :=
  { store with
    messages := store.messages.filter keep
    ascending := store.ascending.filter _
    bounded := fun row member => store.bounded row (List.mem_filter.mp member).1
    references := fun row member => store.references row (List.mem_filter.mp member).1 }

/-- `SELECT .. FROM messages WHERE user_id = .. AND session_id = ..` -/
def rowsOf (store : Store) (userId : UUID) (sessionId : String) : List MessageRow :=
  store.messages.filter fun row => row.userId = userId && row.sessionId = sessionId

/-- `.. ORDER BY ts, id` -/
def orderedRows (store : Store) (userId : UUID) (sessionId : String) : List MessageRow :=
  sortedBy (fun row : MessageRow => (toLex (row.timestamp, row.id) : Timestamp ×ₗ Nat))
    (store.rowsOf userId sessionId)

/-! ### The calls -/

section Calls

variable (store : Store) (isUser : UUID → Bool) (transaction : DbSession)

/-- `SessionRepo.create_session`. The statement names no agent: `owner` is the one a new row
gets. -/
def createSession (owner : UUID) (sessionId source : String) (model : Option String)
    (now : Timestamp) : Except MemoryRepoError Store := do
  let userId ← currentUserId transaction
  if tenantIsolation transaction userId owner = false then throw .dbapiError
  else if known : sessionId ∈ store.sessions.map SessionRow.id then return store
  else if isUser userId = false then throw .dbapiError
  else
    return { store with
      sessions := store.sessions ++
        [{ id := sessionId, userId, agentId := owner, source, model, startedAt := now,
           messageCount := 0 }]
      sessionIds := by
        rw [List.map_append]
        refine List.nodup_append.mpr ⟨store.sessionIds, List.nodup_singleton _, ?_⟩
        intro other member added isAdded same
        rw [same, List.mem_singleton.mp isAdded] at member
        exact known member
      references := fun row member => by
        rw [List.map_append]
        exact List.mem_append_left _ (store.references row member) }

/-- `MessageRepo.append_message` -/
def appendMessage (sessionId role : String) (content toolCallId : Option String)
    (toolCalls : Option (List Json)) (toolName : Option String) (now : Timestamp) :
    Except MemoryRepoError (Store × Nat) := do
  let userId ← currentUserId transaction
  let inserted ← store.insertMessage isUser userId sessionId
    { role, content, toolCallId, toolCalls := LocalSessionRepo.storedToolCalls toolCalls, toolName,
      timestamp := now }
  return (inserted.updateCount transaction userId sessionId (· + 1), inserted.lastId)

/-- `MessageRepo.pop_last_message` -/
def popLastMessage (sessionId : String) : Except MemoryRepoError (Store × Option Item) := do
  let userId ← currentUserId transaction
  match (store.orderedRows userId sessionId).getLast? with
  | none => return (store, none)
  | some last =>
    let deleted := store.deleteMessages fun row => !(row.userId = userId && row.id = last.id)
    return (deleted.updateCount transaction userId sessionId fun count => max (count - 1) 0,
      some (LocalSessionRepo.messageRowToMsg last.toMessageBody))

/-- `MessageRepo.clear_session` -/
def clearSession (sessionId : String) : Except MemoryRepoError Store := do
  let userId ← currentUserId transaction
  let deleted := store.deleteMessages fun row =>
    !(row.userId = userId && row.sessionId = sessionId)
  return deleted.updateCount transaction userId sessionId fun _ => 0

/-- `MessageRepo.copy_messages` -/
def copyMessages (srcSessionId dstSessionId : String) : Except MemoryRepoError (Store × Nat) := do
  let userId ← currentUserId transaction
  let rows := store.orderedRows userId srcSessionId
  if rows.isEmpty then return (store, 0)
  let inserted ← rows.foldlM
    (fun store row => store.insertMessage isUser userId dstSessionId row.toMessageBody) store
  return (inserted.updateCount transaction userId dstSessionId fun _ => rows.length, rows.length)

end Calls

/-- A call on sessions and messages, of a transaction. -/
structure Call where
  transaction : DbSession
  owner : UUID
  call : MessageCall

/-- The store after a call. The user a local session is made for is that of the transaction. -/
def run (isUser : UUID → Bool) (store : Store) (event : Call) : Except MemoryRepoError Store :=
  match event.call with
  | .createSession sessionId source model _ now =>
    store.createSession isUser event.transaction event.owner sessionId source model now
  | .appendMessage sessionId role content toolCallId toolCalls toolName now =>
    (store.appendMessage isUser event.transaction sessionId role content toolCallId toolCalls
      toolName now).map Prod.fst
  | .popLastMessage sessionId => (store.popLastMessage event.transaction sessionId).map Prod.fst
  | .clearSession sessionId => store.clearSession event.transaction sessionId
  | .copyMessages srcSessionId dstSessionId =>
    (store.copyMessages isUser event.transaction srcSessionId dstSessionId).map Prod.fst

/-- A transaction that fails is rolled back. -/
def after (isUser : UUID → Bool) (store : Store) (event : Call) : Store :=
  match store.run isUser event with
  | .ok next => next
  | .error _ => store

/-- One call after another. -/
def step (isUser : UUID → Bool) (store : Store) (event : Call) : Option Store :=
  some (store.after isUser event)

/-! ### The number of the rows -/

section Rows

variable {store : Store} {isUser : UUID → Bool} {userId : UUID} {sessionId : String}

/-- The number of the message rows of a session, whoever they are of. -/
def rowCount (store : Store) (sessionId : String) : Nat :=
  store.messages.countP fun row => row.sessionId = sessionId

/-- The column of every session says how many messages it has. -/
def CountsMessages (store : Store) : Prop :=
  ∀ session ∈ store.sessions, session.messageCount = store.rowCount session.id

theorem length_orderedRows :
    (store.orderedRows userId sessionId).length = (store.rowsOf userId sessionId).length :=
  (sortedBy_perm _ _).length_eq

theorem orderedRows_eq_nil_iff :
    store.orderedRows userId sessionId = [] ↔ store.rowsOf userId sessionId = [] := by
  rw [← List.length_eq_zero_iff, length_orderedRows, List.length_eq_zero_iff]

theorem rowCount_eq_zero_of_unknown (unknown : sessionId ∉ store.sessions.map SessionRow.id) :
    store.rowCount sessionId = 0 := by
  refine List.countP_eq_zero.mpr fun row member isRow => unknown ?_
  exact of_decide_eq_true isRow ▸ store.references row member

theorem insertMessage_of_admits (admits : store.Admits isUser userId sessionId)
    (body : MessageBody) : ∃ inserted,
      store.insertMessage isUser userId sessionId body = .ok inserted ∧
      inserted.sessions = store.sessions ∧
      inserted.messages =
        store.messages ++ [{ body with id := store.lastId + 1, userId, sessionId }] := by
  unfold insertMessage
  rw [dif_pos admits]
  exact ⟨_, rfl, rfl, rfl⟩

theorem insertMessage_of_not_admits (refused : ¬ store.Admits isUser userId sessionId)
    (body : MessageBody) :
    store.insertMessage isUser userId sessionId body = .error .dbapiError :=
  dif_neg refused

/-- The messages that are inserted one after another are behind the others, of the user and of the
session. -/
theorem insertAll (admits : store.Admits isUser userId sessionId) (rows : List MessageRow) :
    ∃ inserted added,
      rows.foldlM (fun store row =>
        store.insertMessage isUser userId sessionId row.toMessageBody) store = .ok inserted ∧
      inserted.sessions = store.sessions ∧ inserted.messages = store.messages ++ added ∧
      added.length = rows.length ∧
      ∀ row ∈ added, row.userId = userId ∧ row.sessionId = sessionId := by
  induction rows generalizing store with
  | nil =>
    exact ⟨store, [], rfl, rfl, (List.append_nil _).symm, rfl,
      fun _ member => absurd member List.not_mem_nil⟩
  | cons row rest inductionHypothesis =>
    obtain ⟨first, ran, sameSessions, messages⟩ :=
      insertMessage_of_admits admits row.toMessageBody
    have stillAdmits : first.Admits isUser userId sessionId := by
      unfold Admits
      rw [sameSessions]
      exact admits
    obtain ⟨inserted, added, ranRest, sameRest, messagesRest, length, ofUser⟩ :=
      inductionHypothesis stillAdmits
    refine ⟨inserted, { row.toMessageBody with id := store.lastId + 1, userId, sessionId } :: added,
      ?_, sameRest.trans sameSessions, ?_, ?_, ?_⟩
    · rw [List.foldlM_cons, ran]
      exact ranRest
    · rw [messagesRest, messages, List.append_assoc]
      rfl
    · rw [List.length_cons, List.length_cons, length]
    · exact List.forall_mem_cons.mpr ⟨⟨rfl, rfl⟩, ofUser⟩

/-- A row of the store is the only one with its id. -/
theorem filter_id (last : MessageRow) (member : last ∈ store.messages)
    (ofUser : last.userId = userId) :
    store.messages.filter (fun row => row.userId = userId && row.id = last.id) = [last] := by
  obtain ⟨before, after, split⟩ := List.append_of_mem member
  have ascending := store.ascending
  rw [split] at ascending ⊢
  obtain ⟨_, later, earlier⟩ := List.pairwise_append.mp ascending
  have noneOf : ∀ rows : List MessageRow, (∀ row ∈ rows, row.id ≠ last.id) →
      rows.filter (fun row => row.userId = userId && row.id = last.id) = [] := by
    intro rows different
    refine List.filter_eq_nil_iff.mpr fun row inRows isLast => ?_
    exact different row inRows (of_decide_eq_true (Bool.and_eq_true_iff.mp isLast).2)
  rw [List.filter_append, List.filter_cons_of_pos (by rw [ofUser]; simp), noneOf before,
    noneOf after, List.nil_append]
  · exact fun row inAfter => Nat.ne_of_gt ((List.pairwise_cons.mp later).1 row inAfter)
  · exact fun row inBefore => Nat.ne_of_lt (earlier row inBefore last List.mem_cons_self)

/-- The rows of one session among the rows. -/
theorem countP_ofSession {rows : List MessageRow}
    (ofSession : ∀ row ∈ rows, row.sessionId = sessionId) (other : String) :
    rows.countP (fun row => row.sessionId = other) =
      if other = sessionId then rows.length else 0 := by
  split
  next same =>
    exact List.countP_eq_length.mpr fun row member =>
      decide_eq_true ((ofSession row member).trans same.symm)
  next different =>
    exact List.countP_eq_zero.mpr fun row member isRow =>
      different ((of_decide_eq_true isRow).symm.trans (ofSession row member))

/-- Messages are added to one session. -/
theorem rowCount_insert {inserted : Store} {added : List MessageRow}
    (messages : inserted.messages = store.messages ++ added)
    (ofSession : ∀ row ∈ added, row.sessionId = sessionId) (other : String) :
    inserted.rowCount other =
      store.rowCount other + if other = sessionId then added.length else 0 := by
  unfold rowCount
  rw [messages, List.countP_append, countP_ofSession ofSession]

/-- Messages of one session are taken away. -/
theorem rowCount_delete {gone : MessageRow → Bool}
    (ofSession : ∀ row ∈ store.messages.filter gone, row.sessionId = sessionId) (other : String) :
    store.rowCount other = (store.deleteMessages fun row => !gone row).rowCount other +
      if other = sessionId then (store.messages.filter gone).length else 0 := by
  rw [← countP_ofSession ofSession, add_comm]
  exact List.countP_eq_countP_filter_add store.messages _ _

end Rows

/-! ### One call -/

/-- The messages of a session are of the user the session is of. -/
def OwnersAgree (store : Store) : Prop :=
  ∀ row ∈ store.messages, ∀ session ∈ store.sessions, session.id = row.sessionId →
    session.userId = row.userId

/-- The transaction sees the session with the id. -/
def Sees (store : Store) (transaction : DbSession) (sessionId : String) : Prop :=
  ∀ session ∈ store.sessions, session.id = sessionId → Visible transaction session

/-- A call that changes the messages of a session sees the session, and copies messages to a session
without messages. -/
def SeesItsMessages (isUser : UUID → Bool) (store : Store) (transaction : DbSession)
    (userId : UUID) : MessageCall → Prop
  | .createSession .. => True
  | .appendMessage sessionId .. => isUser userId = true → store.Sees transaction sessionId
  | .popLastMessage sessionId | .clearSession sessionId =>
    store.rowsOf userId sessionId ≠ [] → store.Sees transaction sessionId
  | .copyMessages srcSessionId dstSessionId =>
    isUser userId = true → store.rowsOf userId srcSessionId ≠ [] →
      store.Sees transaction dstSessionId ∧ ∀ row ∈ store.messages, row.sessionId ≠ dstSessionId

/-- A transaction without a user changes nothing. -/
def CountsAfter (isUser : UUID → Bool) (store : Store) (event : Call) : Prop :=
  ∀ userId, event.transaction.userId = some userId →
    store.SeesItsMessages isUser event.transaction userId event.call

section Step

variable {store : Store} {isUser : UUID → Bool} {transaction : DbSession} {userId : UUID}
  {sessionId : String}

theorem visible_userId {session : SessionRow} (isUserOf : transaction.userId = some userId)
    (visible : Visible transaction session) : session.userId = userId := by
  unfold Visible tenantIsolation at visible
  rw [Bool.and_eq_true, decide_eq_true_eq, isUserOf, Option.some.injEq] at visible
  exact visible.1.symm

/-- The rows of one session change, and with them its column if the transaction sees it. -/
theorem counts_updateCount_iff (isUserOf : transaction.userId = some userId)
    (counts : store.CountsMessages) (changed : Store) (change : Int → Int)
    (sameSessions : changed.sessions = store.sessions)
    (others : ∀ other, other ≠ sessionId → changed.rowCount other = store.rowCount other) :
    (changed.updateCount transaction userId sessionId change).CountsMessages ↔
      ∀ session ∈ store.sessions, session.id = sessionId →
        (if Visible transaction session then change (store.rowCount sessionId)
          else store.rowCount sessionId) = (changed.rowCount sessionId : Int) := by
  have exactly : sessionCounter.Counts (sessionCounter.update (fun session =>
      (session.id = sessionId ∧ session.userId = userId) ∧ Visible transaction session) change
      store.sessions) changed.rowCount ↔ _ :=
    sessionCounter.counts_update_iff counts others fun _ isReached => isReached.1.1
  rw [← sameSessions] at exactly ⊢
  refine exactly.trans (forall₂_congr fun session _ => forall_congr' fun isSession => ?_)
  have sameReach : ((session.id = sessionId ∧ session.userId = userId) ∧
      Visible transaction session) ↔ Visible transaction session :=
    and_iff_right_of_imp fun visible => ⟨isSession, visible_userId isUserOf visible⟩
  rw [if_congr sameReach rfl rfl]

theorem counts_insert_iff (isUserOf : transaction.userId = some userId)
    (counts : store.CountsMessages) (change : Int → Int) {inserted : Store}
    {added : List MessageRow} (sameSessions : inserted.sessions = store.sessions)
    (messages : inserted.messages = store.messages ++ added)
    (ofSession : ∀ row ∈ added, row.sessionId = sessionId) :
    (inserted.updateCount transaction userId sessionId change).CountsMessages ↔
      ∀ session ∈ store.sessions, session.id = sessionId →
        (if Visible transaction session then change (store.rowCount sessionId)
          else store.rowCount sessionId) = (store.rowCount sessionId : Int) + added.length := by
  have rowCounts := rowCount_insert messages ofSession
  have own := rowCounts sessionId
  rw [if_pos rfl] at own
  rw [counts_updateCount_iff isUserOf counts inserted change sameSessions, own,
    Int.natCast_add]
  intro other different
  rw [rowCounts, if_neg different, Nat.add_zero]

theorem counts_delete_iff (isUserOf : transaction.userId = some userId)
    (counts : store.CountsMessages) (change : Int → Int) {gone : MessageRow → Bool}
    (ofSession : ∀ row ∈ store.messages.filter gone, row.sessionId = sessionId) :
    ((store.deleteMessages fun row => !gone row).updateCount transaction userId sessionId
        change).CountsMessages ↔
      ∀ session ∈ store.sessions, session.id = sessionId →
        (if Visible transaction session then change (store.rowCount sessionId)
          else store.rowCount sessionId) =
          (store.rowCount sessionId : Int) - (store.messages.filter gone).length := by
  have rowCounts := rowCount_delete ofSession
  have own := rowCounts sessionId
  rw [if_pos rfl] at own
  rw [counts_updateCount_iff isUserOf counts (store.deleteMessages _) change rfl]
  · refine forall₂_congr fun session _ => forall_congr' fun _ => ?_
    rw [show ((store.deleteMessages fun row => !gone row).rowCount sessionId : Int) =
      store.rowCount sessionId - (store.messages.filter gone).length by omega]
  · intro other different
    have same := rowCounts other
    rw [if_neg different, Nat.add_zero] at same
    exact same.symm

theorem currentUserId_some (isUserOf : transaction.userId = some userId) :
    currentUserId transaction = .ok userId := by
  unfold currentUserId
  rw [isUserOf]

/-- The columns of the session are set right where a change of the messages is seen. -/
theorem forall_ite_iff {changed kept result : Int} (differs : kept ≠ result) :
    (∀ session ∈ store.sessions, session.id = sessionId →
        (if Visible transaction session then changed else kept) = result) ↔
      store.Sees transaction sessionId ∧
        (sessionId ∈ store.sessions.map SessionRow.id → changed = result) := by
  constructor
  · intro agrees
    have sees : store.Sees transaction sessionId := by
      intro session member isSession
      by_contra hidden
      have := agrees session member isSession
      rw [if_neg hidden] at this
      exact differs this
    refine ⟨sees, fun known => ?_⟩
    obtain ⟨session, member, isSession⟩ := List.mem_map.mp known
    have := agrees session member isSession
    rwa [if_pos (sees session member isSession)] at this
  · rintro ⟨sees, same⟩ session member isSession
    rw [if_pos (sees session member isSession)]
    exact same (List.mem_map.mpr ⟨session, member, isSession⟩)

/-- A call that is refused for the user leaves the store. -/
theorem after_of_error {event : Call} {raised : MemoryRepoError}
    (ran : store.run isUser event = .error raised) : store.after isUser event = store := by
  unfold after
  rw [ran]

variable (isUser)

/-- `create_session` adds a session without messages, or none. -/
theorem after_createSession (isUserOf : transaction.userId = some userId) (owner : UUID)
    (sessionId source : String) (model asUser : Option String) (now : Timestamp) :
    let next := store.after isUser
      ⟨transaction, owner, .createSession sessionId source model asUser now⟩
    next = store ∨ next.messages = store.messages ∧ store.rowCount sessionId = 0 ∧
      ∃ added : SessionRow, next.sessions = store.sessions ++ [added] ∧ added.id = sessionId ∧
        added.messageCount = 0 := by
  unfold after run createSession
  dsimp only
  rw [currentUserId_some isUserOf, ok_bind]
  by_cases hidden : tenantIsolation transaction userId owner = false
  · rw [if_pos hidden]
    exact Or.inl rfl
  rw [if_neg hidden]
  by_cases known : sessionId ∈ store.sessions.map SessionRow.id
  · rw [dif_pos known]
    exact Or.inl rfl
  rw [dif_neg known]
  by_cases noUser : isUser userId = false
  · rw [if_pos noUser]
    exact Or.inl rfl
  · rw [if_neg noUser]
    exact Or.inr ⟨rfl, rowCount_eq_zero_of_unknown known, _, rfl, rfl, rfl⟩

/-- `append_message` inserts a message if the foreign keys admit it. -/
theorem after_appendMessage (isUserOf : transaction.userId = some userId) (owner : UUID)
    (sessionId role : String) (content toolCallId : Option String)
    (toolCalls : Option (List Json)) (toolName : Option String) (now : Timestamp) :
    let next := store.after isUser
      ⟨transaction, owner, .appendMessage sessionId role content toolCallId toolCalls toolName now⟩
    (¬ store.Admits isUser userId sessionId ∧ next = store) ∨
      (store.Admits isUser userId sessionId ∧ ∃ (inserted : Store) (added : List MessageRow),
        inserted.sessions = store.sessions ∧ inserted.messages = store.messages ++ added ∧
        added.length = 1 ∧ (∀ row ∈ added, row.userId = userId ∧ row.sessionId = sessionId) ∧
        next = inserted.updateCount transaction userId sessionId (· + 1)) := by
  unfold after run appendMessage
  dsimp only
  rw [currentUserId_some isUserOf, ok_bind]
  by_cases admits : store.Admits isUser userId sessionId
  · obtain ⟨inserted, ran, sameSessions, messages⟩ := insertMessage_of_admits admits
      { role, content, toolCallId, toolCalls := LocalSessionRepo.storedToolCalls toolCalls,
        toolName, timestamp := now }
    rw [ran, ok_bind]
    exact Or.inr ⟨admits, inserted, _, sameSessions, messages, rfl,
      List.forall_mem_singleton.mpr ⟨rfl, rfl⟩, rfl⟩
  · rw [insertMessage_of_not_admits admits]
    exact Or.inl ⟨admits, rfl⟩

/-- `pop_last_message` deletes a message of the user, if there is one. -/
theorem after_popLastMessage (isUserOf : transaction.userId = some userId) (owner : UUID)
    (sessionId : String) :
    let next := store.after isUser ⟨transaction, owner, .popLastMessage sessionId⟩
    (store.rowsOf userId sessionId = [] ∧ next = store) ∨
      (store.rowsOf userId sessionId ≠ [] ∧ ∃ gone : MessageRow → Bool,
        (∀ row ∈ store.messages.filter gone, row.sessionId = sessionId) ∧
        (store.messages.filter gone).length = 1 ∧
        next = (store.deleteMessages fun row => !gone row).updateCount transaction userId sessionId
          fun count => max (count - 1) 0) := by
  unfold after run popLastMessage
  dsimp only
  rw [currentUserId_some isUserOf, ok_bind]
  cases isLast : (store.orderedRows userId sessionId).getLast? with
  | none =>
    exact Or.inl ⟨orderedRows_eq_nil_iff.mp (List.getLast?_eq_none_iff.mp isLast), rfl⟩
  | some last =>
    have lastMember : last ∈ store.rowsOf userId sessionId :=
      (mem_sortedBy _ _ _).mp (List.mem_of_getLast? isLast)
    obtain ⟨member, ofUser⟩ := List.mem_filter.mp lastMember
    rw [Bool.and_eq_true, decide_eq_true_eq, decide_eq_true_eq] at ofUser
    have only := filter_id last member ofUser.1
    refine Or.inr ⟨List.ne_nil_of_mem lastMember,
      fun row => row.userId = userId && row.id = last.id, ?_, ?_, rfl⟩
    · rw [only]
      exact List.forall_mem_singleton.mpr ofUser.2
    · rw [only, List.length_singleton]

/-- `clear_session` deletes the messages of the user. -/
theorem after_clearSession (isUserOf : transaction.userId = some userId) (owner : UUID)
    (sessionId : String) :
    store.after isUser ⟨transaction, owner, .clearSession sessionId⟩ =
      (store.deleteMessages fun row =>
        !(row.userId = userId && row.sessionId = sessionId)).updateCount transaction userId
          sessionId fun _ => 0 := by
  unfold after run clearSession
  dsimp only
  rw [currentUserId_some isUserOf, ok_bind]
  rfl

/-- `copy_messages` inserts the copies if there are any and the foreign keys admit them. -/
theorem after_copyMessages (isUserOf : transaction.userId = some userId) (owner : UUID)
    (srcSessionId dstSessionId : String) :
    let next := store.after isUser ⟨transaction, owner, .copyMessages srcSessionId dstSessionId⟩
    ((store.rowsOf userId srcSessionId = [] ∨ ¬ store.Admits isUser userId dstSessionId) ∧
        next = store) ∨
      (store.rowsOf userId srcSessionId ≠ [] ∧ store.Admits isUser userId dstSessionId ∧
        ∃ (inserted : Store) (added : List MessageRow),
          inserted.sessions = store.sessions ∧ inserted.messages = store.messages ++ added ∧
          added ≠ [] ∧ (∀ row ∈ added, row.userId = userId ∧ row.sessionId = dstSessionId) ∧
          next = inserted.updateCount transaction userId dstSessionId fun _ => added.length) := by
  unfold after run copyMessages
  dsimp only
  rw [currentUserId_some isUserOf, ok_bind]
  by_cases nothing : store.rowsOf userId srcSessionId = []
  · rw [if_pos (List.isEmpty_iff.mpr (orderedRows_eq_nil_iff.mpr nothing))]
    exact Or.inl ⟨Or.inl nothing, rfl⟩
  have rows : store.orderedRows userId srcSessionId ≠ [] :=
    fun empty => nothing (orderedRows_eq_nil_iff.mp empty)
  rw [if_neg fun empty => rows (List.isEmpty_iff.mp empty)]
  by_cases admits : store.Admits isUser userId dstSessionId
  · obtain ⟨inserted, added, ran, sameSessions, messages, length, ofUser⟩ :=
      insertAll admits (store.orderedRows userId srcSessionId)
    rw [ran, ok_bind]
    refine Or.inr ⟨nothing, admits, inserted, added, sameSessions, messages, ?_, ofUser, ?_⟩
    · exact fun empty => rows (List.length_eq_zero_iff.mp (by rw [← length, empty]; rfl))
    · rw [length]
      rfl
  · obtain ⟨first, rest, isCons⟩ := List.exists_cons_of_ne_nil rows
    rw [isCons, List.foldlM_cons, insertMessage_of_not_admits admits]
    exact Or.inl ⟨Or.inr admits, rfl⟩

/-- Without a user every call is refused. -/
theorem after_of_no_user {event : Call} (noUser : event.transaction.userId = none) :
    store.after isUser event = store := by
  have refused : ∃ raised, currentUserId event.transaction = .error raised := by
    unfold currentUserId
    rw [noUser]
    exact ⟨_, rfl⟩
  obtain ⟨raised, refused⟩ := refused
  have ran : store.run isUser event = .error raised := by
    unfold run createSession appendMessage popLastMessage clearSession copyMessages
    rw [refused]
    cases event.call <;> rfl
  exact after_of_error ran

end Step

/-- What every call keeps that meets the condition. -/
structure Sound (store : Store) : Prop where
  counts : store.CountsMessages
  owners : store.OwnersAgree

section Sound

variable {store : Store} {isUser : UUID → Bool} {transaction : DbSession} {userId : UUID}
  {sessionId : String}

theorem rowCount_eq_zero_iff :
    store.rowCount sessionId = 0 ↔ ∀ row ∈ store.messages, row.sessionId ≠ sessionId := by
  unfold rowCount
  rw [List.countP_eq_zero]
  exact forall₂_congr fun row _ => not_congr (by rw [decide_eq_true_eq])

/-- All messages of a session that a transaction sees are the user's. -/
theorem length_rowsOf_of_visible (owners : store.OwnersAgree)
    (isUserOf : transaction.userId = some userId) {session : SessionRow}
    (member : session ∈ store.sessions) (isSession : session.id = sessionId)
    (visible : Visible transaction session) :
    (store.rowsOf userId sessionId).length = store.rowCount sessionId := by
  unfold rowsOf rowCount
  rw [← List.countP_eq_length_filter]
  refine List.countP_congr fun row inStore => ?_
  rw [Bool.and_eq_true, decide_eq_true_eq, decide_eq_true_eq]
  refine and_iff_right_of_imp fun ofSession => ?_
  have same := owners row inStore session member (isSession.trans ofSession.symm)
  exact same.symm.trans (visible_userId isUserOf visible)

theorem counts_clear_iff (sound : store.Sound) (isUserOf : transaction.userId = some userId) :
    ((store.deleteMessages fun row =>
        !(row.userId = userId && row.sessionId = sessionId)).updateCount transaction userId
          sessionId fun _ => 0).CountsMessages ↔
      (store.rowsOf userId sessionId ≠ [] → store.Sees transaction sessionId) := by
  have ofSession : ∀ row ∈ store.rowsOf userId sessionId, row.sessionId = sessionId :=
    fun row member => of_decide_eq_true (Bool.and_eq_true_iff.mp (List.mem_filter.mp member).2).2
  rw [counts_delete_iff isUserOf sound.counts _ ofSession]
  rw [show store.messages.filter (fun row => row.userId = userId && row.sessionId = sessionId) =
    store.rowsOf userId sessionId from rfl]
  by_cases nothing : store.rowsOf userId sessionId = []
  · refine iff_of_true (fun session member isSession => ?_) fun some => absurd nothing some
    rw [nothing, List.length_nil, Int.natCast_zero, Int.sub_zero]
    split
    next visible =>
      rw [← length_rowsOf_of_visible sound.owners isUserOf member isSession visible, nothing]
      rfl
    next => rfl
  have positive := List.length_pos_iff.mpr nothing
  rw [forall_ite_iff (by omega)]
  constructor
  · exact fun holds _ => holds.1
  · refine fun sees => ⟨sees nothing, fun known => ?_⟩
    obtain ⟨session, member, isSession⟩ := List.mem_map.mp known
    rw [length_rowsOf_of_visible sound.owners isUserOf member isSession
      (sees nothing session member isSession), Int.sub_self]

theorem rowCount_pos_of_rowsOf (some : store.rowsOf userId sessionId ≠ []) :
    0 < store.rowCount sessionId := by
  obtain ⟨row, member⟩ := List.exists_mem_of_ne_nil _ some
  obtain ⟨inStore, isRow⟩ := List.mem_filter.mp member
  exact List.countP_pos_iff.mpr ⟨row, inStore, (Bool.and_eq_true_iff.mp isRow).2⟩

/-- A session that is not there is seen. -/
theorem sees_of_unknown (unknown : sessionId ∉ store.sessions.map SessionRow.id) :
    store.Sees transaction sessionId :=
  fun session member isSession => absurd (List.mem_map.mpr ⟨session, member, isSession⟩) unknown

/-- A call keeps the columns right exactly if it meets the condition. -/
theorem counts_after_iff (sound : store.Sound) (isUserOf : transaction.userId = some userId)
    (owner : UUID) (call : MessageCall) :
    (store.after isUser ⟨transaction, owner, call⟩).CountsMessages ↔
      store.SeesItsMessages isUser transaction userId call := by
  cases call with
  | createSession sessionId source model asUser now =>
    refine iff_of_true ?_ trivial
    rcases after_createSession isUser isUserOf owner sessionId source model asUser now with
      same | ⟨sameMessages, noRows, added, sessions, isId, isZero⟩
    · rw [same]
      exact sound.counts
    · unfold CountsMessages rowCount
      rw [sessions, sameMessages]
      refine (sessionCounter.counts_append_iff sound.counts added).mpr ?_
      show added.messageCount = store.rowCount added.id
      rw [isZero, isId, noRows]
      rfl
  | appendMessage sessionId role content toolCallId toolCalls toolName now =>
    rcases after_appendMessage isUser isUserOf owner sessionId role content toolCallId toolCalls
        toolName now with
      ⟨refused, same⟩ | ⟨admits, inserted, added, sameSessions, messages, length, ofUser, isNext⟩
    · rw [same]
      refine iff_of_true sound.counts fun isUserId => sees_of_unknown fun known => ?_
      exact refused ⟨isUserId, known⟩
    · rw [isNext, counts_insert_iff isUserOf sound.counts _ sameSessions messages
        (fun row member => (ofUser row member).2), length, forall_ite_iff (by omega)]
      refine ⟨fun holds _ => holds.1, fun sees => ⟨sees admits.1, fun _ => rfl⟩⟩
  | popLastMessage sessionId =>
    rcases after_popLastMessage isUser isUserOf owner sessionId with
      ⟨nothing, same⟩ | ⟨some, gone, ofSession, length, isNext⟩
    · rw [same]
      exact iff_of_true sound.counts fun some => absurd nothing some
    · have positive := rowCount_pos_of_rowsOf some
      rw [isNext, counts_delete_iff isUserOf sound.counts _ ofSession, length,
        forall_ite_iff (by omega)]
      refine ⟨fun holds _ => holds.1, fun sees => ⟨sees some, fun _ => ?_⟩⟩
      omega
  | clearSession sessionId =>
    rw [after_clearSession isUser isUserOf]
    exact counts_clear_iff sound isUserOf
  | copyMessages srcSessionId dstSessionId =>
    rcases after_copyMessages isUser isUserOf owner srcSessionId dstSessionId with
      ⟨refused, same⟩ | ⟨some, admits, inserted, added, sameSessions, messages, notEmpty, ofUser,
        isNext⟩
    · rw [same]
      refine iff_of_true sound.counts fun isUserId some => ?_
      have unknown : dstSessionId ∉ store.sessions.map SessionRow.id := fun known =>
        (refused.resolve_left some) ⟨isUserId, known⟩
      exact ⟨sees_of_unknown unknown,
        rowCount_eq_zero_iff.mp (rowCount_eq_zero_of_unknown unknown)⟩
    · have positive := List.length_pos_iff.mpr notEmpty
      rw [isNext, counts_insert_iff isUserOf sound.counts _ sameSessions messages
        (fun row member => (ofUser row member).2), forall_ite_iff (by omega)]
      constructor
      · rintro ⟨sees, same⟩ _ _
        have := same admits.2
        exact ⟨sees, rowCount_eq_zero_iff.mp (by omega)⟩
      · intro holds
        obtain ⟨sees, noRows⟩ := holds admits.1 some
        have := rowCount_eq_zero_iff.mpr noRows
        exact ⟨sees, fun _ => by omega⟩

/-- The owners of the rows an update leaves. -/
theorem ownersAgree_updateCount {change : Int → Int} (owners : store.OwnersAgree) :
    (store.updateCount transaction userId sessionId change).OwnersAgree := by
  intro row inStore session member isSession
  obtain ⟨old, oldMember, isOld⟩ := List.mem_map.mp member
  have same : session.id = old.id ∧ session.userId = old.userId := by
    rw [← isOld]
    split
    · exact ⟨rfl, rfl⟩
    · exact ⟨rfl, rfl⟩
  rw [same.2]
  exact owners row inStore old oldMember (same.1.symm.trans isSession)

theorem ownersAgree_insert (owners : store.OwnersAgree)
    (isUserOf : transaction.userId = some userId) (sees : store.Sees transaction sessionId)
    {inserted : Store} {added : List MessageRow} (sameSessions : inserted.sessions = store.sessions)
    (messages : inserted.messages = store.messages ++ added)
    (ofUser : ∀ row ∈ added, row.userId = userId ∧ row.sessionId = sessionId) :
    inserted.OwnersAgree := by
  unfold OwnersAgree
  rw [sameSessions, messages]
  refine List.forall_mem_append.mpr ⟨owners, fun row member session inSessions isSession => ?_⟩
  obtain ⟨isUserId, ofSession⟩ := ofUser row member
  rw [isUserId]
  exact visible_userId isUserOf (sees session inSessions (isSession.trans ofSession))

theorem ownersAgree_delete (owners : store.OwnersAgree) (keep : MessageRow → Bool) :
    (store.deleteMessages keep).OwnersAgree :=
  fun row member => owners row (List.mem_filter.mp member).1

theorem ownersAgree_after (sound : store.Sound) (isUserOf : transaction.userId = some userId)
    (owner : UUID) (call : MessageCall)
    (met : store.SeesItsMessages isUser transaction userId call) :
    (store.after isUser ⟨transaction, owner, call⟩).OwnersAgree := by
  cases call with
  | createSession sessionId source model asUser now =>
    rcases after_createSession isUser isUserOf owner sessionId source model asUser now with
      same | ⟨sameMessages, noRows, added, sessions, isId, isZero⟩
    · rw [same]
      exact sound.owners
    · intro row inStore session member isSession
      rw [sameMessages] at inStore
      rw [sessions] at member
      rcases List.mem_append.mp member with old | new
      · exact sound.owners row inStore session old isSession
      · rw [List.mem_singleton.mp new, isId] at isSession
        exact absurd isSession.symm (rowCount_eq_zero_iff.mp noRows row inStore)
  | appendMessage sessionId role content toolCallId toolCalls toolName now =>
    rcases after_appendMessage isUser isUserOf owner sessionId role content toolCallId toolCalls
        toolName now with
      ⟨_, same⟩ | ⟨admits, inserted, added, sameSessions, messages, _, ofUser, isNext⟩
    · rw [same]
      exact sound.owners
    · rw [isNext]
      exact ownersAgree_updateCount (ownersAgree_insert sound.owners isUserOf (met admits.1)
        sameSessions messages ofUser)
  | popLastMessage sessionId =>
    rcases after_popLastMessage isUser isUserOf owner sessionId with
      ⟨_, same⟩ | ⟨_, gone, _, _, isNext⟩
    · rw [same]
      exact sound.owners
    · rw [isNext]
      exact ownersAgree_updateCount (ownersAgree_delete sound.owners _)
  | clearSession sessionId =>
    rw [after_clearSession isUser isUserOf]
    exact ownersAgree_updateCount (ownersAgree_delete sound.owners _)
  | copyMessages srcSessionId dstSessionId =>
    rcases after_copyMessages isUser isUserOf owner srcSessionId dstSessionId with
      ⟨_, same⟩ | ⟨some, admits, inserted, added, sameSessions, messages, _, ofUser, isNext⟩
    · rw [same]
      exact sound.owners
    · rw [isNext]
      exact ownersAgree_updateCount (ownersAgree_insert sound.owners isUserOf
        (met admits.1 some).1 sameSessions messages ofUser)

end Sound

section Runs

variable {store : Store} (isUser : UUID → Bool)

theorem counts_step_iff (sound : store.Sound) (event : Call) :
    (store.after isUser event).CountsMessages ↔ store.CountsAfter isUser event := by
  cases isUserOf : event.transaction.userId with
  | none =>
    rw [after_of_no_user isUser isUserOf]
    refine iff_of_true sound.counts fun userId isSome => ?_
    rw [isUserOf] at isSome
    cases isSome
  | some userId =>
    refine (counts_after_iff sound isUserOf event.owner event.call).trans ?_
    unfold CountsAfter
    rw [isUserOf]
    exact ⟨fun met _ same => Option.some.inj same ▸ met, fun met => met userId rfl⟩

theorem sound_after (sound : store.Sound) (event : Call)
    (met : store.CountsAfter isUser event) : (store.after isUser event).Sound := by
  refine ⟨(counts_step_iff isUser sound event).mpr met, ?_⟩
  cases isUserOf : event.transaction.userId with
  | none =>
    rw [after_of_no_user isUser isUserOf]
    exact sound.owners
  | some userId =>
    exact ownersAgree_after sound isUserOf event.owner event.call (met userId isUserOf)

/-- The runs of a store whose columns are right all the way. -/
theorem always_countsMessages_iff (sound : store.Sound) (events : List Call) :
    Runs.Always (step isUser) CountsMessages store events ↔
      Runs.StepsMeet (step isUser) (CountsAfter isUser) store events := by
  refine Runs.always_iff_of_invariant (step isUser) ?_ (fun _ held => held.counts) ?_ sound
  · intro reached event next held met taken
    rw [← Option.some.inj taken]
    exact sound_after isUser held event met
  · intro reached event held unmet
    exact ⟨_, rfl, fun counts => unmet ((counts_step_iff isUser held event).mp counts)⟩

theorem sound_empty : empty.Sound where
  counts := fun _ member => absurd member List.not_mem_nil
  owners := fun _ member => absurd member List.not_mem_nil

end Runs

end Store

/-! ### Both stores -/

/-- The columns are right in every state of a run from an empty store exactly if every step meets
the condition, in the SQLite store and in the Postgres one. -/
theorem message_counts_right_iff (isUser : UUID → Bool) (calls : List MessageCall)
    (events : List Store.Call) :
    (Runs.Always LocalSessionRepo.step LocalSessionRepo.CountsMessages LocalSessionRepo.empty
          calls ↔
        Runs.StepsMeet LocalSessionRepo.step LocalSessionRepo.CountsAfter LocalSessionRepo.empty
          calls) ∧
    (Runs.Always (Store.step isUser) Store.CountsMessages Store.empty events ↔
      Runs.StepsMeet (Store.step isUser) (Store.CountsAfter isUser) Store.empty events) :=
  ⟨LocalSessionRepo.always_countsMessages_iff calls,
    Store.always_countsMessages_iff isUser Store.sound_empty events⟩

/-- A session with one message, copied into itself. -/
def copyIntoItself : List MessageCall :=
  [.createSession "tea" "cli" none none 0,
    .appendMessage "tea" "user" (some "hello") none none none 1,
    .copyMessages "tea" "tea"]

/-- The session has two messages then, and its column says one. -/
theorem copy_into_itself_miscounts :
    ¬ Runs.Always LocalSessionRepo.step LocalSessionRepo.CountsMessages LocalSessionRepo.empty
        copyIntoItself := by
  intro always
  have counts := always.last LocalSessionRepo.step rfl
  have miscounted := counts
    { id := "tea", source := "cli", userId := none, model := none, startedAt := 0, endedAt := none,
      endReason := none, messageCount := 1 } List.mem_cons_self
  revert miscounted
  decide +kernel

end LiteHorse.Repositories.SessionMessages
