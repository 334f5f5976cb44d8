/-
This file is about the column `message_count` of the SQLite store. `append_message`,
`pop_last_message` and `clear_session` change it as they change the rows, whatever session they are
called for. The two other calls depend on what they find: `create_session` begins at zero, which
fails where messages of the session are already there, and `copy_messages` sets the number of the
copies, which fails where the target had messages before (`counts_run_iff`).
-/

import LiteHorse.Library.CountedRows
import LiteHorse.Library.Runs
import LiteHorse.Sessions.Local

namespace LiteHorse.Sessions

open CountedRows Python Sorting

/-! ### The calls -/

/-- The calls on sessions and messages that either store has. The clock shows `now`. -/
inductive MessageCall where
  | createSession (sessionId source : String) (model userId : Option String) (now : Timestamp)
  | appendMessage (sessionId role : String) (content toolCallId : Option String)
      (toolCalls : Option (List Json)) (toolName : Option String) (now : Timestamp)
  | popLastMessage (sessionId : String)
  | clearSession (sessionId : String)
  | copyMessages (srcSessionId dstSessionId : String)

namespace LocalSessionRepo

def run (repo : LocalSessionRepo) : MessageCall → LocalSessionRepo
  | .createSession sessionId source model userId now =>
    repo.createSession sessionId source model userId now
  | .appendMessage sessionId role content toolCallId toolCalls toolName now =>
    (repo.appendMessage sessionId role content toolCallId toolCalls toolName now).1
  | .popLastMessage sessionId => (repo.popLastMessage sessionId).1
  | .clearSession sessionId => repo.clearSession sessionId
  | .copyMessages srcSessionId dstSessionId => (repo.copyMessages srcSessionId dstSessionId).1

/-- One call after another; none of them fails. -/
def step (repo : LocalSessionRepo) (call : MessageCall) : Option LocalSessionRepo :=
  some (repo.run call)

/-- The number of the message rows of a session. -/
def rowCount (repo : LocalSessionRepo) (sessionId : String) : Nat :=
  (repo.rowsOf sessionId).length

/-- The column of every session says how many messages it has. -/
def CountsMessages (repo : LocalSessionRepo) : Prop :=
  ∀ session ∈ repo.sessions, session.messageCount = repo.rowCount session.id

/-- The sessions that are there. -/
def HasSession (repo : LocalSessionRepo) (sessionId : String) : Prop :=
  ∃ session ∈ repo.sessions, session.id = sessionId

/-- A session that is created has no messages yet, and neither has one that messages are copied
to. -/
def CountsAfter (repo : LocalSessionRepo) : MessageCall → Prop
  | .createSession sessionId _ _ _ _ =>
    ¬ repo.HasSession sessionId → repo.rowsOf sessionId = []
  | .copyMessages srcSessionId dstSessionId =>
    repo.rowsOf srcSessionId ≠ [] → repo.HasSession dstSessionId → repo.rowsOf dstSessionId = []
  | _ => True

/-! ### The number of the rows after a call -/

section Rows

variable (repo : LocalSessionRepo) (sessionId other : String)

theorem length_orderedRows : (repo.orderedRows sessionId).length = repo.rowCount sessionId :=
  (sortedBy_perm _ _).length_eq

theorem length_log : (repo.log sessionId).length = repo.rowCount sessionId := by
  unfold log
  rw [List.length_map, length_orderedRows]

theorem rowCount_eq_zero_iff : repo.rowCount sessionId = 0 ↔ repo.rowsOf sessionId = [] :=
  List.length_eq_zero_iff

theorem rowCount_popLastMessage :
    (repo.popLastMessage sessionId).1.rowCount sessionId = repo.rowCount sessionId - 1 := by
  rw [← length_log, ← length_log, log_popLastMessage_self, List.length_dropLast]

theorem rowCount_clearSession : (repo.clearSession sessionId).rowCount sessionId = 0 := by
  rw [← length_log, log_clearSession_self, List.length_nil]

theorem rowCount_insertMessage_self (body : MessageBody) :
    (repo.insertMessage sessionId body).rowCount sessionId = repo.rowCount sessionId + 1 := by
  unfold rowCount
  rw [rowsOf_insertMessage_self, List.length_append, List.length_singleton]

theorem rowCount_insertMessage_other (body : MessageBody) (different : other ≠ sessionId) :
    (repo.insertMessage sessionId body).rowCount other = repo.rowCount other :=
  congrArg List.length (repo.rowsOf_insertMessage_other sessionId body other different)

/-- The rows that are inserted one after another are the rows of their session. -/
theorem insertAll (rows : List MessageRow) :
    let inserted := rows.foldl
      (fun repo row => repo.insertMessage sessionId row.toMessageBody) repo
    inserted.sessions = repo.sessions ∧
      inserted.rowCount sessionId = repo.rowCount sessionId + rows.length ∧
      ∀ other, other ≠ sessionId → inserted.rowCount other = repo.rowCount other := by
  induction rows generalizing repo with
  | nil => exact ⟨rfl, rfl, fun _ _ => rfl⟩
  | cons row rest inductionHypothesis =>
    obtain ⟨sameSessions, more, same⟩ :=
      inductionHypothesis (repo.insertMessage sessionId row.toMessageBody)
    refine ⟨sameSessions, more.trans ?_, fun other different => (same other different).trans ?_⟩
    · rw [rowCount_insertMessage_self, List.length_cons]
      omega
    · exact rowCount_insertMessage_other _ _ _ _ different

end Rows

/-! ### One call -/

/-- The column as a counter. -/
def sessionCounter : Counter SessionRow String where
  key := SessionRow.id
  count := SessionRow.messageCount
  setCount session number := { session with messageCount := number }
  key_setCount _ _ := rfl
  count_setCount _ _ := rfl

variable {repo : LocalSessionRepo}

/-- The rows of one session change, and with them its column. -/
theorem counts_updateCount_iff (counts : repo.CountsMessages) (changed : LocalSessionRepo)
    (sessionId : String) (change : Int → Int) (sameSessions : changed.sessions = repo.sessions)
    (others : ∀ other, other ≠ sessionId → changed.rowCount other = repo.rowCount other) :
    (changed.updateCount sessionId change).CountsMessages ↔
      (repo.HasSession sessionId →
        change (repo.rowCount sessionId) = changed.rowCount sessionId) := by
  have exactly : sessionCounter.Counts (sessionCounter.update
      (fun session => session.id = sessionId) change repo.sessions) changed.rowCount ↔ _ :=
    sessionCounter.counts_update_iff counts others fun _ isReached => isReached
  rw [← sameSessions] at exactly
  refine Iff.trans exactly ?_
  rw [sameSessions]
  constructor
  · rintro holds ⟨session, member, isSession⟩
    have := holds session member isSession
    rwa [if_pos isSession] at this
  · intro holds session member isSession
    rw [if_pos (show session.id = sessionId from isSession)]
    exact holds ⟨session, member, isSession⟩

theorem counts_createSession_iff (counts : repo.CountsMessages) (sessionId source : String)
    (model userId : Option String) (now : Timestamp) :
    (repo.createSession sessionId source model userId now).CountsMessages ↔
      (¬ repo.HasSession sessionId → repo.rowsOf sessionId = []) := by
  unfold createSession
  split
  next found =>
    have has : repo.HasSession sessionId := by
      obtain ⟨session, member, same⟩ := List.any_eq_true.mp found
      exact ⟨session, member, of_decide_eq_true same⟩
    exact iff_of_true counts fun absent => absurd has absent
  next notFound =>
    have absent : ¬ repo.HasSession sessionId := by
      rintro ⟨session, member, same⟩
      exact notFound (List.any_eq_true.mpr ⟨session, member, decide_eq_true same⟩)
    refine (sessionCounter.counts_append_iff counts _).trans ?_
    rw [← rowCount_eq_zero_iff]
    show (0 : Int) = (repo.rowCount sessionId : Int) ↔ _
    constructor
    · exact fun same _ => by exact_mod_cast same.symm
    · exact fun zero => by exact_mod_cast (zero absent).symm

theorem counts_copyMessages_iff (counts : repo.CountsMessages)
    (srcSessionId dstSessionId : String) :
    (repo.copyMessages srcSessionId dstSessionId).1.CountsMessages ↔
      repo.CountsAfter (.copyMessages srcSessionId dstSessionId) := by
  have isEmptyIff : (repo.orderedRows srcSessionId).isEmpty = true ↔
      repo.rowsOf srcSessionId = [] := by
    rw [List.isEmpty_iff, ← List.length_eq_zero_iff, length_orderedRows, rowCount_eq_zero_iff]
  obtain ⟨sameSessions, more, same⟩ :=
    insertAll repo dstSessionId (repo.orderedRows srcSessionId)
  unfold copyMessages CountsAfter
  dsimp only
  split
  next isEmpty =>
    have nothing := isEmptyIff.mp isEmpty
    rw [List.isEmpty_iff.mp isEmpty]
    exact iff_of_true counts fun some => absurd nothing some
  next notEmpty =>
    have some : repo.rowsOf srcSessionId ≠ [] := fun nothing => notEmpty (isEmptyIff.mpr nothing)
    rw [counts_updateCount_iff counts _ _ _ sameSessions same, more, ← rowCount_eq_zero_iff]
    constructor
    · intro agrees _ has
      have := agrees has
      omega
    · intro zero has
      have := zero some has
      omega

theorem counts_appendMessage (counts : repo.CountsMessages) (sessionId role : String)
    (content toolCallId : Option String) (toolCalls : Option (List Json))
    (toolName : Option String) (now : Timestamp) :
    CountsMessages
      (repo.appendMessage sessionId role content toolCallId toolCalls toolName now).1 := by
  unfold appendMessage
  refine (counts_updateCount_iff counts (repo.insertMessage _ _) _ _ rfl ?_).mpr fun _ => ?_
  · exact fun other different => rowCount_insertMessage_other _ _ _ _ different
  · rw [rowCount_insertMessage_self]
    rfl

theorem counts_popLastMessage (counts : repo.CountsMessages) (sessionId : String) :
    (repo.popLastMessage sessionId).1.CountsMessages := by
  have fewer := repo.rowCount_popLastMessage sessionId
  have same := repo.rowsOf_popLastMessage_other sessionId
  unfold popLastMessage at fewer same ⊢
  cases isLast : (repo.orderedRows sessionId).getLast? with
  | none => exact counts
  | some last =>
    rw [isLast] at fewer same
    have notEmpty : repo.rowCount sessionId ≠ 0 := by
      rw [← length_orderedRows]
      intro empty
      rw [List.length_eq_zero_iff.mp empty] at isLast
      cases isLast
    refine (counts_updateCount_iff counts (repo.deleteMessages _) _ _ rfl ?_).mpr fun _ => ?_
    · exact fun other different => congrArg List.length (same other different)
    · change (repo.deleteMessages _).rowCount sessionId = _ at fewer
      rw [fewer]
      omega

theorem counts_clearSession (counts : repo.CountsMessages) (sessionId : String) :
    (repo.clearSession sessionId).CountsMessages := by
  have nothing := repo.rowCount_clearSession sessionId
  have same := repo.rowsOf_clearSession_other sessionId
  unfold clearSession at nothing same ⊢
  refine (counts_updateCount_iff counts (repo.deleteMessages _) _ _ rfl ?_).mpr fun _ => ?_
  · exact fun other different => congrArg List.length (same other different)
  · exact congrArg Nat.cast nothing.symm

/-- A call keeps the counts exactly if it creates no session that has messages, and copies none to
a session that has some. -/
theorem counts_run_iff (counts : repo.CountsMessages) (call : MessageCall) :
    (repo.run call).CountsMessages ↔ repo.CountsAfter call := by
  cases call with
  | createSession sessionId source model userId now =>
    exact counts_createSession_iff counts sessionId source model userId now
  | appendMessage sessionId role content toolCallId toolCalls toolName now =>
    exact iff_of_true
      (counts_appendMessage counts sessionId role content toolCallId toolCalls toolName now) trivial
  | popLastMessage sessionId =>
    exact iff_of_true (counts_popLastMessage counts sessionId) trivial
  | clearSession sessionId =>
    exact iff_of_true (counts_clearSession counts sessionId) trivial
  | copyMessages srcSessionId dstSessionId =>
    exact counts_copyMessages_iff counts srcSessionId dstSessionId

/-- The runs of a new store whose columns are right all the way. -/
theorem always_countsMessages_iff (calls : List MessageCall) :
    Runs.Always step CountsMessages empty calls ↔ Runs.StepsMeet step CountsAfter empty calls :=
  Runs.always_iff_stepsMeet step
    (fun _ call counts => ⟨_, rfl, counts_run_iff counts call⟩)
    (fun _ member => absurd member List.not_mem_nil)

end LocalSessionRepo

end LiteHorse.Sessions
