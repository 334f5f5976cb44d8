/-
This file is about the references of the SQLite store: messages and summaries refer to sessions.
SQLite keeps them only on a connection with the pragma `foreign_keys`, which the store does not
set. So a session is deleted with its messages, since `delete_sessions_ended_before` deletes them
itself, but not with its summary, whose `ON DELETE CASCADE` is never carried out
(`noOrphans_delete_iff`).
-/

import LiteHorse.Sessions.LocalCounts

namespace LiteHorse.Sessions

open Sorting

/-- Messages are written for sessions that are there. -/
def LocalSessionRepo.WritesForSessions (repo : LocalSessionRepo) : MessageCall → Prop
  | .appendMessage sessionId .. => repo.HasSession sessionId
  | .copyMessages srcSessionId dstSessionId =>
    repo.rowsOf srcSessionId ≠ [] → repo.HasSession dstSessionId
  | _ => True

/-! ### The database -/

/-- A row of `session_summaries`. -/
structure SummaryRow where
  sessionId : String
  topic : Option String
  summary : String
  generator : String
  generatedAt : Timestamp

/-- The sessions, their messages and their summaries. -/
structure LocalDatabase where
  repo : LocalSessionRepo
  summaries : List SummaryRow
  summaryIds : (summaries.map SummaryRow.sessionId).Nodup

namespace LocalDatabase

def empty : LocalDatabase where
  repo := LocalSessionRepo.empty
  summaries := []
  summaryIds := List.nodup_nil

/-- `UPDATE sessions SET ended_at=?, end_reason=? WHERE id=?` -/
def endSession (database : LocalDatabase) (sessionId endReason : String) (now : Timestamp) :
    LocalDatabase :=
  { database with
    repo := { database.repo with
      sessions := database.repo.sessions.map fun session =>
        if session.id = sessionId then
          { session with endedAt := some now, endReason := some endReason }
        else session } }

/-- `SELECT id FROM sessions WHERE ended_at IS NOT NULL AND ended_at < ?` -/
def endedBefore (database : LocalDatabase) (cutoff : Timestamp) : List String :=
  (database.repo.sessions.filter fun session =>
    session.endedAt.any fun endedAt => endedAt < cutoff).map SessionRow.id

/-- `delete_sessions_ended_before`: the messages of the sessions go, then the sessions. -/
def deleteSessionsEndedBefore (database : LocalDatabase) (cutoff : Timestamp) :
    LocalDatabase × Nat :=
  let ids := database.endedBefore cutoff
  if ids.isEmpty then (database, 0)
  else
    let deleted := database.repo.deleteMessages fun row => !ids.contains row.sessionId
    ({ database with
        repo := { deleted with
          sessions := deleted.sessions.filter fun session => !ids.contains session.id } },
      ids.length)

/-- `INSERT INTO session_summaries .. ON CONFLICT(session_id) DO UPDATE` -/
def upsertSummary (database : LocalDatabase) (row : SummaryRow) : LocalDatabase :=
  if known : row.sessionId ∈ database.summaries.map SummaryRow.sessionId then
    { database with
      summaries := database.summaries.map fun other =>
        if other.sessionId = row.sessionId then row else other
      summaryIds := by
        rw [List.map_map, List.map_congr_left (g := SummaryRow.sessionId)]
        · exact database.summaryIds
        · intro other _
          show SummaryRow.sessionId (if _ then _ else _) = _
          split
          next same => exact same.symm
          next => rfl }
  else
    { database with
      summaries := database.summaries ++ [row]
      summaryIds := by
        rw [List.map_append]
        refine List.nodup_append.mpr ⟨database.summaryIds, List.nodup_singleton _, ?_⟩
        intro other member added isAdded same
        rw [same, List.mem_singleton.mp isAdded] at member
        exact known member }

/-- `get_summary` -/
def getSummary (database : LocalDatabase) (sessionId : String) : Option SummaryRow :=
  database.summaries.find? fun row => row.sessionId = sessionId

/-- `list_recent_summaries`; SQLite reads a negative `LIMIT` as no limit. -/
def listRecentSummaries (database : LocalDatabase) (excludeSessionId : Option String)
    (limit : Int) : List SummaryRow :=
  let rows := sortedBy (fun row => OrderDual.toDual row.generatedAt)
    (database.summaries.filter fun row => excludeSessionId ≠ some row.sessionId)
  if limit < 0 then rows else rows.take limit.toNat

/-! ### The calls -/

/-- The calls that write. -/
inductive Call where
  | messages (call : MessageCall)
  | endSession (sessionId endReason : String) (now : Timestamp)
  | deleteSessionsEndedBefore (cutoff : Timestamp)
  | upsertSummary (row : SummaryRow)

def run (database : LocalDatabase) : Call → LocalDatabase
  | .messages call => { database with repo := database.repo.run call }
  | .endSession sessionId endReason now => database.endSession sessionId endReason now
  | .deleteSessionsEndedBefore cutoff => (database.deleteSessionsEndedBefore cutoff).1
  | .upsertSummary row => database.upsertSummary row

def step (database : LocalDatabase) (call : Call) : Option LocalDatabase :=
  some (database.run call)

/-- Messages and summaries are written for sessions that are there. -/
def WritesForSessions (database : LocalDatabase) : Call → Prop
  | .messages call => database.repo.WritesForSessions call
  | .upsertSummary row => database.repo.HasSession row.sessionId
  | _ => True

/-- Every message and every summary refers to a session. -/
structure NoOrphans (database : LocalDatabase) : Prop where
  messages : ∀ row ∈ database.repo.messages, database.repo.HasSession row.sessionId
  summaries : ∀ row ∈ database.summaries, database.repo.HasSession row.sessionId

/-- The reads return nothing of the session. -/
structure Forgotten (database : LocalDatabase) (sessionId : String) : Prop where
  messages : ∀ limit, database.repo.getMessages sessionId limit = []
  summary : database.getSummary sessionId = none
  recent : ∀ excluded limit, ∀ row ∈ database.listRecentSummaries excluded limit,
    row.sessionId ≠ sessionId

/-- The sessions that a call deletes are forgotten after it. -/
def ForgetsDeleted (database : LocalDatabase) : Call → Prop
  | .deleteSessionsEndedBefore cutoff =>
    ∀ sessionId ∈ database.endedBefore cutoff,
      (database.deleteSessionsEndedBefore cutoff).1.Forgotten sessionId
  | _ => True

/-- A session that is deleted has no summary. -/
def DeletesUnsummarized (database : LocalDatabase) : Call → Prop
  | .deleteSessionsEndedBefore cutoff =>
    ∀ sessionId ∈ database.endedBefore cutoff, database.getSummary sessionId = none
  | _ => True

end LocalDatabase

/-! ### The calls on messages -/

namespace LocalSessionRepo

variable {repo : LocalSessionRepo}

theorem hasSession_iff {sessionId : String} :
    repo.HasSession sessionId ↔ sessionId ∈ repo.sessions.map SessionRow.id :=
  List.mem_map.symm

theorem hasSession_congr {other : LocalSessionRepo} {sessionId : String}
    (same : other.sessions.map SessionRow.id = repo.sessions.map SessionRow.id) :
    other.HasSession sessionId ↔ repo.HasSession sessionId := by
  rw [hasSession_iff, hasSession_iff, same]

theorem ids_updateCount (sessionId : String) (change : Int → Int) :
    (repo.updateCount sessionId change).sessions.map SessionRow.id =
      repo.sessions.map SessionRow.id := by
  show (sessionCounter.update (fun session => session.id = sessionId) change
    repo.sessions).map sessionCounter.key = _
  exact sessionCounter.map_key_update

/-- Rows that are inserted one after another are of the one session. -/
theorem mem_messages_insertAll (sessionId : String) (rows : List MessageRow) :
    ∀ row ∈ (rows.foldl (fun repo row => repo.insertMessage sessionId row.toMessageBody)
        repo).messages, row ∈ repo.messages ∨ row.sessionId = sessionId := by
  induction rows generalizing repo with
  | nil => exact fun row member => Or.inl member
  | cons first rest inductionHypothesis =>
    intro row member
    rcases inductionHypothesis row member with earlier | ofSession
    · rcases List.mem_append.mp earlier with old | added
      · exact Or.inl old
      · rw [List.mem_singleton.mp added]
        exact Or.inr rfl
    · exact Or.inr ofSession

/-- The messages after a call are messages from before, or of a session that is there. -/
theorem mem_messages_run {call : MessageCall} (writes : repo.WritesForSessions call) :
    ∀ row ∈ (repo.run call).messages, row ∈ repo.messages ∨ repo.HasSession row.sessionId := by
  intro row member
  cases call with
  | createSession sessionId source model userId now =>
    unfold run at member
    rw [messages_createSession] at member
    exact Or.inl member
  | appendMessage sessionId role content toolCallId toolCalls toolName now =>
    rcases List.mem_append.mp member with old | added
    · exact Or.inl old
    · rw [List.mem_singleton.mp added]
      exact Or.inr writes
  | popLastMessage sessionId =>
    unfold run popLastMessage at member
    dsimp only at member
    split at member
    · exact Or.inl member
    · exact Or.inl (List.mem_filter.mp member).1
  | clearSession sessionId => exact Or.inl (List.mem_filter.mp member).1
  | copyMessages srcSessionId dstSessionId =>
    unfold run copyMessages at member
    dsimp only at member
    split at member
    next isEmpty =>
      rw [List.isEmpty_iff.mp isEmpty] at member
      exact Or.inl member
    next notEmpty =>
      refine (mem_messages_insertAll dstSessionId _ row member).imp_right fun ofSession => ?_
      rw [ofSession]
      refine writes fun nothing => notEmpty (List.isEmpty_iff.mpr ?_)
      rw [← List.length_eq_zero_iff, length_orderedRows, rowCount_eq_zero_iff]
      exact nothing

/-- No call on messages takes a session away. -/
theorem hasSession_run {call : MessageCall} {sessionId : String}
    (has : repo.HasSession sessionId) : (repo.run call).HasSession sessionId := by
  cases call with
  | createSession created source model userId now =>
    unfold run createSession
    dsimp only
    split
    · exact has
    · obtain ⟨session, member, isSession⟩ := has
      exact ⟨session, List.mem_append_left _ member, isSession⟩
  | appendMessage target role content toolCallId toolCalls toolName now =>
    exact (hasSession_congr (ids_updateCount target _)).mpr has
  | popLastMessage target =>
    unfold run popLastMessage
    dsimp only
    split
    · exact has
    · exact (hasSession_congr (ids_updateCount target _)).mpr has
  | clearSession target => exact (hasSession_congr (ids_updateCount target _)).mpr has
  | copyMessages srcSessionId dstSessionId =>
    have sameSessions := (insertAll repo dstSessionId (repo.orderedRows srcSessionId)).1
    unfold run copyMessages
    dsimp only
    split
    · exact (hasSession_congr (congrArg _ sameSessions)).mpr has
    · refine (hasSession_congr ?_).mpr has
      exact (ids_updateCount dstSessionId _).trans (congrArg _ sameSessions)

end LocalSessionRepo

/-! ### One call -/

namespace LocalDatabase

variable {database : LocalDatabase}

theorem noOrphans_messages (whole : database.NoOrphans) {call : MessageCall}
    (writes : database.repo.WritesForSessions call) :
    (database.run (.messages call)).NoOrphans where
  messages row member :=
    LocalSessionRepo.hasSession_run ((LocalSessionRepo.mem_messages_run writes row member).elim
      (whole.messages row) id)
  summaries row member := LocalSessionRepo.hasSession_run (whole.summaries row member)

theorem noOrphans_endSession (whole : database.NoOrphans) (sessionId endReason : String)
    (now : Timestamp) : (database.endSession sessionId endReason now).NoOrphans := by
  have sameIds : (database.endSession sessionId endReason now).repo.sessions.map SessionRow.id =
      database.repo.sessions.map SessionRow.id := by
    unfold endSession
    dsimp only
    rw [List.map_map]
    refine List.map_congr_left fun session _ => ?_
    show SessionRow.id (if _ then _ else _) = _
    split <;> rfl
  exact ⟨fun row member => (LocalSessionRepo.hasSession_congr sameIds).mpr
      (whole.messages row member),
    fun row member => (LocalSessionRepo.hasSession_congr sameIds).mpr
      (whole.summaries row member)⟩

theorem noOrphans_upsertSummary (whole : database.NoOrphans) {row : SummaryRow}
    (has : database.repo.HasSession row.sessionId) : (database.upsertSummary row).NoOrphans := by
  unfold upsertSummary
  split
  · refine ⟨whole.messages, fun other member => ?_⟩
    obtain ⟨old, oldMember, isOld⟩ := List.mem_map.mp member
    rw [← isOld]
    split
    · exact has
    · exact whole.summaries old oldMember
  · refine ⟨whole.messages, fun other member => ?_⟩
    rcases List.mem_append.mp member with old | added
    · exact whole.summaries other old
    · rw [List.mem_singleton.mp added]
      exact has

/-- A delete keeps the sessions that are not selected. -/
theorem hasSession_delete_iff {cutoff : Timestamp} {sessionId : String} :
    (database.deleteSessionsEndedBefore cutoff).1.repo.HasSession sessionId ↔
      database.repo.HasSession sessionId ∧ sessionId ∉ database.endedBefore cutoff := by
  unfold deleteSessionsEndedBefore
  dsimp only
  split
  next isEmpty =>
    rw [List.isEmpty_iff.mp isEmpty]
    exact (and_iff_left List.not_mem_nil).symm
  next notEmpty =>
    constructor
    · rintro ⟨session, member, rfl⟩
      obtain ⟨inSessions, isKept⟩ := List.mem_filter.mp member
      refine ⟨⟨session, inSessions, rfl⟩, fun isEnded => ?_⟩
      rw [List.contains_iff_mem.mpr isEnded] at isKept
      cases isKept
    · rintro ⟨⟨session, member, rfl⟩, notEnded⟩
      refine ⟨session, List.mem_filter.mpr ⟨member, ?_⟩, rfl⟩
      rw [Bool.eq_false_iff.mpr fun isEnded => notEnded (List.contains_iff_mem.mp isEnded)]
      rfl

/-- A delete takes the messages of the sessions that are selected. -/
theorem mem_messages_delete_iff {cutoff : Timestamp} {row : MessageRow} :
    row ∈ (database.deleteSessionsEndedBefore cutoff).1.repo.messages ↔
      row ∈ database.repo.messages ∧ row.sessionId ∉ database.endedBefore cutoff := by
  unfold deleteSessionsEndedBefore
  dsimp only
  split
  next isEmpty =>
    rw [List.isEmpty_iff.mp isEmpty]
    exact (and_iff_left List.not_mem_nil).symm
  next notEmpty =>
    refine List.mem_filter.trans (and_congr_right fun _ => ?_)
    rw [Bool.not_eq_true', Bool.eq_false_iff, ne_eq, List.contains_iff_mem]

theorem summaries_delete {cutoff : Timestamp} :
    (database.deleteSessionsEndedBefore cutoff).1.summaries = database.summaries := by
  unfold deleteSessionsEndedBefore
  dsimp only
  split <;> rfl

theorem getSummary_eq_none_iff {sessionId : String} :
    database.getSummary sessionId = none ↔
      ∀ row ∈ database.summaries, row.sessionId ≠ sessionId := by
  unfold getSummary
  rw [List.find?_eq_none]
  exact forall₂_congr fun row _ => not_congr (by rw [decide_eq_true_eq])

/-- A delete leaves no orphans exactly if it deletes no session with a summary. -/
theorem noOrphans_delete_iff (whole : database.NoOrphans) (cutoff : Timestamp) :
    (database.deleteSessionsEndedBefore cutoff).1.NoOrphans ↔
      database.DeletesUnsummarized (.deleteSessionsEndedBefore cutoff) := by
  constructor
  · intro held sessionId isEnded
    refine getSummary_eq_none_iff.mpr fun row member same => ?_
    have kept := held.summaries row (by rwa [summaries_delete])
    exact (hasSession_delete_iff.mp kept).2 (same ▸ isEnded)
  · intro unsummarized
    refine ⟨fun row member => ?_, fun row member => ?_⟩
    · obtain ⟨inMessages, notEnded⟩ := mem_messages_delete_iff.mp member
      exact hasSession_delete_iff.mpr ⟨whole.messages row inMessages, notEnded⟩
    · rw [summaries_delete] at member
      refine hasSession_delete_iff.mpr ⟨whole.summaries row member, fun isEnded => ?_⟩
      exact getSummary_eq_none_iff.mp (unsummarized row.sessionId isEnded) row member rfl

theorem mem_of_mem_listRecentSummaries {excludeSessionId : Option String} {limit : Int}
    {row : SummaryRow} (member : row ∈ database.listRecentSummaries excludeSessionId limit) :
    row ∈ database.summaries := by
  have sorted : row ∈ sortedBy (fun row => OrderDual.toDual row.generatedAt)
      (database.summaries.filter fun row => excludeSessionId ≠ some row.sessionId) := by
    unfold listRecentSummaries at member
    dsimp only at member
    split at member
    · exact member
    · exact List.mem_of_mem_take member
  exact (List.mem_filter.mp ((mem_sortedBy _ _ _).mp sorted)).1

/-- Where nothing is left of a session, no read returns anything of it. -/
theorem forgotten_of_noOrphans (whole : database.NoOrphans) {sessionId : String}
    (gone : ¬ database.repo.HasSession sessionId) : database.Forgotten sessionId where
  messages limit := by
    have noRows : database.repo.rowsOf sessionId = [] :=
      List.filter_eq_nil_iff.mpr fun row member isRow =>
        gone (of_decide_eq_true isRow ▸ whole.messages row member)
    have noLog : database.repo.log sessionId = [] := by
      rw [← List.length_eq_zero_iff, LocalSessionRepo.length_log,
        LocalSessionRepo.rowCount_eq_zero_iff]
      exact noRows
    rw [LocalSessionRepo.getMessages_eq, noLog]
    unfold LocalSessionRepo.newest
    cases limit with
    | none => rfl
    | some limit =>
      dsimp only
      rw [List.drop_nil, ite_self]
      rfl
  summary := getSummary_eq_none_iff.mpr fun row member same =>
    gone (same ▸ whole.summaries row member)
  recent excluded limit row member same :=
    gone (same ▸ whole.summaries row (mem_of_mem_listRecentSummaries member))

/-- A call that writes for sessions leaves no orphans, and nothing of the sessions it deletes,
exactly if it deletes no session with a summary. -/
theorem noOrphans_run_iff (whole : database.NoOrphans) {call : Call}
    (writes : database.WritesForSessions call) :
    (database.ForgetsDeleted call ∧ (database.run call).NoOrphans) ↔
      database.DeletesUnsummarized call := by
  cases call with
  | messages call =>
    exact iff_of_true ⟨trivial, noOrphans_messages whole writes⟩ trivial
  | endSession sessionId endReason now =>
    exact iff_of_true ⟨trivial, noOrphans_endSession whole sessionId endReason now⟩ trivial
  | upsertSummary row =>
    exact iff_of_true ⟨trivial, noOrphans_upsertSummary whole writes⟩ trivial
  | deleteSessionsEndedBefore cutoff =>
    refine Iff.trans (and_iff_right_of_imp fun held => ?_) (noOrphans_delete_iff whole cutoff)
    exact fun sessionId isEnded => forgotten_of_noOrphans held fun has =>
      (hasSession_delete_iff.mp has).2 isEnded

theorem noOrphans_empty : empty.NoOrphans :=
  ⟨fun _ member => absurd member List.not_mem_nil, fun _ member => absurd member List.not_mem_nil⟩

/-- In a run that writes for sessions no state has orphans and no delete leaves anything to read
exactly if no session is deleted that has a summary. -/
theorem references_kept_iff (calls : List Call)
    (writes : Runs.StepsMeet step WritesForSessions empty calls) :
    (Runs.Always step NoOrphans empty calls ∧ Runs.StepsMeet step ForgetsDeleted empty calls) ↔
      Runs.StepsMeet step DeletesUnsummarized empty calls := by
  have exactly : (Runs.Always step NoOrphans empty calls ∧ Runs.StepsMeet step (fun database call =>
      database.WritesForSessions call ∧ database.ForgetsDeleted call) empty calls) ↔
      Runs.StepsMeet step (fun database call =>
        database.WritesForSessions call ∧ database.DeletesUnsummarized call) empty calls := by
    refine Runs.always_and_stepsMeet_iff step (fun database call whole => ?_) noOrphans_empty
    rw [and_assoc]
    refine and_congr_right fun written => ?_
    rw [← noOrphans_run_iff whole written]
    exact and_congr_right fun _ =>
      ⟨fun keeps => keeps _ rfl, fun held _ taken => Option.some.inj taken ▸ held⟩
  constructor
  · rintro ⟨always, forgets⟩
    exact (exactly.mp ⟨always, writes.and step forgets⟩).mono step fun _ _ => And.right
  · intro unsummarized
    obtain ⟨always, ensured⟩ := exactly.mpr (writes.and step unsummarized)
    exact ⟨always, ensured.mono step fun _ _ => And.right⟩

/-- A session with a summary that is ended and then deleted. -/
def deletedWithSummary : List Call :=
  [.messages (.createSession "tea" "cli" none none 0),
    .upsertSummary { sessionId := "tea", topic := none, summary := "About tea.",
                     generator := "model", generatedAt := 1 },
    .endSession "tea" "user_exit" 2,
    .deleteSessionsEndedBefore 3]

theorem deletedWithSummary_writes :
    Runs.StepsMeet step WritesForSessions empty deletedWithSummary := by
  refine Runs.StepsMeet.cons step trivial rfl ?_
  refine Runs.StepsMeet.cons step ⟨_, List.mem_cons_self, rfl⟩ rfl ?_
  refine Runs.StepsMeet.cons step trivial rfl ?_
  exact Runs.StepsMeet.cons step trivial rfl trivial

theorem deletedWithSummary_references :
    (Runs.Always step NoOrphans empty deletedWithSummary ∧
        Runs.StepsMeet step ForgetsDeleted empty deletedWithSummary) ↔
      Runs.StepsMeet step DeletesUnsummarized empty deletedWithSummary :=
  references_kept_iff deletedWithSummary deletedWithSummary_writes

/-- The summary of the deleted session is still there. -/
theorem summary_outlives_session :
    Runs.StepsMeet step WritesForSessions empty deletedWithSummary ∧
      ¬ Runs.Always step NoOrphans empty deletedWithSummary := by
  refine ⟨deletedWithSummary_writes, fun always => ?_⟩
  have whole := always.last step rfl
  obtain ⟨session, member, _⟩ := whole.summaries _ List.mem_cons_self
  exact absurd member List.not_mem_nil

end LocalDatabase

end LiteHorse.Sessions
