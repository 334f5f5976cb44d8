/-
This file models the two scans of the scheduler over all tenants: `find_idle_sessions`, over the
sessions, their messages and their summaries, and `find_compaction_candidates`, over the documents.
A scan runs under the settings of a transaction or with row security off.

The scheduler opens its transaction without a user, and then every policy hides every row. A scan
therefore agrees with the scan without row security only where that one finds nothing
(`scansEverything_iff`).
-/

import LiteHorse.Library.Sorting
import LiteHorse.Storage.RowSecurity

namespace LiteHorse.Scheduler.TenantScans

open Python Sorting SqlTables Storage.RowSecurity

/-! ### The tables

Times are in microseconds.
-/

structure SessionRow where
  id : String
  userId : UUID
  agentId : UUID
  startedAt : Int

structure MessageRow where
  sessionId : String
  userId : UUID
  ts : Int

structure SummaryRow where
  sessionId : String
  userId : UUID
  agentId : UUID

structure DocumentRow where
  userId : UUID
  kind : String
  agentId : UUID
  content : String
  updatedAt : Int

structure Tables where
  sessions : List SessionRow
  messages : List MessageRow
  summaries : List SummaryRow
  documents : List DocumentRow

/-- The rows that a statement sees: those its policies admit, or all with row security off. -/
def visible {Row : Type} (policy : Settings → Row → Truth) (role : Option Settings)
    (rows : List Row) : List Row :=
  match role with
  | some settings => rows.filter fun row => admits (policy settings row)
  | none => rows

/-- The tables as a statement sees them. -/
def Tables.seenBy (tables : Tables) (role : Option Settings) : Tables where
  sessions := visible (fun settings row => agentIsolation settings row.userId row.agentId) role
    tables.sessions
  messages := visible (fun settings row => userIsolation settings row.userId) role tables.messages
  summaries := visible (fun settings row => agentIsolation settings row.userId row.agentId) role
    tables.summaries
  documents := visible (fun settings row => agentIsolation settings row.userId row.agentId) role
    tables.documents

/-! ### The scans -/

inductive ScanError where
  /-- `LIMIT must not be negative` -/
  | invalidRowCountInLimit
  deriving DecidableEq

/-- `LIMIT limit` -/
def limited {Row : Type} (limit : Int) (rows : List Row) : Except ScanError (List Row) :=
  if limit < 0 then .error .invalidRowCountInLimit else .ok (rows.take limit.toNat)

structure IdleSession where
  sessionId : String
  userId : String
  agentId : Option String
  deriving DecidableEq

/-- `timedelta(hours=1)` -/
def hour : Int := 3600000000

/-- The join with `max(ts)` of the session's messages; NULL without messages. -/
def lastTs (tables : Tables) (sessionId : String) : Option Int :=
  ((tables.messages.filter fun message => message.sessionId = sessionId).map MessageRow.ts).max?

/-- The two conditions of the statement: no summary joins the session, and its last message, or its
start if it has none, is before the cutoff. -/
def isIdle (tables : Tables) (cutoff : Int) (session : SessionRow) : Bool :=
  (tables.summaries.all fun summary => summary.sessionId ≠ session.id) &&
    (lastTs tables session.id).getD session.startedAt < cutoff

def findIdleSessions (tables : Tables) (role : Option Settings) (moment idleHours limit : Int) :
    Except ScanError (List IdleSession) :=
  let seen := tables.seenBy role
  let cutoff := moment - idleHours * hour
  let rows := sortedBy SessionRow.startedAt (seen.sessions.filter (isIdle seen cutoff))
  (limited limit rows).map fun rows => rows.map fun row =>
    { sessionId := row.id
      userId := uuidText row.userId
      agentId := some (uuidText row.agentId) }

structure CompactionCandidate where
  userId : String
  agentId : Option String
  deriving DecidableEq

/-- A `memory.md` of more characters than the cutoff, which is the threshold times the limit. -/
def isOverThreshold (cutoffChars : Int) (document : DocumentRow) : Bool :=
  document.kind = "memory.md" && cutoffChars < document.content.length

def findCompactionCandidates (tables : Tables) (role : Option Settings) (cutoffChars limit : Int) :
    Except ScanError (List CompactionCandidate) :=
  let seen := tables.seenBy role
  let rows := sortedBy DocumentRow.updatedAt (seen.documents.filter (isOverThreshold cutoffChars))
  (limited limit rows).map fun rows => rows.map fun row =>
    { userId := uuidText row.userId
      agentId := some (uuidText row.agentId) }

/-! ### What the scheduler sees -/

/-- The transaction of the scheduler: no user and no agent. -/
def schedulerSettings (usedBefore : Bool) : Settings := dbSettings usedBefore none none

theorem visible_scheduler {Row : Type} {policy : Settings → Row → Truth} {usedBefore : Bool}
    (hides : ∀ row, admits (policy (schedulerSettings usedBefore) row) = false)
    (rows : List Row) : visible policy (some (schedulerSettings usedBefore)) rows = [] :=
  List.filter_eq_nil_iff.mpr fun row _ => by rw [hides row]; exact Bool.false_ne_true

/-- Every table is empty to the scheduler. -/
theorem seenBy_scheduler (tables : Tables) (usedBefore : Bool) :
    tables.seenBy (some (schedulerSettings usedBefore)) = ⟨[], [], [], []⟩ := by
  unfold Tables.seenBy
  rw [visible_scheduler fun row => (admits_scheduler usedBefore none row.userId row.agentId).2,
    visible_scheduler fun row => (admits_scheduler usedBefore none row.userId 0).1,
    visible_scheduler fun row => (admits_scheduler usedBefore none row.userId row.agentId).2,
    visible_scheduler fun row => (admits_scheduler usedBefore none row.userId row.agentId).2]

/-- A limited scan that finds nothing. -/
theorem limited_eq_nil_iff {Row Shown Key : Type} [LinearOrder Key] {key : Row → Key}
    {rows : List Row} {keep : Row → Bool} {limit : Int} {view : Row → Shown} :
    (limited limit []).map (List.map view) =
        (limited limit (sortedBy key (rows.filter keep))).map (List.map view) ↔
      limit ≤ 0 ∨ ∀ row ∈ rows, keep row = false := by
  unfold limited
  by_cases negative : limit < 0
  · rw [if_pos negative, if_pos negative]
    exact iff_of_true rfl (Or.inl negative.le)
  · rw [if_neg negative, if_neg negative]
    have empty : sortedBy key (rows.filter keep) = [] ↔ ∀ row ∈ rows, keep row = false := by
      rw [← List.length_eq_zero_iff, (sortedBy_perm key (rows.filter keep)).length_eq,
        List.length_eq_zero_iff, List.filter_eq_nil_iff]
      exact forall₂_congr fun row _ => iff_of_eq (Bool.not_eq_true (keep row))
    show Except.ok _ = Except.ok _ ↔ _
    rw [Except.ok.injEq, List.take_nil, List.map_nil, eq_comm, List.map_eq_nil_iff,
      List.take_eq_nil_iff, empty, Int.toNat_eq_zero]

theorem findIdleSessions_scheduler (tables : Tables) (usedBefore : Bool)
    (moment idleHours limit : Int) :
    findIdleSessions tables (some (schedulerSettings usedBefore)) moment idleHours limit =
        findIdleSessions tables none moment idleHours limit ↔
      limit ≤ 0 ∨ ∀ session ∈ tables.sessions,
        isIdle tables (moment - idleHours * hour) session = false := by
  unfold findIdleSessions
  rw [seenBy_scheduler]
  exact limited_eq_nil_iff

theorem findCompactionCandidates_scheduler (tables : Tables) (usedBefore : Bool)
    (cutoffChars limit : Int) :
    findCompactionCandidates tables (some (schedulerSettings usedBefore)) cutoffChars limit =
        findCompactionCandidates tables none cutoffChars limit ↔
      limit ≤ 0 ∨ ∀ document ∈ tables.documents,
        isOverThreshold cutoffChars document = false := by
  unfold findCompactionCandidates
  rw [seenBy_scheduler]
  exact limited_eq_nil_iff

/-- Both scans of the scheduler agree with the scans without row security exactly where each is
limited to no row or has nothing to find. -/
theorem scansEverything_iff (tables : Tables) (usedBefore : Bool)
    (moment idleHours idleLimit cutoffChars candidateLimit : Int) :
    (findIdleSessions tables (some (schedulerSettings usedBefore)) moment idleHours idleLimit =
          findIdleSessions tables none moment idleHours idleLimit ∧
        findCompactionCandidates tables (some (schedulerSettings usedBefore)) cutoffChars
            candidateLimit =
          findCompactionCandidates tables none cutoffChars candidateLimit) ↔
      (idleLimit ≤ 0 ∨ ∀ session ∈ tables.sessions,
          isIdle tables (moment - idleHours * hour) session = false) ∧
        (candidateLimit ≤ 0 ∨ ∀ document ∈ tables.documents,
          isOverThreshold cutoffChars document = false) :=
  and_congr (findIdleSessions_scheduler tables usedBefore moment idleHours idleLimit)
    (findCompactionCandidates_scheduler tables usedBefore cutoffChars candidateLimit)

/-- A session that ended two days ago. -/
def oneIdleSession : Tables where
  sessions := [⟨"s", 7, 9, 0⟩]
  messages := []
  summaries := []
  documents := []

/-- The scheduler does not find it. -/
theorem idle_session_is_missed :
    findIdleSessions oneIdleSession (some (schedulerSettings true)) (48 * hour) 24 100 = .ok [] ∧
      findIdleSessions oneIdleSession none (48 * hour) 24 100 =
        .ok [⟨"s", uuidText 7, some (uuidText 9)⟩] := by
  unfold findIdleSessions
  rw [seenBy_scheduler]
  exact ⟨rfl, rfl⟩

end LiteHorse.Scheduler.TenantScans
