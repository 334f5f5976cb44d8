/-
This file is about the purge of a user's rows. In one transaction the worker replaces the
user by a tombstone in the audit log, deletes the user's cron jobs and MCP servers, and
deletes the user's row, from which the foreign keys cascade.

No migration and no code inserts the tombstone user, and three kinds of references to a user
or to its agents have no referential action. `purgeCompletes_iff` says for which states the
purge goes through: those in which none of these references is left to block it.
-/

import LiteHorse.Models.Schema

namespace LiteHorse.Worker

open ForeignKeys Models

variable {Data : Type*}

def gdprTombstoneActorId : String := "00000000-0000-0000-0000-00000deadbee"

/-- The rows of a table whose column holds the user's id. -/
def carries (table : Table) (column : Column) (user : String)
    (row : Row Table Column String Data) : Bool :=
  row.table = table && row.refs column = some user

/-- The user's own row. -/
def isUser (user : String) (row : Row Table Column String Data) : Bool :=
  row.table = .users && row.key = user

/-- `_purge_tenant_rows`; `none` when a statement fails and the transaction is rolled back. -/
def purgeTenantRows (user : String) (database : Database foreignKeys String Data) :
    Option (Database foreignKeys String Data) := do
  let anonymised ← database.setRefWhere (carries .auditLog .actorId user) .actorId
    gdprTombstoneActorId
  let withoutCronJobs ← anonymised.deleteWhere (carries .cronJobs .userId user)
  let swept ← withoutCronJobs.deleteWhere (carries .mcpServers .userId user)
  swept.deleteWhere (isUser user)

/-- The purge succeeds and no row with this row's key is left. -/
def Removed (user : String) (database : Database foreignKeys String Data)
    (row : Row Table Column String Data) : Prop :=
  row ∈ database.rows ∧ ∃ purged, purgeTenantRows user database = some purged ∧
    ∀ left ∈ purged.rows, left.table = row.table → left.key ≠ row.key

/-- The tables that carry a user's id. -/
def tenantTables : List Table :=
  userIdTables ++ [.usageEvents]

/-- The purge succeeds, the user and everything that carries its id is gone, the audit log
does not name it, and every foreign key holds. -/
def PurgeCompletes (user : String) (database : Database foreignKeys String Data) : Prop :=
  ∃ purged, purgeTenantRows user database = some purged ∧
    (∀ row ∈ purged.rows, row.table = .users → row.key ≠ user) ∧
    (∀ row ∈ purged.rows, row.table ∈ tenantTables → row.refs .userId ≠ some user) ∧
    (∀ row ∈ purged.rows, row.table = .auditLog → row.refs .actorId ≠ some user) ∧
    RefsValid foreignKeys purged.rows

/-- The row carries the user's id or hangs on one of the user's agents. -/
def Owned (user : String) (database : Database foreignKeys String Data)
    (row : Row Table Column String Data) : Prop :=
  row.refs .userId = some user ∨
    ∃ agent ∈ database.rows, agent.table = .agents ∧ agent.refs .userId = some user ∧
      row.refs .agentId = some agent.key

/-- No reference without a referential action is left to block the purge: the audit log does
not name the user, or there is a tombstone user to take its place; no usage event is the
user's; what the user created is the user's; no other user's default agent is the user's. -/
structure Purgeable (user : String) (database : Database foreignKeys String Data) : Prop where
  auditLog : ∀ row ∈ database.rows, row.table = .auditLog → row.refs .actorId = some user →
    gdprTombstoneActorId ≠ user ∧
      ∃ tombstone ∈ database.rows, tombstone.table = .users ∧ tombstone.key = gdprTombstoneActorId
  usageEvents : ∀ row ∈ database.rows, row.table = .usageEvents → row.refs .userId ≠ some user
  createdBy : ∀ row ∈ database.rows, row.table ∈ createdByTables →
    row.refs .createdBy = some user → Owned user database row
  defaultAgent : ∀ row ∈ database.rows, row.table = .users → row.key ≠ user →
    ∀ agent ∈ database.rows, agent.table = .agents → agent.refs .userId = some user →
      row.refs .defaultAgentId ≠ some agent.key

/-! ### What goes with a user -/

section GoesWith

variable {user : String} {database : Database foreignKeys String Data}
  {row : Row Table Column String Data}

/-- The row goes when the user's row is deleted. -/
abbrev GoesWith (user : String) (database : Database foreignKeys String Data) :
    Row Table Column String Data → Prop :=
  Doomed foreignKeys (isUser user) database.rows

theorem isUser_iff : isUser user row = true ↔ row.table = .users ∧ row.key = user := by
  simp [isUser]

theorem carries_iff {table : Table} {column : Column} :
    carries table column user row = true ↔ row.table = table ∧ row.refs column = some user := by
  simp [carries]

theorem goesWith_isUser (member : row ∈ database.rows) (inUsers : row.table = .users)
    (sameKey : row.key = user) : GoesWith user database row :=
  .chosen member (isUser_iff.mpr ⟨inUsers, sameKey⟩)

/-- The users that go are the user. -/
theorem goesWith_users (inUsers : row.table = .users) :
    GoesWith user database row ↔ row ∈ database.rows ∧ row.key = user := by
  rw [GoesWith, doomed_iff, isUser_iff]
  simp [refersBy_cascade_iff, inUsers, userIdTables, agentIdTables, sessionIdTables]

/-- A reference to users has a target that goes when it holds the user's id. -/
theorem exists_user_goesWith (user : String) (foreignKey : ForeignKey Table Column)
    (inSchema : foreignKey ∈ foreignKeys) (toUsers : foreignKey.target = .users)
    (member : row ∈ database.rows) (sameTable : foreignKey.table = row.table) :
    (∃ target, GoesWith user database target ∧ target.table = .users ∧
        row.refs foreignKey.column = some target.key) ↔
      row.refs foreignKey.column = some user := by
  constructor
  · rintro ⟨target, goes, inUsers, refers⟩
    rw [refers, ((goesWith_users inUsers).mp goes).2]
  · intro refers
    obtain ⟨target, targetMember, inUsers, sameKey⟩ :=
      database.refsValid foreignKey inSchema row member sameTable user refers
    rw [toUsers] at inUsers
    exact ⟨target, goesWith_isUser targetMember inUsers sameKey, inUsers, sameKey ▸ refers⟩

/-- What goes is the user's row, what carries the user's id in a cascading column, and what
refers by cascade to an agent, a session or a skill that goes. -/
theorem goesWith_iff :
    GoesWith user database row ↔
      row ∈ database.rows ∧ ((row.table = .users ∧ row.key = user) ∨
        (row.table ∈ userIdTables ∧ row.refs .userId = some user) ∨
        (row.table ∈ agentIdTables ∧
          ∃ agent, GoesWith user database agent ∧ agent.table = .agents ∧
            row.refs .agentId = some agent.key) ∨
        (row.table ∈ sessionIdTables ∧
          ∃ session, GoesWith user database session ∧ session.table = .sessions ∧
            row.refs .sessionId = some session.key) ∨
        (row.table = .skillPromotionCandidates ∧
          ∃ skill, GoesWith user database skill ∧ skill.table = .skills ∧
            row.refs .sourceSkillId = some skill.key)) := by
  have byUser (member : row ∈ database.rows) (inTables : row.table ∈ userIdTables) :=
    exists_user_goesWith user ⟨row.table, .userId, .users, .cascade⟩
      (by simp [foreignKeys, inTables]) rfl member rfl
  rw [GoesWith, doomed_iff, isUser_iff]
  simp only [refersBy_cascade_iff]
  grind

theorem goesWith_agents (inAgents : row.table = .agents) :
    GoesWith user database row ↔ row ∈ database.rows ∧ row.refs .userId = some user := by
  rw [goesWith_iff]
  simp [inAgents, userIdTables, agentIdTables, sessionIdTables]

theorem exists_agent_goesWith {agentId : Option String} :
    (∃ agent, GoesWith user database agent ∧ agent.table = .agents ∧
        agentId = some agent.key) ↔
      ∃ agent ∈ database.rows, agent.table = .agents ∧ agent.refs .userId = some user ∧
        agentId = some agent.key := by
  refine exists_congr fun agent => ?_
  constructor
  · rintro ⟨goes, inAgents, refers⟩
    obtain ⟨agentMember, owner⟩ := (goesWith_agents inAgents).mp goes
    exact ⟨agentMember, inAgents, owner, refers⟩
  · rintro ⟨agentMember, inAgents, owner, refers⟩
    exact ⟨(goesWith_agents inAgents).mpr ⟨agentMember, owner⟩, inAgents, refers⟩

/-- The skills, instructions and commands that go are the user's. -/
theorem goesWith_createdByTables (inTables : row.table ∈ createdByTables) :
    GoesWith user database row ↔ row ∈ database.rows ∧ Owned user database row := by
  have tables : row.table ∈ userIdTables ∧ row.table ∈ agentIdTables ∧
      row.table ∉ sessionIdTables ∧ row.table ≠ .users ∧
        row.table ≠ .skillPromotionCandidates := by
    revert inTables
    cases row.table <;> decide
  obtain ⟨userIdTable, agentIdTable, noSessionId, notUser, notCandidate⟩ := tables
  rw [goesWith_iff, exists_agent_goesWith]
  simp only [userIdTable, agentIdTable, noSessionId, notUser, notCandidate, true_and, false_and,
    false_or, or_false]
  exact Iff.rfl

end GoesWith

/-! ### The statements before the last -/

section Sweep

variable {user : String} {database : Database foreignKeys String Data}

/-- The rows that are left when the user's own row is to be deleted: other than in the audit
log they are as before, and the user's cron jobs and MCP servers are gone. -/
structure Swept (user : String) (database swept : Database foreignKeys String Data) : Prop where
  rows : ∀ row : Row Table Column String Data, row.table ≠ .auditLog →
    (row ∈ swept.rows ↔ row ∈ database.rows ∧
      ¬ (row.table ∈ [.cronJobs, .mcpServers] ∧ row.refs .userId = some user))
  auditLog : (∃ row ∈ swept.rows, row.table = .auditLog ∧ row.refs .actorId = some user) ↔
    gdprTombstoneActorId = user ∧
      ∃ row ∈ database.rows, row.table = .auditLog ∧ row.refs .actorId = some user
  auditLogKept : ∀ row ∈ database.rows, row.table = .auditLog →
    ∃ left ∈ swept.rows, left.table = row.table ∧ left.key = row.key

/-- The audit log can be anonymised when it does not name the user or the tombstone user
exists. -/
theorem targetsFound_iff :
    TargetsFound (carries .auditLog .actorId user) .actorId gdprTombstoneActorId foreignKeys
        database.rows ↔
      ((∃ row ∈ database.rows, row.table = .auditLog ∧ row.refs .actorId = some user) →
        ∃ tombstone ∈ database.rows, tombstone.table = .users ∧
          tombstone.key = gdprTombstoneActorId) := by
  constructor
  · rintro found ⟨row, member, inAuditLog, refers⟩
    exact found ⟨.auditLog, .actorId, .users, .noAction⟩ (by simp [foreignKeys]) rfl row member
      (carries_iff.mpr ⟨inAuditLog, refers⟩) inAuditLog.symm
  · intro found foreignKey inSchema sameColumn row member isChosen _
    obtain ⟨inAuditLog, refers⟩ := carries_iff.mp isChosen
    obtain ⟨tombstone, tombstoneMember, inUsers, sameKey⟩ := found ⟨row, member, inAuditLog, refers⟩
    have actorTarget : ∀ foreignKey ∈ foreignKeys, foreignKey.column = .actorId →
        foreignKey.target = .users := by
      decide
    rw [← actorTarget foreignKey inSchema sameColumn] at inUsers
    exact ⟨tombstone, tombstoneMember, inUsers, sameKey⟩

/-- The statement on the audit log leaves the other rows as they are. -/
theorem mem_anonymised {row : Row Table Column String Data} (notAuditLog : row.table ≠ .auditLog) :
    row ∈ database.rows.map (setRef (carries .auditLog .actorId user) .actorId
        gdprTombstoneActorId) ↔ row ∈ database.rows := by
  have unchanged : ∀ old : Row Table Column String Data, old.table ≠ .auditLog →
      setRef (carries .auditLog .actorId user) .actorId gdprTombstoneActorId old = old := by
    intro old other
    unfold setRef
    rw [if_neg (fun isChosen => other (carries_iff.mp isChosen).1)]
  rw [List.mem_map]
  constructor
  · rintro ⟨old, member, rfl⟩
    rw [setRef_table] at notAuditLog
    rw [unchanged old notAuditLog]
    exact member
  · intro member
    exact ⟨row, member, unchanged row notAuditLog⟩

/-- It leaves the user in the audit log only when the user is the tombstone. -/
theorem anonymised_auditLog :
    (∃ row ∈ database.rows.map (setRef (carries .auditLog .actorId user) .actorId
        gdprTombstoneActorId), row.table = .auditLog ∧ row.refs .actorId = some user) ↔
      gdprTombstoneActorId = user ∧
        ∃ row ∈ database.rows, row.table = .auditLog ∧ row.refs .actorId = some user := by
  constructor
  · rintro ⟨row, member, inAuditLog, refers⟩
    obtain ⟨old, oldMember, rfl⟩ := List.mem_map.mp member
    rw [setRef_table] at inAuditLog
    rw [setRef_refs_self] at refers
    split at refers
    · case isTrue isChosen =>
      exact ⟨Option.some.inj refers, old, oldMember, carries_iff.mp isChosen⟩
    · case isFalse notChosen =>
      exact absurd (carries_iff.mpr ⟨inAuditLog, refers⟩) notChosen
  · rintro ⟨sameActor, row, member, inAuditLog, refers⟩
    refine ⟨_, List.mem_map_of_mem member, ?_, ?_⟩
    · rw [setRef_table, inAuditLog]
    · rw [setRef_refs_self, sameActor, refers, ite_self]

/-- A delete from a table nothing refers to takes the user's rows of that table. -/
theorem deleteWhere_carries (user : String) (holder : Database foreignKeys String Data)
    (table : Table) (unreferenced : ∀ foreignKey ∈ foreignKeys, foreignKey.target ≠ table) :
    ∃ next, holder.deleteWhere (carries table .userId user) = some next ∧
      ∀ row, row ∈ next.rows ↔
        row ∈ holder.rows ∧ ¬ (row.table = table ∧ row.refs .userId = some user) := by
  obtain ⟨next, deleted, rows⟩ := holder.deleteWhere_unreferenced
    (carries table .userId user) (fun foreignKey inSchema row isChosen =>
      (carries_iff.mp isChosen).1 ▸ unreferenced foreignKey inSchema)
  refine ⟨next, deleted, fun row => ?_⟩
  rw [rows, Bool.eq_false_iff, Ne, carries_iff]

/-- The two deletes between the audit log and the user's row always go through. -/
theorem exists_swept {anonymised : Database foreignKeys String Data}
    (anonymise : database.setRefWhere (carries .auditLog .actorId user) .actorId
      gdprTombstoneActorId = some anonymised) :
    ∃ swept, Swept user database swept ∧
      (anonymised.deleteWhere (carries .cronJobs .userId user)).bind
        (fun next => next.deleteWhere (carries .mcpServers .userId user)) = some swept := by
  obtain ⟨withoutCronJobs, cronJobsDeleted, cronJobsRows⟩ :=
    deleteWhere_carries user anonymised .cronJobs (by decide)
  obtain ⟨swept, mcpServersDeleted, mcpServersRows⟩ :=
    deleteWhere_carries user withoutCronJobs .mcpServers (by decide)
  have anonymisedRows := Database.rows_setRefWhere anonymise
  refine ⟨swept, ⟨fun row notAuditLog => ?_, ?_, fun row member inAuditLog => ?_⟩, ?_⟩
  · rw [mcpServersRows, cronJobsRows, anonymisedRows, mem_anonymised notAuditLog, and_assoc,
      ← not_or, ← or_and_right]
    simp only [List.mem_cons, List.not_mem_nil, or_false]
  · rw [← anonymised_auditLog, ← anonymisedRows]
    refine exists_congr fun row => ?_
    rw [mcpServersRows, cronJobsRows]
    refine ⟨fun ⟨member, rest⟩ => ⟨member.1.1, rest⟩, fun ⟨member, inAuditLog, refers⟩ => ?_⟩
    simp [member, inAuditLog, refers]
  · refine ⟨_, (mcpServersRows _).mpr ⟨(cronJobsRows _).mpr
      ⟨anonymisedRows ▸ List.mem_map_of_mem member, ?_⟩, ?_⟩, setRef_table _ _ _ _,
        setRef_key _ _ _ _⟩ <;>
    · rw [setRef_table, inAuditLog]
      exact fun removed => absurd removed.1 (by decide)
  · rw [cronJobsDeleted, Option.bind_some, mcpServersDeleted]

/-- Up to its last statement the purge fails only when the audit log cannot be anonymised. -/
theorem purgeTenantRows_cases (user : String) (database : Database foreignKeys String Data) :
    (purgeTenantRows user database = none ∧
      ¬ TargetsFound (carries .auditLog .actorId user) .actorId gdprTombstoneActorId foreignKeys
        database.rows) ∨
    (TargetsFound (carries .auditLog .actorId user) .actorId gdprTombstoneActorId foreignKeys
        database.rows ∧
      ∃ swept, Swept user database swept ∧
        purgeTenantRows user database = swept.deleteWhere (isUser user)) := by
  cases anonymise : database.setRefWhere (carries .auditLog .actorId user) .actorId
      gdprTombstoneActorId with
  | none =>
    refine Or.inl ⟨?_, Database.setRefWhere_eq_none.mp anonymise⟩
    rw [purgeTenantRows, anonymise]
    rfl
  | some anonymised =>
    have found := not_not.mp fun missing =>
      Option.some_ne_none _ (anonymise.symm.trans (Database.setRefWhere_eq_none.mpr missing))
    obtain ⟨swept, isSwept, deletes⟩ := exists_swept anonymise
    refine Or.inr ⟨found, swept, isSwept, ?_⟩
    rw [purgeTenantRows, anonymise]
    simp only [Option.bind_eq_bind, Option.bind_some]
    rw [← Option.bind_assoc, deletes, Option.bind_some]

end Sweep

/-! ### The last statement -/

section Last

variable {user : String} {database last : Database foreignKeys String Data}
  {row target : Row Table Column String Data}

theorem Swept.mem_iff (swept : Swept user database last)
    (untouched : row.table ∉ [.auditLog, .cronJobs, .mcpServers]) :
    row ∈ last.rows ↔ row ∈ database.rows := by
  rw [List.mem_cons, not_or] at untouched
  rw [swept.rows row untouched.1]
  exact and_iff_left fun removed => untouched.2 removed.1

/-- No row of the audit log, no usage event and no delete request goes with a user. -/
theorem not_goesWith_of_log
    (inLogs : row.table ∈ [.auditLog, .usageEvents, .gdprDeleteRequests]) :
    ¬ GoesWith user database row := by
  intro goes
  have reached := (goesWith_iff.mp goes).2
  simp only [List.mem_cons, List.not_mem_nil, or_false] at inLogs
  rcases inLogs with inTable | inTable | inTable <;>
    simp [inTable, userIdTables, agentIdTables, sessionIdTables] at reached

theorem untouched_of_referred (refers : RefersBy foreignKeys .cascade row target) :
    target.table ∉ [.auditLog, .cronJobs, .mcpServers] := by
  rcases refersBy_cascade_iff.mp refers with ⟨_, same, _⟩ | ⟨_, same, _⟩ | ⟨_, same, _⟩ |
    ⟨_, same, _⟩
  all_goals
    rw [same]
    decide

/-- The earlier statements change nothing about what goes with the user. -/
theorem Swept.goesWith_iff (swept : Swept user database last) :
    GoesWith user last row ↔ GoesWith user database row ∧ row ∈ last.rows := by
  constructor
  · intro goes
    refine ⟨?_, goes.mem⟩
    induction goes with
    | chosen member isChosen =>
      refine .chosen ((swept.mem_iff ?_).mp member) isChosen
      rw [(isUser_iff.mp isChosen).1]
      decide
    | cascade member goes refers inductionHypothesis =>
      refine .cascade ((swept.rows _ fun inAuditLog => ?_).mp member).1 inductionHypothesis refers
      exact not_goesWith_of_log (by rw [inAuditLog]; decide)
        (.cascade member goes refers)
  · rintro ⟨goes, member⟩
    induction goes with
    | chosen _ isChosen => exact .chosen member isChosen
    | cascade _ goes refers inductionHypothesis =>
      have targetMember := (swept.mem_iff (untouched_of_referred refers)).mpr goes.mem
      exact .cascade member (inductionHypothesis targetMember) refers

/-- The deletion of the user's row is blocked by what it created and does not own, by the
audit log, by its usage events, and by other users whose default agent it owns. -/
theorem blocked_iff :
    database.Blocked (isUser user) ↔
      ∃ row ∈ database.rows, ¬ GoesWith user database row ∧
        ((row.table ∈ createdByTables ∧ row.refs .createdBy = some user) ∨
          (row.table = .auditLog ∧ row.refs .actorId = some user) ∨
          (row.table = .usageEvents ∧ row.refs .userId = some user) ∨
          (row.table = .users ∧ ∃ agent ∈ database.rows, agent.table = .agents ∧
            agent.refs .userId = some user ∧ row.refs .defaultAgentId = some agent.key)) := by
  refine exists_congr fun row => and_congr_right fun member => and_congr_right fun _ => ?_
  have byCreator (inTables : row.table ∈ createdByTables) :=
    exists_user_goesWith user ⟨row.table, .createdBy, .users, .noAction⟩
      (by simp [foreignKeys, inTables]) rfl member rfl
  have byActor (inTable : row.table = .auditLog) :=
    exists_user_goesWith user ⟨.auditLog, .actorId, .users, .noAction⟩
      (by simp [foreignKeys]) rfl member inTable.symm
  have byUsage (inTable : row.table = .usageEvents) :=
    exists_user_goesWith user ⟨.usageEvents, .userId, .users, .noAction⟩
      (by simp [foreignKeys]) rfl member inTable.symm
  rw [← exists_agent_goesWith]
  simp only [refersBy_noAction_iff]
  grind

/-- Whether the last statement is blocked, read off the state before the purge. -/
theorem Swept.blocked_iff (swept : Swept user database last) :
    last.Blocked (isUser user) ↔
      (∃ row ∈ database.rows, row.table ∈ createdByTables ∧ row.refs .createdBy = some user ∧
        ¬ Owned user database row) ∨
      (gdprTombstoneActorId = user ∧
        ∃ row ∈ database.rows, row.table = .auditLog ∧ row.refs .actorId = some user) ∨
      (∃ row ∈ database.rows, row.table = .usageEvents ∧ row.refs .userId = some user) ∨
      (∃ row ∈ database.rows, row.table = .users ∧ row.key ≠ user ∧
        ∃ agent ∈ database.rows, agent.table = .agents ∧ agent.refs .userId = some user ∧
          row.refs .defaultAgentId = some agent.key) := by
  have inLast (row : Row Table Column String Data)
      (untouched : row.table ∉ [.auditLog, .cronJobs, .mcpServers]) :
      (row ∈ last.rows ∧ ¬ GoesWith user last row) ↔
        row ∈ database.rows ∧ ¬ GoesWith user database row := by
    rw [swept.goesWith_iff, ← swept.mem_iff untouched]
    tauto
  have creator (row : Row Table Column String Data) (inTables : row.table ∈ createdByTables) :
      (row ∈ last.rows ∧ ¬ GoesWith user last row) ↔
        row ∈ database.rows ∧ ¬ Owned user database row := by
    rw [inLast row (by revert inTables; cases row.table <;> decide),
      goesWith_createdByTables inTables]
    tauto
  have audited (row : Row Table Column String Data) (inTable : row.table = .auditLog) :
      ¬ GoesWith user last row :=
    not_goesWith_of_log (by rw [inTable]; decide)
  have used (row : Row Table Column String Data) (inTable : row.table = .usageEvents) :
      (row ∈ last.rows ∧ ¬ GoesWith user last row) ↔ row ∈ database.rows := by
    rw [inLast row (by rw [inTable]; decide)]
    exact and_iff_left (not_goesWith_of_log (by rw [inTable]; decide))
  have otherUser (row : Row Table Column String Data) (inTable : row.table = .users) :
      (row ∈ last.rows ∧ ¬ GoesWith user last row) ↔ row ∈ database.rows ∧ row.key ≠ user := by
    rw [inLast row (by rw [inTable]; decide), goesWith_users inTable]
    tauto
  have agents (row : Row Table Column String Data) (inTable : row.table = .agents) :
      row ∈ last.rows ↔ row ∈ database.rows :=
    swept.mem_iff (by rw [inTable]; decide)
  rw [Worker.blocked_iff, ← swept.auditLog]
  simp only [and_or_left, exists_or]
  refine or_congr ?_ (or_congr ?_ (or_congr ?_ ?_))
  · grind
  · grind
  · grind
  · grind

end Last

/-! ### When the purge goes through -/

section Purge

variable {user : String} {database : Database foreignKeys String Data}

/-- The purge fails in exactly the states that are not `Purgeable`. -/
theorem purgeTenantRows_eq_none :
    purgeTenantRows user database = none ↔ ¬ Purgeable user database := by
  rcases purgeTenantRows_cases user database with
    ⟨failed, missing⟩ | ⟨found, last, swept, purge⟩
  · rw [targetsFound_iff] at missing
    refine iff_of_true failed fun purgeable => missing ?_
    rintro ⟨row, member, inAuditLog, refers⟩
    exact (purgeable.auditLog row member inAuditLog refers).2
  · rw [targetsFound_iff] at found
    rw [purge, Database.deleteWhere_eq_none, swept.blocked_iff, iff_not_comm, not_or, not_or,
      not_or]
    constructor
    · intro purgeable
      refine ⟨?_, ?_, ?_, ?_⟩
      · rintro ⟨row, member, inTables, refers, notOwned⟩
        exact notOwned (purgeable.createdBy row member inTables refers)
      · rintro ⟨sameActor, row, member, inAuditLog, refers⟩
        exact (purgeable.auditLog row member inAuditLog refers).1 sameActor
      · rintro ⟨row, member, inUsageEvents, refers⟩
        exact purgeable.usageEvents row member inUsageEvents refers
      · rintro ⟨row, member, inUsers, other, agent, agentMember, inAgents, owner, refers⟩
        exact purgeable.defaultAgent row member inUsers other agent agentMember inAgents owner
          refers
    · rintro ⟨createdBy, auditLog, usageEvents, defaultAgent⟩
      refine ⟨fun row member inAuditLog refers => ⟨fun sameActor => ?_, ?_⟩,
        fun row member inUsageEvents refers => ?_, fun row member inTables refers => ?_,
        fun row member inUsers other agent agentMember inAgents owner refers => ?_⟩
      · exact auditLog ⟨sameActor, row, member, inAuditLog, refers⟩
      · exact found ⟨row, member, inAuditLog, refers⟩
      · exact usageEvents ⟨row, member, inUsageEvents, refers⟩
      · exact not_not.mp fun notOwned => createdBy ⟨row, member, inTables, refers, notOwned⟩
      · exact defaultAgent
          ⟨row, member, inUsers, other, agent, agentMember, inAgents, owner, refers⟩

theorem purgeable_iff_exists :
    Purgeable user database ↔ ∃ purged, purgeTenantRows user database = some purged := by
  rw [← Option.ne_none_iff_exists', Ne, purgeTenantRows_eq_none, not_not]

/-- The rows a successful purge leaves. -/
theorem mem_purgeTenantRows {purged : Database foreignKeys String Data}
    (success : purgeTenantRows user database = some purged) :
    ∃ last, Swept user database last ∧ last.deleteWhere (isUser user) = some purged := by
  rcases purgeTenantRows_cases user database with
    ⟨failed, _⟩ | ⟨_, last, swept, purge⟩
  · exact absurd (failed.symm.trans success) (Option.some_ne_none _).symm
  · exact ⟨last, swept, purge.symm.trans success⟩

/-- A successful purge leaves no row of the user, and so, as every foreign key holds, nothing
that carries its id. -/
theorem no_user_of_purge {purged : Database foreignKeys String Data}
    (success : purgeTenantRows user database = some purged) :
    ∀ row ∈ purged.rows, row.table = .users → row.key ≠ user := by
  intro row member inUsers sameKey
  obtain ⟨last, _, deleted⟩ := mem_purgeTenantRows success
  obtain ⟨old, oldMember, stays, rfl⟩ := (Database.mem_deleteWhere deleted).mp member
  exact stays (goesWith_isUser oldMember inUsers sameKey)

theorem no_userId_of_purge {purged : Database foreignKeys String Data}
    (success : purgeTenantRows user database = some purged)
    (foreignKey : ForeignKey Table Column) (inSchema : foreignKey ∈ foreignKeys)
    (toUsers : foreignKey.target = .users) :
    ∀ row ∈ purged.rows, row.table = foreignKey.table → row.refs foreignKey.column ≠ some user := by
  intro row member inTable refers
  obtain ⟨target, targetMember, inUsers, sameKey⟩ :=
    purged.refsValid foreignKey inSchema row member inTable.symm user refers
  exact no_user_of_purge success target targetMember (inUsers.trans toUsers) sameKey

/-- The purge of a user completes from exactly the states that are `Purgeable`. -/
theorem purgeCompletes_iff (user : String) (database : Database foreignKeys String Data) :
    PurgeCompletes user database ↔ Purgeable user database := by
  rw [purgeable_iff_exists]
  constructor
  · rintro ⟨purged, success, _⟩
    exact ⟨purged, success⟩
  · rintro ⟨purged, success⟩
    refine ⟨purged, success, no_user_of_purge success, fun row member inTables => ?_,
      no_userId_of_purge success ⟨.auditLog, .actorId, .users, .noAction⟩
        (by simp [foreignKeys]) rfl, purged.refsValid⟩
    rcases List.mem_append.mp inTables with cascading | usage
    · exact no_userId_of_purge success ⟨row.table, .userId, .users, .cascade⟩
        (by simp [foreignKeys, cascading]) rfl row member rfl
    · exact no_userId_of_purge success ⟨.usageEvents, .userId, .users, .noAction⟩
        (by simp [foreignKeys]) rfl row member (List.mem_singleton.mp usage)

/-- A purge that goes through removes the user's row and what the cascades reach from it. -/
theorem removed_iff {row : Row Table Column String Data} :
    Removed user database row ↔ Purgeable user database ∧ GoesWith user database row := by
  constructor
  · rintro ⟨member, purged, success, noneLeft⟩
    refine ⟨purgeable_iff_exists.mpr ⟨purged, success⟩, ?_⟩
    obtain ⟨last, swept, deleted⟩ := mem_purgeTenantRows success
    by_contra stays
    have goneFromLast : ∀ left ∈ last.rows, left.table = row.table → left.key = row.key →
        GoesWith user last left := by
      intro left leftMember sameTable sameKey
      by_contra leftStays
      exact noneLeft _ ((Database.mem_deleteWhere deleted).mpr ⟨left, leftMember, leftStays, rfl⟩)
        sameTable sameKey
    by_cases inAuditLog : row.table = .auditLog
    · obtain ⟨left, leftMember, sameTable, sameKey⟩ := swept.auditLogKept row member inAuditLog
      refine not_goesWith_of_log ?_ (goneFromLast left leftMember sameTable sameKey)
      rw [sameTable, inAuditLog]
      decide
    · have inLast : row ∈ last.rows := by
        refine (swept.rows row inAuditLog).mpr ⟨member, fun ⟨inTables, refers⟩ => stays ?_⟩
        refine goesWith_iff.mpr ⟨member, Or.inr (Or.inl ⟨?_, refers⟩)⟩
        rcases List.mem_pair.mp inTables with inTable | inTable <;>
        · rw [inTable]
          decide
      exact stays (swept.goesWith_iff.mp (goneFromLast row inLast rfl rfl)).1
  · rintro ⟨purgeable, goes⟩
    obtain ⟨purged, success⟩ := purgeable_iff_exists.mp purgeable
    obtain ⟨last, swept, deleted⟩ := mem_purgeTenantRows success
    refine ⟨goes.mem, purged, success, fun left leftMember sameTable sameKey => ?_⟩
    obtain ⟨old, oldMember, stays, rfl⟩ := (Database.mem_deleteWhere deleted).mp leftMember
    have notAuditLog : old.table ≠ .auditLog := by
      intro inAuditLog
      refine not_goesWith_of_log ?_ goes
      rw [← sameTable, clearRefs, inAuditLog]
      decide
    have same : old = row :=
      database.row_unique ((swept.rows old notAuditLog).mp oldMember).1 goes.mem sameTable sameKey
    rw [same] at stays oldMember
    exact stays (swept.goesWith_iff.mpr ⟨goes, oldMember⟩)

/-- The row with the user's id cleared from `user_id`. -/
def forgetUser (user : String) (row : Row Table Column String Data) :
    Row Table Column String Data :=
  { row with
    refs := fun column =>
      if column = .userId ∧ row.refs .userId = some user then none else row.refs column }

/-- `ON DELETE SET NULL` clears the user from a delete request. -/
theorem clearRefs_request {row : Row Table Column String Data} (member : row ∈ database.rows)
    (inTable : row.table = .gdprDeleteRequests) :
    clearRefs foreignKeys (doomedRows foreignKeys (isUser user) database.rows) row =
      forgetUser user row := by
  have byUser := exists_user_goesWith user ⟨.gdprDeleteRequests, .userId, .users, .setNull⟩
    (by simp [foreignKeys]) rfl member inTable.symm
  have ofRequests : ∀ foreignKey ∈ foreignKeys, foreignKey.table = .gdprDeleteRequests →
      foreignKey.column = .userId ∧ foreignKey.target = .users ∧
        foreignKey.onDelete = .setNull := by
    decide
  have cleared : ∀ column,
      (∃ foreignKey ∈ foreignKeys, foreignKey.onDelete = .setNull ∧ foreignKey.column = column ∧
        ∃ target ∈ doomedRows foreignKeys (isUser user) database.rows,
          foreignKey.Refers row target) ↔
      column = .userId ∧ row.refs .userId = some user := by
    intro column
    rw [← byUser]
    constructor
    · rintro ⟨foreignKey, inSchema, _, rfl, target, doomed, sameTable, sameTarget, refers⟩
      obtain ⟨sameColumn, toUsers, _⟩ := ofRequests foreignKey inSchema (sameTable.trans inTable)
      rw [sameColumn] at refers
      exact ⟨sameColumn, target, mem_doomedRows.mp doomed, sameTarget.symm.trans toUsers, refers⟩
    · rintro ⟨rfl, target, goes, inUsers, refers⟩
      exact ⟨⟨.gdprDeleteRequests, .userId, .users, .setNull⟩, by simp [foreignKeys], rfl, rfl,
        target, mem_doomedRows.mpr goes, inTable.symm, inUsers.symm, refers⟩
  unfold clearRefs forgetUser
  simp only [cleared]

/-- The delete requests outlive a purge, without the user. -/
theorem mem_requests_of_purge {purged : Database foreignKeys String Data}
    (success : purgeTenantRows user database = some purged) {row : Row Table Column String Data} :
    row ∈ purged.rows ∧ row.table = .gdprDeleteRequests ↔
      ∃ old ∈ database.rows, old.table = .gdprDeleteRequests ∧ forgetUser user old = row := by
  obtain ⟨last, swept, deleted⟩ := mem_purgeTenantRows success
  have inLast (old : Row Table Column String Data) (inTable : old.table = .gdprDeleteRequests) :
      old ∈ last.rows ↔ old ∈ database.rows := swept.mem_iff (by rw [inTable]; decide)
  rw [Database.mem_deleteWhere deleted]
  constructor
  · rintro ⟨⟨old, member, _, rfl⟩, inTable⟩
    exact ⟨old, (inLast old inTable).mp member, inTable, (clearRefs_request member inTable).symm⟩
  · rintro ⟨old, member, inTable, rfl⟩
    have stays : ¬ GoesWith user last old := not_goesWith_of_log (by rw [inTable]; decide)
    exact ⟨⟨old, (inLast old inTable).mpr member, stays,
      clearRefs_request ((inLast old inTable).mpr member) inTable⟩, inTable⟩

/-- One administrator with one entry in the audit log. -/
def auditedAdministrator : Database foreignKeys String Unit where
  rows :=
    [⟨.users, "10000000-0000-0000-0000-000000000001", fun _ => none, ()⟩,
      ⟨.auditLog, "1", fun column =>
        if column = .actorId then some "10000000-0000-0000-0000-000000000001" else none, ()⟩]
  keysDistinct := by decide
  refsValid := by decide

/-- The update to a tombstone that no user row holds fails, and the administrator stays. -/
theorem purge_fails_without_tombstone :
    ¬ ∀ (user : String) (database : Database foreignKeys String Unit),
      (∃ row ∈ database.rows, row.table = .users ∧ row.key = user) →
        PurgeCompletes user database := by
  intro completes
  obtain ⟨purged, success, _⟩ := completes "10000000-0000-0000-0000-000000000001"
    auditedAdministrator ⟨_, List.mem_cons_self, rfl, rfl⟩
  have failed : purgeTenantRows "10000000-0000-0000-0000-000000000001" auditedAdministrator =
      none := by
    rw [purgeTenantRows, Database.setRefWhere_eq_none.mpr]
    · rfl
    · decide
  exact Option.some_ne_none _ (success.symm.trans failed)

end Purge

end LiteHorse.Worker
