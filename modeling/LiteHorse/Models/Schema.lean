/-
This file is the relational schema the migrations leave: the tables, the columns that refer
to other tables, and the foreign keys with their referential actions. A key is the text of
the primary key, as the row-level-security policies compare it.

The lemmas at the end read the schema by action: which rows go with a deleted one, and which
rows block a delete.
-/

import LiteHorse.Library.ForeignKeys

namespace LiteHorse.Models

open ForeignKeys

inductive Table where
  | users
  | skills
  | instructions
  | commands
  | mcpServers
  | cronJobs
  | userOfficialOptOuts
  | userDocuments
  | sessions
  | messages
  | skillProposals
  | auditLog
  | usageEvents
  | agents
  | memoryChunks
  | sessionSummaries
  | turnOutcomes
  | skillPromotionCandidates
  | gdprDeleteRequests
  deriving DecidableEq

/-- The columns with a foreign key. -/
inductive Column where
  | userId
  | agentId
  | sessionId
  | createdBy
  | actorId
  | defaultAgentId
  | sourceSkillId
  | promotedSkillId
  | decidedBy
  deriving DecidableEq

/-- The tables whose `user_id` is declared `REFERENCES users ON DELETE CASCADE`. -/
def userIdTables : List Table :=
  [.skills, .instructions, .commands, .mcpServers, .cronJobs, .userOfficialOptOuts,
    .userDocuments, .sessions, .messages, .skillProposals, .agents, .memoryChunks,
    .sessionSummaries, .turnOutcomes]

/-- The tables whose `agent_id` is declared `REFERENCES agents ON DELETE CASCADE`. -/
def agentIdTables : List Table :=
  [.userDocuments, .skills, .cronJobs, .sessions, .skillProposals, .mcpServers, .commands,
    .instructions, .memoryChunks, .sessionSummaries, .turnOutcomes]

/-- The tables whose `session_id` is declared `REFERENCES sessions ON DELETE CASCADE`. -/
def sessionIdTables : List Table :=
  [.messages, .sessionSummaries, .turnOutcomes]

/-- The tables with a `created_by`, declared `REFERENCES users`. -/
def createdByTables : List Table :=
  [.skills, .instructions, .commands]

/-- The foreign keys of the migrations. -/
def foreignKeys : List (ForeignKey Table Column) :=
  userIdTables.map (fun table => ⟨table, .userId, .users, .cascade⟩) ++
  agentIdTables.map (fun table => ⟨table, .agentId, .agents, .cascade⟩) ++
  sessionIdTables.map (fun table => ⟨table, .sessionId, .sessions, .cascade⟩) ++
  createdByTables.map (fun table => ⟨table, .createdBy, .users, .noAction⟩) ++
  [⟨.auditLog, .actorId, .users, .noAction⟩,
    ⟨.usageEvents, .userId, .users, .noAction⟩,
    ⟨.users, .defaultAgentId, .agents, .noAction⟩,
    ⟨.skillPromotionCandidates, .sourceSkillId, .skills, .cascade⟩,
    ⟨.skillPromotionCandidates, .decidedBy, .users, .setNull⟩,
    ⟨.skillPromotionCandidates, .promotedSkillId, .skills, .setNull⟩,
    ⟨.gdprDeleteRequests, .userId, .users, .setNull⟩]

section Actions

variable {Data : Type*} {row target : Row Table Column String Data}

/-- The rows that go with a deleted row. -/
theorem refersBy_cascade_iff :
    RefersBy foreignKeys .cascade row target ↔
      (row.table ∈ userIdTables ∧ target.table = .users ∧ row.refs .userId = some target.key) ∨
      (row.table ∈ agentIdTables ∧ target.table = .agents ∧
        row.refs .agentId = some target.key) ∨
      (row.table ∈ sessionIdTables ∧ target.table = .sessions ∧
        row.refs .sessionId = some target.key) ∨
      (row.table = .skillPromotionCandidates ∧ target.table = .skills ∧
        row.refs .sourceSkillId = some target.key) := by
  simp only [foreignKeys, refersBy_append, refersBy_map, refersBy_cons, refersBy_nil, reduceCtorEq,
    true_and, false_and, false_or, or_false, or_assoc]

/-- The references that block the deletion of their target. -/
theorem refersBy_noAction_iff :
    RefersBy foreignKeys .noAction row target ↔
      (row.table ∈ createdByTables ∧ target.table = .users ∧
        row.refs .createdBy = some target.key) ∨
      (row.table = .auditLog ∧ target.table = .users ∧ row.refs .actorId = some target.key) ∨
      (row.table = .usageEvents ∧ target.table = .users ∧ row.refs .userId = some target.key) ∨
      (row.table = .users ∧ target.table = .agents ∧
        row.refs .defaultAgentId = some target.key) := by
  simp only [foreignKeys, refersBy_append, refersBy_map, refersBy_cons, refersBy_nil, reduceCtorEq,
    true_and, false_and, false_or, or_false]

end Actions

end LiteHorse.Models
