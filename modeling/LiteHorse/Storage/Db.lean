/-
This file models the tenant settings of a transaction and the row-security policy of the tables
that name an agent. The ids are UUIDs, so a setting is never the empty text by accident: `none`
is the setting that `db_session` leaves unset, or sets to the empty text.
-/

import LiteHorse.Python

namespace LiteHorse.Storage

open Python

/-- The settings `app.user_id` and `app.agent_id` of a transaction. -/
structure DbSession where
  userId : Option UUID
  agentId : Option UUID

/-- `db_session` -/
def dbSession (userId : Option UUID) (agentId : Option UUID := none) : DbSession :=
  { userId, agentId }

/-- The policy `tenant_isolation`, for a row of the user and the agent. -/
def tenantIsolation (session : DbSession) (userId agentId : UUID) : Bool :=
  session.userId = some userId && (session.agentId.isNone || session.agentId = some agentId)

/-- A transaction without an agent reaches the rows of every agent. -/
theorem tenantIsolation_user (userId agentId : UUID) :
    tenantIsolation (dbSession (some userId)) userId agentId = true := by
  unfold tenantIsolation dbSession
  rw [Option.isNone_none, Bool.true_or, Bool.and_true]
  exact decide_eq_true rfl

theorem tenantIsolation_agent (userId agentId other : UUID) :
    tenantIsolation (dbSession (some userId) (some agentId)) userId other =
      decide (other = agentId) := by
  unfold tenantIsolation dbSession
  rw [decide_eq_true rfl, Bool.true_and, Option.isNone_some, Bool.false_or]
  exact decide_eq_decide.mpr (Option.some_inj.trans eq_comm)

end LiteHorse.Storage
