/-
This file models the INSERTs with which the application writes the rows of a user: the five
`create_user`, the first write of a document, a new session and the proposal of an evolve run, each
with the columns it names.

None of them names the agent, and the column has no default. The migrated tables therefore refuse
all of them (`insert_refused`), and with an agent they would accept them
(`insert_withAgent_accepted`).
-/

import LiteHorse.Models.TenantTables

namespace LiteHorse.Repositories.TenantWrites

open Models Python SqlTables

/-! ### The statements -/

/-- An INSERT: the columns it names, with a value or NULL. -/
structure Insert where
  table : TenantTable
  values : List (TenantColumn × Option Cell)

/-- The row that the INSERT makes in the migrated table. -/
def Insert.row (insert : Insert) : TenantRow := insert.table.migrated.inserted insert.values

/-- The migrated table accepts the row. -/
def Insert.Accepted (insert : Insert) : Prop := insert.table.migrated.Accepts insert.row

/-- The same INSERT with an agent. -/
def Insert.withAgent (insert : Insert) (agentId : UUID) : Insert :=
  { insert with values := insert.values ++ [(.agentId, some (.uuid agentId))] }

/-- `SkillRepo.create_user` -/
def createUserSkill (userId id : UUID) (slug : String) (frontmatter : Json) (body : String)
    (enabledDefault : Bool) : Insert where
  table := .skills
  values :=
    [(.id, some (.uuid id)), (.scope, some (.text "user")), (.userId, some (.uuid userId)),
      (.slug, some (.text slug)), (.version, some (.int 1)), (.isCurrent, some (.bool true)),
      (.mandatory, some (.bool false)), (.enabledDefault, some (.bool enabledDefault)),
      (.frontmatter, some (.json frontmatter)), (.body, some (.text body)),
      (.createdBy, some (.uuid userId))]

/-- `InstructionRepo.create_user` -/
def createUserInstruction (userId id : UUID) (slug body : String) (priority : Int) : Insert where
  table := .instructions
  values :=
    [(.id, some (.uuid id)), (.scope, some (.text "user")), (.userId, some (.uuid userId)),
      (.slug, some (.text slug)), (.version, some (.int 1)), (.isCurrent, some (.bool true)),
      (.mandatory, some (.bool false)), (.priority, some (.int priority)),
      (.body, some (.text body)), (.createdBy, some (.uuid userId))]

/-- `CommandRepo.create_user` -/
def createUserCommand (userId id : UUID) (slug promptTpl : String) (description : Option String)
    (argSchema : Option Json) (bindSkills : Option (List String)) : Insert where
  table := .commands
  values :=
    [(.id, some (.uuid id)), (.scope, some (.text "user")), (.userId, some (.uuid userId)),
      (.slug, some (.text slug)), (.version, some (.int 1)), (.isCurrent, some (.bool true)),
      (.mandatory, some (.bool false)), (.description, description.map .text),
      (.promptTpl, some (.text promptTpl)), (.argSchema, argSchema.map .json),
      (.bindSkills, bindSkills.map .texts), (.createdBy, some (.uuid userId))]

/-- `McpRepo.create_user`, with the ciphertext of the auth value. -/
def createUserMcp (userId id : UUID) (slug url : String) (authHeader : Option String)
    (authValueCt : Option ByteArray) (cacheToolsList enabled : Bool) : Insert where
  table := .mcpServers
  values :=
    [(.id, some (.uuid id)), (.scope, some (.text "user")), (.userId, some (.uuid userId)),
      (.slug, some (.text slug)), (.url, some (.text url)), (.authHeader, authHeader.map .text),
      (.authValueCt, authValueCt.map .bytes), (.authValueDk, none),
      (.cacheToolsList, some (.bool cacheToolsList)), (.enabled, some (.bool enabled)),
      (.mandatory, some (.bool false)), (.version, some (.int 1)), (.isCurrent, some (.bool true))]

/-- `CronRepo.create_user` -/
def createUserCron (userId id : UUID) (slug cronExpr prompt : String) (webhookUrl : Option String)
    (enabled : Bool) : Insert where
  table := .cronJobs
  values :=
    [(.id, some (.uuid id)), (.scope, some (.text "user")), (.userId, some (.uuid userId)),
      (.slug, some (.text slug)), (.cronExpr, some (.text cronExpr)),
      (.prompt, some (.text prompt)), (.webhookUrl, webhookUrl.map .text),
      (.enabled, some (.bool enabled)),
      (.mandatory, some (.bool false)), (.strikes, some (.int 0))]

/-- The INSERT of `MemoryRepo.put`, of a kind that `put` accepts. -/
def putDocument (userId : UUID) (kind content : String) : Insert where
  table := .userDocuments
  values :=
    [(.userId, some (.uuid userId)), (.kind, some (.text kind)), (.content, some (.text content)),
      (.version, some (.int 1))]

/-- `SessionRepo.create_session` -/
def createSession (userId : UUID) (sessionId source : String) (model : Option String) :
    Insert where
  table := .sessions
  values :=
    [(.id, some (.text sessionId)), (.userId, some (.uuid userId)), (.source, some (.text source)),
      (.model, model.map .text)]

/-- The draft that `run_evolve` proposes. -/
def pendingBody : String := "# pending — evolve worker has not produced a draft yet\n"

/-- `run_evolve` -/
def runEvolve (userId proposalId : UUID) (skillSlug enqueuedAt : String) : Insert where
  table := .skillProposals
  values :=
    [(.id, some (.uuid proposalId)), (.userId, some (.uuid userId)),
      (.skillSlug, some (.text skillSlug)), (.baseVersion, none), (.body, some (.text pendingBody)),
      (.fitness, some (.json (.object
        [("trigger", .str "scheduled"), ("enqueued_at", .str enqueuedAt)]))),
      (.status, some (.text "pending"))]

/-- The keys of `_LIMITS`, other kinds are refused by `MemoryRepo.put`. -/
inductive DocumentKind where
  | memoryMd
  | userMd

def DocumentKind.name : DocumentKind → String
  | .memoryMd => "memory.md"
  | .userMd => "user.md"

/-- A write of the application, with its arguments. -/
inductive TenantWrite where
  | createSkill (id : UUID) (slug : String) (frontmatter : Json) (body : String)
      (enabledDefault : Bool)
  | createInstruction (id : UUID) (slug body : String) (priority : Int)
  | createCommand (id : UUID) (slug promptTpl : String) (description : Option String)
      (argSchema : Option Json) (bindSkills : Option (List String))
  | createMcp (id : UUID) (slug url : String) (authHeader : Option String)
      (authValueCt : Option ByteArray) (cacheToolsList enabled : Bool)
  | createCron (id : UUID) (slug cronExpr prompt : String) (webhookUrl : Option String)
      (enabled : Bool)
  | putDocument (kind : DocumentKind) (content : String)
  | createSession (sessionId source : String) (model : Option String)
  | runEvolve (proposalId : UUID) (skillSlug enqueuedAt : String)

/-- The INSERT of a write of the user. -/
def TenantWrite.insert (userId : UUID) : TenantWrite → Insert
  | .createSkill id slug frontmatter body enabledDefault =>
    createUserSkill userId id slug frontmatter body enabledDefault
  | .createInstruction id slug body priority => createUserInstruction userId id slug body priority
  | .createCommand id slug promptTpl description argSchema bindSkills =>
    createUserCommand userId id slug promptTpl description argSchema bindSkills
  | .createMcp id slug url authHeader authValueCt cacheToolsList enabled =>
    createUserMcp userId id slug url authHeader authValueCt cacheToolsList enabled
  | .createCron id slug cronExpr prompt webhookUrl enabled =>
    createUserCron userId id slug cronExpr prompt webhookUrl enabled
  | .putDocument kind content => TenantWrites.putDocument userId kind.name content
  | .createSession sessionId source model =>
    TenantWrites.createSession userId sessionId source model
  | .runEvolve proposalId skillSlug enqueuedAt =>
    TenantWrites.runEvolve userId proposalId skillSlug enqueuedAt

/-! ### The agent is missing -/

/-- No write names the agent, and its column has no default. -/
theorem insert_agentId (userId : UUID) (write : TenantWrite) :
    (write.insert userId).row .agentId = none := by
  unfold Insert.row
  cases write with
  | createSkill | createInstruction | createCommand | createMcp | createCron | putDocument
  | createSession | runEvolve => exact (inserted_unnamed rfl).trans rfl

theorem insert_scope (userId : UUID) (write : TenantWrite) :
    (write.insert userId).table.isLayered = true →
      (write.insert userId).row .scope = some (.text "user") := by
  intro layered
  cases write with
  | createSkill | createInstruction | createCommand | createMcp | createCron => rfl
  | putDocument | createSession | runEvolve => cases layered

/-- The migrated schema refuses every write. -/
theorem insert_refused (userId : UUID) (write : TenantWrite) :
    ¬ (write.insert userId).Accepted :=
  migrated_refuses (insert_agentId userId write) (insert_scope userId write)

/-- With an agent the migrated schema would accept every write. -/
theorem insert_withAgent_accepted (userId agentId : UUID) (write : TenantWrite) :
    ((write.insert userId).withAgent agentId).Accepted := by
  cases write with
  | putDocument kind content =>
    cases kind with
    | memoryMd => exact accepts_of_all rfl rfl
    | userMd => exact accepts_of_all rfl rfl
  | createSkill | createInstruction | createCommand | createMcp | createCron | createSession
  | runEvolve => exact accepts_of_all rfl rfl

/-- The first skill of a user. -/
theorem first_skill_refused :
    ¬ ((TenantWrite.createSkill 7 "tea" (.object []) "Boil water." true).insert 1).Accepted :=
  migrated_refuses rfl fun _ => rfl

end LiteHorse.Repositories.TenantWrites
