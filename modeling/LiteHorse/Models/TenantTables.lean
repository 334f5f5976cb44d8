/-
This file is the part of the schema that tenant writes meet: the columns of eight tables with what
they require and their defaults, and the CHECK constraints, as the migrations 0001 to 0008 leave
them. A table is created in 0001; 0003 adds the agent to all eight and 0006 the counters of the
curator to the skills. The other migrations change none of them.
-/

import LiteHorse.Library.SqlTables
import LiteHorse.Python

namespace LiteHorse.Models

open Python SqlTables

inductive TenantTable where
  | skills
  | instructions
  | commands
  | mcpServers
  | cronJobs
  | userDocuments
  | sessions
  | skillProposals
  deriving DecidableEq

inductive TenantColumn where
  | id
  | scope
  | userId
  | agentId
  | slug
  | version
  | isCurrent
  | mandatory
  | enabledDefault
  | frontmatter
  | body
  | createdAt
  | createdBy
  | useCount
  | successCount
  | errorCount
  | lastUsedAt
  | curatorState
  | priority
  | description
  | promptTpl
  | argSchema
  | bindSkills
  | url
  | authHeader
  | authValueCt
  | authValueDk
  | cacheToolsList
  | enabled
  | lastProbeAt
  | lastProbeOk
  | cronExpr
  | prompt
  | webhookUrl
  | lastFiredAt
  | strikes
  | kind
  | content
  | updatedAt
  | source
  | model
  | startedAt
  | endedAt
  | endReason
  | messageCount
  | toolCallCount
  | inputTokens
  | outputTokens
  | title
  | skillSlug
  | baseVersion
  | fitness
  | status
  | s3ArtefactKey
  | decidedAt
  deriving DecidableEq

/-- A value of a column. -/
inductive Cell where
  | text (value : String)
  | int (value : Int)
  | bool (value : Bool)
  | uuid (value : UUID)
  | bytes (value : ByteArray)
  | json (value : Json)
  | texts (value : List String)
  /-- `now()` -/
  | now

abbrev TenantRow := Row TenantColumn Cell

abbrev TenantTableDef := TableDef TenantColumn Cell

/-! ### Columns and conditions -/

/-- `NOT NULL`, without a default. -/
def required (name : TenantColumn) : ColumnDef TenantColumn Cell := ⟨name, false, none⟩

def nullable (name : TenantColumn) : ColumnDef TenantColumn Cell := ⟨name, true, none⟩

/-- `NOT NULL DEFAULT value` -/
def defaulted (name : TenantColumn) (value : Cell) : ColumnDef TenantColumn Cell :=
  ⟨name, false, some value⟩

/-- `column IN (options)` -/
def isIn (column : TenantColumn) (options : List String) (row : TenantRow) : Truth :=
  (row column).map fun
    | .text value => options.contains value
    | _ => false

/-- `(scope='user' AND column IS NOT NULL) OR (scope='official' AND column IS NULL)` -/
def ownedByScope (column : TenantColumn) (row : TenantRow) : Truth :=
  ((isIn .scope ["user"] row).and (isNotNull (row column))).or
    ((isIn .scope ["official"] row).and (isNull (row column)))

/-! ### Migration 0001 -/

def layeredColumns : List (ColumnDef TenantColumn Cell) :=
  [required .id, required .scope, nullable .userId, required .slug, defaulted .version (.int 1),
    defaulted .isCurrent (.bool true), defaulted .mandatory (.bool false)]

/-- The checks `_scope_check` and `_scope_user_id_check`. -/
def scopeChecks : List (TenantRow → Truth) :=
  [isIn .scope ["official", "user"], ownedByScope .userId]

/-- The tables as they are created. -/
def TenantTable.initial : TenantTable → TenantTableDef
  | .skills =>
    { columns := layeredColumns ++
        [defaulted .enabledDefault (.bool true), required .frontmatter, required .body,
          defaulted .createdAt .now, nullable .createdBy]
      checks := scopeChecks }
  | .instructions =>
    { columns := layeredColumns ++
        [defaulted .priority (.int 100), required .body, defaulted .createdAt .now,
          nullable .createdBy]
      checks := scopeChecks }
  | .commands =>
    { columns := layeredColumns ++
        [nullable .description, required .promptTpl, nullable .argSchema, nullable .bindSkills,
          defaulted .createdAt .now, nullable .createdBy]
      checks := scopeChecks }
  | .mcpServers =>
    { columns :=
        [required .id, required .scope, nullable .userId, required .slug, required .url,
          nullable .authHeader, nullable .authValueCt, nullable .authValueDk,
          defaulted .cacheToolsList (.bool true), defaulted .enabled (.bool true),
          defaulted .mandatory (.bool false), defaulted .version (.int 1),
          defaulted .isCurrent (.bool true), nullable .lastProbeAt, nullable .lastProbeOk]
      checks := scopeChecks }
  | .cronJobs =>
    { columns :=
        [required .id, required .scope, nullable .userId, required .slug, required .cronExpr,
          required .prompt, nullable .webhookUrl, defaulted .enabled (.bool true),
          defaulted .mandatory (.bool false), nullable .lastFiredAt, defaulted .strikes (.int 0)]
      checks := scopeChecks }
  | .userDocuments =>
    { columns :=
        [required .userId, required .kind, defaulted .content (.text ""),
          defaulted .version (.int 1), defaulted .updatedAt .now]
      checks := [isIn .kind ["memory.md", "user.md"]] }
  | .sessions =>
    { columns :=
        [required .id, required .userId, required .source, nullable .model,
          defaulted .startedAt .now, nullable .endedAt, nullable .endReason,
          defaulted .messageCount (.int 0), defaulted .toolCallCount (.int 0),
          defaulted .inputTokens (.int 0), defaulted .outputTokens (.int 0), nullable .title]
      checks := [] }
  | .skillProposals =>
    { columns :=
        [required .id, required .userId, required .skillSlug, nullable .baseVersion, required .body,
          nullable .fitness, defaulted .status (.text "pending"), nullable .s3ArtefactKey,
          defaulted .createdAt .now, nullable .decidedAt]
      checks := [isIn .status ["pending", "approved", "rejected", "superseded"]] }

/-! ### The later migrations -/

/-- `_LAYERED_AGENT_ID_TABLES` -/
def TenantTable.isLayered : TenantTable → Bool
  | .skills | .cronJobs | .mcpServers | .commands | .instructions => true
  | .userDocuments | .sessions | .skillProposals => false

/-- Migration 0003: every table gets an agent, which the tables of a user require and the layered
ones require of a user's row. -/
def TenantTable.agentChanges (table : TenantTable) : List (Change TenantColumn Cell) :=
  [.addColumn (nullable .agentId),
    if table.isLayered then .addCheck (ownedByScope .agentId) else .setNotNull .agentId]

/-- Migration 0006. -/
def TenantTable.curatorChanges : TenantTable → List (Change TenantColumn Cell)
  | .skills =>
    [.addColumn (defaulted .useCount (.int 0)), .addColumn (defaulted .successCount (.int 0)),
      .addColumn (defaulted .errorCount (.int 0)), .addColumn (nullable .lastUsedAt),
      .addColumn (defaulted .curatorState (.text "active")),
      .addCheck (isIn .curatorState ["active", "stale", "archived", "pinned"])]
  | .instructions | .commands | .mcpServers | .cronJobs | .userDocuments | .sessions
  | .skillProposals => []

/-- The table after all migrations. -/
def TenantTable.migrated (table : TenantTable) : TenantTableDef :=
  table.initial.alter (table.agentChanges ++ table.curatorChanges)

/-! ### The agent of a row -/

theorem ownedByScope_user {column : TenantColumn} {row : TenantRow}
    (isUser : row .scope = some (.text "user")) (null : row column = none) :
    ownedByScope column row = some false := by
  unfold ownedByScope isIn
  rw [isUser, null]
  decide

/-- The migrated tables refuse a row of a user without an agent. -/
theorem migrated_refuses {table : TenantTable} {row : TenantRow} (noAgent : row .agentId = none)
    (isUser : table.isLayered = true → row .scope = some (.text "user")) :
    ¬ table.migrated.Accepts row := by
  by_cases layered : table.isLayered = true
  · have isChecked : ownedByScope .agentId ∈ table.migrated.checks := by
      cases table with
      | skills | cronJobs | mcpServers | commands | instructions =>
        simp [TenantTable.migrated, TableDef.alter, TableDef.change, TenantTable.agentChanges,
          TenantTable.curatorChanges, layered]
      | userDocuments | sessions | skillProposals => cases layered
    exact not_accepts_of_check isChecked (ownedByScope_user (isUser layered) noAgent)
  · have isRequired : required .agentId ∈ table.migrated.columns := by
      cases table with
      | skills | cronJobs | mcpServers | commands | instructions => exact absurd rfl layered
      | userDocuments | sessions | skillProposals =>
        simp [TenantTable.migrated, TenantTable.initial, TableDef.alter, TableDef.change,
          TenantTable.agentChanges, TenantTable.curatorChanges, layered, required, nullable]
    exact not_accepts_of_null isRequired rfl noAgent

end LiteHorse.Models
