/-
This file models the agents of a user: the rows of the table, the requests that list, create,
update and archive them and choose the default one, and the statements of these requests, which
run in a transaction for each request at read committed.

The default is kept three times: as a flag of the row, in the partial unique index that allows
one flagged row for a user, and as a pointer in the row of the user. A statement that asks for
the flagged row reads the index.
-/

import LiteHorse.Library.RowVersions
import LiteHorse.Python

namespace LiteHorse.Repositories.Agents

open Python RowVersions

/-! ### Rows -/

inductive PermissionMode where
  | auto
  | ask
  | ro

structure Agent where
  slug : String
  name : String
  persona : String
  defaultModel : Option String
  permissionMode : PermissionMode
  enabledTools : List String
  rateLimitPerMin : Option Int
  costBudgetUsdMicro : Option Int
  isDefault : Bool
  archivedAt : Option Int

/-- `AgentCreateIn`, whose types leave `create` no permission mode to refuse. -/
structure AgentCreate where
  slug : String
  name : String
  persona : String := ""
  defaultModel : Option String := none
  permissionMode : PermissionMode := .auto
  enabledTools : List String := []
  rateLimitPerMin : Option Int := none
  costBudgetUsdMicro : Option Int := none

/-- The row that `create` inserts. -/
def AgentCreate.row (args : AgentCreate) (isDefault : Bool) : Agent where
  slug := args.slug
  name := args.name
  persona := args.persona
  defaultModel := args.defaultModel
  permissionMode := args.permissionMode
  enabledTools := args.enabledTools
  rateLimitPerMin := args.rateLimitPerMin
  costBudgetUsdMicro := args.costBudgetUsdMicro
  isDefault := isDefault
  archivedAt := none

/-- What `ensure_default` creates. -/
def defaultAgent : AgentCreate where
  slug := "default"
  name := "default"

/-- `AgentUpdateIn` -/
structure AgentUpdate where
  name : Option String := none
  persona : Option String := none
  defaultModel : Option String := none
  clearDefaultModel : Bool := false
  permissionMode : Option PermissionMode := none
  enabledTools : Option (List String) := none
  rateLimitPerMin : Option Int := none
  clearRateLimit : Bool := false
  costBudgetUsdMicro : Option Int := none
  clearCostBudget : Bool := false

/-- `not values` -/
def AgentUpdate.isEmpty (values : AgentUpdate) : Bool :=
  values.name.isNone && values.persona.isNone && values.defaultModel.isNone &&
    !values.clearDefaultModel && values.permissionMode.isNone && values.enabledTools.isNone &&
    values.rateLimitPerMin.isNone && !values.clearRateLimit &&
    values.costBudgetUsdMicro.isNone && !values.clearCostBudget

/-- A column that a value sets and a flag clears. -/
def setOrClear {Value : Type} (value : Option Value) (clear : Bool) (current : Option Value) :
    Option Value :=
  match value with
  | some value => some value
  | none => if clear then none else current

/-- The columns that the UPDATE sets. -/
def AgentUpdate.set (values : AgentUpdate) (agent : Agent) : Agent :=
  { agent with
    name := values.name.getD agent.name
    persona := values.persona.getD agent.persona
    defaultModel := setOrClear values.defaultModel values.clearDefaultModel agent.defaultModel
    permissionMode := values.permissionMode.getD agent.permissionMode
    enabledTools := values.enabledTools.getD agent.enabledTools
    rateLimitPerMin :=
      setOrClear values.rateLimitPerMin values.clearRateLimit agent.rateLimitPerMin
    costBudgetUsdMicro :=
      setOrClear values.costBudgetUsdMicro values.clearCostBudget agent.costBudgetUsdMicro }

/-! ### The data of a user -/

/-- The entries of `agents_user_slug_unique`, that of `agents_one_default_per_user`, and
`users.default_agent_id`. -/
inductive Entry where
  | slug (slug : String)
  | oneDefault
  | defaultAgentId
  deriving DecidableEq

/-- The agents of a user, as they are committed or as a transaction sees them. -/
structure Snapshot where
  row : UUID → Option Agent
  entry : Entry → Option UUID

structure Database (Id : Type) where
  rows : Table Id UUID (Option Agent)
  entries : Table Id Entry (Option UUID)

namespace Database

variable {Id : Type}

/-- Committed data that nobody writes. -/
def still (snapshot : Snapshot) : Database Id where
  rows := Table.still snapshot.row
  entries := Table.still snapshot.entry

def committed (db : Database Id) : Snapshot where
  row := db.rows.committed
  entry := db.entries.committed

def writeRow (db : Database Id) (tx : Id) (id : UUID) (agent : Agent) : Database Id :=
  { db with rows := db.rows.write tx id (some agent) }

def writeEntry (db : Database Id) (tx : Id) (entry : Entry) (id : Option UUID) : Database Id :=
  { db with entries := db.entries.write tx entry id }

/-- No row, and nobody is inserting one. -/
def isFresh (db : Database Id) (id : UUID) : Bool :=
  (db.rows id).committed.isNone && (db.rows id).draft.isNone

variable [DecidableEq Id]

def view (db : Database Id) (tx : Id) : Snapshot where
  row := db.rows.view tx
  entry := db.entries.view tx

def commit (db : Database Id) (tx : Id) : Database Id where
  rows := db.rows.commit tx
  entries := db.entries.commit tx

def rollback (db : Database Id) (tx : Id) : Database Id where
  rows := db.rows.rollback tx
  entries := db.entries.rollback tx

def rowFree (db : Database Id) (tx : Id) (id : UUID) : Bool := (db.rows id).freeFor tx

def entryFree (db : Database Id) (tx : Id) (entry : Entry) : Bool := (db.entries entry).freeFor tx

end Database

/-! ### Requests -/

inductive Request where
  | listAgents
  | createAgent (args : AgentCreate)
  | updateAgent (id : UUID) (values : AgentUpdate)
  | archiveAgent (id : UUID)
  | setDefaultAgent (id : UUID)

inductive Failure where
  | notFound
  /-- `cannot archive the default agent` -/
  | isDefault
  | alreadyExists (slug : String)
  /-- An integrity error in `ensure_default`. -/
  | ensureDefault
  /-- An integrity error in `set_default`. -/
  | setDefault
  /-- Another error, or the client went away. -/
  | aborted

/-- Where a request stands. A listing or a creation ensures the default first; what is left to do
is to create an agent, or nothing. -/
inductive Phase where
  | idle
  | missing (rest : Option AgentCreate)
  | inserted (rest : Option AgentCreate) (id : UUID)
  | ensured (rest : Option AgentCreate)
  | archiving (id : UUID)
  | promoting (id : UUID)
  | demoting (id : UUID) (found : Option UUID)
  | demoted (id : UUID)
  | promoted (id : UUID)
  | answered
  | ended (result : Except Failure Unit)

section Statements

variable {Id : Type} [DecidableEq Id]

/-- What a statement leaves: the data and the phase of its request. -/
abbrev Outcome (Id : Type) := Database Id × Phase

/-- The request raises, and its transaction is rolled back. -/
def fail (db : Database Id) (tx : Id) (failure : Failure) : Outcome Id :=
  (db.rollback tx, .ended (.error failure))

/-- `get_default` -/
def getDefault (snapshot : Snapshot) : Option Agent :=
  match snapshot.entry .oneDefault with
  | some id => (snapshot.row id).filter fun agent => agent.archivedAt.isNone
  | none => none

/-- The SELECT of `ensure_default`. -/
def ensureDefault (db : Database Id) (tx : Id) (rest : Option AgentCreate) : Outcome Id :=
  match getDefault (db.view tx) with
  | some _ => (db, .ensured rest)
  | none => (db, .missing rest)

/-- The UPDATE of a row by its id, once the row is free. -/
def updateRow (db : Database Id) (tx : Id) (id : UUID) (patch : Agent → Agent)
    (missing : Outcome Id) : Option (Outcome Id) :=
  match (db.view tx).row id with
  | some agent =>
    if db.rowFree tx id then some (db.writeRow tx id (patch agent), .answered) else none
  | none => some missing

/-- The first statement of a request. -/
def start (db : Database Id) (tx : Id) : Request → Option (Outcome Id)
  | .listAgents => some (ensureDefault db tx none)
  | .createAgent args => some (ensureDefault db tx (some args))
  | .updateAgent id values =>
    if values.isEmpty then
      match (db.view tx).row id with
      | some _ => some (db, .answered)
      | none => some (fail db tx .notFound)
    else updateRow db tx id values.set (fail db tx .notFound)
  | .archiveAgent id =>
    match (db.view tx).row id with
    | some agent =>
      if agent.isDefault then some (fail db tx .isDefault) else some (db, .archiving id)
    | none => some (fail db tx .notFound)
  | .setDefaultAgent id =>
    match (db.view tx).row id with
    | some agent =>
      if agent.archivedAt.isSome then some (fail db tx .notFound) else some (db, .promoting id)
    | none => some (fail db tx .notFound)

/-- The INSERT of `ensure_default`. It waits for uncommitted entries of the indexes. -/
def insertDefault (db : Database Id) (tx : Id) (rest : Option AgentCreate) (fresh : UUID) :
    Option (Outcome Id) :=
  if db.isFresh fresh && db.entryFree tx (.slug defaultAgent.slug) &&
      db.entryFree tx .oneDefault then
    if (db.view tx).entry (.slug defaultAgent.slug) = none ∧
        (db.view tx).entry .oneDefault = none then
      some (((db.writeRow tx fresh (defaultAgent.row true)).writeEntry tx .oneDefault
        (some fresh)).writeEntry tx (.slug defaultAgent.slug) (some fresh), .inserted rest fresh)
    else some (fail db tx .ensureDefault)
  else none

/-- The UPDATE of the user's row. -/
def pointTo (db : Database Id) (tx : Id) (id : UUID) (next : Phase) : Option (Outcome Id) :=
  if db.entryFree tx .defaultAgentId then
    some (db.writeEntry tx .defaultAgentId (some id), next)
  else none

/-- The INSERT of `create_agent`. -/
def insertAgent (db : Database Id) (tx : Id) (args : AgentCreate) (fresh : UUID) :
    Option (Outcome Id) :=
  if db.isFresh fresh && db.entryFree tx (.slug args.slug) then
    if (db.view tx).entry (.slug args.slug) = none then
      some ((db.writeRow tx fresh (args.row false)).writeEntry tx (.slug args.slug) (some fresh),
        .answered)
    else some (fail db tx (.alreadyExists args.slug))
  else none

/-- The UPDATE that demotes the other default goes on with the row that it found, if that is free
and still is the default. -/
def demote (db : Database Id) (tx : Id) (id : UUID) : Option UUID → Option (Outcome Id)
  | none => some (db, .demoted id)
  | some found =>
    match (db.view tx).row found with
    | some agent =>
      if db.rowFree tx found then
        if agent.isDefault then
          if db.entryFree tx .oneDefault then
            some ((db.writeRow tx found { agent with isDefault := false }).writeEntry tx .oneDefault
              none, .demoted id)
          else none
        else some (db, .demoted id)
      else none
    | none => some (db, .demoted id)

/-- The UPDATE that promotes the agent. A row that is the default already keeps its entry. -/
def promote (db : Database Id) (tx : Id) (id : UUID) : Option (Outcome Id) :=
  match (db.view tx).row id with
  | some agent =>
    if db.rowFree tx id then
      if agent.isDefault then some (db.writeRow tx id agent, .promoted id)
      else if db.entryFree tx .oneDefault then
        if (db.view tx).entry .oneDefault = none then
          some ((db.writeRow tx id { agent with isDefault := true }).writeEntry tx .oneDefault
            (some id), .promoted id)
        else some (fail db tx .setDefault)
      else none
    else none
  | none => some (fail db tx .notFound)

/-- The next statement of a request. An INSERT takes a fresh id, an archive stamp the time. -/
def statement (db : Database Id) (tx : Id) (fresh : UUID) (now : Int) :
    Phase → Option (Outcome Id)
  | .missing rest => insertDefault db tx rest fresh
  | .inserted rest id => pointTo db tx id (.ensured rest)
  | .ensured none => some (db, .answered)
  | .ensured (some args) => insertAgent db tx args fresh
  | .archiving id =>
    updateRow db tx id (fun agent => { agent with archivedAt := some now }) (db, .answered)
  | .promoting id =>
    some (db, .demoting id (((db.view tx).entry .oneDefault).filter fun found => found ≠ id))
  | .demoting id found => demote db tx id found
  | .demoted id => promote db tx id
  | .promoted id => pointTo db tx id .answered
  | .idle | .answered | .ended _ => none

end Statements

/-! ### Interleaved requests -/

inductive Event (Id : Type) where
  | start (tx : Id) (request : Request)
  | statement (tx : Id) (fresh : UUID) (now : Int)
  | commit (tx : Id)
  | rollback (tx : Id)

structure State (Id : Type) where
  db : Database Id
  phase : Id → Phase

section System

variable {Id : Type}

/-- No request has started. -/
def State.initial (snapshot : Snapshot) : State Id where
  db := .still snapshot
  phase := fun _ => .idle

variable [DecidableEq Id]

def State.next (state : State Id) (tx : Id) (outcome : Outcome Id) : State Id where
  db := outcome.1
  phase := Function.update state.phase tx outcome.2

def step (state : State Id) : Event Id → Option (State Id)
  | .start tx request =>
    match state.phase tx with
    | .idle => (start state.db tx request).map (state.next tx)
    | _ => none
  | .statement tx fresh now =>
    (statement state.db tx fresh now (state.phase tx)).map (state.next tx)
  | .commit tx =>
    match state.phase tx with
    | .answered => some (state.next tx (state.db.commit tx, .ended (.ok ())))
    | _ => none
  | .rollback tx =>
    match state.phase tx with
    | .idle | .ended _ => none
    | _ => some (state.next tx (fail state.db tx .aborted))

end System

end LiteHorse.Repositories.Agents
