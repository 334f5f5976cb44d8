/-
This file models the writes of the `/v1/users/me` routes that a user's config is made of: the
user-scope skills, instructions, commands and MCP servers, and the opt-outs. A request is one
transaction, so a route that fails leaves the tables as they were.
-/

import LiteHorse.Web.EffectiveConfig

namespace LiteHorse.Web

open Python Repositories Versions

inductive ErrorKind where
  | notFound
  | conflict
  | unprocessable
  deriving DecidableEq

/-- What a route raises: an `http_error`, or an exception that it does not catch. -/
inductive RouteError where
  | http (kind : ErrorKind) (message : String)
  | uncaught (error : Versions.Error)

deriving instance DecidableEq for Entity

/-- The name of an entity in messages, opt-outs and `_MANDATORY_LOOKUP`. -/
def entityName : Entity → String
  | .skills => "skill"
  | .instructions => "instruction"
  | .commands => "command"
  | .mcpServers => "mcp_server"

def mandatoryOf : (entity : Entity) → (versionedRepo entity).Content → Bool
  | .skills => Skill.mandatory
  | .instructions => Instruction.mandatory
  | .commands => Command.mandatory
  | .mcpServers => McpServer.mandatory

namespace ConfigTables

def setUsers (tables : ConfigTables) (entity : Entity) (userId : String)
    (rows : List (UserRow (versionedRepo entity).Content)) : ConfigTables :=
  { tables with
    users := Function.update tables.users entity
      (Function.update (tables.users entity) userId rows) }

def setOptOuts (tables : ConfigTables) (userId : String) (optOuts : List (String × String)) :
    ConfigTables :=
  { tables with optOuts := Function.update tables.optOuts userId optOuts }

end ConfigTables

section Routes

variable (isPrintable : Char → Bool) (userId : String) (tables : ConfigTables)

/-! ### The layered entities -/

/-- A `POST` of a user row. -/
def createRow (entity : Entity) (slug : String) (args : (userRepo entity).CreateArgs) :
    Except RouteError ConfigTables :=
  match createUser (userRepo entity) userId (tables.users entity userId) slug args with
  | .ok rows => .ok (tables.setUsers entity userId rows)
  | .error _ =>
    .error (.http .conflict
      (entityName entity ++ " " ++ reprString isPrintable slug ++ " already exists"))

def notFound (entity : Entity) (slug : String) : RouteError :=
  .http .notFound (entityName entity ++ " " ++ reprString isPrintable slug ++ " not found")

/-- A `PUT` of a user row. -/
def updateRow (entity : Entity) (slug : String) (args : (userRepo entity).UpdateArgs) :
    Except RouteError ConfigTables :=
  match updateUser (userRepo entity) userId (tables.users entity userId) slug args with
  | .ok (some rows) => .ok (tables.setUsers entity userId rows)
  | .ok none => .error (notFound isPrintable entity slug)
  | .error error => .error (.uncaught error)

/-- A `DELETE` of a user row. -/
def deleteRow (entity : Entity) (slug : String) : Except RouteError ConfigTables :=
  match deleteUser (tables.users entity userId) slug with
  | some rows => .ok (tables.setUsers entity userId rows)
  | none => .error (notFound isPrintable entity slug)

def createSkill (slug : String) (body : SkillCreateUser) :=
  createRow isPrintable userId tables .skills slug body

def updateSkill (slug : String) (body : SkillUpdateUser) :=
  updateRow isPrintable userId tables .skills slug body

def deleteSkill (slug : String) := deleteRow isPrintable userId tables .skills slug

def createInstruction (slug : String) (body : InstructionCreateUser) :=
  createRow isPrintable userId tables .instructions slug body

def updateInstruction (slug : String) (body : InstructionUpdateUser) :=
  updateRow isPrintable userId tables .instructions slug body

def deleteInstruction (slug : String) := deleteRow isPrintable userId tables .instructions slug

def createCommand (slug : String) (body : CommandCreateUser) :=
  createRow isPrintable userId tables .commands slug body

def updateCommand (slug : String) (body : CommandUpdateUser) :=
  updateRow isPrintable userId tables .commands slug body

def deleteCommand (slug : String) := deleteRow isPrintable userId tables .commands slug

def createMcp (slug : String) (body : McpCreateUser) :=
  createRow isPrintable userId tables .mcpServers slug body

def updateMcp (slug : String) (body : McpUpdateUser) :=
  updateRow isPrintable userId tables .mcpServers slug body

def deleteMcp (slug : String) := deleteRow isPrintable userId tables .mcpServers slug

/-! ### Opt-outs -/

/-- `_is_mandatory_official` -/
def isMandatoryOfficial (entity slug : String) : Except Versions.Error Bool :=
  match [Entity.skills, .instructions, .commands, .mcpServers].find? (entityName · = entity) with
  | some entity =>
    (scalarOneOrNone ((tables.officials entity).filter (Row.currentOf slug))).map
      fun row => row.any fun official => mandatoryOf entity official.content
  | none =>
    if entity = "cron_job" then
      (scalarOneOrNone (tables.cronOfficials.filter fun official => official.1 = slug)).map
        fun row => row.any Prod.snd
    else .ok false

def addOptOut (entity slug : String) : Except RouteError ConfigTables :=
  if entity ∉ validEntities then
    .error (.http .conflict ("invalid opt-out entity: " ++ reprString isPrintable entity))
  else
    match isMandatoryOfficial tables entity slug with
    | .error error => .error (.uncaught error)
    | .ok true =>
      .error (.http .unprocessable (entity ++ ":" ++ reprString isPrintable slug ++
        " is mandatory and cannot be opted out"))
    | .ok false =>
      .ok (tables.setOptOuts userId (OptOutRepo.add (tables.optOuts userId) entity slug))

def removeOptOut (entity slug : String) : Except RouteError ConfigTables :=
  if entity ∉ validEntities then
    .error (.http .notFound ("invalid opt-out entity: " ++ reprString isPrintable entity))
  else
    match OptOutRepo.remove (tables.optOuts userId) entity slug with
    | some optOuts => .ok (tables.setOptOuts userId optOuts)
    | none =>
      .error (.http .notFound ("opt-out for " ++ entity ++ ":" ++ reprString isPrintable slug ++
        " not found"))

end Routes

/-! ### The writes as one type -/

inductive UserWrite where
  | createSkill (slug : String) (body : SkillCreateUser)
  | updateSkill (slug : String) (body : SkillUpdateUser)
  | deleteSkill (slug : String)
  | createInstruction (slug : String) (body : InstructionCreateUser)
  | updateInstruction (slug : String) (body : InstructionUpdateUser)
  | deleteInstruction (slug : String)
  | createCommand (slug : String) (body : CommandCreateUser)
  | updateCommand (slug : String) (body : CommandUpdateUser)
  | deleteCommand (slug : String)
  | createMcp (slug : String) (body : McpCreateUser)
  | updateMcp (slug : String) (body : McpUpdateUser)
  | deleteMcp (slug : String)
  | addOptOut (entity slug : String)
  | removeOptOut (entity slug : String)

def userWrite (isPrintable : Char → Bool) (userId : String) (tables : ConfigTables) :
    UserWrite → Except RouteError ConfigTables
  | .createSkill slug body => createSkill isPrintable userId tables slug body
  | .updateSkill slug body => updateSkill isPrintable userId tables slug body
  | .deleteSkill slug => deleteSkill isPrintable userId tables slug
  | .createInstruction slug body => createInstruction isPrintable userId tables slug body
  | .updateInstruction slug body => updateInstruction isPrintable userId tables slug body
  | .deleteInstruction slug => deleteInstruction isPrintable userId tables slug
  | .createCommand slug body => createCommand isPrintable userId tables slug body
  | .updateCommand slug body => updateCommand isPrintable userId tables slug body
  | .deleteCommand slug => deleteCommand isPrintable userId tables slug
  | .createMcp slug body => createMcp isPrintable userId tables slug body
  | .updateMcp slug body => updateMcp isPrintable userId tables slug body
  | .deleteMcp slug => deleteMcp isPrintable userId tables slug
  | .addOptOut entity slug => addOptOut isPrintable userId tables entity slug
  | .removeOptOut entity slug => removeOptOut isPrintable userId tables entity slug

/-- The tables after the request: one that fails is rolled back. -/
def tablesAfter (isPrintable : Char → Bool) (userId : String) (tables : ConfigTables)
    (write : UserWrite) : ConfigTables :=
  match userWrite isPrintable userId tables write with
  | .ok next => next
  | .error _ => tables

end LiteHorse.Web
