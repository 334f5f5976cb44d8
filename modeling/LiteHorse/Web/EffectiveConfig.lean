/-
This file models `EffectiveConfig` and `compute_effective_config`: the four resolved lists of a
user and their etag, computed from the tables, and the JSON form in which the cache keeps them.

`json.dumps` followed by `json.loads` gives an equal value back, so the cached text is modelled
by the value it was dumped from. `fromJson_toJson` says that the dataclasses come back from it;
only an empty ciphertext would be lost, and the resolver yields none
(`fromJson_toJson_compute`).
-/

import LiteHorse.Library.Base64
import LiteHorse.Repositories.Effective
import LiteHorse.Repositories.UserScope

namespace LiteHorse.Web

open Layers Python Repositories Sorting Versions

structure EffectiveConfig where
  skills : List ResolvedSkill
  instructions : List ResolvedInstruction
  commands : List ResolvedCommand
  mcpServers : List ResolvedMcpServer
  etag : String

def scopeName : Scope → String
  | .bundled => "bundled"
  | .official => "official"
  | .user => "user"

def scopeOfName (name : String) : Option Scope :=
  [Scope.bundled, .official, .user].find? fun scope => scopeName scope = name

/-- An optional value as JSON. -/
def jsonOf {Value : Type} (toJson : Value → Json) : Option Value → Json
  | some value => toJson value
  | none => .null

/-! ### The etag -/

/-- The payload that is hashed. -/
def etagPayload (skills : List ResolvedSkill) (instructions : List ResolvedInstruction)
    (commands : List ResolvedCommand) (mcpServers : List ResolvedMcpServer) : Json :=
  .object
    [("skills", .array (skills.map fun skill => .object
        [("slug", .str skill.slug), ("scope", .str (scopeName skill.scope)),
          ("body", .str skill.body)])),
      ("instructions", .array (instructions.map fun instruction => .object
        [("slug", .str instruction.slug), ("scope", .str (scopeName instruction.scope)),
          ("priority", .int instruction.priority), ("body", .str instruction.body),
          ("mandatory", .bool instruction.mandatory)])),
      ("commands", .array (commands.map fun command => .object
        [("slug", .str command.slug), ("scope", .str (scopeName command.scope)),
          ("prompt_tpl", .str command.promptTpl)])),
      ("mcp_servers", .array (mcpServers.map fun server => .object
        [("slug", .str server.slug), ("scope", .str (scopeName server.scope)),
          ("url", .str server.url), ("auth_header", jsonOf .str server.authHeader),
          ("enabled", .bool server.enabled)]))]

/-! ### The JSON form -/

def skillToDict (skill : ResolvedSkill) : Json :=
  .object
    [("slug", .str skill.slug), ("scope", .str (scopeName skill.scope)),
      ("description", .str skill.description), ("body", .str skill.body),
      ("frontmatter", .object skill.frontmatter),
      ("enabled_default", .bool skill.enabledDefault), ("mandatory", .bool skill.mandatory)]

def instructionToDict (instruction : ResolvedInstruction) : Json :=
  .object
    [("slug", .str instruction.slug), ("scope", .str (scopeName instruction.scope)),
      ("body", .str instruction.body), ("priority", .int instruction.priority),
      ("mandatory", .bool instruction.mandatory)]

def commandToDict (command : ResolvedCommand) : Json :=
  .object
    [("slug", .str command.slug), ("scope", .str (scopeName command.scope)),
      ("prompt_tpl", .str command.promptTpl), ("description", jsonOf .str command.description),
      ("arg_schema", jsonOf .object command.argSchema),
      ("bind_skills", .array (command.bindSkills.map .str))]

/-- `base64.b64encode(value).decode("ascii")` -/
def b64encode (value : ByteArray) : String := String.ofList (Base64.encode value.data.toList)

def mcpToDict (server : ResolvedMcpServer) : Json :=
  .object
    [("slug", .str server.slug), ("scope", .str (scopeName server.scope)),
      ("url", .str server.url), ("auth_header", jsonOf .str server.authHeader),
      ("auth_value_ct_b64", jsonOf (fun value => .str (b64encode value)) server.authValueCt),
      ("cache_tools_list", .bool server.cacheToolsList), ("enabled", .bool server.enabled),
      ("mandatory", .bool server.mandatory), ("user_id", jsonOf .str server.userId)]

def EffectiveConfig.toJson (config : EffectiveConfig) : Json :=
  .object
    [("skills", .array (config.skills.map skillToDict)),
      ("instructions", .array (config.instructions.map instructionToDict)),
      ("commands", .array (config.commands.map commandToDict)),
      ("mcp_servers", .array (config.mcpServers.map mcpToDict)),
      ("etag", .str config.etag)]

/-- `data[key]`, and `data.get(key)` where a missing key is no error. -/
def field (key : String) : Json → Option Json
  | .object fields => getField fields key
  | _ => none

def asStr : Json → Option String
  | .str value => some value
  | _ => none

def asBool : Json → Option Bool
  | .bool value => some value
  | _ => none

def asInt : Json → Option Int
  | .int value => some value
  | _ => none

def asArray : Json → Option (List Json)
  | .array items => some items
  | _ => none

def asObject : Json → Option (List (String × Json))
  | .object fields => some fields
  | _ => none

/-- `data.get(key)`: `None` for a missing key and for a null. -/
def optional {Value : Type} (read : Json → Option Value) (key : String) (data : Json) :
    Option (Option Value) :=
  match field key data with
  | none | some .null => some none
  | some value => (read value).map some

def b64decode (text : String) : Option ByteArray :=
  (Base64.decode text.toList).map fun bytes => ⟨bytes.toArray⟩

def skillFromDict (data : Json) : Option ResolvedSkill := do
  let slug ← (field "slug" data).bind asStr
  let scope ← ((field "scope" data).bind asStr).bind scopeOfName
  let description ← (field "description" data).bind asStr
  let body ← (field "body" data).bind asStr
  let frontmatter ← (field "frontmatter" data).bind asObject
  let enabledDefault ← (field "enabled_default" data).bind asBool
  let mandatory ← (field "mandatory" data).bind asBool
  some { slug, scope, description, body, frontmatter, enabledDefault, mandatory }

def instructionFromDict (data : Json) : Option ResolvedInstruction := do
  let slug ← (field "slug" data).bind asStr
  let scope ← ((field "scope" data).bind asStr).bind scopeOfName
  let body ← (field "body" data).bind asStr
  let priority ← (field "priority" data).bind asInt
  let mandatory ← (field "mandatory" data).bind asBool
  some { slug, scope, body, priority, mandatory }

def commandFromDict (data : Json) : Option ResolvedCommand := do
  let slug ← (field "slug" data).bind asStr
  let scope ← ((field "scope" data).bind asStr).bind scopeOfName
  let promptTpl ← (field "prompt_tpl" data).bind asStr
  let description ← optional asStr "description" data
  let argSchema ← optional asObject "arg_schema" data
  let bindSkills ← optional (fun value => (asArray value).bind (List.mapM asStr)) "bind_skills" data
  some { slug, scope, promptTpl, description, argSchema, bindSkills := bindSkills.getD [] }

/-- The text of a ciphertext is decoded unless it is empty. -/
def mcpFromDict (data : Json) : Option ResolvedMcpServer := do
  let raw ← optional asStr "auth_value_ct_b64" data
  let slug ← (field "slug" data).bind asStr
  let scope ← ((field "scope" data).bind asStr).bind scopeOfName
  let url ← (field "url" data).bind asStr
  let authHeader ← optional asStr "auth_header" data
  let authValueCt ←
    match raw.filter (· ≠ "") with
    | some text => (b64decode text).map some
    | none => some none
  let cacheToolsList ← (field "cache_tools_list" data).bind asBool
  let enabled ← (field "enabled" data).bind asBool
  let mandatory ← (field "mandatory" data).bind asBool
  let userId ← optional asStr "user_id" data
  some { slug, scope, url, authHeader, authValueCt, cacheToolsList, enabled, mandatory, userId }

def EffectiveConfig.fromJson (data : Json) : Option EffectiveConfig := do
  let skills ← ((field "skills" data).bind asArray).bind (List.mapM skillFromDict)
  let instructions ←
    ((field "instructions" data).bind asArray).bind (List.mapM instructionFromDict)
  let commands ← ((field "commands" data).bind asArray).bind (List.mapM commandFromDict)
  let mcpServers ← ((field "mcp_servers" data).bind asArray).bind (List.mapM mcpFromDict)
  let etag ← (field "etag" data).bind asStr
  some { skills, instructions, commands, mcpServers, etag }

/-! ### The dataclasses come back from their JSON form -/

theorem mapM_map {Value Text : Type} {write : Value → Text} {read : Text → Option Value}
    {values : List Value} (reads : ∀ value ∈ values, read (write value) = some value) :
    (values.map write).mapM read = some values := by
  induction values with
  | nil => rfl
  | cons value rest inductionHypothesis =>
    rw [List.map_cons, List.mapM_cons, reads value List.mem_cons_self,
      inductionHypothesis fun other member => reads other (List.mem_cons_of_mem _ member)]
    rfl

theorem skillFromDict_skillToDict (skill : ResolvedSkill) :
    skillFromDict (skillToDict skill) = some skill := by
  obtain ⟨slug, scope, _, _, _, _, _⟩ := skill
  cases scope <;> rfl

theorem instructionFromDict_instructionToDict (instruction : ResolvedInstruction) :
    instructionFromDict (instructionToDict instruction) = some instruction := by
  obtain ⟨slug, scope, _, _, _⟩ := instruction
  cases scope <;> rfl

theorem commandFromDict_commandToDict (command : ResolvedCommand) :
    commandFromDict (commandToDict command) = some command := by
  obtain ⟨slug, scope, promptTpl, description, argSchema, bindSkills⟩ := command
  have skills : List.mapM asStr (bindSkills.map Json.str) = some bindSkills :=
    mapM_map fun _ _ => rfl
  have bound : optional (fun value => (asArray value).bind (List.mapM asStr)) "bind_skills"
      (commandToDict ⟨slug, scope, promptTpl, description, argSchema, bindSkills⟩) =
        some (some bindSkills) := by
    show ((List.mapM asStr (bindSkills.map Json.str)).map some) = _
    rw [skills]
    rfl
  unfold commandFromDict
  rw [bound]
  cases scope <;> cases description <;> cases argSchema <;> rfl

theorem b64decode_b64encode (value : ByteArray) : b64decode (b64encode value) = some value := by
  unfold b64decode b64encode
  rw [String.toList_ofList, Base64.decode_encode, Option.map_some]

theorem b64encode_ne_empty {value : ByteArray} (notEmpty : value.isEmpty = false) :
    b64encode value ≠ "" := by
  intro same
  have decoded := b64decode_b64encode value
  rw [same] at decoded
  have isEmpty : value = ⟨#[]⟩ := (Option.some.inj decoded).symm
  rw [isEmpty] at notEmpty
  cases notEmpty

theorem mcpFromDict_mcpToDict (server : ResolvedMcpServer)
    (notEmpty : ∀ value, server.authValueCt = some value → value.isEmpty = false) :
    mcpFromDict (mcpToDict server) = some server := by
  obtain ⟨slug, scope, url, authHeader, authValueCt, cacheToolsList, enabled, mandatory, userId⟩ :=
    server
  cases authValueCt with
  | none => cases scope <;> cases authHeader <;> cases userId <;> rfl
  | some value =>
    have raw : optional asStr "auth_value_ct_b64"
        (mcpToDict ⟨slug, scope, url, authHeader, some value, cacheToolsList, enabled, mandatory,
          userId⟩) = some (some (b64encode value)) := rfl
    unfold mcpFromDict
    rw [raw, Option.bind_eq_bind, Option.bind_some, Option.filter_some,
      if_pos (decide_eq_true (b64encode_ne_empty (notEmpty value rfl)))]
    simp only [b64decode_b64encode]
    cases scope <;> cases authHeader <;> cases userId <;> rfl

/-- A config whose ciphertexts are not empty comes back from its JSON form. -/
theorem fromJson_toJson (config : EffectiveConfig)
    (notEmpty : ∀ server ∈ config.mcpServers, ∀ value, server.authValueCt = some value →
      value.isEmpty = false) :
    EffectiveConfig.fromJson config.toJson = some config := by
  have skills : (config.skills.map skillToDict).mapM skillFromDict = some config.skills :=
    mapM_map fun skill _ => skillFromDict_skillToDict skill
  have instructions : (config.instructions.map instructionToDict).mapM instructionFromDict =
      some config.instructions :=
    mapM_map fun instruction _ => instructionFromDict_instructionToDict instruction
  have commands : (config.commands.map commandToDict).mapM commandFromDict =
      some config.commands :=
    mapM_map fun command _ => commandFromDict_commandToDict command
  have servers : (config.mcpServers.map mcpToDict).mapM mcpFromDict = some config.mcpServers :=
    mapM_map fun server member => mcpFromDict_mcpToDict server (notEmpty server member)
  show (((config.skills.map skillToDict).mapM skillFromDict).bind fun skills =>
    ((config.instructions.map instructionToDict).mapM instructionFromDict).bind fun instructions =>
      ((config.commands.map commandToDict).mapM commandFromDict).bind fun commands =>
        ((config.mcpServers.map mcpToDict).mapM mcpFromDict).bind fun mcpServers =>
          some (EffectiveConfig.mk skills instructions commands mcpServers config.etag)) = _
  rw [skills, instructions, commands, servers]
  rfl

/-! ### The config of a user -/

/-- The rows of the layered tables and of the opt-outs, by scope and user; of the official cron
jobs the slug and whether it is mandatory. -/
structure ConfigTables where
  officials : (entity : Entity) → List (Row String (versionedRepo entity).Content)
  users : (entity : Entity) → String → List (UserRow (versionedRepo entity).Content)
  cronOfficials : List (String × Bool)
  optOuts : String → List (String × String)

/-- The tiers that ship with the image. -/
structure BundledTiers where
  skills : List BundledSkill
  instructions : List BundledInstruction
  commands : List BundledCommand

/-- `list_user`: the current rows of the user, by slug. -/
def listUser {Content : Type} (rows : List (UserRow Content)) : List (Row String Content) :=
  sortedBy Row.name ((rows.map UserRow.row).filter Row.isCurrent)

/-- The current instructions of a tier, by priority and slug. -/
def instructionsInOrder (rows : List (Row String Instruction)) : List (Row String Instruction) :=
  sortedBy (fun row => toLex (row.content.priority, row.name)) (rows.filter Row.isCurrent)

section Compute

variable (isPrintable : Char → Bool) (digest : Json → String) (bundled : BundledTiers)

/-- `EffectiveConfig.build`; the digest is the start of the SHA-256 of the payload's text. -/
def EffectiveConfig.build (skills : List ResolvedSkill) (instructions : List ResolvedInstruction)
    (commands : List ResolvedCommand) (mcpServers : List ResolvedMcpServer) : EffectiveConfig where
  skills := skills
  instructions := instructions
  commands := commands
  mcpServers := mcpServers
  etag := digest (etagPayload skills instructions commands mcpServers)

/-- The slugs of an entity that the user has opted out of. -/
def optOutSlugs (tables : ConfigTables) (userId entity : String) : List String :=
  ((tables.optOuts userId).filter fun optOut => optOut.1 = entity).map Prod.snd

/-- The four `list_effective` calls. -/
def effectiveLists (userId : String) (tables : ConfigTables) :
    List ResolvedSkill × List ResolvedInstruction × List ResolvedCommand ×
      List ResolvedMcpServer :=
  (SkillRepo.listEffective isPrintable (optOutSlugs tables userId "skill")
      (listOfficial (tables.officials .skills)) (listUser (tables.users .skills userId))
      bundled.skills,
    InstructionRepo.listEffective (optOutSlugs tables userId "instruction")
      (instructionsInOrder (tables.officials .instructions))
      (instructionsInOrder ((tables.users .instructions userId).map UserRow.row))
      bundled.instructions,
    CommandRepo.listEffective (optOutSlugs tables userId "command")
      (listOfficial (tables.officials .commands)) (listUser (tables.users .commands userId))
      bundled.commands,
    McpRepo.listEffective userId (optOutSlugs tables userId "mcp_server")
      (listOfficial (tables.officials .mcpServers)) (listUser (tables.users .mcpServers userId)))

def computeEffectiveConfig (userId : String) (tables : ConfigTables) : EffectiveConfig :=
  let (skills, instructions, commands, mcpServers) :=
    effectiveLists isPrintable bundled userId tables
  EffectiveConfig.build digest skills instructions commands mcpServers

variable {isPrintable digest bundled}

/-- What the resolver yields comes back from its JSON form. -/
theorem fromJson_toJson_compute (userId : String) (tables : ConfigTables) :
    EffectiveConfig.fromJson
        (computeEffectiveConfig isPrintable digest bundled userId tables).toJson =
      some (computeEffectiveConfig isPrintable digest bundled userId tables) := by
  refine fromJson_toJson _ fun server member value isValue => ?_
  have kept : ∀ server ∈ McpRepo.listEffective userId (optOutSlugs tables userId "mcp_server")
      (listOfficial (tables.officials .mcpServers)) (listUser (tables.users .mcpServers userId)),
      ∀ value, server.authValueCt = some value → value.isEmpty = false := by
    intro server member
    refine forall_mem_listEffective (mcpResolver userId)
      (fun server => ∀ value, server.authValueCt = some value → value.isEmpty = false)
      (fun none => none.elim) (fun row value isValue => ?_) (fun row value isValue => ?_) member
    · exact Bool.not_eq_true' .. ▸ (Option.filter_eq_some_iff.mp isValue).2
    · exact Bool.not_eq_true' .. ▸ (Option.filter_eq_some_iff.mp isValue).2
  exact kept server member value isValue

/-- The config is as good as its lists. -/
theorem computeEffectiveConfig_eq_iff (userId : String) (tables other : ConfigTables) :
    computeEffectiveConfig isPrintable digest bundled userId tables =
        computeEffectiveConfig isPrintable digest bundled userId other ↔
      effectiveLists isPrintable bundled userId tables =
        effectiveLists isPrintable bundled userId other := by
  constructor
  · intro same
    have skills := congrArg EffectiveConfig.skills same
    have instructions := congrArg EffectiveConfig.instructions same
    have commands := congrArg EffectiveConfig.commands same
    have servers := congrArg EffectiveConfig.mcpServers same
    exact Prod.ext skills (Prod.ext instructions (Prod.ext commands servers))
  · intro same
    unfold computeEffectiveConfig
    rw [same]

end Compute

end LiteHorse.Web
