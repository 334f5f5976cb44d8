/-
This file models `EffectiveConfig.to_json` and `from_json` on the texts themselves: a config is
written with sorted keys, within the limits of the interpreter, and read back from its text.

Texts are sequences of code points, surrogates included, and the frontmatters and argument
schemas are arbitrary dictionaries. The main result is `comesBack_iff`, which says for which
configs the text comes back as an equal config. A ciphertext of no bytes is written as the empty
text, which `from_json` takes for a missing one.
-/

import LiteHorse.Library.Base64
import LiteHorse.Library.JsonSorted
import LiteHorse.Repositories.Effective
import LiteHorse.Worker.Runner

namespace LiteHorse.Web.ConfigText

open JsonTexts
open Repositories (Scope)
open Sorting Worker.Queue

variable {Finite : Type}

/-! ### The dataclasses -/

/-- A dictionary, as its fields in the order in which they were set. -/
abbrev Dict (Finite : Type) := List (Text × Json Finite)

structure ResolvedSkill (Finite : Type) where
  slug : Text
  scope : Scope
  description : Text
  body : Text
  frontmatter : Dict Finite
  enabledDefault : Bool
  mandatory : Bool

structure ResolvedInstruction where
  slug : Text
  scope : Scope
  body : Text
  priority : Int
  mandatory : Bool

structure ResolvedCommand (Finite : Type) where
  slug : Text
  scope : Scope
  promptTpl : Text
  description : Option Text
  argSchema : Option (Dict Finite)
  bindSkills : List Text

structure ResolvedMcpServer where
  slug : Text
  scope : Scope
  url : Text
  authHeader : Option Text
  authValueCt : Option (List UInt8)
  cacheToolsList : Bool
  enabled : Bool
  mandatory : Bool
  userId : Option Text

/-- The four lists that `EffectiveConfig.build` takes. -/
structure ResolvedLists (Finite : Type) where
  skills : List (ResolvedSkill Finite)
  instructions : List ResolvedInstruction
  commands : List (ResolvedCommand Finite)
  mcpServers : List ResolvedMcpServer

structure EffectiveConfig (Finite : Type) extends ResolvedLists Finite where
  etag : Text

/-! ### Writing -/

def scopeText : Scope → Text
  | .bundled => text "bundled"
  | .official => text "official"
  | .user => text "user"

/-- An optional value, with `None` as null. -/
def orNull {Value : Type} (toData : Value → Json Finite) : Option Value → Json Finite
  | some value => toData value
  | none => .null

def skillToDict (skill : ResolvedSkill Finite) : Json Finite :=
  .object [(text "slug", .str skill.slug), (text "scope", .str (scopeText skill.scope)),
    (text "description", .str skill.description), (text "body", .str skill.body),
    (text "frontmatter", .object skill.frontmatter),
    (text "enabled_default", .bool skill.enabledDefault),
    (text "mandatory", .bool skill.mandatory)]

def instructionToDict (instruction : ResolvedInstruction) : Json Finite :=
  .object [(text "slug", .str instruction.slug),
    (text "scope", .str (scopeText instruction.scope)), (text "body", .str instruction.body),
    (text "priority", .int instruction.priority), (text "mandatory", .bool instruction.mandatory)]

def commandToDict (command : ResolvedCommand Finite) : Json Finite :=
  .object [(text "slug", .str command.slug), (text "scope", .str (scopeText command.scope)),
    (text "prompt_tpl", .str command.promptTpl),
    (text "description", orNull .str command.description),
    (text "arg_schema", orNull .object command.argSchema),
    (text "bind_skills", .array (command.bindSkills.map .str))]

/-- `base64.b64encode(value).decode("ascii")` -/
def b64encode (value : List UInt8) : Text := (Base64.encode value).map codePoint

def mcpToDict (server : ResolvedMcpServer) : Json Finite :=
  .object [(text "slug", .str server.slug), (text "scope", .str (scopeText server.scope)),
    (text "url", .str server.url), (text "auth_header", orNull .str server.authHeader),
    (text "auth_value_ct_b64", orNull (fun value => .str (b64encode value)) server.authValueCt),
    (text "cache_tools_list", .bool server.cacheToolsList), (text "enabled", .bool server.enabled),
    (text "mandatory", .bool server.mandatory), (text "user_id", orNull .str server.userId)]

def EffectiveConfig.toData (config : EffectiveConfig Finite) : Json Finite :=
  .object [(text "skills", .array (config.skills.map skillToDict)),
    (text "instructions", .array (config.instructions.map instructionToDict)),
    (text "commands", .array (config.commands.map commandToDict)),
    (text "mcp_servers", .array (config.mcpServers.map mcpToDict)),
    (text "etag", .str config.etag)]

/-- `json.dumps(value, sort_keys=True)`; `none` where it raises. -/
def dumpsSorted (interpreter : Interpreter Finite) (value : Json Finite) : Option Text :=
  if value.depth ≤ interpreter.encoderDepth ∧ longestInt value ≤ interpreter.maxStrDigits then
    some (value.sortKeys.dumpsSpaced interpreter.format)
  else none

def EffectiveConfig.toJson (interpreter : Interpreter Finite) (config : EffectiveConfig Finite) :
    Option Text :=
  dumpsSorted interpreter config.toData

/-! ### Reading

The source keeps whatever value it finds in a field; here a value of another type than the
dataclass declares is a `TypeError`.
-/

def asText : Json Finite → Except PyError Text
  | .str value => .ok value
  | .null | .bool _ | .int _ | .float _ | .array _ | .object _ => .error .typeError

def asScope (value : Json Finite) : Except PyError Scope := do
  let name ← asText value
  if name = text "bundled" then return .bundled
  else if name = text "official" then return .official
  else if name = text "user" then return .user
  else throw .typeError

def asBool : Json Finite → Except PyError Bool
  | .bool value => .ok value
  | .null | .int _ | .float _ | .str _ | .array _ | .object _ => .error .typeError

def asInt : Json Finite → Except PyError Int
  | .int value => .ok value
  | .null | .bool _ | .float _ | .str _ | .array _ | .object _ => .error .typeError

def asDict : Json Finite → Except PyError (Dict Finite)
  | .object fields => .ok fields
  | .null | .bool _ | .int _ | .float _ | .str _ | .array _ => .error .typeError

/-- `None` for a missing field and for a null. -/
def optional {Value : Type} (read : Json Finite → Except PyError Value) :
    Option (Json Finite) → Except PyError (Option Value)
  | none | some .null => .ok none
  | some value => (read value).map some

/-- The character of a code point, if it is no surrogate. -/
def charOf (char : CodePoint) : Option Char :=
  if valid : char.val.isValidChar then some (Char.ofNatAux char.val valid) else none

/-- `base64.b64decode(value)`, of texts that `b64encode` makes. -/
def b64decode (value : Text) : Except PyError (List UInt8) :=
  ((value.mapM charOf).bind Base64.decode).elim (.error .valueError) .ok

section Read

variable (interpreter : Interpreter Finite)

def skillFromDict (data : Json Finite) : Except PyError (ResolvedSkill Finite) := do
  return {
    slug := ← asText (← item data (text "slug"))
    scope := ← asScope (← item data (text "scope"))
    description := ← asText (← item data (text "description"))
    body := ← asText (← item data (text "body"))
    frontmatter := ← asDict (← item data (text "frontmatter"))
    enabledDefault := ← asBool (← item data (text "enabled_default"))
    mandatory := ← asBool (← item data (text "mandatory")) }

def instructionFromDict (data : Json Finite) : Except PyError ResolvedInstruction := do
  return {
    slug := ← asText (← item data (text "slug"))
    scope := ← asScope (← item data (text "scope"))
    body := ← asText (← item data (text "body"))
    priority := ← asInt (← item data (text "priority"))
    mandatory := ← asBool (← item data (text "mandatory")) }

def commandFromDict (data : Json Finite) : Except PyError (ResolvedCommand Finite) := do
  return {
    slug := ← asText (← item data (text "slug"))
    scope := ← asScope (← item data (text "scope"))
    promptTpl := ← asText (← item data (text "prompt_tpl"))
    description := ← optional asText (← get data (text "description"))
    argSchema := ← optional asDict (← get data (text "arg_schema"))
    bindSkills := ← (← Interpreter.list
      (interpreter.orElse (← get data (text "bind_skills")) (.array []))).mapM asText }

/-- `base64.b64decode(raw) if raw else None` -/
def authValueOf (raw : Option (Json Finite)) : Except PyError (Option (List UInt8)) :=
  match raw with
  | some value =>
    if truthy interpreter.isZero value then do return some (← b64decode (← asText value))
    else .ok none
  | none => .ok none

def mcpFromDict (data : Json Finite) : Except PyError ResolvedMcpServer := do
  let raw ← get data (text "auth_value_ct_b64")
  return {
    slug := ← asText (← item data (text "slug"))
    scope := ← asScope (← item data (text "scope"))
    url := ← asText (← item data (text "url"))
    authHeader := ← optional asText (← get data (text "auth_header"))
    authValueCt := ← authValueOf interpreter raw
    cacheToolsList := ← asBool (← item data (text "cache_tools_list"))
    enabled := ← asBool (← item data (text "enabled"))
    mandatory := ← asBool (← item data (text "mandatory"))
    userId := ← optional asText (← get data (text "user_id")) }

/-- `[read(value) for value in data[key]]` -/
def listOf {Value : Type} (read : Json Finite → Except PyError Value) (data : Json Finite)
    (key : Text) : Except PyError (List Value) := do
  let values ← Interpreter.list (← item data key)
  values.mapM read

def EffectiveConfig.ofData (data : Json Finite) : Except PyError (EffectiveConfig Finite) := do
  return {
    skills := ← listOf skillFromDict data (text "skills")
    instructions := ← listOf instructionFromDict data (text "instructions")
    commands := ← listOf (commandFromDict interpreter) data (text "commands")
    mcpServers := ← listOf (mcpFromDict interpreter) data (text "mcp_servers")
    etag := ← asText (← item data (text "etag")) }

def EffectiveConfig.fromJson (blob : Text) : Except PyError (EffectiveConfig Finite) := do
  let data ← interpreter.loads blob
  EffectiveConfig.ofData interpreter data

end Read

/-! ### What is read back -/

/-- The dictionary that is read back. -/
def backDict (fields : Dict Finite) : Dict Finite :=
  (rejoinFields (sortedBy Prod.fst (sortFields fields))).foldl
    (fun fields field => setField fields field.1 field.2) []

def ResolvedSkill.back (skill : ResolvedSkill Finite) : ResolvedSkill Finite :=
  { skill with
    slug := rejoinText skill.slug
    description := rejoinText skill.description
    body := rejoinText skill.body
    frontmatter := backDict skill.frontmatter }

def ResolvedInstruction.back (instruction : ResolvedInstruction) : ResolvedInstruction :=
  { instruction with
    slug := rejoinText instruction.slug
    body := rejoinText instruction.body }

def ResolvedCommand.back (command : ResolvedCommand Finite) : ResolvedCommand Finite :=
  { command with
    slug := rejoinText command.slug
    promptTpl := rejoinText command.promptTpl
    description := command.description.map rejoinText
    argSchema := command.argSchema.map backDict
    bindSkills := command.bindSkills.map rejoinText }

/-- An empty ciphertext is lost. -/
def ResolvedMcpServer.back (server : ResolvedMcpServer) : ResolvedMcpServer :=
  { server with
    slug := rejoinText server.slug
    url := rejoinText server.url
    authHeader := server.authHeader.map rejoinText
    authValueCt := server.authValueCt.filter (· ≠ [])
    userId := server.userId.map rejoinText }

def EffectiveConfig.back (config : EffectiveConfig Finite) : EffectiveConfig Finite where
  skills := config.skills.map ResolvedSkill.back
  instructions := config.instructions.map ResolvedInstruction.back
  commands := config.commands.map ResolvedCommand.back
  mcpServers := config.mcpServers.map ResolvedMcpServer.back
  etag := rejoinText config.etag

/-- The keys are literals, no two of them equal. -/
def LiteralKeys (fields : Dict Finite) : Prop :=
  ∃ names : List String, fields.map Prod.fst = names.map text ∧ (names.map text).Nodup

theorem lookup_back {fields : Dict Finite} (literal : LiteralKeys fields) (key : Text) :
    (backDict fields).lookup key =
      (fields.lookup key).map fun value => value.sortKeys.rejoin := by
  obtain ⟨names, areKeys, distinct⟩ := literal
  have unsplit : ∀ field ∈ fields, NoSplitPair field.1 := by
    intro field member
    have isKey : field.1 ∈ names.map text := areKeys ▸ List.mem_map_of_mem member
    obtain ⟨name, _, isName⟩ := List.mem_map.mp isKey
    exact isName ▸ noSplitPair_text name
  obtain ⟨back, isBack, found⟩ := lookup_rejoin (areKeys ▸ distinct) unsplit
  rw [← found key]
  exact congrArg (List.lookup key) (Json.object.inj isBack)

theorem item_back {fields : Dict Finite} (literal : LiteralKeys fields) (key : Text) :
    item (Json.object fields).sortKeys.rejoin key =
      (item (.object fields) key).map fun value => value.sortKeys.rejoin := by
  show ((backDict fields).lookup key).elim _ _ = _
  rw [lookup_back literal, item]
  cases fields.lookup key with
  | none => rfl
  | some value => rfl

theorem get_back {fields : Dict Finite} (literal : LiteralKeys fields) (key : Text) :
    get (Json.object fields).sortKeys.rejoin key =
      .ok ((fields.lookup key).map fun value => value.sortKeys.rejoin) :=
  congrArg Except.ok (lookup_back literal key)

theorem rejoinText_scopeText (scope : Scope) : rejoinText (scopeText scope) = scopeText scope := by
  rw [rejoinText_eq_self_iff]
  cases scope with
  | bundled => exact noSplitPair_text "bundled"
  | official => exact noSplitPair_text "official"
  | user => exact noSplitPair_text "user"

theorem asScope_back (scope : Scope) :
    asScope (Json.str (scopeText scope) : Json Finite).sortKeys.rejoin = .ok scope := by
  show asScope (Json.str (rejoinText (scopeText scope)) : Json Finite) = _
  rw [rejoinText_scopeText]
  cases scope with
  | bundled => rfl
  | official => rfl
  | user => rfl

theorem skillFromDict_back (skill : ResolvedSkill Finite) :
    skillFromDict (skillToDict skill).sortKeys.rejoin = .ok skill.back := by
  have literal : LiteralKeys [(text "slug", Json.str skill.slug),
      (text "scope", .str (scopeText skill.scope)), (text "description", .str skill.description),
      (text "body", .str skill.body), (text "frontmatter", .object skill.frontmatter),
      (text "enabled_default", .bool skill.enabledDefault),
      (text "mandatory", .bool skill.mandatory)] :=
    ⟨["slug", "scope", "description", "body", "frontmatter", "enabled_default", "mandatory"], rfl,
      by decide⟩
  unfold skillFromDict skillToDict
  simp only [item_back literal]
  show (asScope (Json.str (scopeText skill.scope) : Json Finite).sortKeys.rejoin).bind _ = _
  rw [asScope_back]
  rfl

theorem instructionFromDict_back (instruction : ResolvedInstruction) :
    instructionFromDict (instructionToDict instruction : Json Finite).sortKeys.rejoin =
      .ok instruction.back := by
  have literal : LiteralKeys [(text "slug", (Json.str instruction.slug : Json Finite)),
      (text "scope", .str (scopeText instruction.scope)), (text "body", .str instruction.body),
      (text "priority", .int instruction.priority),
      (text "mandatory", .bool instruction.mandatory)] :=
    ⟨["slug", "scope", "body", "priority", "mandatory"], rfl, by decide⟩
  unfold instructionFromDict instructionToDict
  simp only [item_back literal]
  show (asScope (Json.str (scopeText instruction.scope) : Json Finite).sortKeys.rejoin).bind _ = _
  rw [asScope_back]
  rfl

theorem array_back (items : List (Json Finite)) :
    (Json.array items).sortKeys.rejoin = .array (items.map fun item => item.sortKeys.rejoin) := by
  rw [Json.sortKeys, Json.rejoin, sortItems_eq, rejoinItems_eq, List.map_map]
  rfl

theorem optional_asText_back (value : Option Text) :
    optional asText (some (orNull Json.str value : Json Finite).sortKeys.rejoin) =
      .ok (value.map rejoinText) := by
  cases value with
  | none => rfl
  | some value => rfl

theorem optional_asDict_back (value : Option (Dict Finite)) :
    optional asDict (some (orNull Json.object value).sortKeys.rejoin) =
      .ok (value.map backDict) := by
  cases value with
  | none => rfl
  | some value => rfl

section Read

variable (interpreter : Interpreter Finite)

theorem commandFromDict_back (command : ResolvedCommand Finite) :
    commandFromDict interpreter (commandToDict command).sortKeys.rejoin = .ok command.back := by
  have literal : LiteralKeys [(text "slug", Json.str command.slug),
      (text "scope", .str (scopeText command.scope)), (text "prompt_tpl", .str command.promptTpl),
      (text "description", orNull .str command.description),
      (text "arg_schema", orNull .object command.argSchema),
      (text "bind_skills", .array (command.bindSkills.map .str))] :=
    ⟨["slug", "scope", "prompt_tpl", "description", "arg_schema", "bind_skills"], rfl, by decide⟩
  have bound : (command.bindSkills.map fun slug =>
      (Json.str slug : Json Finite).sortKeys.rejoin).mapM asText =
        .ok (command.bindSkills.map rejoinText) :=
    mapM_map_ok fun _ _ => rfl
  unfold commandFromDict commandToDict
  simp only [item_back literal, get_back literal]
  show (asScope (Json.str (scopeText command.scope) : Json Finite).sortKeys.rejoin).bind (fun _ =>
    (optional asText
      (some (orNull Json.str command.description : Json Finite).sortKeys.rejoin)).bind
      fun _ => (optional asDict (some (orNull Json.object command.argSchema).sortKeys.rejoin)).bind
        fun _ => (Interpreter.list (interpreter.orElse
          (some (Json.array (command.bindSkills.map .str)).sortKeys.rejoin) (.array []))).bind
            fun _ => _) = _
  rw [asScope_back, optional_asText_back, optional_asDict_back, array_back,
    Interpreter.list_orElse, List.map_map]
  show (Except.bind ((command.bindSkills.map fun slug =>
    (Json.str slug : Json Finite).sortKeys.rejoin).mapM asText) fun _ => _) = _
  rw [bound]
  rfl

theorem charOf_codePoint (char : Char) : charOf (codePoint char) = some char := by
  have valid : (codePoint char).val.isValidChar := char.valid
  rw [charOf, dif_pos valid]
  exact congrArg some (Char.ext rfl)

theorem b64decode_b64encode (value : List UInt8) : b64decode (b64encode value) = .ok value := by
  have chars : ((Base64.encode value).map codePoint).mapM charOf = some (Base64.encode value) := by
    have same : charOf ∘ codePoint = fun char => some (id char) := funext charOf_codePoint
    rw [List.mapM_map, same]
    exact List.mapM_pure.trans (congrArg some (List.map_id _))
  rw [b64decode, b64encode, chars, Option.bind_some, Base64.decode_encode]
  rfl

theorem rejoinText_b64encode (value : List UInt8) :
    rejoinText (b64encode value) = b64encode value := by
  rw [rejoinText_eq_self_iff]
  have ascii := noSplitPair_text (String.ofList (Base64.encode value))
  rw [text, String.toList_ofList] at ascii
  exact ascii

theorem b64encode_eq_nil_iff {value : List UInt8} : b64encode value = [] ↔ value = [] := by
  constructor
  · intro isEmpty
    have decoded := b64decode_b64encode value
    rw [isEmpty] at decoded
    exact (Except.ok.inj decoded).symm
  · rintro rfl
    rfl

/-- A ciphertext comes back unless it is empty. -/
theorem authValueOf_back (value : Option (List UInt8)) :
    authValueOf interpreter (some (orNull (fun value => Json.str (b64encode value))
      value).sortKeys.rejoin) = .ok (value.filter (· ≠ [])) := by
  cases value with
  | none => rfl
  | some value =>
    show authValueOf interpreter (some (.str (rejoinText (b64encode value)))) = _
    rw [rejoinText_b64encode, Option.filter_some]
    by_cases isEmpty : value = []
    · rw [isEmpty]
      rfl
    · have isTrue : truthy interpreter.isZero (Json.str (b64encode value)) = true := by
        rw [truthy, Bool.not_eq_true', List.isEmpty_eq_false_iff]
        exact fun noText => isEmpty (b64encode_eq_nil_iff.mp noText)
      rw [if_pos (decide_eq_true isEmpty), authValueOf]
      simp only [isTrue, if_true]
      show (b64decode (b64encode value)).bind _ = _
      rw [b64decode_b64encode]
      rfl

theorem mcpFromDict_back (server : ResolvedMcpServer) :
    mcpFromDict interpreter (mcpToDict server).sortKeys.rejoin = .ok server.back := by
  have literal : LiteralKeys [(text "slug", (Json.str server.slug : Json Finite)),
      (text "scope", .str (scopeText server.scope)), (text "url", .str server.url),
      (text "auth_header", orNull .str server.authHeader),
      (text "auth_value_ct_b64", orNull (fun value => .str (b64encode value)) server.authValueCt),
      (text "cache_tools_list", .bool server.cacheToolsList),
      (text "enabled", .bool server.enabled), (text "mandatory", .bool server.mandatory),
      (text "user_id", orNull .str server.userId)] :=
    ⟨["slug", "scope", "url", "auth_header", "auth_value_ct_b64", "cache_tools_list", "enabled",
      "mandatory", "user_id"], rfl, by decide⟩
  unfold mcpFromDict mcpToDict
  simp only [item_back literal, get_back literal]
  show (asScope (Json.str (scopeText server.scope) : Json Finite).sortKeys.rejoin).bind (fun _ =>
    (optional asText (some (orNull Json.str server.authHeader : Json Finite).sortKeys.rejoin)).bind
      fun _ => (authValueOf interpreter (some (orNull (fun value => Json.str (b64encode value))
        server.authValueCt).sortKeys.rejoin)).bind fun _ =>
          (optional asText
            (some (orNull Json.str server.userId : Json Finite).sortKeys.rejoin)).bind
            fun _ => _) = _
  rw [asScope_back, optional_asText_back, authValueOf_back, optional_asText_back]
  rfl

theorem listOf_back {Value : Type} {fields : Dict Finite} (literal : LiteralKeys fields)
    {key : Text} {values : List Value} {write : Value → Json Finite}
    (found : fields.lookup key = some (.array (values.map write)))
    {read : Json Finite → Except PyError Value} {back : Value → Value}
    (reads : ∀ value, read (write value).sortKeys.rejoin = .ok (back value)) :
    listOf read (Json.object fields).sortKeys.rejoin key = .ok (values.map back) := by
  have isArray : item (Json.object fields).sortKeys.rejoin key =
      .ok (.array (values.map fun value => (write value).sortKeys.rejoin)) := by
    rw [item_back literal, item, found]
    show Except.ok (Json.array (values.map write)).sortKeys.rejoin = _
    rw [array_back, List.map_map]
    rfl
  unfold listOf
  rw [isArray]
  exact mapM_map_ok fun value _ => reads value

/-- What is read back of what was written. -/
theorem ofData_back (config : EffectiveConfig Finite) :
    EffectiveConfig.ofData interpreter config.toData.sortKeys.rejoin = .ok config.back := by
  have literal : LiteralKeys [(text "skills", Json.array (config.skills.map skillToDict)),
      (text "instructions", .array (config.instructions.map instructionToDict)),
      (text "commands", .array (config.commands.map commandToDict)),
      (text "mcp_servers", .array (config.mcpServers.map mcpToDict)),
      (text "etag", .str config.etag)] :=
    ⟨["skills", "instructions", "commands", "mcp_servers", "etag"], rfl, by decide⟩
  unfold EffectiveConfig.ofData EffectiveConfig.toData
  rw [listOf_back literal rfl skillFromDict_back,
    listOf_back literal rfl instructionFromDict_back,
    listOf_back literal rfl (commandFromDict_back interpreter),
    listOf_back literal rfl (mcpFromDict_back interpreter), item_back literal]
  rfl

end Read

/-! ### Equal configs -/

/-- The dictionary with its keys in ascending order, also inside. -/
def sortDict (fields : Dict Finite) : Dict Finite := sortedBy Prod.fst (sortFields fields)

def ResolvedSkill.sorted (skill : ResolvedSkill Finite) : ResolvedSkill Finite :=
  { skill with frontmatter := sortDict skill.frontmatter }

def ResolvedCommand.sorted (command : ResolvedCommand Finite) : ResolvedCommand Finite :=
  { command with argSchema := command.argSchema.map sortDict }

def ResolvedLists.sorted (lists : ResolvedLists Finite) : ResolvedLists Finite :=
  { lists with
    skills := lists.skills.map ResolvedSkill.sorted
    commands := lists.commands.map ResolvedCommand.sorted }

/-- The lists are equal in every field. The order of the keys of a dictionary does not count. -/
def ResolvedLists.Same (first second : ResolvedLists Finite) : Prop :=
  first.sorted = second.sorted

def EffectiveConfig.Same (first second : EffectiveConfig Finite) : Prop :=
  first.toResolvedLists.Same second.toResolvedLists ∧ first.etag = second.etag

/-- No frontmatter and no argument schema has a key twice. -/
def ResolvedLists.Dictionaries (lists : ResolvedLists Finite) : Prop :=
  (∀ skill ∈ lists.skills, (Json.object skill.frontmatter).Everywhere DistinctKeys) ∧
    ∀ command ∈ lists.commands, ∀ schema ∈ command.argSchema,
      (Json.object schema).Everywhere DistinctKeys

/-! ### Texts that come back -/

def ResolvedSkill.Unsplit (skill : ResolvedSkill Finite) : Prop :=
  NoSplitPair skill.slug ∧ NoSplitPair skill.description ∧ NoSplitPair skill.body ∧
    (Json.object skill.frontmatter).Everywhere JsonTexts.Unsplit

def ResolvedInstruction.Unsplit (instruction : ResolvedInstruction) : Prop :=
  NoSplitPair instruction.slug ∧ NoSplitPair instruction.body

def ResolvedCommand.Unsplit (command : ResolvedCommand Finite) : Prop :=
  NoSplitPair command.slug ∧ NoSplitPair command.promptTpl ∧
    (∀ description ∈ command.description, NoSplitPair description) ∧
    (∀ schema ∈ command.argSchema, (Json.object schema).Everywhere JsonTexts.Unsplit) ∧
    ∀ slug ∈ command.bindSkills, NoSplitPair slug

def ResolvedMcpServer.Unsplit (server : ResolvedMcpServer) : Prop :=
  NoSplitPair server.slug ∧ NoSplitPair server.url ∧
    (∀ header ∈ server.authHeader, NoSplitPair header) ∧
    ∀ userId ∈ server.userId, NoSplitPair userId

/-- No text of the config has a high surrogate directly before a low one. -/
def EffectiveConfig.Unsplit (config : EffectiveConfig Finite) : Prop :=
  (∀ skill ∈ config.skills, skill.Unsplit) ∧
    (∀ instruction ∈ config.instructions, instruction.Unsplit) ∧
    (∀ command ∈ config.commands, command.Unsplit) ∧
    (∀ server ∈ config.mcpServers, server.Unsplit) ∧ NoSplitPair config.etag

/-- No server has a ciphertext of no bytes. -/
def EffectiveConfig.NoEmptyCiphertext (config : EffectiveConfig Finite) : Prop :=
  ∀ server ∈ config.mcpServers, server.authValueCt ≠ some []

theorem sortDict_backDict_iff {fields : Dict Finite}
    (distinct : (Json.object fields).Everywhere DistinctKeys) :
    sortDict (backDict fields) = sortDict fields ↔
      (Json.object fields).Everywhere JsonTexts.Unsplit := by
  rw [← same_rejoin_iff distinct]
  exact ⟨congrArg Json.object, Json.object.inj⟩

theorem map_rejoinText_iff {value : Option Text} :
    value.map rejoinText = value ↔ ∀ inside ∈ value, NoSplitPair inside := by
  cases value with
  | none => simp
  | some inside => simp [rejoinText_eq_self_iff]

theorem ResolvedSkill.back_same_iff {skill : ResolvedSkill Finite}
    (distinct : (Json.object skill.frontmatter).Everywhere DistinctKeys) :
    skill.back.sorted = skill.sorted ↔ skill.Unsplit := by
  unfold ResolvedSkill.sorted ResolvedSkill.back ResolvedSkill.Unsplit
  rw [ResolvedSkill.mk.injEq, rejoinText_eq_self_iff, rejoinText_eq_self_iff,
    rejoinText_eq_self_iff, sortDict_backDict_iff distinct]
  simp only [true_and, and_true]

theorem ResolvedInstruction.back_same_iff {instruction : ResolvedInstruction} :
    instruction.back = instruction ↔ instruction.Unsplit := by
  obtain ⟨slug, scope, body, priority, mandatory⟩ := instruction
  unfold ResolvedInstruction.back ResolvedInstruction.Unsplit
  rw [ResolvedInstruction.mk.injEq, rejoinText_eq_self_iff, rejoinText_eq_self_iff]
  simp only [true_and, and_true]

theorem map_sortDict_backDict_iff {value : Option (Dict Finite)}
    (distinct : ∀ fields ∈ value, (Json.object fields).Everywhere DistinctKeys) :
    (value.map backDict).map sortDict = value.map sortDict ↔
      ∀ fields ∈ value, (Json.object fields).Everywhere JsonTexts.Unsplit := by
  cases value with
  | none => simp
  | some fields => simp [sortDict_backDict_iff (distinct fields rfl)]

theorem ResolvedCommand.back_same_iff {command : ResolvedCommand Finite}
    (distinct : ∀ schema ∈ command.argSchema, (Json.object schema).Everywhere DistinctKeys) :
    command.back.sorted = command.sorted ↔ command.Unsplit := by
  have slugs : command.bindSkills.map rejoinText = command.bindSkills ↔
      ∀ slug ∈ command.bindSkills, NoSplitPair slug := by
    refine (Eq.congr_right (List.map_id _).symm).trans ?_
    rw [List.map_inj_left]
    exact forall₂_congr fun slug _ => rejoinText_eq_self_iff
  unfold ResolvedCommand.sorted ResolvedCommand.back ResolvedCommand.Unsplit
  rw [ResolvedCommand.mk.injEq, rejoinText_eq_self_iff, rejoinText_eq_self_iff,
    map_rejoinText_iff, map_sortDict_backDict_iff distinct, slugs]
  simp only [true_and]

theorem ResolvedMcpServer.back_same_iff {server : ResolvedMcpServer} :
    server.back = server ↔ server.Unsplit ∧ server.authValueCt ≠ some [] := by
  obtain ⟨slug, scope, url, authHeader, authValueCt, cacheToolsList, enabled, mandatory, userId⟩ :=
    server
  have kept : authValueCt.filter (· ≠ []) = authValueCt ↔ authValueCt ≠ some [] := by
    cases authValueCt with
    | none => simp
    | some value => simp [Option.filter_some]
  unfold ResolvedMcpServer.back ResolvedMcpServer.Unsplit
  rw [ResolvedMcpServer.mk.injEq, rejoinText_eq_self_iff, rejoinText_eq_self_iff,
    map_rejoinText_iff, map_rejoinText_iff, kept]
  tauto

/-- What is read back is equal exactly where nothing is joined and no ciphertext is lost. -/
theorem EffectiveConfig.back_same_iff {config : EffectiveConfig Finite}
    (dictionaries : config.Dictionaries) :
    config.back.Same config ↔ config.Unsplit ∧ config.NoEmptyCiphertext := by
  have skills : (config.skills.map ResolvedSkill.back).map ResolvedSkill.sorted =
      config.skills.map ResolvedSkill.sorted ↔ ∀ skill ∈ config.skills, skill.Unsplit := by
    rw [List.map_map, List.map_inj_left]
    exact forall₂_congr fun skill member =>
      ResolvedSkill.back_same_iff (dictionaries.1 skill member)
  have instructions : config.instructions.map ResolvedInstruction.back = config.instructions ↔
      ∀ instruction ∈ config.instructions, instruction.Unsplit := by
    refine (Eq.congr_right (List.map_id _).symm).trans ?_
    rw [List.map_inj_left]
    exact forall₂_congr fun instruction _ => ResolvedInstruction.back_same_iff
  have commands : (config.commands.map ResolvedCommand.back).map ResolvedCommand.sorted =
      config.commands.map ResolvedCommand.sorted ↔
      ∀ command ∈ config.commands, command.Unsplit := by
    rw [List.map_map, List.map_inj_left]
    exact forall₂_congr fun command member =>
      ResolvedCommand.back_same_iff (dictionaries.2 command member)
  have servers : config.mcpServers.map ResolvedMcpServer.back = config.mcpServers ↔
      (∀ server ∈ config.mcpServers, server.Unsplit) ∧
        ∀ server ∈ config.mcpServers, server.authValueCt ≠ some [] := by
    refine (Eq.congr_right (List.map_id _).symm).trans ?_
    rw [List.map_inj_left, ← forall₂_and]
    exact forall₂_congr fun server _ => ResolvedMcpServer.back_same_iff
  unfold EffectiveConfig.Same ResolvedLists.Same ResolvedLists.sorted EffectiveConfig.back
    EffectiveConfig.Unsplit EffectiveConfig.NoEmptyCiphertext
  rw [ResolvedLists.mk.injEq, skills, instructions, commands, servers, rejoinText_eq_self_iff]
  tauto

/-! ### Limits -/

theorem longestInt_le_iff {value : Json Finite} {most : Nat} :
    longestInt value ≤ most ↔ value.Everywhere (FewDigits most) := by
  induction value using Json.induction with
  | null => exact iff_of_true (Nat.zero_le most) trivial
  | bool value => exact iff_of_true (Nat.zero_le most) trivial
  | int value => rfl
  | float value => exact iff_of_true (Nat.zero_le most) trivial
  | str value => exact iff_of_true (Nat.zero_le most) trivial
  | array items inductionHypothesis =>
    rw [longestInt, Interpreter.longestIntItems_le_iff, Json.Everywhere, everywhereItems_iff]
    exact (forall₂_congr inductionHypothesis).trans (iff_of_eq (true_and _)).symm
  | object fields inductionHypothesis =>
    rw [longestInt, Interpreter.longestIntFields_le_iff, Json.Everywhere, everywhereFields_iff]
    exact (forall₂_congr inductionHypothesis).trans (iff_of_eq (true_and _)).symm

/-- The brackets of the text are nested at most so deep. -/
def EffectiveConfig.Shallow (limit : Nat) (config : EffectiveConfig Finite) : Prop :=
  (∀ skill ∈ config.skills, (Json.object skill.frontmatter).depth + 3 ≤ limit) ∧
    (∀ _ ∈ config.instructions, 3 ≤ limit) ∧
    (∀ command ∈ config.commands, 4 ≤ limit ∧
      ∀ schema ∈ command.argSchema, (Json.object schema).depth + 3 ≤ limit) ∧
    ∀ _ ∈ config.mcpServers, 3 ≤ limit

/-- The integers of the config have at most so many digits. -/
def EffectiveConfig.Short (most : Nat) (config : EffectiveConfig Finite) : Prop :=
  (∀ skill ∈ config.skills, longestInt (.object skill.frontmatter) ≤ most) ∧
    (∀ instruction ∈ config.instructions,
      (Whole.ofNat instruction.priority.natAbs).length ≤ most) ∧
    ∀ command ∈ config.commands, ∀ schema ∈ command.argSchema,
      longestInt (.object schema) ≤ most

theorem depth_orNull {Value : Type} {toData : Value → Json Finite} {value : Option Value}
    {limit : Nat} :
    (orNull toData value).depth ≤ limit ↔ ∀ inside ∈ value, (toData inside).depth ≤ limit := by
  cases value with
  | none => simp [orNull, Json.depth]
  | some inside => simp [orNull]

theorem longestInt_orNull {Value : Type} {toData : Value → Json Finite} {value : Option Value}
    {most : Nat} :
    longestInt (orNull toData value) ≤ most ↔
      ∀ inside ∈ value, longestInt (toData inside) ≤ most := by
  cases value with
  | none => simp [orNull, longestInt]
  | some inside => simp [orNull]

theorem depth_orNull_str {Value : Type} (toText : Value → Text) (value : Option Value) :
    (orNull (fun inside => .str (toText inside)) value : Json Finite).depth = 0 := by
  cases value <;> rfl

theorem depth_commandToDict {command : ResolvedCommand Finite} {limit : Nat} :
    (commandToDict command).depth ≤ limit ↔
      2 ≤ limit ∧ ∀ schema ∈ command.argSchema, (Json.object schema).depth + 1 ≤ limit := by
  have slugs : depthItems (command.bindSkills.map (Json.str : Text → Json Finite)) = 0 := by
    rw [← Nat.le_zero, depthItems_le_iff, List.forall_mem_map]
    exact fun slug _ => Nat.le_refl 0
  have description : (orNull Json.str command.description : Json Finite).depth = 0 :=
    depth_orNull_str id command.description
  cases limit with
  | zero => exact iff_of_false (Nat.not_succ_le_zero _) fun within => absurd within.1 (by decide)
  | succ limit =>
    have schema : (orNull Json.object command.argSchema).depth ≤ limit ↔ _ := depth_orNull
    simp only [commandToDict, Json.depth, depthFields, slugs, description, Nat.zero_max,
      Nat.add_le_add_iff_right, Nat.max_le, schema]
    have two : 2 ≤ limit + 1 ↔ 0 + 1 ≤ limit := by omega
    rw [two, and_comm, and_iff_left (Nat.zero_le limit)]

theorem depth_mcpToDict {server : ResolvedMcpServer} {limit : Nat} :
    (mcpToDict server : Json Finite).depth ≤ limit ↔ 1 ≤ limit := by
  have header : (orNull Json.str server.authHeader : Json Finite).depth = 0 :=
    depth_orNull_str id server.authHeader
  have userId : (orNull Json.str server.userId : Json Finite).depth = 0 :=
    depth_orNull_str id server.userId
  have flat : (mcpToDict server : Json Finite).depth = 1 := by
    simp only [mcpToDict, Json.depth, depthFields, header, userId, depth_orNull_str]
    rfl
  rw [flat]

theorem depth_toData_iff {config : EffectiveConfig Finite} {limit : Nat} (enough : 2 ≤ limit) :
    config.toData.depth ≤ limit ↔ config.Shallow limit := by
  obtain ⟨limit, rfl⟩ := Nat.exists_eq_add_of_le' enough
  have skills : ∀ skill : ResolvedSkill Finite,
      (skillToDict skill).depth ≤ limit ↔ (Json.object skill.frontmatter).depth + 1 ≤ limit := by
    intro skill
    simp only [skillToDict, Json.depth, depthFields]
    omega
  have instructions : ∀ instruction : ResolvedInstruction,
      (instructionToDict instruction : Json Finite).depth ≤ limit ↔ 1 ≤ limit := fun _ => Iff.rfl
  unfold EffectiveConfig.Shallow EffectiveConfig.toData
  simp only [Json.depth, depthFields, Nat.add_le_add_iff_right, Nat.max_le, depthItems_le_iff,
    List.forall_mem_map, skills, instructions, depth_commandToDict, depth_mcpToDict]
  have inner : ∀ depth, depth + 1 + 3 ≤ limit + 2 ↔ depth + 1 + 1 ≤ limit := by omega
  have three : 3 ≤ limit + 2 ↔ 1 ≤ limit := by omega
  simp only [inner, three, Nat.zero_le, and_true]

theorem longestInt_orNull_str {Value : Type} (toText : Value → Text) (value : Option Value) :
    longestInt (orNull (fun inside => .str (toText inside)) value : Json Finite) = 0 := by
  cases value <;> rfl

theorem longestInt_toData_iff {config : EffectiveConfig Finite} {most : Nat} :
    longestInt config.toData ≤ most ↔ config.Short most := by
  have skills : ∀ skill : ResolvedSkill Finite,
      longestInt (skillToDict skill) ≤ most ↔ longestInt (.object skill.frontmatter) ≤ most := by
    intro skill
    simp only [skillToDict, longestInt, longestIntFields]
    omega
  have instructions : ∀ instruction : ResolvedInstruction,
      longestInt (instructionToDict instruction : Json Finite) ≤ most ↔
        (Whole.ofNat instruction.priority.natAbs).length ≤ most := by
    intro instruction
    simp only [instructionToDict, longestInt, longestIntFields]
    omega
  have commands : ∀ command : ResolvedCommand Finite, longestInt (commandToDict command) ≤ most ↔
      ∀ schema ∈ command.argSchema, longestInt (.object schema) ≤ most := by
    intro command
    have slugs : longestIntItems (command.bindSkills.map (Json.str : Text → Json Finite)) = 0 := by
      rw [← Nat.le_zero, Interpreter.longestIntItems_le_iff, List.forall_mem_map]
      exact fun slug _ => Nat.le_refl 0
    have description : longestInt (orNull Json.str command.description : Json Finite) = 0 :=
      longestInt_orNull_str id command.description
    rw [← longestInt_orNull]
    simp only [commandToDict, longestInt, longestIntFields, slugs, description]
    omega
  have servers : ∀ server : ResolvedMcpServer,
      longestInt (mcpToDict server : Json Finite) ≤ most := by
    intro server
    have header : longestInt (orNull Json.str server.authHeader : Json Finite) = 0 :=
      longestInt_orNull_str id server.authHeader
    have userId : longestInt (orNull Json.str server.userId : Json Finite) = 0 :=
      longestInt_orNull_str id server.userId
    simp only [mcpToDict, longestInt, longestIntFields, header, userId, longestInt_orNull_str]
    omega
  unfold EffectiveConfig.Short EffectiveConfig.toData
  simp only [longestInt, longestIntFields, Nat.max_le, Interpreter.longestIntItems_le_iff,
    List.forall_mem_map, skills, instructions, commands, servers, implies_true, Nat.zero_le,
    and_true]

/-! ### Configs that come back -/

section ComesBack

variable (interpreter : Interpreter Finite)

/-- The text of the config is read as an equal config. -/
def EffectiveConfig.ComesBack (config : EffectiveConfig Finite) : Prop :=
  ∃ blob back, config.toJson interpreter = some blob ∧
    EffectiveConfig.fromJson interpreter blob = .ok back ∧ back.Same config

/-- What `loads` makes of a text that was written with sorted keys. -/
theorem loads_dumpsSorted_iff {value other : Json Finite} {blob : Text}
    (written : dumpsSorted interpreter value = some blob) :
    interpreter.loads blob = .ok other ↔
      value.depth ≤ interpreter.scannerDepth ∧ value.sortKeys.rejoin = other := by
  unfold dumpsSorted at written
  split at written
  · next within =>
    cases written
    have isOk : interpreter.loads (value.sortKeys.dumpsSpaced interpreter.format) = .ok other ↔
        value.sortKeys.readBack interpreter.maxStrDigits interpreter.scannerDepth = .ok other := by
      rw [Interpreter.loads, loads_dumpsSpaced]
      cases value.sortKeys.readBack interpreter.maxStrDigits interpreter.scannerDepth with
      | ok value =>
        show Except.ok value = _ ↔ _
        rw [Except.ok.injEq, Except.ok.injEq]
      | error error => exact iff_of_false (fun same => by cases same) fun same => by cases same
    rw [isOk, readBack_eq_ok_iff, depth_sortKeys, everywhere_sortKeys fewDigits_sortKeys,
      ← longestInt_le_iff, and_iff_left within.2]
  · cases written

theorem dumpsSorted_eq_some_iff {value : Json Finite} :
    (∃ blob, dumpsSorted interpreter value = some blob) ↔
      value.depth ≤ interpreter.encoderDepth ∧ longestInt value ≤ interpreter.maxStrDigits := by
  unfold dumpsSorted
  split
  · next within => exact iff_of_true ⟨_, rfl⟩ within
  · next without => exact iff_of_false (fun ⟨blob, written⟩ => by cases written) without

theorem fromJson_of_loads {blob : Text} {data : Json Finite}
    (loaded : interpreter.loads blob = .ok data) :
    EffectiveConfig.fromJson interpreter blob = EffectiveConfig.ofData interpreter data := by
  unfold EffectiveConfig.fromJson
  rw [loaded]
  rfl

/-- The text of a config comes back as an equal config where it is written and read within the
limits and what is read back is equal. -/
theorem comesBack_iff_back (config : EffectiveConfig Finite) :
    config.ComesBack interpreter ↔
      config.Shallow interpreter.encoderDepth ∧ config.Shallow interpreter.scannerDepth ∧
        config.Short interpreter.maxStrDigits ∧ config.back.Same config := by
  have enough := interpreter.deepEnough
  rw [← depth_toData_iff enough.1, ← depth_toData_iff enough.2, ← longestInt_toData_iff]
  constructor
  · rintro ⟨blob, back, written, isRead, same⟩
    have within := (dumpsSorted_eq_some_iff interpreter).mp ⟨blob, written⟩
    cases loaded : interpreter.loads blob with
    | error error =>
      unfold EffectiveConfig.fromJson at isRead
      rw [loaded] at isRead
      cases isRead
    | ok data =>
      obtain ⟨shallow, rfl⟩ := (loads_dumpsSorted_iff interpreter written).mp loaded
      rw [fromJson_of_loads interpreter loaded, ofData_back, Except.ok.injEq] at isRead
      rw [isRead]
      exact ⟨within.1, shallow, within.2, same⟩
  · rintro ⟨shallow, shallowRead, few, same⟩
    obtain ⟨blob, written⟩ := (dumpsSorted_eq_some_iff interpreter).mpr ⟨shallow, few⟩
    have loaded := (loads_dumpsSorted_iff interpreter written).mpr ⟨shallowRead, rfl⟩
    refine ⟨blob, config.back, written, ?_, same⟩
    rw [fromJson_of_loads interpreter loaded, ofData_back]

/-- The text of a config comes back as an equal config exactly where the config is within the
limits of the interpreter, no text in it has a split pair and no ciphertext is empty. -/
theorem comesBack_iff (config : EffectiveConfig Finite) (dictionaries : config.Dictionaries) :
    config.ComesBack interpreter ↔
      config.Shallow interpreter.encoderDepth ∧ config.Shallow interpreter.scannerDepth ∧
        config.Short interpreter.maxStrDigits ∧ config.Unsplit ∧ config.NoEmptyCiphertext := by
  rw [comesBack_iff_back, EffectiveConfig.back_same_iff dictionaries]

end ComesBack

/-! A server that sends a header, with its ciphertext. -/

def searchServer (ciphertext : List UInt8) : ResolvedMcpServer where
  slug := text "search"
  scope := .user
  url := text "https://mcp.example/search"
  authHeader := some (text "X-Api-Key")
  authValueCt := some ciphertext
  cacheToolsList := true
  enabled := true
  mandatory := false
  userId := some (text "u")

def searchConfig (ciphertext : List UInt8) : EffectiveConfig FloatLiteral where
  skills := []
  instructions := []
  commands := []
  mcpServers := [searchServer ciphertext]
  etag := text "0123456789abcdef"

theorem unsplit_searchConfig (ciphertext : List UInt8) : (searchConfig ciphertext).Unsplit := by
  refine ⟨List.forall_mem_nil _, List.forall_mem_nil _, List.forall_mem_nil _,
    List.forall_mem_singleton.mpr ⟨noSplitPair_text _, noSplitPair_text _, ?_, ?_⟩,
    noSplitPair_text _⟩
  · rintro header ⟨⟩
    exact noSplitPair_text _
  · rintro userId ⟨⟩
    exact noSplitPair_text _

theorem searchConfig_comesBack : (searchConfig [7]).ComesBack literalInterpreter :=
  (comesBack_iff literalInterpreter (searchConfig [7])
    ⟨List.forall_mem_nil _, List.forall_mem_nil _⟩).mpr
    ⟨⟨List.forall_mem_nil _, List.forall_mem_nil _, List.forall_mem_nil _, fun _ _ => by decide⟩,
      ⟨List.forall_mem_nil _, List.forall_mem_nil _, List.forall_mem_nil _, fun _ _ => by decide⟩,
      ⟨List.forall_mem_nil _, List.forall_mem_nil _, List.forall_mem_nil _⟩,
      unsplit_searchConfig [7], List.forall_mem_singleton.mpr (by decide)⟩

/-- The empty ciphertext comes back as none. -/
theorem empty_ciphertext_is_lost : ¬ (searchConfig []).ComesBack literalInterpreter := by
  rw [comesBack_iff_back]
  rintro ⟨_, _, _, same, _⟩
  have servers := congrArg ResolvedLists.mcpServers same
  cases servers

end LiteHorse.Web.ConfigText
