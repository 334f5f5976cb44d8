/-
This file models `EffectiveConfig.build` with the etag it computes: the hash of a text with sorted
keys that holds some of the fields of the four lists.

The hash is a parameter and taken to be injective. `etag_eq_iff` says which lists share an etag:
those that agree in the fields that are hashed, up to pairs of surrogates, which are written as
the character they are the halves of. The etag therefore identifies the lists where two that
agree in these fields agree in all of them, which is `etag_identifies_iff`.
-/

import LiteHorse.Web.ConfigText

namespace LiteHorse.Web.ConfigText

open JsonTexts Worker.Queue
open Repositories (Scope)

variable {Finite : Type}

/-! ### The etag -/

def skillPayload (skill : ResolvedSkill Finite) : Json Finite :=
  .object [(text "slug", .str skill.slug), (text "scope", .str (scopeText skill.scope)),
    (text "body", .str skill.body)]

def instructionPayload (instruction : ResolvedInstruction) : Json Finite :=
  .object [(text "slug", .str instruction.slug),
    (text "scope", .str (scopeText instruction.scope)),
    (text "priority", .int instruction.priority), (text "body", .str instruction.body),
    (text "mandatory", .bool instruction.mandatory)]

def commandPayload (command : ResolvedCommand Finite) : Json Finite :=
  .object [(text "slug", .str command.slug), (text "scope", .str (scopeText command.scope)),
    (text "prompt_tpl", .str command.promptTpl)]

def mcpPayload (server : ResolvedMcpServer) : Json Finite :=
  .object [(text "slug", .str server.slug), (text "scope", .str (scopeText server.scope)),
    (text "url", .str server.url), (text "auth_header", orNull .str server.authHeader),
    (text "enabled", .bool server.enabled)]

def etagPayload (lists : ResolvedLists Finite) : Json Finite :=
  .object [(text "skills", .array (lists.skills.map skillPayload)),
    (text "instructions", .array (lists.instructions.map instructionPayload)),
    (text "commands", .array (lists.commands.map commandPayload)),
    (text "mcp_servers", .array (lists.mcpServers.map mcpPayload))]

section Build

variable (interpreter : Interpreter Finite) (hash : Text → Text)

/-- `_compute_etag`: the start of the digest of the payload's text, or `none` where `json.dumps`
raises. -/
def computeEtag (lists : ResolvedLists Finite) : Option Text :=
  (dumpsSorted interpreter (etagPayload lists)).map hash

def EffectiveConfig.build (lists : ResolvedLists Finite) : Option (EffectiveConfig Finite) :=
  (computeEtag interpreter hash lists).map fun etag => { lists with etag }

end Build

/-! ### What the etag is computed from -/

def ResolvedSkill.hashed (skill : ResolvedSkill Finite) : ResolvedSkill Finite where
  slug := rejoinText skill.slug
  scope := skill.scope
  description := []
  body := rejoinText skill.body
  frontmatter := []
  enabledDefault := true
  mandatory := false

def ResolvedCommand.hashed (command : ResolvedCommand Finite) : ResolvedCommand Finite where
  slug := rejoinText command.slug
  scope := command.scope
  promptTpl := rejoinText command.promptTpl
  description := none
  argSchema := none
  bindSkills := []

def ResolvedMcpServer.hashed (server : ResolvedMcpServer) : ResolvedMcpServer where
  slug := rejoinText server.slug
  scope := server.scope
  url := rejoinText server.url
  authHeader := server.authHeader.map rejoinText
  authValueCt := none
  cacheToolsList := true
  enabled := server.enabled
  mandatory := false
  userId := none

/-- The lists as far as they are hashed: the other fields have their defaults, and split pairs are
joined. Of an instruction every field is hashed. -/
def ResolvedLists.hashed (lists : ResolvedLists Finite) : ResolvedLists Finite where
  skills := lists.skills.map ResolvedSkill.hashed
  instructions := lists.instructions.map ResolvedInstruction.back
  commands := lists.commands.map ResolvedCommand.hashed
  mcpServers := lists.mcpServers.map ResolvedMcpServer.hashed

/-! ### The payload of what is hashed -/

theorem mapTexts_array {Value : Type} (values : List Value) (write : Value → Json Finite) :
    (Json.array (values.map write)).mapTexts rejoinText =
      .array (values.map fun value => (write value).mapTexts rejoinText) := by
  rw [Json.mapTexts, mapTextsItems_eq, List.map_map]
  rfl

theorem skillPayload_hashed (skill : ResolvedSkill Finite) :
    skillPayload skill.hashed = (skillPayload skill).mapTexts rejoinText := by
  show Json.object [_, (_, .str (scopeText skill.scope)), _] =
    .object [_, (_, .str (rejoinText (scopeText skill.scope))), _]
  rw [rejoinText_scopeText]
  rfl

theorem instructionPayload_hashed (instruction : ResolvedInstruction) :
    (instructionPayload instruction.back : Json Finite) =
      (instructionPayload instruction).mapTexts rejoinText := by
  show Json.object [_, (_, .str (scopeText instruction.scope)), _, _, _] =
    .object [_, (_, .str (rejoinText (scopeText instruction.scope))), _, _, _]
  rw [rejoinText_scopeText]
  rfl

theorem commandPayload_hashed (command : ResolvedCommand Finite) :
    commandPayload command.hashed = (commandPayload command).mapTexts rejoinText := by
  show Json.object [_, (_, .str (scopeText command.scope)), _] =
    .object [_, (_, .str (rejoinText (scopeText command.scope))), _]
  rw [rejoinText_scopeText]
  rfl

theorem mcpPayload_hashed (server : ResolvedMcpServer) :
    (mcpPayload server.hashed : Json Finite) = (mcpPayload server).mapTexts rejoinText := by
  show Json.object [_, (_, .str (scopeText server.scope)), _,
      (_, orNull .str (server.authHeader.map rejoinText)), _] =
    .object [_, (_, .str (rejoinText (scopeText server.scope))), _,
      (_, (orNull .str server.authHeader).mapTexts rejoinText), _]
  rw [rejoinText_scopeText]
  cases server.authHeader with
  | none => rfl
  | some header => rfl

/-- The payload of what is hashed is the payload with its texts joined. -/
theorem etagPayload_hashed (lists : ResolvedLists Finite) :
    etagPayload lists.hashed = (etagPayload lists).mapTexts rejoinText := by
  have skills : lists.skills.map (skillPayload ∘ ResolvedSkill.hashed) =
      lists.skills.map fun skill => (skillPayload skill).mapTexts rejoinText :=
    List.map_congr_left fun skill _ => skillPayload_hashed skill
  have instructions : lists.instructions.map
      ((instructionPayload : _ → Json Finite) ∘ ResolvedInstruction.back) =
      lists.instructions.map fun instruction =>
        (instructionPayload instruction).mapTexts rejoinText :=
    List.map_congr_left fun instruction _ => instructionPayload_hashed instruction
  have commands : lists.commands.map (commandPayload ∘ ResolvedCommand.hashed) =
      lists.commands.map fun command => (commandPayload command).mapTexts rejoinText :=
    List.map_congr_left fun command _ => commandPayload_hashed command
  have servers : lists.mcpServers.map
      ((mcpPayload : _ → Json Finite) ∘ ResolvedMcpServer.hashed) =
      lists.mcpServers.map fun server => (mcpPayload server).mapTexts rejoinText :=
    List.map_congr_left fun server _ => mcpPayload_hashed server
  unfold etagPayload ResolvedLists.hashed
  show _ = Json.object [(_, (Json.array (lists.skills.map skillPayload)).mapTexts rejoinText),
    (_, (Json.array (lists.instructions.map instructionPayload)).mapTexts rejoinText),
    (_, (Json.array (lists.commands.map commandPayload)).mapTexts rejoinText),
    (_, (Json.array (lists.mcpServers.map mcpPayload)).mapTexts rejoinText)]
  simp only [mapTexts_array, List.map_map, skills, instructions, commands, servers]

/-- The texts of two payloads are equal where the same is hashed. -/
theorem dumpsSpaced_etagPayload (format : FloatFormat Finite) {first second : ResolvedLists Finite}
    (same : first.hashed = second.hashed) :
    (etagPayload first).sortKeys.dumpsSpaced format =
      (etagPayload second).sortKeys.dumpsSpaced format := by
  rw [← dumpsSpaced_mapTexts rejoinText format quote_rejoinText (etagPayload first).sortKeys,
    ← dumpsSpaced_mapTexts rejoinText format quote_rejoinText (etagPayload second).sortKeys,
    ← sortKeys_mapTexts, ← sortKeys_mapTexts, ← etagPayload_hashed, ← etagPayload_hashed, same]

/-! ### The payload tells what is hashed -/

/-- Dictionaries that come back as the same hold the same under every key, as it comes back. -/
theorem lookup_of_same_back {fields others : Dict Finite} (literal : LiteralKeys fields)
    (otherLiteral : LiteralKeys others)
    (same : (Json.object fields).sortKeys.rejoin = (Json.object others).sortKeys.rejoin)
    (key : Text) :
    ((fields.lookup key).map fun value => value.sortKeys.rejoin) =
      (others.lookup key).map fun value => value.sortKeys.rejoin := by
  rw [← lookup_back literal, ← lookup_back otherLiteral,
    show backDict fields = backDict others from Json.object.inj same]

theorem scope_of_same {first second : Scope}
    (same : some (Json.str (scopeText first) : Json Finite).sortKeys.rejoin =
      some (Json.str (scopeText second)).sortKeys.rejoin) : first = second := by
  have read := congrArg asScope (Option.some.inj same)
  rw [asScope_back, asScope_back] at read
  exact Except.ok.inj read

theorem hashed_of_skillPayload {first second : ResolvedSkill Finite}
    (same : (skillPayload first).sortKeys.rejoin = (skillPayload second).sortKeys.rejoin) :
    first.hashed = second.hashed := by
  have literal : ∀ slug scope body : Json Finite,
      LiteralKeys [(text "slug", slug), (text "scope", scope), (text "body", body)] :=
    fun _ _ _ => ⟨["slug", "scope", "body"], rfl, by decide⟩
  have found := lookup_of_same_back (literal _ _ _) (literal _ _ _) same
  have slug : rejoinText first.slug = rejoinText second.slug :=
    Json.str.inj (Option.some.inj (found (text "slug")))
  have scope : first.scope = second.scope := scope_of_same (found (text "scope"))
  have body : rejoinText first.body = rejoinText second.body :=
    Json.str.inj (Option.some.inj (found (text "body")))
  rw [ResolvedSkill.hashed, ResolvedSkill.hashed, slug, scope, body]

theorem hashed_of_instructionPayload {first second : ResolvedInstruction}
    (same : (instructionPayload first : Json Finite).sortKeys.rejoin =
      (instructionPayload second).sortKeys.rejoin) : first.back = second.back := by
  obtain ⟨firstSlug, firstScope, firstBody, firstPriority, firstMandatory⟩ := first
  obtain ⟨secondSlug, secondScope, secondBody, secondPriority, secondMandatory⟩ := second
  have literal : ∀ slug scope priority body mandatory : Json Finite,
      LiteralKeys [(text "slug", slug), (text "scope", scope), (text "priority", priority),
        (text "body", body), (text "mandatory", mandatory)] :=
    fun _ _ _ _ _ => ⟨["slug", "scope", "priority", "body", "mandatory"], rfl, by decide⟩
  have found := lookup_of_same_back (literal _ _ _ _ _) (literal _ _ _ _ _) same
  have slug : rejoinText firstSlug = rejoinText secondSlug :=
    Json.str.inj (Option.some.inj (found (text "slug")))
  have scope : firstScope = secondScope := scope_of_same (found (text "scope"))
  have priority : firstPriority = secondPriority :=
    Json.int.inj (Option.some.inj (found (text "priority")))
  have body : rejoinText firstBody = rejoinText secondBody :=
    Json.str.inj (Option.some.inj (found (text "body")))
  have mandatory : firstMandatory = secondMandatory :=
    Json.bool.inj (Option.some.inj (found (text "mandatory")))
  rw [ResolvedInstruction.back, ResolvedInstruction.back, ResolvedInstruction.mk.injEq]
  exact ⟨slug, scope, body, priority, mandatory⟩

theorem hashed_of_commandPayload {first second : ResolvedCommand Finite}
    (same : (commandPayload first).sortKeys.rejoin = (commandPayload second).sortKeys.rejoin) :
    first.hashed = second.hashed := by
  have literal : ∀ slug scope promptTpl : Json Finite,
      LiteralKeys [(text "slug", slug), (text "scope", scope), (text "prompt_tpl", promptTpl)] :=
    fun _ _ _ => ⟨["slug", "scope", "prompt_tpl"], rfl, by decide⟩
  have found := lookup_of_same_back (literal _ _ _) (literal _ _ _) same
  have slug : rejoinText first.slug = rejoinText second.slug :=
    Json.str.inj (Option.some.inj (found (text "slug")))
  have scope : first.scope = second.scope := scope_of_same (found (text "scope"))
  have promptTpl : rejoinText first.promptTpl = rejoinText second.promptTpl :=
    Json.str.inj (Option.some.inj (found (text "prompt_tpl")))
  rw [ResolvedCommand.hashed, ResolvedCommand.hashed, slug, scope, promptTpl]

theorem hashed_of_mcpPayload {first second : ResolvedMcpServer}
    (same : (mcpPayload first : Json Finite).sortKeys.rejoin =
      (mcpPayload second).sortKeys.rejoin) : first.hashed = second.hashed := by
  have literal : ∀ slug scope url authHeader enabled : Json Finite,
      LiteralKeys [(text "slug", slug), (text "scope", scope), (text "url", url),
        (text "auth_header", authHeader), (text "enabled", enabled)] :=
    fun _ _ _ _ _ => ⟨["slug", "scope", "url", "auth_header", "enabled"], rfl, by decide⟩
  have found := lookup_of_same_back (literal _ _ _ _ _) (literal _ _ _ _ _) same
  have slug : rejoinText first.slug = rejoinText second.slug :=
    Json.str.inj (Option.some.inj (found (text "slug")))
  have scope : first.scope = second.scope := scope_of_same (found (text "scope"))
  have url : rejoinText first.url = rejoinText second.url :=
    Json.str.inj (Option.some.inj (found (text "url")))
  have authHeader : first.authHeader.map rejoinText = second.authHeader.map rejoinText := by
    have read := congrArg (optional asText) (found (text "auth_header"))
    exact Except.ok.inj ((optional_asText_back first.authHeader).symm.trans
      (read.trans (optional_asText_back second.authHeader)))
  have enabled : first.enabled = second.enabled :=
    Json.bool.inj (Option.some.inj (found (text "enabled")))
  rw [ResolvedMcpServer.hashed, ResolvedMcpServer.hashed, slug, scope, url, authHeader, enabled]

theorem map_eq_of_tells {Value Written Shown : Type} {write : Value → Written}
    {view : Value → Shown}
    (tells : ∀ {first second}, write first = write second → view first = view second)
    {firsts seconds : List Value} (same : firsts.map write = seconds.map write) :
    firsts.map view = seconds.map view := by
  induction firsts generalizing seconds with
  | nil => rw [List.map_eq_nil_iff.mp same.symm, List.map_nil]
  | cons first firsts inductionHypothesis =>
    cases seconds with
    | nil => cases same
    | cons second seconds =>
      rw [List.map_cons, List.map_cons, List.cons.injEq] at same
      rw [List.map_cons, List.map_cons, tells same.1, inductionHypothesis same.2]

/-- What is hashed can be told from the payload as it comes back. -/
theorem hashed_of_etagPayload {first second : ResolvedLists Finite}
    (same : (etagPayload first).sortKeys.rejoin = (etagPayload second).sortKeys.rejoin) :
    first.hashed = second.hashed := by
  have literal : ∀ skills instructions commands servers : Json Finite,
      LiteralKeys [(text "skills", skills), (text "instructions", instructions),
        (text "commands", commands), (text "mcp_servers", servers)] :=
    fun _ _ _ _ => ⟨["skills", "instructions", "commands", "mcp_servers"], rfl, by decide⟩
  have found := lookup_of_same_back (literal _ _ _ _) (literal _ _ _ _) same
  have arrays : ∀ {Value : Type} {firsts seconds : List Value} {write : Value → Json Finite},
      some (Json.array (firsts.map write)).sortKeys.rejoin =
        some (Json.array (seconds.map write)).sortKeys.rejoin →
      (firsts.map fun value => (write value).sortKeys.rejoin) =
        seconds.map fun value => (write value).sortKeys.rejoin := by
    intro Value firsts seconds write isSame
    rw [array_back, array_back, List.map_map, List.map_map] at isSame
    exact Json.array.inj (Option.some.inj isSame)
  have skills : first.skills.map ResolvedSkill.hashed = second.skills.map ResolvedSkill.hashed :=
    map_eq_of_tells hashed_of_skillPayload (arrays (found (text "skills")))
  have instructions : first.instructions.map ResolvedInstruction.back =
      second.instructions.map ResolvedInstruction.back :=
    map_eq_of_tells hashed_of_instructionPayload (arrays (found (text "instructions")))
  have commands : first.commands.map ResolvedCommand.hashed =
      second.commands.map ResolvedCommand.hashed :=
    map_eq_of_tells hashed_of_commandPayload (arrays (found (text "commands")))
  have servers : first.mcpServers.map ResolvedMcpServer.hashed =
      second.mcpServers.map ResolvedMcpServer.hashed :=
    map_eq_of_tells hashed_of_mcpPayload (arrays (found (text "mcp_servers")))
  rw [ResolvedLists.hashed, ResolvedLists.hashed, skills, instructions, commands, servers]

/-! ### Lists with the same etag -/

section Identifies

variable {interpreter : Interpreter Finite} {hash : Text → Text}

/-- The text of a value tells how the value comes back. -/
theorem rejoin_of_dumpsSorted {first second : Json Finite} {blob : Text}
    (firstWritten : dumpsSorted interpreter first = some blob)
    (secondWritten : dumpsSorted interpreter second = some blob) :
    first.sortKeys.rejoin = second.sortKeys.rejoin := by
  have reads : ∀ {value : Json Finite}, dumpsSorted interpreter value = some blob →
      JsonTexts.loads interpreter.format interpreter.maxStrDigits interpreter.encoderDepth blob =
        .ok value.sortKeys.rejoin := by
    intro value written
    unfold dumpsSorted at written
    split at written
    · next within =>
      cases written
      rw [loads_dumpsSpaced, readBack_eq_ok_iff, depth_sortKeys,
        everywhere_sortKeys fewDigits_sortKeys, ← longestInt_le_iff]
      exact ⟨within, rfl⟩
    · cases written
  exact Except.ok.inj ((reads firstWritten).symm.trans (reads secondWritten))

theorem built_etag {lists : ResolvedLists Finite} {config : EffectiveConfig Finite}
    (built : EffectiveConfig.build interpreter hash lists = some config) :
    config.toResolvedLists = lists ∧
      ∃ blob, dumpsSorted interpreter (etagPayload lists) = some blob ∧
        config.etag = hash blob := by
  unfold EffectiveConfig.build computeEtag at built
  cases written : dumpsSorted interpreter (etagPayload lists) with
  | none =>
    rw [written] at built
    cases built
  | some blob =>
    rw [written] at built
    cases built
    exact ⟨rfl, blob, rfl, rfl⟩

theorem blob_eq {value : Json Finite} {blob : Text}
    (written : dumpsSorted interpreter value = some blob) :
    blob = value.sortKeys.dumpsSpaced interpreter.format := by
  unfold dumpsSorted at written
  split at written
  · exact (Option.some.inj written).symm
  · cases written

/-- Two configs have the same etag exactly where their lists agree in what is hashed. -/
theorem etag_eq_iff (injective : Function.Injective hash) {first second : ResolvedLists Finite}
    {config other : EffectiveConfig Finite}
    (built : EffectiveConfig.build interpreter hash first = some config)
    (otherBuilt : EffectiveConfig.build interpreter hash second = some other) :
    config.etag = other.etag ↔ first.hashed = second.hashed := by
  obtain ⟨_, blob, written, isEtag⟩ := built_etag built
  obtain ⟨_, otherBlob, otherWritten, isOtherEtag⟩ := built_etag otherBuilt
  rw [isEtag, isOtherEtag, injective.eq_iff]
  constructor
  · rintro rfl
    exact hashed_of_etagPayload (rejoin_of_dumpsSorted written otherWritten)
  · intro same
    rw [blob_eq written, blob_eq otherWritten, dumpsSpaced_etagPayload interpreter.format same]

/-- The order of the keys of a dictionary is not hashed. -/
theorem hashed_of_same {first second : ResolvedLists Finite} (same : first.Same second) :
    first.hashed = second.hashed := by
  have same : first.sorted = second.sorted := same
  have skills := congrArg ResolvedLists.skills same
  have commands := congrArg ResolvedLists.commands same
  have instructions := congrArg ResolvedLists.instructions same
  have servers := congrArg ResolvedLists.mcpServers same
  change first.instructions = second.instructions at instructions
  change first.mcpServers = second.mcpServers at servers
  have skillsHashed := congrArg (List.map ResolvedSkill.hashed) skills
  have commandsHashed := congrArg (List.map ResolvedCommand.hashed) commands
  simp only [ResolvedLists.sorted, List.map_map] at skillsHashed commandsHashed
  have hashedSkills : first.skills.map ResolvedSkill.hashed =
      second.skills.map ResolvedSkill.hashed := skillsHashed
  have hashedCommands : first.commands.map ResolvedCommand.hashed =
      second.commands.map ResolvedCommand.hashed := commandsHashed
  rw [ResolvedLists.hashed, ResolvedLists.hashed, hashedSkills, hashedCommands, instructions,
    servers]

/-- The etags of two configs tell whether their lists are equal exactly where the lists differ in
what is hashed or in no field at all. -/
theorem etag_identifies_iff (injective : Function.Injective hash)
    {first second : ResolvedLists Finite} {config other : EffectiveConfig Finite}
    (built : EffectiveConfig.build interpreter hash first = some config)
    (otherBuilt : EffectiveConfig.build interpreter hash second = some other) :
    ((config.etag = other.etag → config.toResolvedLists.Same other.toResolvedLists) ∧
        (config.toResolvedLists.Same other.toResolvedLists → config.etag = other.etag)) ↔
      first.hashed ≠ second.hashed ∨ first.Same second := by
  rw [(built_etag built).1, (built_etag otherBuilt).1, etag_eq_iff injective built otherBuilt]
  constructor
  · rintro ⟨identifies, _⟩
    by_cases agree : first.hashed = second.hashed
    · exact Or.inr (identifies agree)
    · exact Or.inl agree
  · rintro (differ | same)
    · exact ⟨fun agree => absurd agree differ, hashed_of_same⟩
    · exact ⟨fun _ => same, hashed_of_same⟩

theorem build_of_within {lists : ResolvedLists Finite}
    (within : (etagPayload lists).depth ≤ interpreter.encoderDepth ∧
      longestInt (etagPayload lists) ≤ interpreter.maxStrDigits) :
    ∃ config, EffectiveConfig.build interpreter hash lists = some config := by
  obtain ⟨blob, written⟩ := (dumpsSorted_eq_some_iff interpreter).mpr within
  refine ⟨{ lists with etag := hash blob }, ?_⟩
  rw [EffectiveConfig.build, computeEtag, written]
  rfl

end Identifies

/-! One skill with a description and a body. -/

def teaLists (description body : Text) : ResolvedLists FloatLiteral where
  skills := [
    { slug := text "tea"
      scope := .user
      description := description
      body := body
      frontmatter := [(text "name", .str (text "tea"))]
      enabledDefault := true
      mandatory := false }]
  instructions := []
  commands := []
  mcpServers := []

theorem teaLists_built (description body : Text) :
    ∃ config, EffectiveConfig.build literalInterpreter id (teaLists description body) =
      some config :=
  build_of_within ⟨show 3 ≤ 500 by decide, Nat.zero_le _⟩

theorem bodies_are_told_apart :
    ∃ config other,
      EffectiveConfig.build literalInterpreter id (teaLists [] (text "green")) = some config ∧
      EffectiveConfig.build literalInterpreter id (teaLists [] (text "black")) = some other ∧
      (config.etag = other.etag → config.toResolvedLists.Same other.toResolvedLists) ∧
      (config.toResolvedLists.Same other.toResolvedLists → config.etag = other.etag) := by
  obtain ⟨config, built⟩ := teaLists_built [] (text "green")
  obtain ⟨other, otherBuilt⟩ := teaLists_built [] (text "black")
  refine ⟨config, other, built, otherBuilt,
    (etag_identifies_iff Function.injective_id built otherBuilt).mpr (Or.inl ?_)⟩
  intro same
  have bodies : [rejoinText (text "green")] = [rejoinText (text "black")] :=
    congrArg (fun lists => lists.skills.map ResolvedSkill.body) same
  rw [rejoinText_eq_self_iff.mpr (noSplitPair_text _),
    rejoinText_eq_self_iff.mpr (noSplitPair_text _)] at bodies
  exact absurd bodies (by decide)

/-- Two configs that differ in the description of a skill have the same etag. -/
theorem descriptions_share_an_etag :
    ∃ config other,
      EffectiveConfig.build literalInterpreter id (teaLists (text "old") []) = some config ∧
      EffectiveConfig.build literalInterpreter id (teaLists (text "new") []) = some other ∧
      config.etag = other.etag ∧ ¬ config.toResolvedLists.Same other.toResolvedLists := by
  obtain ⟨config, built⟩ := teaLists_built (text "old") []
  obtain ⟨other, otherBuilt⟩ := teaLists_built (text "new") []
  refine ⟨config, other, built, otherBuilt,
    (etag_eq_iff Function.injective_id built otherBuilt).mpr rfl, ?_⟩
  rw [(built_etag built).1, (built_etag otherBuilt).1]
  intro same
  have descriptions : [text "old"] = [text "new"] :=
    congrArg (fun lists => lists.skills.map ResolvedSkill.description) same
  exact absurd descriptions (by decide)

end LiteHorse.Web.ConfigText
