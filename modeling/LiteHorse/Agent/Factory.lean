/-
This file models how the agent of a cloud turn is built: the permission policy that filters its
tools, the choice of the provider that serves its model, and `build_agent_for_user`.

A tool is known by its name. The tools of the MCP servers are listed by the SDK when the agent
runs and pass no filter; a policy only sees the tools of the agent itself
(`offered_write_iff`).
-/

import LiteHorse.Python

namespace LiteHorse.Agent

open Python

/-! ### Permission policies -/

/-- `VALID_MODES` -/
inductive Mode where
  | auto
  | ask
  | ro
deriving DecidableEq

/-- `WRITE_TOOL_NAMES` -/
def writeToolNames : List String := ["memory", "skill_manage", "cron_manage"]

/-- A `PermissionPolicy`. Nothing reads the tools that it remembers as allowed or denied. -/
structure PermissionPolicy where
  mode : Mode

namespace PermissionPolicy

def isToolAllowed (policy : PermissionPolicy) (toolName : String) : Bool :=
  if policy.mode = .ro then decide (toolName ∉ writeToolNames) else true

def filterTools (policy : PermissionPolicy) (tools : List String) : List String :=
  tools.filter policy.isToolAllowed

end PermissionPolicy

/-- The tools that are left by a policy, if there is one. -/
def applyPolicy (permissionPolicy : Option PermissionPolicy) (tools : List String) : List String :=
  match permissionPolicy with
  | some policy => policy.filterTools tools
  | none => tools

/-! ### Providers -/

inductive ProviderName where
  | openai
  | anthropic
  | openaiCompat
deriving DecidableEq

/-- What goes wrong while an agent is built. -/
inductive BuildError where
  | noProvider (model : String)
  | noBaseUrl
deriving DecidableEq

def BuildError.message (isPrintable : Char → Bool) : BuildError → String
  | .noProvider model => "no provider registered for model " ++ reprString isPrintable model
  | .noBaseUrl =>
    "openai-compat provider needs a base_url; set OPENAI_COMPAT_BASE_URL " ++
      "or pass base_url explicitly"

/-- `COMPAT_PREFIX` -/
def compatStart : String := "oai/"

/-- `text.startswith(start)` -/
def startsWith (text start : String) : Bool := decide (start.toList <+: text.toList)

namespace ProviderName

/-- The `matches` of the three providers. -/
def serves : ProviderName → String → Bool
  | .openai, model => startsWith model "gpt-" || startsWith model "o"
  | .anthropic, model => startsWith model "claude-"
  | .openaiCompat, model => startsWith model compatStart

/-- The name under which a model is asked for upstream. -/
def upstreamModel (model : String) : String :=
  if startsWith model compatStart then String.ofList (model.toList.drop compatStart.length)
  else model

/-- `build_model`, of a client that is given no base URL. -/
def buildModel (compatBaseUrl : Option String) : ProviderName → String → Except BuildError String
  | .openai, model => .ok model
  | .anthropic, model => .ok model
  | .openaiCompat, model =>
    if compatBaseUrl.getD "" = "" then .error .noBaseUrl else .ok (upstreamModel model)

end ProviderName

/-- `_REGISTRY` -/
def registry : List ProviderName := [.openaiCompat, .openai, .anthropic]

def providerForModel (model : String) : Except BuildError ProviderName :=
  match registry.find? fun provider => provider.serves model with
  | some provider => .ok provider
  | none => .error (.noProvider model)

/-- `first or second` -/
def textOr (first second : Option String) : Option String :=
  match first with
  | some text => if text = "" then second else some text
  | none => second

def resolveProvider (defaultModel : Option String) (fallbackModel : String) :
    Except BuildError (ProviderName × String) :=
  let model := (textOr defaultModel (some fallbackModel)).getD ""
  (providerForModel model).map fun provider => (provider, model)

/-! ### The agent of a turn -/

/-- What is read of a `Config`. -/
structure Config where
  model : String
  webSearch : Bool

/-- The tools that every agent starts with. -/
def baseTools : List String :=
  ["memory", "memory_search", "session_search", "skill_manage", "skill_view", "cron_manage"]

/-- `build_github_tools` -/
def githubTools : List String :=
  ["gh_issue_list", "gh_issue_create", "gh_pr_view", "gh_pr_comment", "gh_search_code",
    "gh_diff_view"]

structure BuiltAgent (Server : Type) where
  provider : ProviderName
  model : String
  tools : List String
  mcpServers : List Server

/-- The tools before a policy filters them. -/
def allTools (webSearchTool : String) (config : Config) (githubToken : Option String) :
    List String :=
  baseTools ++ (if config.webSearch then [webSearchTool] else []) ++
    if githubToken.getD "" = "" then [] else githubTools

/-- `build_agent_for_user`. The name of the SDK's web search tool is a parameter. -/
def buildAgentForUser {Server : Type} (webSearchTool : String) (compatBaseUrl : Option String)
    (config : Config) (mcpServers : List Server) (permissionPolicy : Option PermissionPolicy)
    (modelOverride githubToken : Option String) : Except BuildError (BuiltAgent Server) := do
  let (provider, modelName) ← resolveProvider modelOverride config.model
  let model ← provider.buildModel compatBaseUrl modelName
  let tools := allTools webSearchTool config githubToken
  return { provider, model, tools := applyPolicy permissionPolicy tools, mcpServers }

/-- What the SDK offers the model: the tools of the MCP servers and those of the agent. -/
def BuiltAgent.offered {Server : Type} (listTools : Server → List String)
    (agent : BuiltAgent Server) : List String :=
  agent.mcpServers.flatMap listTools ++ agent.tools

/-! ### Which agents are built -/

/-- The provider that is found first can build the model. -/
def IsServed (compatBaseUrl : Option String) (model : String) : Prop :=
  if ProviderName.openaiCompat.serves model then compatBaseUrl.getD "" ≠ ""
  else ProviderName.openai.serves model ∨ ProviderName.anthropic.serves model

section Build

variable {Server : Type} {webSearchTool : String} {compatBaseUrl : Option String} {config : Config}
  {mcpServers : List Server} {permissionPolicy : Option PermissionPolicy}
  {modelOverride githubToken : Option String} {agent : BuiltAgent Server}

/-- Of tools with a write tool among them, a policy leaves no write tool exactly if it is
read-only. -/
theorem applyPolicy_write_iff {tools : List String}
    (writes : ∃ tool ∈ tools, tool ∈ writeToolNames) :
    (∀ tool ∈ applyPolicy permissionPolicy tools, tool ∉ writeToolNames) ↔
      ∃ policy ∈ permissionPolicy, policy.mode = .ro := by
  obtain ⟨writer, isMember, isWriter⟩ := writes
  unfold applyPolicy
  cases permissionPolicy with
  | none =>
    refine iff_of_false (fun noWrite => noWrite writer isMember isWriter) ?_
    rintro ⟨policy, isPolicy, _⟩
    cases isPolicy
  | some policy =>
    dsimp only
    unfold PermissionPolicy.filterTools PermissionPolicy.isToolAllowed
    refine ⟨fun noWrite => ⟨policy, rfl, ?_⟩, ?_⟩
    · by_contra mayWrite
      refine noWrite writer (List.mem_filter.mpr ⟨isMember, ?_⟩) isWriter
      rw [if_neg mayWrite]
    · rintro ⟨other, same, isReadOnly⟩ tool isKept
      cases same
      rw [List.mem_filter, if_pos isReadOnly, decide_eq_true_iff] at isKept
      exact isKept.2

/-- The providers in the order in which they are asked. -/
theorem providerForModel_eq (model : String) :
    providerForModel model =
      if ProviderName.openaiCompat.serves model then .ok .openaiCompat
      else if ProviderName.openai.serves model then .ok .openai
      else if ProviderName.anthropic.serves model then .ok .anthropic
      else .error (.noProvider model) := by
  unfold providerForModel registry
  simp only [List.find?_cons]
  cases ProviderName.openaiCompat.serves model with
  | true => rfl
  | false =>
    cases ProviderName.openai.serves model with
    | true => rfl
    | false =>
      cases ProviderName.anthropic.serves model with
      | true => rfl
      | false => rfl

/-- The provider of a model, and the model that it builds. -/
def buildFor (compatBaseUrl : Option String) (model : String) :
    Except BuildError (ProviderName × String) :=
  (providerForModel model).bind fun provider =>
    (provider.buildModel compatBaseUrl model).map fun upstream => (provider, upstream)

theorem exists_buildFor_iff (model : String) :
    (∃ built, buildFor compatBaseUrl model = .ok built) ↔ IsServed compatBaseUrl model := by
  unfold buildFor IsServed
  rw [providerForModel_eq]
  split
  · by_cases noUrl : compatBaseUrl.getD "" = ""
    · refine iff_of_false ?_ (not_not_intro noUrl)
      rintro ⟨built, isBuilt⟩
      rw [Except.bind, ProviderName.buildModel, if_pos noUrl] at isBuilt
      cases isBuilt
    · refine iff_of_true ⟨(.openaiCompat, ProviderName.upstreamModel model), ?_⟩ noUrl
      rw [Except.bind, ProviderName.buildModel, if_neg noUrl]
      rfl
  · split
    next isOpenai => exact iff_of_true ⟨(.openai, model), rfl⟩ (Or.inl isOpenai)
    next notOpenai =>
      split
      next isAnthropic => exact iff_of_true ⟨(.anthropic, model), rfl⟩ (Or.inr isAnthropic)
      next notAnthropic =>
        refine iff_of_false ?_ (not_or.mpr ⟨notOpenai, notAnthropic⟩)
        rintro ⟨built, isBuilt⟩
        cases isBuilt

theorem buildAgentForUser_eq :
    buildAgentForUser webSearchTool compatBaseUrl config mcpServers permissionPolicy modelOverride
        githubToken =
      (buildFor compatBaseUrl ((textOr modelOverride (some config.model)).getD "")).map
        fun built =>
          { provider := built.1, model := built.2, mcpServers
            tools := applyPolicy permissionPolicy
              (allTools webSearchTool config githubToken) } := by
  unfold buildAgentForUser buildFor resolveProvider
  generalize (textOr modelOverride (some config.model)).getD "" = model
  dsimp only
  cases providerForModel model with
  | error error => rfl
  | ok provider =>
    show Except.bind (provider.buildModel compatBaseUrl model) _ =
      Except.map _ (Except.map _ (provider.buildModel compatBaseUrl model))
    cases provider.buildModel compatBaseUrl model with
    | error error => rfl
    | ok upstream => rfl

/-- An agent offers a tool that writes unless its policy is read-only and its servers have none. -/
theorem offered_write_iff {listTools : Server → List String}
    (isBuilt : buildAgentForUser webSearchTool compatBaseUrl config mcpServers permissionPolicy
      modelOverride githubToken = .ok agent) :
    (∀ tool ∈ agent.offered listTools, tool ∉ writeToolNames) ↔
      (∃ policy ∈ permissionPolicy, policy.mode = .ro) ∧
        ∀ server ∈ mcpServers, ∀ tool ∈ listTools server, tool ∉ writeToolNames := by
  have writes : ∃ tool ∈ allTools webSearchTool config githubToken, tool ∈ writeToolNames :=
    ⟨"memory", List.mem_append_left _ (List.mem_append_left _ List.mem_cons_self),
      List.mem_cons_self⟩
  rw [buildAgentForUser_eq, map_eq_ok_iff] at isBuilt
  obtain ⟨built, _, rfl⟩ := isBuilt
  unfold BuiltAgent.offered
  rw [← applyPolicy_write_iff writes]
  simp only [List.mem_append, List.mem_flatMap]
  constructor
  · intro noWrite
    exact ⟨fun tool isLeft => noWrite tool (Or.inr isLeft),
      fun server isServer tool isListed => noWrite tool (Or.inl ⟨server, isServer, isListed⟩)⟩
  · rintro ⟨noneLeft, noneListed⟩ tool (⟨server, isServer, isListed⟩ | isLeft)
    · exact noneListed server isServer tool isListed
    · exact noneLeft tool isLeft

end Build

end LiteHorse.Agent
