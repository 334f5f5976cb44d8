/-
This file models how a cloud turn is set up, from the body of `POST /v1/turns` to the agent that
`run_turn_streaming_for_user` runs, and what that agent may call.

The mode that a request asks for travels as far as the `TurnRequest` and is read by nobody. The
tools are filtered by a policy that comes from the registry of the process or from the rows of the
agent and of the user, and no tool asks the broker. `modes_enforced_iff` says when the mode that
was wanted holds nevertheless.
-/

import LiteHorse.Agent.Factory
import LiteHorse.Web.Permissions

namespace LiteHorse.Web.TurnEngine

open Agent Futures Permissions Python Runs TurnStream

/-! ### From the request to the agent -/

/-- The body of a turn. -/
structure TurnIn where
  sessionKey : String
  permissionMode : Option Mode
  model : Option String

structure TurnRequest where
  sessionKey : String
  permissionMode : Mode
  model : Option String

/-- The request that `post_turn` and `post_turn_stream` make of a body. -/
def turnRequest (body : TurnIn) : TurnRequest where
  sessionKey := body.sessionKey
  permissionMode := body.permissionMode.getD .auto
  model := body.model

/-- What is read of the row of an agent. A text or mode that Python takes as false is `none`. -/
structure AgentRow where
  defaultModel : Option String
  permissionMode : Option Mode

structure UserSettings where
  defaultModel : Option String
  permissionMode : Mode

/-- What a turn finds besides its request. -/
structure TurnSetting (Server : Type) where
  agent : AgentRow
  user : UserSettings
  config : Config
  /-- `_POLICIES` of the process, by session. -/
  policies : String → Option PermissionPolicy
  githubToken : Option String
  /-- What the pool gives for the user, nothing if there is no pool. -/
  mcpServers : List Server
  compatBaseUrl : Option String
  webSearchTool : String

namespace TurnSetting

variable {Server : Type} (setting : TurnSetting Server) (request : TurnRequest)

def chosenModel : Option String :=
  textOr (textOr request.model setting.agent.defaultModel) setting.user.defaultModel

/-- The policy that filters the tools. -/
def policy : Option PermissionPolicy :=
  match setting.policies request.sessionKey with
  | some policy => some policy
  | none =>
    if setting.agent.permissionMode.getD setting.user.permissionMode = .ro then
      some { mode := .ro }
    else none

/-- `run_turn_streaming_for_user`, up to `Runner.run_streamed`: the agent and the name of the model
that was chosen for it. -/
def runTurnStreamingForUser : Except BuildError (BuiltAgent Server × String) := do
  let (_, modelName) ← resolveProvider (setting.chosenModel request) setting.config.model
  let agent ← buildAgentForUser setting.webSearchTool setting.compatBaseUrl setting.config
    setting.mcpServers (setting.policy request) (setting.chosenModel request) setting.githubToken
  return (agent, modelName)

end TurnSetting

/-! ### What happens while the agent runs -/

section Execution

variable (Process : Type)

/-- The model calls a tool, or the app uses a broker. The turn's generator drains the broker and
cancels the turn, the routes resolve and cancel, and the subscribers deliver; nothing in the app
calls `request_decision`. -/
inductive ExecutionEvent where
  | toolCall (callId tool : String)
  | pendingEvents (process : Process) (turnId : String)
  | resolve (process : Process) (message : Message)
  | deliver (process : Process) (message : Message)
  | cancelTurn (process : Process) (turnId : String)

end Execution

section Step

variable {Process : Type} [DecidableEq Process] (hasRedis : Bool) (offered : List String)

def executionStep (state : System Process) : ExecutionEvent Process → Option (System Process)
  | .toolCall _ tool => if tool ∈ offered then some state else none
  | .pendingEvents process turnId => systemStep hasRedis state (.pendingEvents process turnId)
  | .resolve process message => systemStep hasRedis state (.resolve process message)
  | .deliver process message => systemStep hasRedis state (.deliver process message)
  | .cancelTurn process turnId => systemStep hasRedis state (.cancelTurn process turnId)

/-- A broker holds the decision `allow` for a call of a tool. -/
def IsAllowed (state : System Process) (turnId callId : String) : Prop :=
  ∃ process request cell, (state.brokers process).requests request = some cell ∧
    cell.label.1 = turnId ∧ cell.label.2.toolCallId = callId ∧ cell.future = .result "allow"

/-- The event is a call of a tool that writes. -/
def IsWriteCall : ExecutionEvent Process → Prop
  | .toolCall _ tool => tool ∈ offered ∧ tool ∈ writeToolNames
  | _ => False

/-- A call of a tool that writes was allowed before. -/
def AllowedFirst (turnId : String) (state : System Process) : ExecutionEvent Process → Prop
  | .toolCall callId tool =>
    tool ∈ offered → tool ∈ writeToolNames → IsAllowed state turnId callId
  | _ => True

end Step

/-! ### What is promised -/

section Promise

variable {Server : Type} (setting : TurnSetting Server) (body : TurnIn)

/-- The mode that was asked for: that of the request, of the agent or of the user. -/
def wantedMode : Mode :=
  body.permissionMode.getD (setting.agent.permissionMode.getD setting.user.permissionMode)

/-- The model that was asked for, or the default. -/
def wantedModel : String :=
  (textOr (setting.chosenModel (turnRequest body)) (some setting.config.model)).getD ""

/-- The agent that is built keeps to the mode that was wanted. -/
def ModesEnforced (Process : Type) [DecidableEq Process] (hasRedis : Bool) (turnId : String)
    (listTools : Server → List String) : Prop :=
  ∀ agent modelName,
    setting.runTurnStreamingForUser (turnRequest body) = .ok (agent, modelName) →
      (wantedMode setting body = .ro →
        ∀ tool ∈ agent.offered listTools, tool ∉ writeToolNames) ∧
      (wantedMode setting body = .ask → ∀ events : List (ExecutionEvent Process),
        StepsMeet (executionStep hasRedis (agent.offered listTools))
          (AllowedFirst (agent.offered listTools) turnId) .initial events)

/-- The policy of the session is read-only, or there is none and the agent's mode is, or the user's
if the agent has none. -/
def SessionIsReadOnly : Prop :=
  match setting.policies body.sessionKey with
  | some policy => policy.mode = .ro
  | none => setting.agent.permissionMode.getD setting.user.permissionMode = .ro

end Promise

/-! ### Nothing is asked -/

section Execution

variable {Process : Type} [DecidableEq Process] {hasRedis : Bool} {offered : List String}
  {turnId : String}

/-- No broker has a request. -/
def NothingAsked (state : System Process) : Prop :=
  ∀ process request, (state.brokers process).requests request = none

theorem NothingAsked.setBroker {state : System Process} (nothing : NothingAsked state)
    {process : Process} {broker : Broker} (none : ∀ request, broker.requests request = none) :
    NothingAsked (state.setBroker process broker) := by
  intro other request
  rcases brokers_setBroker state process broker other with ⟨_, isSet⟩ | isOther
  · rw [isSet]
    exact none request
  · rw [isOther]
    exact nothing other request

omit [DecidableEq Process] in
theorem NothingAsked.resolveLocal {state : System Process} (nothing : NothingAsked state)
    (process : Process) (turnId toolCallId decision : String) :
    (state.brokers process).resolveLocal turnId toolCallId decision =
      (state.brokers process, none) := by
  cases isUndecided : (state.brokers process).undecided turnId toolCallId with
  | none => exact resolveLocal_of_none decision isUndecided
  | some found =>
    have isCell := (undecided_some isUndecided).1
    rw [nothing process found.1] at isCell
    cases isCell

theorem NothingAsked.decide {state : System Process} (nothing : NothingAsked state)
    (process : Process) (message : Message) : NothingAsked (state.decide process message).1 := by
  unfold System.decide
  rw [nothing.resolveLocal]
  exact nothing.setBroker (nothing process)

theorem nothingAsked_step {state next : System Process} {event : ExecutionEvent Process}
    (nothing : NothingAsked state)
    (taken : executionStep hasRedis offered state event = some next) : NothingAsked next := by
  cases event with
  | toolCall callId tool =>
    simp only [executionStep] at taken
    split at taken
    · cases taken
      exact nothing
    · cases taken
  | pendingEvents process turnId =>
    cases taken
    refine nothing.setBroker fun request => ?_
    unfold Broker.pendingEvents
    dsimp only
    rw [setDefault_requests]
    exact nothing process request
  | resolve process message =>
    simp only [executionStep, systemStep] at taken
    split at taken
    · cases taken
      exact nothing.decide process message
    · cases taken
      exact nothing
  | deliver process message =>
    simp only [executionStep, systemStep] at taken
    split at taken
    · cases taken
      exact nothing.decide process message
    · cases taken
  | cancelTurn process turnId =>
    cases taken
    refine nothing.setBroker fun request => ?_
    unfold Broker.cancelTurn
    split
    · exact nothing process request
    · dsimp only [cancelAll]
      rw [nothing process request]
      rfl

/-- No call of a tool that writes is ever allowed, so a run is as promised exactly if it has no
such call. -/
theorem stepsMeet_allowedFirst_iff (events : List (ExecutionEvent Process)) :
    StepsMeet (executionStep hasRedis offered) (AllowedFirst offered turnId) .initial events ↔
      StepsMeet (executionStep hasRedis offered) (fun _ event => ¬ IsWriteCall offered event)
        .initial events := by
  refine stepsMeet_congr _ (fun _ _ _ => nothingAsked_step) (fun state event nothing => ?_)
    fun _ _ => rfl
  cases event with
  | toolCall callId tool =>
    have notAllowed : ¬ IsAllowed state turnId callId := by
      rintro ⟨process, request, cell, isCell, _⟩
      rw [nothing process request] at isCell
      cases isCell
    exact ⟨fun allowed isWrite => notAllowed (allowed isWrite.1 isWrite.2),
      fun noWrite isOffered writes => absurd ⟨isOffered, writes⟩ noWrite⟩
  | pendingEvents process turnId => exact iff_of_true trivial id
  | resolve process message => exact iff_of_true trivial id
  | deliver process message => exact iff_of_true trivial id
  | cancelTurn process turnId => exact iff_of_true trivial id

variable (hasRedis offered turnId) in
/-- Every execution is as promised exactly if no tool that writes is offered. -/
theorem executions_allowed_iff :
    (∀ events : List (ExecutionEvent Process),
      StepsMeet (executionStep hasRedis offered) (AllowedFirst offered turnId) .initial events) ↔
        ∀ tool ∈ offered, tool ∉ writeToolNames := by
  simp only [stepsMeet_allowedFirst_iff]
  constructor
  · intro noWrite tool isOffered writes
    exact (noWrite [.toolCall "" tool]).1 ⟨isOffered, writes⟩
  · intro noWrite events
    refine stepsMeet_of_forall _ (fun _ event isWrite => ?_) _ events
    cases event with
    | toolCall callId tool => exact noWrite tool isWrite.1 isWrite.2
    | pendingEvents process turnId => exact isWrite
    | resolve process message => exact isWrite
    | deliver process message => exact isWrite
    | cancelTurn process turnId => exact isWrite

end Execution

/-! ### When the wanted mode holds -/

section Setting

variable {Server : Type} (setting : TurnSetting Server) (body : TurnIn)

/-- The engine resolves the model twice, to the same end. -/
theorem runTurnStreamingForUser_eq :
    setting.runTurnStreamingForUser (turnRequest body) =
      (buildAgentForUser setting.webSearchTool setting.compatBaseUrl setting.config
        setting.mcpServers (setting.policy (turnRequest body))
        (setting.chosenModel (turnRequest body)) setting.githubToken).map
          fun agent => (agent, wantedModel setting body) := by
  unfold TurnSetting.runTurnStreamingForUser wantedModel
  rw [buildAgentForUser_eq]
  unfold resolveProvider buildFor
  generalize (textOr (setting.chosenModel (turnRequest body)) (some setting.config.model)).getD ""
    = model
  dsimp only
  cases providerForModel model with
  | error error => rfl
  | ok provider =>
    show Except.bind (Except.map _ (Except.map _ (provider.buildModel _ model))) _ =
      Except.map _ (Except.map _ (Except.map _ (provider.buildModel _ model)))
    cases provider.buildModel setting.compatBaseUrl model with
    | error error => rfl
    | ok upstream => rfl

/-- A turn has an agent exactly if its model is served. -/
theorem exists_runTurnStreamingForUser_iff :
    (∃ agent modelName,
      setting.runTurnStreamingForUser (turnRequest body) = .ok (agent, modelName)) ↔
        IsServed setting.compatBaseUrl (wantedModel setting body) := by
  rw [← exists_buildFor_iff, runTurnStreamingForUser_eq, buildAgentForUser_eq]
  unfold wantedModel
  constructor
  · rintro ⟨agent, modelName, isRun⟩
    obtain ⟨built, isBuilt, _⟩ := map_eq_ok_iff.mp isRun
    obtain ⟨found, isFound, _⟩ := map_eq_ok_iff.mp isBuilt
    exact ⟨found, isFound⟩
  · rintro ⟨found, isFound⟩
    rw [isFound]
    exact ⟨_, _, rfl⟩

theorem policy_isReadOnly_iff :
    (∃ policy ∈ setting.policy (turnRequest body), policy.mode = .ro) ↔
      SessionIsReadOnly setting body := by
  unfold TurnSetting.policy SessionIsReadOnly turnRequest
  dsimp only
  cases setting.policies body.sessionKey with
  | some policy =>
    refine ⟨?_, fun isReadOnly => ⟨policy, rfl, isReadOnly⟩⟩
    rintro ⟨other, same, isReadOnly⟩
    cases same
    exact isReadOnly
  | none =>
    dsimp only
    split
    next isReadOnly => exact iff_of_true ⟨_, rfl, rfl⟩ isReadOnly
    next mayWrite =>
      refine iff_of_false ?_ mayWrite
      rintro ⟨other, same, _⟩
      cases same

variable {setting body}

/-- The agent of a turn offers no tool that writes exactly if its session is read-only and its
servers have none. -/
theorem run_offers_no_write_iff {listTools : Server → List String} {agent : BuiltAgent Server}
    {modelName : String}
    (isRun : setting.runTurnStreamingForUser (turnRequest body) = .ok (agent, modelName)) :
    (∀ tool ∈ agent.offered listTools, tool ∉ writeToolNames) ↔
      SessionIsReadOnly setting body ∧
        ∀ server ∈ setting.mcpServers, ∀ tool ∈ listTools server, tool ∉ writeToolNames := by
  rw [runTurnStreamingForUser_eq, map_eq_ok_iff] at isRun
  obtain ⟨other, isBuilt, same⟩ := isRun
  cases same
  rw [offered_write_iff isBuilt, policy_isReadOnly_iff]

end Setting

/-- For all rows, policies and optional tools, the mode that was wanted holds exactly if no agent
is built, if it asks for nothing, or if the session is read-only anyhow and no MCP server has a
tool that writes. -/
theorem modes_enforced_iff {Server Process : Type} [DecidableEq Process]
    (setting : TurnSetting Server) (body : TurnIn) (hasRedis : Bool) (turnId : String)
    (listTools : Server → List String) :
    ModesEnforced setting body Process hasRedis turnId listTools ↔
      ¬ IsServed setting.compatBaseUrl (wantedModel setting body) ∨
        wantedMode setting body = .auto ∨
          (SessionIsReadOnly setting body ∧
            ∀ server ∈ setting.mcpServers, ∀ tool ∈ listTools server, tool ∉ writeToolNames) := by
  rw [← exists_runTurnStreamingForUser_iff]
  unfold ModesEnforced
  simp only [executions_allowed_iff]
  constructor
  · intro enforced
    by_cases isRun : ∃ agent modelName,
        setting.runTurnStreamingForUser (turnRequest body) = .ok (agent, modelName)
    · obtain ⟨agent, modelName, isRun⟩ := isRun
      obtain ⟨whenReadOnly, whenAsking⟩ := enforced agent modelName isRun
      cases isWanted : wantedMode setting body with
      | auto => exact Or.inr (Or.inl rfl)
      | ask => exact Or.inr (Or.inr ((run_offers_no_write_iff isRun).mp (whenAsking isWanted)))
      | ro => exact Or.inr (Or.inr ((run_offers_no_write_iff isRun).mp (whenReadOnly isWanted)))
    · exact Or.inl isRun
  · rintro (noRun | isAuto | isReadOnly) agent modelName isRun
    · exact absurd ⟨agent, modelName, isRun⟩ noRun
    · rw [isAuto]
      exact ⟨fun isRo => (nomatch isRo), fun isAsk => (nomatch isAsk)⟩
    · have noWrite := (run_offers_no_write_iff isRun).mpr isReadOnly
      exact ⟨fun _ => noWrite, fun _ => noWrite⟩

/-- A request asks for read-only mode, and its agent is offered `memory`. -/
theorem requested_mode_is_not_read :
    ¬ ∀ (Server Process : Type) [DecidableEq Process] (setting : TurnSetting Server)
        (body : TurnIn) (hasRedis : Bool) (turnId : String) (listTools : Server → List String),
        ModesEnforced setting body Process hasRedis turnId listTools := by
  intro assumed
  let setting : TurnSetting Unit := {
    agent := { defaultModel := none, permissionMode := some .auto }
    user := { defaultModel := none, permissionMode := .auto }
    config := { model := "gpt-5.4", webSearch := false }
    policies := fun _ => none
    githubToken := none
    mcpServers := []
    compatBaseUrl := none
    webSearchTool := "web_search" }
  let body : TurnIn := { sessionKey := "session-1", permissionMode := some .ro, model := none }
  have isServed : IsServed none "gpt-5.4" := by
    unfold IsServed
    rw [if_neg (by decide)]
    exact Or.inl (by decide)
  obtain ⟨agent, modelName, isRun⟩ :=
    (exists_runTurnStreamingForUser_iff setting body).mpr isServed
  have enforced := assumed Unit Unit setting body false "turn-1" (fun _ => []) agent modelName isRun
  cases ((run_offers_no_write_iff isRun).mp (enforced.1 rfl)).1

end LiteHorse.Web.TurnEngine
