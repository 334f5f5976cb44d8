/-
This file is about how a turn is metered. The engine chooses the model of a turn from the request,
the agent, the user and the configuration; the stream prices the turn by the model of the request
alone, and what it notes in the handle is what the routes record.

`metered_iff` says of every run of the stream and all rows when the two agree. What a row of the
pricing table makes of the tokens is a floating-point computation and a parameter.
-/

import LiteHorse.Web.CostBudget
import LiteHorse.Web.TurnEngine

namespace LiteHorse.Web.TurnUsage

open Agent CostBudget Runs TurnEngine TurnStream

/-! ### What the routes record -/

section Pricing

variable {Pricing : Type} (table : String → Option Pricing)
  (price : Pricing → Int → Int → Int → Int)

/-- `compute_cost_usd_micro`. A model without a row costs nothing. -/
def computeCostUsdMicro (model : String) (inputTokens outputTokens cachedInputTokens : Int) : Int :=
  match table model with
  | some row => price row inputTokens outputTokens cachedInputTokens
  | none => 0

end Pricing

/-- A row of `usage_events`. -/
structure UsageEvent where
  sessionId : String
  model : String
  inputTokens : Int
  outputTokens : Int
  cachedInputTokens : Int
  costUsdMicro : Int

/-- What is read of the `_AgentLimits` after a turn. The agent is that of the ledger. -/
structure AgentLimits where
  costBudgetUsdMicro : Option Int

/-- The rows of the user, and the ledger of the user, the agent and the day if Redis is wired. -/
structure Meters where
  usageEvents : List UsageEvent
  redis : Option Ledger

section Record

variable (cost : String → Int → Int → Int → Int) (sessionKey : String) (limits : Option AgentLimits)
  (usage : TurnUsage)

/-- `_record_usage`, with `UsageRepo.record_turn`. -/
def recordUsage (rows : List UsageEvent) : List UsageEvent :=
  if usage.model.getD "" = "" ∨ (usage.inputTokens = 0 ∧ usage.outputTokens = 0) then rows
  else
    rows ++ [{
      sessionId := sessionKey
      model := usage.model.getD ""
      inputTokens := usage.inputTokens
      outputTokens := usage.outputTokens
      cachedInputTokens := usage.cachedInputTokens
      costUsdMicro := cost (usage.model.getD "") usage.inputTokens usage.outputTokens
        usage.cachedInputTokens }]

/-- `_record_cost_metered` -/
def recordCostMetered (redis : Option Ledger) : Option Ledger :=
  match redis, limits with
  | some ledger, some limits =>
    if usage.costUsdMicro ≤ 0 then some ledger
    else (recordCost (some ledger) usage.costUsdMicro limits.costBudgetUsdMicro).redis
  | _, _ => redis

/-- What `post_turn` and `post_turn_stream` record once the stream has ended. -/
def meterTurn (meters : Meters) : Meters where
  usageEvents := recordUsage cost sessionKey usage meters.usageEvents
  redis := recordCostMetered limits usage meters.redis

end Record

/-! ### What is promised -/

/-- The cost of a result for a model. -/
def costOf (cost : String → Int → Int → Int → Int) (model : String) (result : RunResult) : Int :=
  cost model (result.inputTokens.getD 0) (result.outputTokens.getD 0)
    (result.cachedInputTokens.getD 0)

/-- A turn with this result is metered as one of the model. -/
structure Metered (cost : String → Int → Int → Int → Int) (model : String) (result : RunResult)
    (usage : TurnUsage) (before after : Meters) : Prop where
  named : usage.model = some model
  priced : usage.costUsdMicro = costOf cost model result
  recorded : ∃ row, after.usageEvents = before.usageEvents ++ [row] ∧ row.model = model ∧
    row.costUsdMicro = costOf cost model result
  counted : 0 < usage.costUsdMicro →
    getSpentMicro after.redis = getSpentMicro before.redis + usage.costUsdMicro

/-! ### The usage that the stream leaves -/

section Stream

variable {turnId : String} {model : Option String} {cost : String → Int → Int → Int → Int}
  {state next : StreamState}

/-- The usage of the last result. -/
def lastUsage (model : Option String) (cost : String → Int → Int → Int → Int)
    (events : List StreamEvent) : TurnUsage :=
  ((events.filterMap StreamEvent.doneResult).getLast?.map (usageOf model cost)).getD {}

/-- The usage is that of the last result that was read. -/
def UsageRead (model : Option String) (cost : String → Int → Int → Int → Int)
    (state : StreamState) : Prop :=
  state.usage = lastUsage model cost (state.channel.read.filterMap Item.eventOf)

theorem usage_noteDone (state : StreamState) (item : Item) :
    (state.noteDone model cost item).usage =
      ((item.eventOf.bind StreamEvent.doneResult).map (usageOf model cost)).getD state.usage := by
  cases item with
  | event event => cases event <;> rfl
  | permission request => rfl
  | error exception => rfl
  | aborted => rfl
  | sentinel => rfl

/-- What was read, with one more item. -/
theorem lastUsage_concat (items : List Item) (item : Item) :
    lastUsage model cost ((items ++ [item]).filterMap Item.eventOf) =
      ((item.eventOf.bind StreamEvent.doneResult).map (usageOf model cost)).getD
        (lastUsage model cost (items.filterMap Item.eventOf)) := by
  have isLast : [item].filterMap (fun item : Item => item.eventOf.bind StreamEvent.doneResult) =
      (item.eventOf.bind StreamEvent.doneResult).toList := by
    rw [List.filterMap_cons]
    cases item.eventOf.bind StreamEvent.doneResult with
    | none => rfl
    | some result => rfl
  unfold lastUsage
  rw [List.filterMap_filterMap, List.filterMap_append, List.filterMap_filterMap, isLast]
  cases item.eventOf.bind StreamEvent.doneResult with
  | none =>
    rw [Option.toList_none, List.append_nil]
    rfl
  | some result =>
    rw [Option.toList_some, List.getLast?_concat]
    rfl

theorem UsageRead.frame (usageRead : UsageRead model cost state)
    (sameUsage : next.usage = state.usage)
    (sameRead : next.channel.read = state.channel.read) : UsageRead model cost next := by
  unfold UsageRead
  rw [sameUsage, sameRead]
  exact usageRead

theorem UsageRead.afterBroker (usageRead : UsageRead model cost state) :
    UsageRead model cost (state.afterBroker turnId) := by
  unfold StreamState.afterBroker
  split
  · exact usageRead.frame rfl rfl
  · exact usageRead.frame rfl rfl

theorem usageRead_step {action : StreamAction} (usageRead : UsageRead model cost state)
    (taken : streamStep turnId model cost state action = some next) :
    UsageRead model cost next := by
  cases streamStep_cases taken with
  | generatorReads item channel _ received =>
    have isRead := (Channels.Channel.receive_eq_some_iff.mp received).2
    unfold UsageRead
    rw [handle_eq]
    dsimp only
    rw [isRead, usage_noteDone, lastUsage_concat]
    exact congrArg _ usageRead
  | afterBroker => exact usageRead.afterBroker
  | requestDecision toolCallId tool args =>
    unfold StreamState.requestDecision
    split
    · exact usageRead.frame rfl rfl
    · exact usageRead.frame rfl rfl
  | runnerStarts | runnerYields | runnerExits | decisionReturns | brokerStartsCancelled
  | brokerStarts | brokerForwards | brokerStops | abort | cancelTurn | generatorCancelled
  | afterRunner => exact usageRead.frame rfl rfl

/-- A stream that was drained leaves the usage of the last result that its runner has yielded. -/
theorem usage_of_run {actions : List StreamAction}
    (run : exec (streamStep turnId model cost) {} actions = some state)
    (finished : state.generator = .finished) (notCancelled : state.generatorCancelled = false) :
    state.usage = lastUsage model cost state.yielded := by
  have usageRead : UsageRead model cost state := exec_invariant (streamStep turnId model cost)
    (fun _ _ _ => usageRead_step) (show UsageRead model cost {} from rfl) run
  obtain ⟨sent, delivered⟩ := exec_invariant (streamStep turnId model cost)
    (fun _ action _ => streamInvariant_step action) streamInvariant_initial run
  have left := delivered.left (by rw [finished]; exact Generator.noConfusion)
  rw [if_neg (by rw [notCancelled]; exact Bool.false_ne_true)] at left
  obtain ⟨last, ends, isRead⟩ := left
  obtain ⟨exit, _, isYielded, _⟩ := sent.exit_of_ended model cost ends isRead
  have noEvent : last.eventOf = none := by
    cases last with
    | event event => cases ends
    | permission request => cases ends
    | error exception => rfl
    | aborted => rfl
    | sentinel => rfl
  refine usageRead.trans (congrArg _ ?_)
  rw [isRead, List.filterMap_append, List.filterMap_cons_none noEvent, List.filterMap_nil,
    List.append_nil, isYielded]

end Stream

/-! ### When the turn is metered -/

section Meter

variable {Server : Type} (setting : TurnSetting Server) {body : TurnIn}
  {cost : String → Int → Int → Int → Int} {result : RunResult} {limits : Option AgentLimits}
  {meters : Meters}

/-- The request names the model, and the counter can be reached if there is a cost. -/
def PricedByRequest (cost : String → Int → Int → Int → Int) (body : TurnIn) (result : RunResult)
    (limits : Option AgentLimits) (meters : Meters) : Prop :=
  body.model.getD "" ≠ "" ∧
    (costOf cost (body.model.getD "") result ≤ 0 ∨ (meters.redis.isSome ∧ limits.isSome))

/-- A model that the request names is the one that is chosen. -/
theorem model_of_given (given : body.model.getD "" ≠ "") :
    body.model = some (wantedModel setting body) ∧
      body.model.getD "" = wantedModel setting body := by
  unfold wantedModel TurnSetting.chosenModel turnRequest
  cases isModel : body.model with
  | none =>
    rw [isModel] at given
    exact absurd rfl given
  | some model =>
    rw [isModel, Option.getD_some] at given
    have chosen : ∀ other, textOr (some model) other = some model := fun _ => if_neg given
    dsimp only
    rw [chosen, chosen, chosen]
    exact ⟨rfl, rfl⟩

variable (limits) in
/-- A cost is counted if there is none, or if there are a counter and limits. -/
theorem recordCostMetered_counts_iff (usage : TurnUsage) (redis : Option Ledger) :
    (0 < usage.costUsdMicro → getSpentMicro (recordCostMetered limits usage redis) =
        getSpentMicro redis + usage.costUsdMicro) ↔
      usage.costUsdMicro ≤ 0 ∨ (redis.isSome ∧ limits.isSome) := by
  by_cases positive : 0 < usage.costUsdMicro
  · have notFree : ¬ usage.costUsdMicro ≤ 0 := Int.not_le.mpr positive
    cases redis with
    | none =>
      refine iff_of_false (fun counts => ?_) (not_or.mpr ⟨notFree, fun wired => nomatch wired.1⟩)
      have same := counts positive
      unfold recordCostMetered at same
      dsimp only at same
      omega
    | some ledger =>
      cases limits with
      | none =>
        refine iff_of_false (fun counts => ?_) (not_or.mpr ⟨notFree, fun wired => nomatch wired.2⟩)
        have same := counts positive
        unfold recordCostMetered at same
        dsimp only at same
        omega
      | some limits =>
        refine iff_of_true (fun _ => ?_) (Or.inr ⟨rfl, rfl⟩)
        unfold recordCostMetered
        dsimp only
        rw [if_neg notFree]
        exact getSpentMicro_recordCost positive ledger _
  · exact iff_of_true (fun isPositive => absurd isPositive positive)
      (Or.inl (Int.not_lt.mp positive))

/-- A turn whose stream has left this usage is metered as one of the chosen model exactly if its
request names the model and the counter can be reached. -/
theorem metered_usageOf_iff
    (spent : ¬ (result.inputTokens.getD 0 = 0 ∧ result.outputTokens.getD 0 = 0)) :
    Metered cost (wantedModel setting body) result (usageOf body.model cost result) meters
        (meterTurn cost body.sessionKey limits (usageOf body.model cost result) meters) ↔
      PricedByRequest cost body result limits meters := by
  by_cases given : body.model.getD "" = ""
  · refine iff_of_false (fun metered => ?_) fun priced => priced.1 given
    have named := metered.named
    unfold usageOf at named
    dsimp only at named
    rw [if_pos given] at named
    cases named
  · obtain ⟨isModel, isWanted⟩ := model_of_given setting given
    have named : (usageOf body.model cost result).model = some (wantedModel setting body) :=
      (if_neg given).trans isModel
    have priced : (usageOf body.model cost result).costUsdMicro =
        costOf cost (wantedModel setting body) result := by
      rw [← isWanted]
      rfl
    have counts := recordCostMetered_counts_iff limits (usageOf body.model cost result) meters.redis
    unfold PricedByRequest
    rw [isWanted, ← priced, ← counts]
    refine ⟨fun metered => ⟨isWanted ▸ given, metered.counted⟩, fun counted =>
      ⟨named, priced, ?_, counted.2⟩⟩
    have isRecorded : ¬ ((usageOf body.model cost result).model.getD "" = "" ∨
        ((usageOf body.model cost result).inputTokens = 0 ∧
          (usageOf body.model cost result).outputTokens = 0)) := by
      rw [named, Option.getD_some]
      exact not_or.mpr ⟨counted.1, spent⟩
    unfold meterTurn recordUsage
    rw [if_neg isRecorded, named, Option.getD_some]
    exact ⟨_, rfl, rfl, rfl⟩

end Meter

/-- In every run of the stream, the turn is metered as one of the model that the engine chooses
exactly if its request names the model and the counter can be reached. -/
theorem metered_iff {Pricing Server : Type} (table : String → Option Pricing)
    (price : Pricing → Int → Int → Int → Int) (setting : TurnSetting Server) (body : TurnIn)
    (limits : Option AgentLimits) (meters : Meters) (turnId : String)
    (actions : List StreamAction) (state : StreamState) (result : RunResult)
    (run : exec (streamStep turnId body.model (computeCostUsdMicro table price)) {} actions =
      some state)
    (finished : state.generator = .finished) (notCancelled : state.generatorCancelled = false)
    (isDone : state.yielded.filterMap StreamEvent.doneResult = [result])
    (spent : ¬ (result.inputTokens.getD 0 = 0 ∧ result.outputTokens.getD 0 = 0)) :
    Metered (computeCostUsdMicro table price) (wantedModel setting body) result state.usage meters
        (meterTurn (computeCostUsdMicro table price) body.sessionKey limits state.usage meters) ↔
      PricedByRequest (computeCostUsdMicro table price) body result limits meters := by
  have isUsage := usage_of_run run finished notCancelled
  unfold lastUsage at isUsage
  rw [isDone] at isUsage
  rw [isUsage]
  exact metered_usageOf_iff setting spent

/-- The rates of a model in whole dollars per million tokens. -/
def wholeRates (rates : Int × Int × Int) (inputTokens outputTokens cachedInputTokens : Int) : Int :=
  inputTokens * rates.1 + cachedInputTokens * rates.2.1 + outputTokens * rates.2.2

def oneModel (model : String) : Option (Int × Int × Int) :=
  if model = "claude-opus" then some (15, 2, 75) else none

/-- An agent without a model of its own, of a user who prefers this one. -/
def defaultSetting (defaultModel : Option String) : TurnSetting Unit where
  agent := { defaultModel := none, permissionMode := some .auto }
  user := { defaultModel, permissionMode := .auto }
  config := { model := "claude-opus", webSearch := false }
  policies := fun _ => none
  githubToken := none
  mcpServers := []
  compatBaseUrl := none
  webSearchTool := "web_search"

/-- A runner that yields one result and returns. -/
def oneResult (result : RunResult) : List StreamAction :=
  [.runnerStarts, .runnerYields (.streamDone result), .generatorReads, .runnerExits .returned,
    .generatorReads, .brokerStarts, .brokerAwaited]

/-- A request that names its model is metered. -/
theorem named_model_is_metered :
    Metered (computeCostUsdMicro oneModel wholeRates) "claude-opus"
      { finalOutput := none, inputTokens := some 10, outputTokens := some 2 }
      { model := some "claude-opus", inputTokens := 10, outputTokens := 2, cachedInputTokens := 0,
        costUsdMicro := 300 }
      { usageEvents := [], redis := some .initial }
      { usageEvents := [⟨"session-1", "claude-opus", 10, 2, 0, 300⟩],
        redis := some { counter := some 300, alerted := false } } :=
  (metered_iff oneModel wholeRates (defaultSetting none)
    { sessionKey := "session-1", permissionMode := none, model := some "claude-opus" }
    (some { costBudgetUsdMicro := none }) { usageEvents := [], redis := some .initial } "turn-1"
    (oneResult { finalOutput := none, inputTokens := some 10, outputTokens := some 2 }) _ _
    rfl rfl rfl rfl (by decide)).mpr ⟨by decide, Or.inr ⟨rfl, rfl⟩⟩

/-- A request that leaves the model to the defaults is not. -/
theorem default_model_is_not_metered :
    ¬ ∀ (Pricing Server : Type) (table : String → Option Pricing)
        (price : Pricing → Int → Int → Int → Int) (setting : TurnSetting Server) (body : TurnIn)
        (limits : Option AgentLimits) (meters : Meters) (turnId : String)
        (actions : List StreamAction) (state : StreamState) (result : RunResult),
        (table (wantedModel setting body)).isSome →
        exec (streamStep turnId body.model (computeCostUsdMicro table price)) {} actions =
          some state →
        state.generator = .finished → state.generatorCancelled = false →
        state.yielded.filterMap StreamEvent.doneResult = [result] →
        ¬ (result.inputTokens.getD 0 = 0 ∧ result.outputTokens.getD 0 = 0) →
        Metered (computeCostUsdMicro table price) (wantedModel setting body) result state.usage
          meters (meterTurn (computeCostUsdMicro table price) body.sessionKey limits state.usage
            meters) := by
  intro assumed
  have metered := assumed (Int × Int × Int) Unit oneModel wholeRates (defaultSetting none)
    { sessionKey := "session-1", permissionMode := none, model := none }
    (some { costBudgetUsdMicro := none }) { usageEvents := [], redis := some .initial } "turn-1"
    (oneResult { finalOutput := none, inputTokens := some 10, outputTokens := some 2 }) _ _
    (by decide) rfl rfl rfl rfl (by decide)
  cases metered.named

end LiteHorse.Web.TurnUsage
