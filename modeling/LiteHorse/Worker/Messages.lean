/-
This file models the ten messages of the queue with their codecs. A codec is the
dictionary that `asdict` makes of a message and the conversions that `from_json` makes of a
decoded value; `to_json`, `from_json` and the sniffers are the same for all of them.

`fromJson_toJson` is the round trip. It asks of every text that no high surrogate stands
directly before a low one: `json.dumps` writes the two as the escapes of one character, and
as one character they come back.
-/

import LiteHorse.Worker.WireValue

namespace LiteHorse.Worker.Queue

open JsonTexts Interpreter

variable {Finite : Type}

/-! ### Codecs -/

/-- How the messages of a class are written and read. -/
structure Codec (Finite : Type) (Message : Type) where
  /-- `asdict(self)` -/
  toData : Message → Json Finite
  /-- The arguments that `from_json` makes of a decoded value. -/
  ofData : Interpreter Finite → Json Finite → Except PyError Message

section Codec

variable {Message : Type} (interpreter : Interpreter Finite) (codec : Codec Finite Message)

def Codec.toJson (message : Message) : Option Text := interpreter.dumps (codec.toData message)

def Codec.fromJson (raw : Text) : Except PyError Message := do
  let data ← interpreter.loads raw
  codec.ofData interpreter data

end Codec

/-- The value of `kind`, if the value is a dictionary that has one. -/
def kindOf : Json Finite → Option (Json Finite)
  | .object fields => fields.lookup (text "kind")
  | .null | .bool _ | .int _ | .float _ | .str _ | .array _ => none

/-- The value is a dictionary whose `kind` is a string. -/
def hasKind (kind : Text) (data : Json Finite) : Bool :=
  match kindOf data with
  | some (.str value) => value = kind
  | _ => false

/-- The sniffer of a kind: it catches `ValueError` and `TypeError`. -/
def isPayload (interpreter : Interpreter Finite) (kind raw : Text) : Except PyError Bool :=
  match interpreter.loads raw with
  | .ok data => .ok (hasKind kind data)
  | .error .valueError | .error .typeError => .ok false
  | .error other => .error other

/-! ### The messages -/

section Messages

variable (Finite)

structure EvolveGepaMessage where
  kind : Text
  userId : Text
  agentId : Text
  skillSlug : Text
  enqueuedAt : Text

def evolveGepaKind : Text := text "evolve_gepa"

def evolveGepaCodec : Codec Finite EvolveGepaMessage where
  toData message :=
    .object [(text "kind", .str message.kind), (text "user_id", .str message.userId),
      (text "agent_id", .str message.agentId), (text "skill_slug", .str message.skillSlug),
      (text "enqueued_at", .str message.enqueuedAt)]
  ofData interpreter data := do
    return {
      kind := interpreter.str (← item data (text "kind"))
      userId := interpreter.str (← item data (text "user_id"))
      agentId := interpreter.str (← item data (text "agent_id"))
      skillSlug := interpreter.str (← item data (text "skill_slug"))
      enqueuedAt := interpreter.str (← item data (text "enqueued_at")) }

structure EvolveMessage where
  kind : Text
  userId : Text
  skillSlug : Text
  enqueuedAt : Text

def evolveKind : Text := text "evolve"

def evolveCodec : Codec Finite EvolveMessage where
  toData message :=
    .object [(text "kind", .str message.kind), (text "user_id", .str message.userId),
      (text "skill_slug", .str message.skillSlug),
      (text "enqueued_at", .str message.enqueuedAt)]
  ofData interpreter data := do
    return {
      kind := interpreter.str (← item data (text "kind"))
      userId := interpreter.str (← item data (text "user_id"))
      skillSlug := interpreter.str (← item data (text "skill_slug"))
      enqueuedAt := interpreter.str (← item data (text "enqueued_at")) }

structure EmbedMessage where
  kind : Text
  userId : Text
  agentId : Text
  limit : Int

def embedKind : Text := text "embed"

/-- `DEFAULT_BATCH_LIMIT` of the embed worker. -/
def embedBatchLimit : Int := 50

def embedCodec : Codec Finite EmbedMessage where
  toData message :=
    .object [(text "kind", .str message.kind), (text "user_id", .str message.userId),
      (text "agent_id", .str message.agentId), (text "limit", .int message.limit)]
  ofData interpreter data := do
    return {
      kind := interpreter.str (← item data (text "kind"))
      userId := interpreter.str (← item data (text "user_id"))
      agentId := interpreter.str (← item data (text "agent_id"))
      limit := ← interpreter.int ((← get data (text "limit")).getD (.int embedBatchLimit)) }

structure SummarizeMessage where
  kind : Text
  userId : Text
  agentId : Text
  sessionId : Text
  model : Text

def summarizeKind : Text := text "summarize"

def summarizeCodec : Codec Finite SummarizeMessage where
  toData message :=
    .object [(text "kind", .str message.kind), (text "user_id", .str message.userId),
      (text "agent_id", .str message.agentId), (text "session_id", .str message.sessionId),
      (text "model", .str message.model)]
  ofData interpreter data := do
    return {
      kind := interpreter.str (← item data (text "kind"))
      userId := interpreter.str (← item data (text "user_id"))
      agentId := interpreter.str (← item data (text "agent_id"))
      sessionId := interpreter.str (← item data (text "session_id"))
      model := interpreter.str (interpreter.orElse (← get data (text "model")) (.str [])) }

structure CompactMessage where
  kind : Text
  userId : Text
  agentId : Text
  model : Text

def compactKind : Text := text "compact"

def compactCodec : Codec Finite CompactMessage where
  toData message :=
    .object [(text "kind", .str message.kind), (text "user_id", .str message.userId),
      (text "agent_id", .str message.agentId), (text "model", .str message.model)]
  ofData interpreter data := do
    return {
      kind := interpreter.str (← item data (text "kind"))
      userId := interpreter.str (← item data (text "user_id"))
      agentId := interpreter.str (← item data (text "agent_id"))
      model := interpreter.str (interpreter.orElse (← get data (text "model")) (.str [])) }

/-- The slug and the items of the tool tail are taken over as they were decoded. -/
structure ClassifyMessage where
  kind : Text
  userId : Text
  agentId : Text
  sessionId : Text
  turnId : Text
  userRequest : Text
  finalText : Text
  toolTail : List (Json Finite)
  skillSlug : Json Finite
  model : Text

def classifyKind : Text := text "classify"

def classifyCodec : Codec Finite (ClassifyMessage Finite) where
  toData message :=
    .object [(text "kind", .str message.kind), (text "user_id", .str message.userId),
      (text "agent_id", .str message.agentId), (text "session_id", .str message.sessionId),
      (text "turn_id", .str message.turnId), (text "user_request", .str message.userRequest),
      (text "final_text", .str message.finalText), (text "tool_tail", .array message.toolTail),
      (text "skill_slug", message.skillSlug), (text "model", .str message.model)]
  ofData interpreter data := do
    return {
      kind := interpreter.str (← item data (text "kind"))
      userId := interpreter.str (← item data (text "user_id"))
      agentId := interpreter.str (← item data (text "agent_id"))
      sessionId := interpreter.str (← item data (text "session_id"))
      turnId := interpreter.str (← item data (text "turn_id"))
      userRequest :=
        interpreter.str (interpreter.orElse (← get data (text "user_request")) (.str []))
      finalText := interpreter.str (interpreter.orElse (← get data (text "final_text")) (.str []))
      toolTail :=
        ← Interpreter.list (interpreter.orElse (← get data (text "tool_tail")) (.array []))
      skillSlug := (← get data (text "skill_slug")).getD .null
      model := interpreter.str (interpreter.orElse (← get data (text "model")) (.str [])) }

structure GdprDeleteMessage where
  kind : Text
  requestId : Text

def gdprDeleteKind : Text := text "gdpr_delete"

def gdprDeleteCodec : Codec Finite GdprDeleteMessage where
  toData message :=
    .object [(text "kind", .str message.kind), (text "request_id", .str message.requestId)]
  ofData interpreter data := do
    return {
      kind := interpreter.str (← item data (text "kind"))
      requestId := interpreter.str (← item data (text "request_id")) }

structure AuditShipMessage where
  kind : Text
  retentionDays : Int
  limit : Int

def auditShipKind : Text := text "audit_ship"

def defaultRetentionDays : Int := 90

/-- `DEFAULT_BATCH_LIMIT` of the audit shipper. -/
def auditBatchLimit : Int := 1000

def auditShipCodec : Codec Finite AuditShipMessage where
  toData message :=
    .object [(text "kind", .str message.kind), (text "retention_days", .int message.retentionDays),
      (text "limit", .int message.limit)]
  ofData interpreter data := do
    return {
      kind := interpreter.str (← item data (text "kind"))
      retentionDays := ← interpreter.int
        ((← get data (text "retention_days")).getD (.int defaultRetentionDays))
      limit := ← interpreter.int ((← get data (text "limit")).getD (.int auditBatchLimit)) }

structure CurateMessage where
  kind : Text
  userId : Text
  agentId : Text
  model : Text

def curateKind : Text := text "curate"

def curateCodec : Codec Finite CurateMessage where
  toData message :=
    .object [(text "kind", .str message.kind), (text "user_id", .str message.userId),
      (text "agent_id", .str message.agentId), (text "model", .str message.model)]
  ofData interpreter data := do
    return {
      kind := interpreter.str (← item data (text "kind"))
      userId := interpreter.str (← item data (text "user_id"))
      agentId := interpreter.str (← item data (text "agent_id"))
      model := interpreter.str (interpreter.orElse (← get data (text "model")) (.str [])) }

/-- The URL of the webhook is taken over as it was decoded. -/
structure CronMessage where
  cronJobId : Text
  scope : Text
  slug : Text
  userId : Text
  prompt : Text
  webhookUrl : Json Finite
  scheduledFor : Text

def cronCodec : Codec Finite (CronMessage Finite) where
  toData message :=
    .object [(text "cron_job_id", .str message.cronJobId), (text "scope", .str message.scope),
      (text "slug", .str message.slug), (text "user_id", .str message.userId),
      (text "prompt", .str message.prompt), (text "webhook_url", message.webhookUrl),
      (text "scheduled_for", .str message.scheduledFor)]
  ofData interpreter data := do
    return {
      cronJobId := interpreter.str (← item data (text "cron_job_id"))
      scope := interpreter.str (← item data (text "scope"))
      slug := interpreter.str (← item data (text "slug"))
      userId := interpreter.str (← item data (text "user_id"))
      prompt := interpreter.str (← item data (text "prompt"))
      webhookUrl := (← get data (text "webhook_url")).getD .null
      scheduledFor := interpreter.str (← item data (text "scheduled_for")) }

/-- A message of any of the ten kinds. -/
inductive Message where
  | evolveGepa (message : EvolveGepaMessage)
  | evolve (message : EvolveMessage)
  | embed (message : EmbedMessage)
  | summarize (message : SummarizeMessage)
  | compact (message : CompactMessage)
  | classify (message : ClassifyMessage Finite)
  | gdprDelete (message : GdprDeleteMessage)
  | auditShip (message : AuditShipMessage)
  | curate (message : CurateMessage)
  | cron (message : CronMessage Finite)

/-- The class of a message. -/
inductive Kind where
  | evolveGepa
  | evolve
  | embed
  | summarize
  | compact
  | classify
  | gdprDelete
  | auditShip
  | curate
  | cron
  deriving DecidableEq

end Messages

/-- The constant that `new` gives the messages of a class; cron messages have no kind. -/
def Kind.constant : Kind → Option Text
  | .evolveGepa => some evolveGepaKind
  | .evolve => some evolveKind
  | .embed => some embedKind
  | .summarize => some summarizeKind
  | .compact => some compactKind
  | .classify => some classifyKind
  | .gdprDelete => some gdprDeleteKind
  | .auditShip => some auditShipKind
  | .curate => some curateKind
  | .cron => none

/-- The arguments that the `from_json` of a class makes of a decoded value. -/
def Kind.ofData (kind : Kind) (interpreter : Interpreter Finite) (data : Json Finite) :
    Except PyError (Message Finite) :=
  match kind with
  | .evolveGepa => ((evolveGepaCodec Finite).ofData interpreter data).map .evolveGepa
  | .evolve => ((evolveCodec Finite).ofData interpreter data).map .evolve
  | .embed => ((embedCodec Finite).ofData interpreter data).map .embed
  | .summarize => ((summarizeCodec Finite).ofData interpreter data).map .summarize
  | .compact => ((compactCodec Finite).ofData interpreter data).map .compact
  | .classify => ((classifyCodec Finite).ofData interpreter data).map .classify
  | .gdprDelete => ((gdprDeleteCodec Finite).ofData interpreter data).map .gdprDelete
  | .auditShip => ((auditShipCodec Finite).ofData interpreter data).map .auditShip
  | .curate => ((curateCodec Finite).ofData interpreter data).map .curate
  | .cron => ((cronCodec Finite).ofData interpreter data).map .cron

/-- The `from_json` of a class. -/
def Kind.fromJson (kind : Kind) (interpreter : Interpreter Finite) (raw : Text) :
    Except PyError (Message Finite) := do
  let data ← interpreter.loads raw
  kind.ofData interpreter data

namespace Message

def kind : Message Finite → Kind
  | .evolveGepa _ => .evolveGepa
  | .evolve _ => .evolve
  | .embed _ => .embed
  | .summarize _ => .summarize
  | .compact _ => .compact
  | .classify _ => .classify
  | .gdprDelete _ => .gdprDelete
  | .auditShip _ => .auditShip
  | .curate _ => .curate
  | .cron _ => .cron

/-- The `kind` field of a message. -/
def kindField : Message Finite → Option Text
  | .evolveGepa message => some message.kind
  | .evolve message => some message.kind
  | .embed message => some message.kind
  | .summarize message => some message.kind
  | .compact message => some message.kind
  | .classify message => some message.kind
  | .gdprDelete message => some message.kind
  | .auditShip message => some message.kind
  | .curate message => some message.kind
  | .cron _ => none

def toData : Message Finite → Json Finite
  | .evolveGepa message => (evolveGepaCodec Finite).toData message
  | .evolve message => (evolveCodec Finite).toData message
  | .embed message => (embedCodec Finite).toData message
  | .summarize message => (summarizeCodec Finite).toData message
  | .compact message => (compactCodec Finite).toData message
  | .classify message => (classifyCodec Finite).toData message
  | .gdprDelete message => (gdprDeleteCodec Finite).toData message
  | .auditShip message => (auditShipCodec Finite).toData message
  | .curate message => (curateCodec Finite).toData message
  | .cron message => (cronCodec Finite).toData message

/-- `to_json` -/
def toJson (interpreter : Interpreter Finite) (message : Message Finite) : Option Text :=
  interpreter.dumps message.toData

/-! ### Messages as their constructors make them -/

/-- `str | None` -/
def IsOptionalText (value : Json Finite) : Prop := value = .null ∨ ∃ text, value = .str text

def IsInt64 (value : Int) : Prop := - 2 ^ 63 ≤ value ∧ value < 2 ^ 63

/-- A JSON value has no infinities and no NaN. -/
def IsStandard : Json Finite → Prop
  | .float value => ∃ finite, value = .finite finite
  | .null | .bool _ | .int _ | .str _ | .array _ | .object _ => True

def IsJsonObject (value : Json Finite) : Prop :=
  (∃ fields, value = .object fields) ∧ value.Everywhere IsStandard

/-- The fields have the types that their class declares. -/
def Typed : Message Finite → Prop
  | .embed message => IsInt64 message.limit
  | .auditShip message => IsInt64 message.retentionDays ∧ IsInt64 message.limit
  | .classify message =>
    IsOptionalText message.skillSlug ∧ ∀ value ∈ message.toolTail, IsJsonObject value
  | .cron message => IsOptionalText message.webhookUrl
  | .evolveGepa _ | .evolve _ | .summarize _ | .compact _ | .gdprDelete _ | .curate _ => True

def toolTail : Message Finite → List (Json Finite)
  | .classify message => message.toolTail
  | .evolveGepa _ | .evolve _ | .embed _ | .summarize _ | .compact _ | .gdprDelete _
  | .auditShip _ | .curate _ | .cron _ => []

/-- A message that its constructor made, whose tool tail is within the limits of the
interpreter, and none of whose texts has a split pair. -/
structure Sendable (interpreter : Interpreter Finite) (message : Message Finite) : Prop where
  ownKind : message.kindField = message.kind.constant
  typed : message.Typed
  plain : message.toData.Everywhere Plain
  readable : ∀ value ∈ message.toolTail, value.depth + 2 ≤ interpreter.scannerDepth
  writable : ∀ value ∈ message.toolTail, value.depth + 2 ≤ interpreter.encoderDepth ∧
    longestInt value ≤ interpreter.maxStrDigits

/-! ### The round trip -/

section RoundTrip

variable (interpreter : Interpreter Finite)

/-- What is decoded is what was encoded. -/
theorem ofData_toData (message : Message Finite) :
    message.kind.ofData interpreter message.toData = .ok message := by
  cases message with
  | evolveGepa message => rfl
  | evolve message => rfl
  | embed message => rfl
  | summarize message =>
    show Except.ok (Message.summarize ⟨message.kind, message.userId, message.agentId,
      message.sessionId,
      interpreter.str (interpreter.orElse (some (.str message.model)) (.str []))⟩) = _
    rw [str_orElse]
  | compact message =>
    show Except.ok (Message.compact ⟨message.kind, message.userId, message.agentId,
      interpreter.str (interpreter.orElse (some (.str message.model)) (.str []))⟩) = _
    rw [str_orElse]
  | classify message =>
    have decoded : (classifyCodec Finite).ofData interpreter
        ((classifyCodec Finite).toData message) =
        (list (interpreter.orElse (some (.array message.toolTail)) (.array []))).bind fun tail =>
          .ok ⟨message.kind, message.userId, message.agentId, message.sessionId, message.turnId,
            interpreter.str (interpreter.orElse (some (.str message.userRequest)) (.str [])),
            interpreter.str (interpreter.orElse (some (.str message.finalText)) (.str [])),
            tail, message.skillSlug,
            interpreter.str (interpreter.orElse (some (.str message.model)) (.str []))⟩ := rfl
    show ((classifyCodec Finite).ofData interpreter
      ((classifyCodec Finite).toData message)).map Message.classify = _
    rw [decoded, list_orElse, str_orElse, str_orElse, str_orElse]
    rfl
  | gdprDelete message => rfl
  | auditShip message => rfl
  | curate message =>
    show Except.ok (Message.curate ⟨message.kind, message.userId, message.agentId,
      interpreter.str (interpreter.orElse (some (.str message.model)) (.str []))⟩) = _
    rw [str_orElse]
  | cron message => rfl

theorem hasKind_toData (message : Message Finite) (kind : Text) :
    hasKind kind message.toData = decide (message.kindField = some kind) := by
  have same : ∀ value : Text, decide (value = kind) = decide (some value = some kind) :=
    fun value => decide_eq_decide.mpr (Option.some_inj).symm
  cases message with
  | evolveGepa message => exact same message.kind
  | evolve message => exact same message.kind
  | embed message => exact same message.kind
  | summarize message => exact same message.kind
  | compact message => exact same message.kind
  | classify message => exact same message.kind
  | gdprDelete message => exact same message.kind
  | auditShip message => exact same message.kind
  | curate message => exact same message.kind
  | cron message => rfl

theorem length_int64 {value : Int} (small : IsInt64 value) :
    (Whole.ofNat value.natAbs).length ≤ interpreter.maxStrDigits := by
  have digits : (Nat.digits 10 value.natAbs).length ≤ 20 := by
    rw [Nat.digits_length_le_iff (by decide)]
    unfold IsInt64 at small
    omega
  have enough := interpreter.enoughDigits
  rw [length_ofNat]
  omega

theorem depth_optional {value : Json Finite} (isOptional : IsOptionalText value) :
    value.depth = 0 ∧ longestInt value = 0 := by
  rcases isOptional with rfl | ⟨text, rfl⟩
  · exact ⟨rfl, rfl⟩
  · exact ⟨rfl, rfl⟩

/-- Apart from its tool tail a message is flat. -/
theorem depth_toData {message : Message Finite} (typed : message.Typed) {limit : Nat}
    (enough : 2 ≤ limit) (tail : ∀ value ∈ message.toolTail, value.depth + 2 ≤ limit) :
    message.toData.depth ≤ limit := by
  have flat : ∀ {depth : Nat}, depth = 1 → depth ≤ limit := by omega
  cases message with
  | evolveGepa message => exact flat rfl
  | evolve message => exact flat rfl
  | embed message => exact flat rfl
  | summarize message => exact flat rfl
  | compact message => exact flat rfl
  | classify message =>
    have slug := (depth_optional typed.1).1
    have inside : depthItems message.toolTail ≤ limit - 2 := by
      rw [depthItems_le_iff]
      intro value member
      have deep := tail value member
      omega
    show max 0 (max 0 (max 0 (max 0 (max 0 (max 0 (max 0 (max (depthItems message.toolTail + 1)
      (max message.skillSlug.depth (max 0 0))))))))) + 1 ≤ limit
    rw [slug]
    omega
  | gdprDelete message => exact flat rfl
  | auditShip message => exact flat rfl
  | curate message => exact flat rfl
  | cron message =>
    refine flat ?_
    show max 0 (max 0 (max 0 (max 0 (max 0 (max message.webhookUrl.depth (max 0 0)))))) + 1 = 1
    rw [(depth_optional typed).1]
    rfl

theorem longestInt_toData {message : Message Finite} (typed : message.Typed)
    (tail : ∀ value ∈ message.toolTail, longestInt value ≤ interpreter.maxStrDigits) :
    longestInt message.toData ≤ interpreter.maxStrDigits := by
  have flat : ∀ {length : Nat}, length = 0 → length ≤ interpreter.maxStrDigits := by omega
  cases message with
  | evolveGepa message => exact flat rfl
  | evolve message => exact flat rfl
  | embed message =>
    have digits := length_int64 interpreter typed
    show max 0 (max 0 (max 0 (max (Whole.ofNat message.limit.natAbs).length 0))) ≤ _
    omega
  | summarize message => exact flat rfl
  | compact message => exact flat rfl
  | classify message =>
    have slug := (depth_optional typed.1).2
    have inside := longestIntItems_le_iff.mpr tail
    show max 0 (max 0 (max 0 (max 0 (max 0 (max 0 (max 0 (max
      (longestIntItems message.toolTail) (max (longestInt message.skillSlug) (max 0 0))))))))) ≤ _
    rw [slug]
    have same : toolTail (Message.classify message) = message.toolTail := rfl
    rw [same] at inside
    omega
  | gdprDelete message => exact flat rfl
  | auditShip message =>
    have days := length_int64 interpreter typed.1
    have digits := length_int64 interpreter typed.2
    show max 0 (max (Whole.ofNat message.retentionDays.natAbs).length
      (max (Whole.ofNat message.limit.natAbs).length 0)) ≤ _
    omega
  | curate message => exact flat rfl
  | cron message =>
    refine flat ?_
    show max 0 (max 0 (max 0 (max 0 (max 0 (max (longestInt message.webhookUrl) (max 0 0)))))) = 0
    rw [(depth_optional typed).2]
    rfl

/-- A message that can be sent is written to a text that is decoded to what was encoded. -/
theorem Sendable.loads {message : Message Finite} (sendable : message.Sendable interpreter) :
    ∃ raw, message.toJson interpreter = some raw ∧ interpreter.loads raw = .ok message.toData := by
  have readable := depth_toData sendable.typed interpreter.deepEnough.1 sendable.readable
  have writable := depth_toData sendable.typed interpreter.deepEnough.2
    fun value member => (sendable.writable value member).1
  have digits := longestInt_toData interpreter sendable.typed
    fun value member => (sendable.writable value member).2
  have written : message.toJson interpreter = some (message.toData.dumps interpreter.format) :=
    if_pos ⟨writable, digits⟩
  exact ⟨_, written, interpreter.loads_of_dumps written readable sendable.plain⟩

end RoundTrip

end Message

end LiteHorse.Worker.Queue
