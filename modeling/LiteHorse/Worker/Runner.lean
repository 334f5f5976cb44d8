/-
This file models `dispatch_message`: a chain of sniffers that each decode the body, and for
the first that matches the `from_json` and the handler of its kind; what no sniffer takes is
a cron message.

Two results are about it. A message that can be sent reaches the handler of its kind, once
and unchanged (`message_delivered`). And the function ends with a boolean exactly for the
bodies that `survives` describes (`dispatch_total_iff`): the sniffers do not catch the
`RecursionError` of a body that is nested too deep, and no branch catches the
`OverflowError` of `int` at an infinite number of rows or days.
-/

import LiteHorse.Worker.Messages

namespace LiteHorse.Worker.Queue

open JsonTexts Interpreter

variable {Finite : Type}

/-! ### Handlers -/

structure TurnOutcome where
  finalText : Text
  sessionKey : Text

/-- What the handlers return or raise. -/
structure Handlers (Finite Raised : Type) where
  evolveGepa : EvolveGepaMessage → Except Raised Bool
  evolve : EvolveMessage → Except Raised Bool
  embed : EmbedMessage → Except Raised Bool
  summarize : SummarizeMessage → Except Raised Bool
  compact : CompactMessage → Except Raised Bool
  classify : ClassifyMessage Finite → Except Raised Bool
  gdprDelete : GdprDeleteMessage → Except Raised Bool
  auditShip : AuditShipMessage → Except Raised Bool
  curate : CurateMessage → Except Raised Bool
  runTurn : CronMessage Finite → Except Raised TurnOutcome
  /-- The delivery of a webhook: its URL, the text and the session key. -/
  deliver : Json Finite → Text → Text → Except Raised Unit

/-- A call that the dispatch makes. -/
inductive Call (Finite : Type) where
  | handler (message : Message Finite)
  | deliver (url : Json Finite) (text sessionKey : Text)

/-- The calls of a dispatch, and what it returns or raises. -/
structure Dispatched (Finite : Type) where
  calls : List (Call Finite) := []
  returned : Except PyError Bool

section Dispatch

variable {Raised : Type} (interpreter : Interpreter Finite) (handlers : Handlers Finite Raised)

/-- `except Exception: return False` -/
def boolOf : Except Raised Bool → Bool
  | .ok result => result
  | .error _ => false

/-- The turn of a cron message, and its webhook. What the webhook raises is logged. -/
def runCron (message : CronMessage Finite) : Dispatched Finite :=
  match handlers.runTurn message with
  | .error _ => ⟨[.handler (.cron message)], .ok false⟩
  | .ok outcome =>
    if truthy interpreter.isZero message.webhookUrl then
      match handlers.deliver message.webhookUrl outcome.finalText outcome.sessionKey with
      | .ok _ | .error _ =>
        ⟨[.handler (.cron message),
          .deliver message.webhookUrl outcome.finalText outcome.sessionKey], .ok true⟩
    else ⟨[.handler (.cron message)], .ok true⟩

/-- The handler of a message is called. -/
def run : Message Finite → Dispatched Finite
  | .evolveGepa message =>
    ⟨[.handler (.evolveGepa message)], .ok (boolOf (handlers.evolveGepa message))⟩
  | .evolve message => ⟨[.handler (.evolve message)], .ok (boolOf (handlers.evolve message))⟩
  | .embed message => ⟨[.handler (.embed message)], .ok (boolOf (handlers.embed message))⟩
  | .summarize message =>
    ⟨[.handler (.summarize message)], .ok (boolOf (handlers.summarize message))⟩
  | .compact message => ⟨[.handler (.compact message)], .ok (boolOf (handlers.compact message))⟩
  | .classify message => ⟨[.handler (.classify message)], .ok (boolOf (handlers.classify message))⟩
  | .gdprDelete message =>
    ⟨[.handler (.gdprDelete message)], .ok (boolOf (handlers.gdprDelete message))⟩
  | .auditShip message =>
    ⟨[.handler (.auditShip message)], .ok (boolOf (handlers.auditShip message))⟩
  | .curate message => ⟨[.handler (.curate message)], .ok (boolOf (handlers.curate message))⟩
  | .cron message => runCron interpreter handlers message

/-- `except (ValueError, KeyError, TypeError)` -/
def PyError.caught : PyError → Bool
  | .valueError | .keyError | .typeError => true
  | .attributeError | .overflowError | .recursionError => false

/-- A message is parsed and handled; one that does not parse is dropped. -/
def parseAndRun (kind : Kind) (raw : Text) : Dispatched Finite :=
  match kind.fromJson interpreter raw with
  | .ok message => run interpreter handlers message
  | .error error => ⟨[], if error.caught then .ok true else .error error⟩

/-- `if is_..._payload(raw.body): ...` -/
def branch (kind : Kind) (constant raw : Text) (next : Dispatched Finite) : Dispatched Finite :=
  match isPayload interpreter constant raw with
  | .ok true => parseAndRun interpreter handlers kind raw
  | .ok false => next
  | .error error => ⟨[], .error error⟩

def dispatchMessage (raw : Text) : Dispatched Finite :=
  branch interpreter handlers .evolveGepa evolveGepaKind raw <|
  branch interpreter handlers .evolve evolveKind raw <|
  branch interpreter handlers .embed embedKind raw <|
  branch interpreter handlers .summarize summarizeKind raw <|
  branch interpreter handlers .compact compactKind raw <|
  branch interpreter handlers .classify classifyKind raw <|
  branch interpreter handlers .gdprDelete gdprDeleteKind raw <|
  branch interpreter handlers .auditShip auditShipKind raw <|
  branch interpreter handlers .curate curateKind raw <|
  parseAndRun interpreter handlers .cron raw

/-! ### The route of a body -/

/-- The kinds with a sniffer, in their order. -/
def sniffed : List (Kind × Text) :=
  [(.evolveGepa, evolveGepaKind), (.evolve, evolveKind), (.embed, embedKind),
    (.summarize, summarizeKind), (.compact, compactKind), (.classify, classifyKind),
    (.gdprDelete, gdprDeleteKind), (.auditShip, auditShipKind), (.curate, curateKind)]

/-- The route of a decoded value. -/
def routeOf (data : Json Finite) : Kind :=
  ((sniffed.find? fun route => hasKind route.2 data).map Prod.fst).getD .cron

/-- The route a body is sent to; a body that is not JSON goes to the cron branch. -/
def route (raw : Text) : Kind :=
  match interpreter.loads raw with
  | .ok data => routeOf data
  | .error _ => .cron

theorem isPayload_of_loads {constant raw : Text} {data : Json Finite}
    (loaded : interpreter.loads raw = .ok data) :
    isPayload interpreter constant raw = .ok (hasKind constant data) := by
  rw [isPayload, loaded]

theorem branch_of_loads {kind : Kind} {constant raw : Text} {next : Dispatched Finite}
    {data : Json Finite} (loaded : interpreter.loads raw = .ok data) :
    branch interpreter handlers kind constant raw next =
      if hasKind constant data then parseAndRun interpreter handlers kind raw else next := by
  rw [branch, isPayload_of_loads interpreter loaded]
  cases hasKind constant data <;> rfl

theorem foldr_branch {raw : Text} {data : Json Finite} (loaded : interpreter.loads raw = .ok data)
    (routes : List (Kind × Text)) :
    routes.foldr (fun route next => branch interpreter handlers route.1 route.2 raw next)
        (parseAndRun interpreter handlers .cron raw) =
      parseAndRun interpreter handlers
        (((routes.find? fun route => hasKind route.2 data).map Prod.fst).getD .cron) raw := by
  induction routes with
  | nil => rfl
  | cons route routes inductionHypothesis =>
    rw [List.foldr_cons, branch_of_loads interpreter handlers loaded, List.find?_cons]
    cases hasKind route.2 data with
    | true => rfl
    | false => exact inductionHypothesis

/-- A body that is JSON is parsed and handled on its route. -/
theorem dispatch_of_loads {raw : Text} {data : Json Finite}
    (loaded : interpreter.loads raw = .ok data) :
    dispatchMessage interpreter handlers raw =
      parseAndRun interpreter handlers (routeOf data) raw :=
  foldr_branch interpreter handlers loaded sniffed

/-- A body that is malformed is dropped. -/
theorem dispatch_of_malformed {raw : Text}
    (malformed : interpreter.loads raw = .error .valueError) :
    dispatchMessage interpreter handlers raw = ⟨[], .ok true⟩ := by
  have next : ∀ (kind : Kind) (constant : Text) (next : Dispatched Finite),
      branch interpreter handlers kind constant raw next = next := by
    intro kind constant next
    rw [branch, isPayload, malformed]
  have dropped : parseAndRun interpreter handlers .cron raw = ⟨[], .ok true⟩ := by
    rw [parseAndRun, Kind.fromJson, malformed]
    rfl
  simp only [dispatchMessage, next, dropped]

/-- A body that is nested too deep ends the first sniffer. -/
theorem dispatch_of_tooDeep {raw : Text}
    (tooDeep : interpreter.loads raw = .error .recursionError) :
    dispatchMessage interpreter handlers raw = ⟨[], .error .recursionError⟩ := by
  rw [dispatchMessage, branch, isPayload, tooDeep]

theorem loads_error {raw : Text} {error : PyError} (failed : interpreter.loads raw = .error error) :
    error = .valueError ∨ error = .recursionError := by
  unfold Interpreter.loads at failed
  cases scanned : JsonTexts.loads interpreter.format interpreter.maxStrDigits
      interpreter.scannerDepth raw with
  | ok value =>
    rw [scanned] at failed
    cases failed
  | error scan =>
    rw [scanned] at failed
    cases failed
    cases scan with
    | malformed => exact Or.inl rfl
    | tooManyDigits => exact Or.inl rfl
    | tooDeep => exact Or.inr rfl

end Dispatch

/-! ### Delivery -/

/-- The messages that were handed to a handler. -/
def Dispatched.handled (dispatched : Dispatched Finite) : List (Message Finite) :=
  dispatched.calls.filterMap fun call =>
    match call with
    | .handler message => some message
    | .deliver .. => none

/-- What the handler of a message returns or raises; a cron message is done once its turn
has run. -/
def Handlers.result {Raised : Type} (handlers : Handlers Finite Raised) :
    Message Finite → Except Raised Bool
  | .evolveGepa message => handlers.evolveGepa message
  | .evolve message => handlers.evolve message
  | .embed message => handlers.embed message
  | .summarize message => handlers.summarize message
  | .compact message => handlers.compact message
  | .classify message => handlers.classify message
  | .gdprDelete message => handlers.gdprDelete message
  | .auditShip message => handlers.auditShip message
  | .curate message => handlers.curate message
  | .cron message => (handlers.runTurn message).map fun _ => true

/-- A message is handed to its own handler only, once. -/
theorem handled_run {Raised : Type} (interpreter : Interpreter Finite)
    (handlers : Handlers Finite Raised) (message : Message Finite) :
    (run interpreter handlers message).handled = [message] := by
  cases message with
  | cron message =>
    show (runCron interpreter handlers message).handled = [Message.cron message]
    unfold runCron
    split
    · rfl
    · split
      · split <;> rfl
      · rfl
  | evolveGepa message => rfl
  | evolve message => rfl
  | embed message => rfl
  | summarize message => rfl
  | compact message => rfl
  | classify message => rfl
  | gdprDelete message => rfl
  | auditShip message => rfl
  | curate message => rfl

theorem returned_run {Raised : Type} (interpreter : Interpreter Finite)
    (handlers : Handlers Finite Raised) (message : Message Finite) :
    (run interpreter handlers message).returned = .ok (boolOf (handlers.result message)) := by
  cases message with
  | cron message =>
    show (runCron interpreter handlers message).returned =
      .ok (boolOf ((handlers.runTurn message).map fun _ => true))
    unfold runCron
    split
    · next raised =>
      rw [raised]
      rfl
    · next outcome finished =>
      rw [finished]
      split
      · split <;> rfl
      · rfl
  | evolveGepa message => rfl
  | evolve message => rfl
  | embed message => rfl
  | summarize message => rfl
  | compact message => rfl
  | classify message => rfl
  | gdprDelete message => rfl
  | auditShip message => rfl
  | curate message => rfl

theorem routeOf_toData {message : Message Finite}
    (ownKind : message.kindField = message.kind.constant) :
    routeOf message.toData = message.kind := by
  have sniffs : (fun route : Kind × Text => hasKind route.2 message.toData) =
      fun route => decide (message.kind.constant = some route.2) := by
    funext route
    rw [Message.hasKind_toData, ownKind]
  unfold routeOf
  rw [sniffs]
  cases message <;> rfl

/-- A message that can be sent is parsed back from its text. -/
theorem fromJson_toJson (interpreter : Interpreter Finite) {message : Message Finite}
    (sendable : message.Sendable interpreter) :
    ∃ raw, message.toJson interpreter = some raw ∧ interpreter.loads raw = .ok message.toData ∧
      message.kind.fromJson interpreter raw = .ok message := by
  obtain ⟨raw, written, loaded⟩ := sendable.loads
  refine ⟨raw, written, loaded, ?_⟩
  rw [Kind.fromJson, loaded]
  exact Message.ofData_toData interpreter message

/-- A message that can be sent comes back from its text, and the dispatch of the text hands
it to its own handler only, once, and returns what the handler returns. -/
theorem message_delivered (interpreter : Interpreter Finite) (message : Message Finite)
    (sendable : message.Sendable interpreter) :
    ∃ raw, message.toJson interpreter = some raw ∧
      message.kind.fromJson interpreter raw = .ok message ∧
      ∀ {Raised : Type} (handlers : Handlers Finite Raised),
        (dispatchMessage interpreter handlers raw).handled = [message] ∧
        ∀ result, handlers.result message = .ok result →
          (dispatchMessage interpreter handlers raw).returned = .ok result := by
  obtain ⟨raw, written, loaded, parsed⟩ := fromJson_toJson interpreter sendable
  refine ⟨raw, written, parsed, fun handlers => ?_⟩
  have dispatched :
      dispatchMessage interpreter handlers raw = run interpreter handlers message := by
    rw [dispatch_of_loads interpreter handlers loaded, routeOf_toData sendable.ownKind,
      parseAndRun, parsed]
  rw [dispatched]
  refine ⟨handled_run interpreter handlers message, fun result returns => ?_⟩
  rw [returned_run, returns]
  rfl

/-! An interpreter that keeps a float as its literal. -/

abbrev FloatLiteral := { token : NumberToken // token.isInteger = false }

def literalFormat : FloatFormat FloatLiteral where
  parse token :=
    if isFloat : token.isInteger = false then .finite ⟨token, isFloat⟩ else .nan
  repr := Subtype.val
  isFloat := Subtype.property
  parse_repr value := dif_pos value.property

def literalInterpreter : Interpreter FloatLiteral where
  format := literalFormat
  truncate value := value.val.value
  isZero value := value.val.whole.value = 0 && value.val.fraction.all (·.val = 0)
  maxStrDigits := 4300
  enoughDigits := by decide
  scannerDepth := 1000
  encoderDepth := 500
  deepEnough := by decide
  isPrintable char := 0xa1 ≤ char.val && char.val ≤ 0xff && char.val ≠ 0xad
  decimal := digitValue

/-- A turn to classify, with a tool call of nested arguments and a character above the basic
plane. -/
def toolTurn : Message FloatLiteral :=
  .classify
    { kind := classifyKind
      userId := text "u"
      agentId := text "a"
      sessionId := text "s"
      turnId := text "t"
      userRequest := text "tea 🍵"
      finalText := []
      toolTail := [.object [(text "args", .array [.int 3, .null, .bool true])]]
      skillSlug := .null
      model := [] }

theorem toolTurn_delivered :
    toolTurn.Sendable literalInterpreter ∧
      ∃ raw, toolTurn.toJson literalInterpreter = some raw ∧
        Kind.classify.fromJson literalInterpreter raw = .ok toolTurn := by
  have three := Message.length_int64 literalInterpreter
    (show Message.IsInt64 3 from ⟨by decide, by decide⟩)
  have tail : (Json.object [(text "args", .array [.int 3, .null, .bool true])] :
      Json FloatLiteral).Everywhere Plain := by
    refine ⟨⟨by decide, ?_⟩, ⟨trivial, trivial, trivial, trivial, trivial⟩, trivial⟩
    intro field member
    rw [List.mem_singleton.mp member]
    exact noSplitPair_text "args"
  have sendable : toolTurn.Sendable literalInterpreter := by
    refine ⟨rfl, ⟨Or.inl rfl, ?_⟩, ⟨⟨by decide, ?_⟩, ?_⟩, ?_, ?_⟩
    · intro value member
      rw [List.mem_singleton.mp member]
      exact ⟨⟨_, rfl⟩, trivial, ⟨trivial, trivial, trivial, trivial, trivial⟩, trivial⟩
    · simp only [List.forall_mem_cons, noSplitPair_text, true_and]
      exact fun field member => absurd member List.not_mem_nil
    · exact ⟨noSplitPair_text "classify", noSplitPair_text "u", noSplitPair_text "a",
        noSplitPair_text "s", noSplitPair_text "t", noSplitPair_text "tea 🍵", noSplitPair_text "",
        ⟨trivial, tail, trivial⟩, trivial, noSplitPair_text "", trivial⟩
    · intro value member
      rw [List.mem_singleton.mp member]
      decide
    · intro value member
      rw [List.mem_singleton.mp member]
      refine ⟨by decide, ?_⟩
      show max (max (Whole.ofNat (3 : Int).natAbs).length (max 0 (max 0 0))) 0 ≤ _
      omega
  obtain ⟨raw, written, parsed, _⟩ := message_delivered literalInterpreter toolTurn sendable
  exact ⟨sendable, raw, written, parsed⟩

/-- The slug is two lone surrogates. -/
def splitSlug : EvolveMessage where
  kind := evolveKind
  userId := text "u"
  skillSlug := [⟨0xd83d, by decide⟩, ⟨0xde00, by decide⟩]
  enqueuedAt := text "t"

/-- The slug is the character whose escapes they are. -/
def joinedSlug : EvolveMessage := { splitSlug with skillSlug := [⟨0x1f600, by decide⟩] }

/-- Brackets nested as often as the number says. -/
def nested : Nat → Json FloatLiteral
  | 0 => .null
  | count + 1 => .array [nested count]

theorem depth_nested (count : Nat) : (nested count).depth = count := by
  induction count with
  | zero => rfl
  | succ count inductionHypothesis =>
    show max (nested count).depth 0 + 1 = count + 1
    omega

/-- A turn to classify with one tool call. -/
def callTurn (arguments : Json FloatLiteral) : Message FloatLiteral :=
  .classify
    { kind := classifyKind
      userId := text "u"
      agentId := text "a"
      sessionId := text "s"
      turnId := text "t"
      userRequest := []
      finalText := []
      toolTail := [.object [(text "args", arguments)]]
      skillSlug := .null
      model := [] }

theorem depth_callTurn (arguments : Json FloatLiteral) :
    (callTurn arguments).toData.depth = arguments.depth + 3 := by
  show max 0 (max 0 (max 0 (max 0 (max 0 (max 0 (max 0 (max
    (max (max arguments.depth 0 + 1) 0 + 1) (max 0 (max 0 0))))))))) + 1 = _
  omega

theorem longestInt_callTurn (arguments : Json FloatLiteral) :
    longestInt (callTurn arguments).toData = longestInt arguments := by
  show max 0 (max 0 (max 0 (max 0 (max 0 (max 0 (max 0 (max
    (max (max (longestInt arguments) 0) 0) (max 0 (max 0 0))))))))) = _
  omega

theorem toJson_deep {arguments : Json FloatLiteral}
    (deep : literalInterpreter.encoderDepth < arguments.depth + 3) :
    (callTurn arguments).toJson literalInterpreter = none := by
  refine if_neg fun within => ?_
  have shallow := within.1
  rw [depth_callTurn] at shallow
  omega

theorem toJson_long {number : Nat} (long : 10 ^ literalInterpreter.maxStrDigits ≤ number) :
    (callTurn (.int number)).toJson literalInterpreter = none := by
  refine if_neg fun within => ?_
  have few : (Whole.ofNat (number : Int).natAbs).length ≤ literalInterpreter.maxStrDigits := by
    have few := within.2
    rw [longestInt_callTurn] at few
    exact few
  have many := (Nat.lt_digits_length_iff (by decide) number).mpr long
  rw [Int.natAbs_natCast, length_ofNat] at few
  omega

/-- The two surrogates come back as one character; a tool call that the reader could follow is
too deep for `asdict`; and one with a very long integer is not written at all. -/
theorem some_messages_do_not_come_back :
    (∃ raw, (Message.evolve splitSlug).toJson literalInterpreter = some raw ∧
      Kind.evolve.fromJson literalInterpreter raw = .ok (.evolve joinedSlug) ∧
      joinedSlug.skillSlug ≠ splitSlug.skillSlug) ∧
      ((callTurn (nested 600)).toData.depth ≤ literalInterpreter.scannerDepth ∧
        (callTurn (nested 600)).toJson literalInterpreter = none) ∧
      ∃ number : Nat, (callTurn (.int number)).toJson literalInterpreter = none := by
  refine ⟨?_, ⟨?_, toJson_deep ?_⟩, _, toJson_long (Nat.le_refl _)⟩
  · have sendable : (Message.evolve joinedSlug).Sendable literalInterpreter := by
      refine ⟨rfl, trivial, ⟨⟨by decide, ?_⟩, ?_⟩, ?_, ?_⟩
      · simp only [List.forall_mem_cons, noSplitPair_text, true_and]
        exact fun field member => absurd member List.not_mem_nil
      · exact ⟨noSplitPair_text "evolve", noSplitPair_text "u", List.isChain_singleton _,
          noSplitPair_text "t", trivial⟩
      · exact fun value member => absurd member List.not_mem_nil
      · exact fun value member => absurd member List.not_mem_nil
    obtain ⟨raw, written, _, parsed⟩ := fromJson_toJson literalInterpreter sendable
    refine ⟨raw, ?_, parsed, by decide⟩
    rw [← written]
    rfl
  · rw [depth_callTurn, depth_nested]
    decide
  · rw [depth_nested]
    decide

/-! ### Totality -/

section Totality

/-- The value under a key of a dictionary. -/
def fieldOf (data : Json Finite) (key : Text) : Option (Json Finite) :=
  match data with
  | .object fields => fields.lookup key
  | .null | .bool _ | .int _ | .float _ | .str _ | .array _ => none

/-- The value is there and is one of the two infinities. -/
def isInfinite : Option (Json Finite) → Bool
  | some (.float (.infinite _)) => true
  | _ => false

variable (interpreter : Interpreter Finite)

/-- The conversions of the value get to the `int` of an infinity. -/
def overflows (data : Json Finite) : Bool :=
  match routeOf data with
  | .embed =>
    (fieldOf data (text "user_id")).isSome && (fieldOf data (text "agent_id")).isSome &&
      isInfinite (fieldOf data (text "limit"))
  | .auditShip =>
    isInfinite (fieldOf data (text "retention_days")) ||
      (isInfinite (fieldOf data (text "limit")) &&
        ((fieldOf data (text "retention_days")).elim true fun days =>
          (interpreter.int days).isOk))
  | .evolveGepa | .evolve | .summarize | .compact | .classify | .gdprDelete | .curate
  | .cron => false

/-- The body is not nested too deep, and no number of rows or days that is converted is an
infinity. -/
def survives (raw : Text) : Prop :=
  match interpreter.loads raw with
  | .ok data => overflows interpreter data = false
  | .error error => error ≠ .recursionError

/-- Every exception is one that the branches of the dispatch catch. -/
def Caught {Value : Type} (result : Except PyError Value) : Prop :=
  ∀ error, result = .error error → error.caught = true

theorem caught_ok {Value : Type} (value : Value) : Caught (.ok value) := by
  intro error same
  cases same

theorem Caught.bind {Value Result : Type} {first : Except PyError Value}
    {next : Value → Except PyError Result} (caughtFirst : Caught first)
    (caughtNext : ∀ value, first = .ok value → Caught (next value)) : Caught (first >>= next) := by
  intro error same
  cases first with
  | error raised =>
    cases same
    exact caughtFirst error rfl
  | ok value => exact caughtNext value rfl error same

theorem Caught.map {Value Result : Type} {first : Except PyError Value} {translate : Value → Result}
    (caught : Caught first) : Caught (first.map translate) := by
  intro error same
  cases first with
  | error raised =>
    cases same
    exact caught error rfl
  | ok value => cases same

theorem caught_item (data : Json Finite) (key : Text) : Caught (item data key) := by
  intro error same
  cases data with
  | object fields =>
    cases found : fields.lookup key with
    | none =>
      simp only [item, found, Option.elim] at same
      cases same
      rfl
    | some value =>
      simp only [item, found, Option.elim] at same
      cases same
  | null | bool _ | int _ | float _ | str _ | array _ =>
    cases same
    rfl

theorem caught_list (value : Json Finite) : Caught (Interpreter.list value) := by
  intro error same
  cases value with
  | array _ | object _ | str _ => cases same
  | null | bool _ | int _ | float _ =>
    cases same
    rfl

theorem caught_int {value : Json Finite} (finite : isInfinite (some value) = false) :
    Caught (interpreter.int value) := by
  intro error same
  cases value with
  | bool _ | int _ => cases same
  | float value =>
    cases value with
    | finite _ => cases same
    | infinite _ => cases finite
    | nan =>
      cases same
      rfl
  | str value =>
    cases converted : interpreter.intOfText value with
    | none =>
      simp only [Interpreter.int, converted, Option.elim] at same
      cases same
      rfl
    | some number =>
      simp only [Interpreter.int, converted, Option.elim] at same
      cases same
  | null | array _ | object _ =>
    cases same
    rfl

theorem lookup_of_item {fields : List (Text × Json Finite)} {key : Text} {value : Json Finite}
    (found : item (.object fields) key = .ok value) : fields.lookup key = some value := by
  cases looked : fields.lookup key with
  | none =>
    simp only [item, looked, Option.elim] at found
    cases found
  | some other =>
    simp only [item, looked, Option.elim] at found
    cases found
    rfl

theorem item_of_lookup {fields : List (Text × Json Finite)} {key : Text} {value : Json Finite}
    (looked : fields.lookup key = some value) : item (.object fields) key = .ok value := by
  simp only [item, looked, Option.elim]

theorem isInfinite_getD (value : Option (Json Finite)) (default : Int) :
    isInfinite (some (value.getD (.int default))) = isInfinite value := by
  cases value <;> rfl

theorem int_of_isInfinite {value : Json Finite} (infinite : isInfinite (some value) = true) :
    interpreter.int value = .error .overflowError := by
  cases value with
  | float value =>
    cases value with
    | infinite negative => rfl
    | finite _ | nan => cases infinite
  | null | bool _ | int _ | str _ | array _ | object _ => cases infinite

/-- The default of a field converts. -/
theorem converts_iff (value : Option (Json Finite)) (default : Int) :
    (value.elim true fun found => (interpreter.int found).isOk) = true ↔
      ∃ number, interpreter.int (value.getD (.int default)) = .ok number := by
  cases value with
  | none => exact iff_of_true rfl ⟨default, rfl⟩
  | some found =>
    show (interpreter.int found).isOk = true ↔ ∃ number, interpreter.int found = .ok number
    cases interpreter.int found with
    | ok number => exact iff_of_true rfl ⟨number, rfl⟩
    | error error => simp [Except.isOk, Except.toBool]

/-- A value on the route of a kind is a dictionary with that kind. -/
theorem lookup_kind_of_route {fields : List (Text × Json Finite)} {kind : Kind}
    (onRoute : routeOf (.object fields) = kind) (notCron : kind ≠ .cron) :
    ∃ constant, fields.lookup (text "kind") = some (.str constant) := by
  unfold routeOf at onRoute
  cases found : sniffed.find? fun route => hasKind route.2 (Json.object fields) with
  | none =>
    rw [found] at onRoute
    exact absurd onRoute.symm notCron
  | some route =>
    have sniffs := List.find?_some found
    unfold hasKind kindOf at sniffs
    split at sniffs
    · next constant looked => exact ⟨constant, looked⟩
    · cases sniffs

theorem caught_embed {fields : List (Text × Json Finite)}
    (fits : ((fields.lookup (text "user_id")).isSome && (fields.lookup (text "agent_id")).isSome &&
      isInfinite (fields.lookup (text "limit"))) = false) :
    Caught ((embedCodec Finite).ofData interpreter (.object fields)) := by
  refine (caught_item _ _).bind fun _ _ => (caught_item _ _).bind fun user isUser =>
    (caught_item _ _).bind fun agent isAgent => ?_
  rw [lookup_of_item isUser, lookup_of_item isAgent] at fits
  exact (caught_int interpreter ((isInfinite_getD _ _).trans fits)).bind fun _ _ => caught_ok _

theorem caught_auditShip {fields : List (Text × Json Finite)}
    (fits : (isInfinite (fields.lookup (text "retention_days")) ||
      (isInfinite (fields.lookup (text "limit")) &&
        ((fields.lookup (text "retention_days")).elim true fun days =>
          (interpreter.int days).isOk))) = false) :
    Caught ((auditShipCodec Finite).ofData interpreter (.object fields)) := by
  obtain ⟨daysFit, limitFits⟩ := Bool.or_eq_false_iff.mp fits
  refine (caught_item _ _).bind fun _ _ =>
    (caught_int interpreter ((isInfinite_getD _ _).trans daysFit)).bind fun days isDays => ?_
  have converts := (converts_iff interpreter _ defaultRetentionDays).mpr ⟨days, isDays⟩
  rw [converts, Bool.and_true] at limitFits
  exact (caught_int interpreter ((isInfinite_getD _ _).trans limitFits)).bind fun _ _ =>
    caught_ok _

/-- Only the conversions of an infinity raise what the branches do not catch. -/
theorem caught_ofData {data : Json Finite} (fits : overflows interpreter data = false) :
    Caught ((routeOf data).ofData interpreter data) := by
  cases data with
  | object fields =>
    unfold overflows at fits
    cases onRoute : routeOf (Json.object fields) with
    | embed =>
      rw [onRoute] at fits
      exact (caught_embed interpreter fits).map
    | auditShip =>
      rw [onRoute] at fits
      exact (caught_auditShip interpreter fits).map
    | evolveGepa | evolve | summarize | compact | gdprDelete | curate | cron =>
      refine Caught.map ?_
      repeat' first
        | exact caught_ok _
        | refine (caught_item _ _).bind fun _ _ => ?_
    | classify =>
      refine Caught.map ?_
      repeat' first
        | exact caught_ok _
        | refine (caught_item _ _).bind fun _ _ => ?_
        | refine (caught_list _).bind fun _ _ => ?_
  | null | bool _ | int _ | float _ | str _ | array _ =>
    intro error same
    cases same
    rfl

theorem overflow_embed {fields : List (Text × Json Finite)} {constant : Json Finite}
    (kind : fields.lookup (text "kind") = some constant)
    (infinite : ((fields.lookup (text "user_id")).isSome &&
      (fields.lookup (text "agent_id")).isSome &&
      isInfinite (fields.lookup (text "limit"))) = true) :
    (embedCodec Finite).ofData interpreter (.object fields) = .error .overflowError := by
  simp only [Bool.and_eq_true] at infinite
  obtain ⟨user, isUser⟩ := Option.isSome_iff_exists.mp infinite.1.1
  obtain ⟨agent, isAgent⟩ := Option.isSome_iff_exists.mp infinite.1.2
  have raises := int_of_isInfinite interpreter
    ((isInfinite_getD (fields.lookup (text "limit")) embedBatchLimit).trans infinite.2)
  simp only [embedCodec, item_of_lookup kind, item_of_lookup isUser, item_of_lookup isAgent]
  show (interpreter.int ((fields.lookup (text "limit")).getD (.int embedBatchLimit))).bind _ = _
  rw [raises]
  rfl

theorem overflow_auditShip {fields : List (Text × Json Finite)} {constant : Json Finite}
    (kind : fields.lookup (text "kind") = some constant)
    (infinite : (isInfinite (fields.lookup (text "retention_days")) ||
      (isInfinite (fields.lookup (text "limit")) &&
        ((fields.lookup (text "retention_days")).elim true fun days =>
          (interpreter.int days).isOk))) = true) :
    (auditShipCodec Finite).ofData interpreter (.object fields) = .error .overflowError := by
  simp only [auditShipCodec, item_of_lookup kind]
  show (interpreter.int ((fields.lookup (text "retention_days")).getD
    (.int defaultRetentionDays))).bind _ = _
  rcases Bool.or_eq_true_iff.mp infinite with days | limit
  · rw [int_of_isInfinite interpreter ((isInfinite_getD _ _).trans days)]
    rfl
  · obtain ⟨isLimit, converts⟩ := Bool.and_eq_true_iff.mp limit
    obtain ⟨days, isDays⟩ := (converts_iff interpreter _ defaultRetentionDays).mp converts
    have raises := int_of_isInfinite interpreter
      ((isInfinite_getD (fields.lookup (text "limit")) auditBatchLimit).trans isLimit)
    rw [isDays]
    show (interpreter.int ((fields.lookup (text "limit")).getD (.int auditBatchLimit))).bind _ = _
    rw [raises]
    rfl

/-- The conversion of an infinity raises `OverflowError`. -/
theorem overflow_ofData {data : Json Finite} (infinite : overflows interpreter data = true) :
    (routeOf data).ofData interpreter data = .error .overflowError := by
  cases data with
  | object fields =>
    unfold overflows at infinite
    cases onRoute : routeOf (Json.object fields) with
    | embed =>
      rw [onRoute] at infinite
      obtain ⟨constant, kind⟩ := lookup_kind_of_route onRoute (by decide)
      exact congrArg (Except.map Message.embed) (overflow_embed interpreter kind infinite)
    | auditShip =>
      rw [onRoute] at infinite
      obtain ⟨constant, kind⟩ := lookup_kind_of_route onRoute (by decide)
      exact congrArg (Except.map Message.auditShip) (overflow_auditShip interpreter kind infinite)
    | evolveGepa | evolve | summarize | compact | classify | gdprDelete | curate | cron =>
      rw [onRoute] at infinite
      cases infinite
  | null | bool _ | int _ | float _ | str _ | array _ => cases infinite

/-! The dispatch of a body, by what the body decodes to. -/

variable {Raised : Type} (handlers : Handlers Finite Raised)

/-- The dispatch ends with a boolean, and a body whose `from_json` fails is dropped without a
call of a handler. -/
def Total (raw : Text) : Prop :=
  (∃ result, (dispatchMessage interpreter handlers raw).returned = .ok result) ∧
    ∀ error, (route interpreter raw).fromJson interpreter raw = .error error →
      dispatchMessage interpreter handlers raw = ⟨[], .ok true⟩

theorem total_of_caught {raw : Text} {kind : Kind}
    (dispatched : dispatchMessage interpreter handlers raw =
      parseAndRun interpreter handlers kind raw)
    (onRoute : route interpreter raw = kind)
    (caught : Caught (kind.fromJson interpreter raw)) : Total interpreter handlers raw := by
  unfold Total
  rw [dispatched, onRoute, parseAndRun]
  cases parsed : kind.fromJson interpreter raw with
  | ok message =>
    refine ⟨⟨_, returned_run interpreter handlers message⟩, fun error same => by cases same⟩
  | error error =>
    have isCaught := caught error parsed
    have dropped : (⟨[], if error.caught then .ok true else .error error⟩ : Dispatched Finite) =
        ⟨[], .ok true⟩ := by
      rw [isCaught, if_pos rfl]
    exact ⟨⟨true, congrArg Dispatched.returned dropped⟩, fun _ _ => dropped⟩

/-- For every body and all handlers: the dispatch ends with a boolean, having dropped what
does not parse, exactly if the body is not nested too deep and has no infinity where a
number of rows or days is converted. -/
theorem dispatch_total_iff (raw : Text) :
    Total interpreter handlers raw ↔ survives interpreter raw := by
  unfold survives
  cases loaded : interpreter.loads raw with
  | ok data =>
    have dispatched := dispatch_of_loads interpreter handlers loaded
    have onRoute : route interpreter raw = routeOf data := by rw [route, loaded]
    have parsed : (routeOf data).fromJson interpreter raw =
        (routeOf data).ofData interpreter data := by
      rw [Kind.fromJson, loaded]
      rfl
    constructor
    · intro total
      by_contra infinite
      have raises := overflow_ofData interpreter (eq_true_of_ne_false infinite)
      obtain ⟨result, returned⟩ := total.1
      rw [dispatched, parseAndRun, parsed, raises] at returned
      cases returned
    · intro fits
      refine total_of_caught interpreter handlers dispatched onRoute ?_
      rw [parsed]
      exact caught_ofData interpreter fits
  | error error =>
    rcases loads_error interpreter loaded with rfl | rfl
    · refine iff_of_true ⟨⟨true, ?_⟩, fun _ _ => ?_⟩ PyError.noConfusion
      · rw [dispatch_of_malformed interpreter handlers loaded]
      · exact dispatch_of_malformed interpreter handlers loaded
    · refine iff_of_false (fun total => ?_) (fun differs => differs rfl)
      obtain ⟨result, returned⟩ := total.1
      rw [dispatch_of_tooDeep interpreter handlers loaded] at returned
      cases returned

end Totality

/-! ### Two bodies that end the dispatch -/

/-- Handlers that always succeed. -/
def willing : Handlers FloatLiteral Unit where
  evolveGepa _ := .ok true
  evolve _ := .ok true
  embed _ := .ok true
  summarize _ := .ok true
  compact _ := .ok true
  classify _ := .ok true
  gdprDelete _ := .ok true
  auditShip _ := .ok true
  curate _ := .ok true
  runTurn _ := .ok ⟨[], []⟩
  deliver _ _ _ := .ok ()

/-- An embed message whose number of rows is an infinity. -/
def infiniteRows : Json FloatLiteral :=
  .object [(text "kind", .str embedKind), (text "user_id", .str (text "u")),
    (text "agent_id", .str (text "a")), (text "limit", .float (.infinite false))]

theorem plain_infiniteRows : infiniteRows.Everywhere Plain := by
  refine ⟨⟨by decide, ?_⟩, noSplitPair_text "embed", noSplitPair_text "u", noSplitPair_text "a",
    trivial, trivial⟩
  simp only [List.forall_mem_cons, noSplitPair_text, true_and]
  exact fun field member => absurd member List.not_mem_nil

/-- The message with `Infinity` for its number of rows, and a text of more opening brackets
than the reader follows. -/
theorem two_bodies_end_the_dispatch :
    (∃ raw, literalInterpreter.dumps infiniteRows = some raw ∧
      (dispatchMessage literalInterpreter willing raw).returned = .error .overflowError) ∧
    (dispatchMessage literalInterpreter willing
      (List.replicate (literalInterpreter.scannerDepth + 1) openBracket)).returned =
        .error .recursionError := by
  constructor
  · have written : literalInterpreter.dumps infiniteRows =
        some (infiniteRows.dumps literalInterpreter.format) := if_pos ⟨by decide, by decide⟩
    have loaded := literalInterpreter.loads_of_dumps written (by decide) plain_infiniteRows
    have raises : (routeOf infiniteRows).ofData literalInterpreter infiniteRows =
        .error .overflowError := overflow_ofData literalInterpreter (by decide)
    refine ⟨_, written, ?_⟩
    rw [dispatch_of_loads literalInterpreter willing loaded, parseAndRun, Kind.fromJson, loaded]
    show (match (routeOf infiniteRows).ofData literalInterpreter infiniteRows with
      | .ok message => run literalInterpreter willing message
      | .error error => ⟨[], if error.caught then .ok true else .error error⟩).returned = _
    rw [raises]
    rfl
  · have tooDeep : literalInterpreter.loads
        (List.replicate (literalInterpreter.scannerDepth + 1) openBracket) =
          .error .recursionError := by
      rw [Interpreter.loads, loads_brackets]
      rfl
    rw [dispatch_of_tooDeep literalInterpreter willing tooDeep]

end LiteHorse.Worker.Queue
