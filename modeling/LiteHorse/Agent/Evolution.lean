/-
This file models the hook that reviews the runs of an agent. It follows the calls of the tools; when
a run ends it records how the run went for every skill that was viewed, and may start a side agent,
which improves the skill that was viewed last or writes a new one.

The skill backend, the feedback and the side agents answer from outside: a run that has ended comes
with what they answer. Only their exceptions in `record_outcome`, `rating_stats` and the side agents
are passed over.
-/

import LiteHorse.Agent.FeedbackLog
import LiteHorse.Security.Validators

namespace LiteHorse.Agent.Evolution

open FeedbackLog (OutcomeStats)
open JsonTexts Patterns
open Security (foldCase)
open Worker.Queue (Interpreter PyError isSpace longestInt strip truthy)

/-! ### The marks of an error -/

/-- An expression, with a `\b` at its start or its end if it has one. -/
structure Marker where
  startsWord : Bool := false
  compiled : Pattern CodePoint
  endsWord : Bool := false

/-- ASCII characters, in any case. -/
def literal (value : String) : Pattern CodePoint :=
  .sequence (value.toList.map fun char =>
    .one fun point => foldCase (Char.ofNat point.val) = foldCase char)

/-- `\s*` -/
def anySpaces : Pattern CodePoint := .many isSpace

/-- `_ERROR_MARKERS` -/
def errorMarkers : List Marker :=
  [{ compiled := .sequence [literal "\"success\"", anySpaces, literal ":", anySpaces,
       literal "false"] },
   { compiled := literal "traceback (most recent call last)" },
   { startsWord := true
     compiled := .sequence [literal "exception", anySpaces, literal ":"] },
   { startsWord := true
     compiled := literal "failed"
     endsWord := true }]

def errorSummaryLen : Nat := 300

section Search

variable (isWord : CodePoint → Bool)

/-- `\b` between two parts of a text. -/
def isEdge (before after : Text) : Bool := before.getLast?.any isWord != after.head?.any isWord

/-- What a match between the two parts of a text leaves of the second. -/
def Marker.rest (marker : Marker) (before after : Text) : Option Text :=
  if marker.startsWord && !isEdge isWord before after then none
  else (marker.compiled.rests after).find? fun rest =>
    !marker.endsWord || isEdge isWord (before ++ after.take (after.length - rest.length)) rest

/-- `pat.search(result)`, as where the match starts and ends. -/
def Marker.search (marker : Marker) (result : Text) : Option (Nat × Nat) :=
  (List.range (result.length + 1)).findSome? fun start =>
    (marker.rest isWord (result.take start) (result.drop start)).map fun rest =>
      (start, result.length - rest.length)

/-- The text around a match. -/
def excerpt (result : Text) (found : Nat × Nat) : Text :=
  let start := found.1 - 40
  let stop := min result.length (found.2 + 60)
  (strip ((result.take stop).drop start)).take errorSummaryLen

/-- `_first_error_marker` -/
def firstErrorMarker (result : Text) : Option Text :=
  if result.isEmpty then none
  else (errorMarkers.findSome? fun pat => pat.search isWord result).map (excerpt result)

end Search

/-! ### What the user asked -/

section Request

variable {Finite : Type}

def requestLength : Nat := 500

/-- The text of a part, `some none` for one that is passed over; `none` where this raises: a list
or a dictionary has no hash, and only texts are joined. -/
def partText : Json Finite → Option (Option Text)
  | .object part =>
    match part.lookup (text "type") with
    | some (.str type) =>
      if type = text "text" ∨ type = text "input_text" then
        match part.lookup (text "text") with
        | some (.str value) => some (some value)
        | none => some (some [])
        | some _ => none
      else some none
    | some (.array _) | some (.object _) => none
    | _ => some none
  | _ => some none

def joinedText (parts : List (Json Finite)) : Option Text :=
  match parts.mapM partText with
  | some texts =>
    let joined := (texts.filterMap id).flatten
    if joined.isEmpty then none else some (joined.take requestLength)
  | none => none

/-- The request, once an item is the last word of the user. -/
def requestOf : Json Finite → Option (Option Text)
  | .object item =>
    match item.lookup (text "role"), item.lookup (text "content") with
    | some (.str role), some (.str content) =>
      if role = text "user" then some (some (content.take requestLength)) else none
    | some (.str role), some (.array parts) =>
      if role = text "user" then some (joinedText parts) else none
    | _, _ => none
  | .str item => some (some (item.take requestLength))
  | _ => none

/-- `_extract_user_request`, of the items if they are a list. -/
def extractUserRequest (turnInput : Option (List (Json Finite))) : Option Text :=
  ((turnInput.getD []).reverse.findSome? requestOf).join

end Request

/-! ### The hook -/

structure ToolCall where
  toolName : String
  result : Text

structure Hook where
  toolCallCount : Nat
  userRequest : Option Text
  finalOutput : Option Text
  viewedSkills : List Text
  errorSummary : Option Text

/-- What the backends answer when a run has ended. -/
structure Backends where
  /-- Whether `record_outcome` returns. -/
  records : Text → Bool
  /-- `rating_stats`; none where it raises, or where there is no sink. -/
  ratingStats : Text → Option OutcomeStats
  /-- `read_md`; an error where it raises. -/
  readMd : Text → Except Unit (Option Text)

/-- A call of `record_outcome`. -/
structure SkillOutcome where
  name : Text
  ok : Bool
  errorSummary : Option Text
  recorded : Bool

inductive SideAgent where
  | distiller (prompt : Text)
  | refiner (skill : Text) (prompt : Text)

/-- What `on_end` has done. -/
structure Review where
  outcomes : List SkillOutcome
  /-- The side agent that was run, whatever came of it. -/
  sideAgent : Except Unit (Option SideAgent)

def curatorRefineMinOutcomes : Nat := 5

/-- The default of `min_tool_calls`. -/
def skillCreationMinToolCalls : Nat := 5

section Hook

variable {Finite : Type} (interpreter : Interpreter Finite) (isWord : CodePoint → Bool)

/-- `on_start` -/
def onStart (turnInput : Option (List (Json Finite))) : Hook where
  toolCallCount := 0
  userRequest := extractUserRequest turnInput
  finalOutput := none
  viewedSkills := []
  errorSummary := none

/-- The name in the result of a `skill_view` that has shown a skill. -/
def viewedName (result : Text) : Except PyError (Option Text) :=
  match interpreter.loads result with
  | .ok (.object parsed) =>
    if truthy interpreter.isZero ((parsed.lookup (text "success")).getD .null) then
      match parsed.lookup (text "name") with
      | some (.str name) => .ok (some name)
      | _ => .ok none
    else .ok none
  | .ok _ | .error .valueError => .ok none
  | .error raised => .error raised

/-- What `skill_view` makes a text of: the name and the content of a skill, or an error. -/
def skillView (shown : Except String (String × String)) : Json Finite :=
  match shown with
  | .ok (name, content) =>
    .object [(text "success", .bool true), (text "name", .str (text name)),
      (text "content", .str (text content))]
  | .error error => .object [(text "success", .bool false), (text "error", .str (text error))]

/-- `_track_view` -/
def Hook.trackView (hook : Hook) (result : Text) : Except PyError Hook := do
  match ← viewedName interpreter result with
  | some name =>
    if hook.viewedSkills.contains name then return hook
    else return { hook with viewedSkills := hook.viewedSkills ++ [name] }
  | none => return hook

/-- `on_tool_end` -/
def Hook.onToolEnd (hook : Hook) (call : ToolCall) : Except PyError Hook :=
  let hook := { hook with toolCallCount := hook.toolCallCount + 1 }
  if call.toolName = "skill_view" then hook.trackView interpreter call.result
  else if !hook.viewedSkills.isEmpty && hook.errorSummary.isNone then
    .ok { hook with errorSummary := firstErrorMarker isWord call.result }
  else .ok hook

/-- `_record_viewed_outcomes`, which goes on when a call raises. -/
def Hook.recordViewedOutcomes (hook : Hook) (backends : Backends) : List SkillOutcome :=
  hook.viewedSkills.map fun name =>
    { name
      ok := hook.errorSummary.isNone
      errorSummary := hook.errorSummary
      recorded := backends.records name }

/-- `_should_refine` -/
def Hook.shouldRefine (hook : Hook) (backends : Backends) : Bool :=
  match hook.viewedSkills.getLast? with
  | none => false
  | some target =>
    let markerSaysFail := hook.errorSummary.isSome
    match backends.ratingStats target with
    | none => markerSaysFail
    | some stats =>
      if stats.successCount + stats.errorCount < curatorRefineMinOutcomes then markerSaysFail
      else
        let net : Int := stats.successCount - stats.errorCount
        if net ≥ 0 then false else true

/-- `json.dumps`; none where an integer has too many digits. -/
def dumps (value : Json Finite) : Option Text :=
  if longestInt value ≤ interpreter.maxStrDigits then some (value.dumpsSpaced interpreter.format)
  else none

def textOrNull (value : Option Text) : Json Finite := value.elim .null .str

/-- What `_maybe_create_skill` tells the distiller. -/
def Hook.creation (hook : Hook) : Json Finite :=
  .object [(text "user_request", textOrNull hook.userRequest),
    (text "tool_calls_used", .int hook.toolCallCount),
    (text "final_output_excerpt", textOrNull hook.finalOutput)]

/-- `_maybe_create_skill` -/
def Hook.maybeCreateSkill (hook : Hook) : Except Unit (Option SideAgent) :=
  match dumps interpreter hook.creation with
  | some prompt => .ok (some (.distiller prompt))
  | none => .error ()

/-- What `_maybe_refine_skill` tells the refiner. -/
def Hook.refinement (hook : Hook) (target skillMd : Text) : Json Finite :=
  .object [(text "skill_name", .str target), (text "skill_markdown", .str skillMd),
    (text "user_request", textOrNull hook.userRequest),
    (text "error_summary", textOrNull hook.errorSummary),
    (text "final_output_excerpt", textOrNull hook.finalOutput)]

/-- `_maybe_refine_skill`. Without a viewed skill there is no last one. -/
def Hook.maybeRefineSkill (hook : Hook) (backends : Backends) : Except Unit (Option SideAgent) :=
  match hook.viewedSkills.getLast? with
  | none => .error ()
  | some target => do
    match ← backends.readMd target with
    | none | some [] => return none
    | some skillMd =>
      match dumps interpreter (hook.refinement target skillMd) with
      | some prompt => return some (.refiner target prompt)
      | none => .error ()

/-- `on_end`, with the text of the output unless it counts as false. -/
def Hook.onEnd (hook : Hook) (minToolCalls : Nat) (backends : Backends) (output : Option Text) :
    Review :=
  let hook := { hook with finalOutput := output.map fun output => List.take 1000 output }
  { outcomes := hook.recordViewedOutcomes backends
    sideAgent :=
      if hook.shouldRefine backends then hook.maybeRefineSkill interpreter backends
      else if hook.toolCallCount < minToolCalls then .ok none
      else hook.maybeCreateSkill interpreter }

end Hook

end LiteHorse.Agent.Evolution
