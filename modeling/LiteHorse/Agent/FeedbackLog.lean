/-
This file models the feedback of the local agent: a log to which every outcome of a turn is appended
as a line of JSON, and which is read from its start whenever somebody asks about it.

A process may die while it appends, and leaves a piece of a line; the next line then goes on where
the piece ends. `Log` says which outcomes are to be read from a log with such lines.
-/

import LiteHorse.Library.JsonTorn
import LiteHorse.PythonJson
import LiteHorse.Worker.WireValue

namespace LiteHorse.Agent.FeedbackLog

open JsonTexts
open Python (optionText)
open Worker.Queue (Interpreter PyError isSpace longestInt scanError strip)

variable {Finite : Type}

/-! ### Outcomes -/

inductive OutcomeSource where
  | classifier
  | userExplicit
  | regexMarker
  deriving DecidableEq

def OutcomeSource.value : OutcomeSource → String
  | .classifier => "classifier"
  | .userExplicit => "user_explicit"
  | .regexMarker => "regex_marker"

/-- The arguments of `record`, and the time it is called at. -/
structure Outcome where
  sessionId : String
  turnId : String
  source : OutcomeSource
  rating : Int
  reason : Option String
  skillSlug : Option String
  tsIso : String

/-- `OutcomeRecord`, with the reason and the slug as they are read. -/
structure OutcomeRecord (Finite : Type) where
  sessionId : Text
  turnId : Text
  source : OutcomeSource
  rating : Int
  reason : Json Finite
  skillSlug : Json Finite
  tsIso : Text

structure OutcomeStats where
  useCount : Nat
  successCount : Nat
  errorCount : Nat

def Outcome.record (outcome : Outcome) : OutcomeRecord Finite where
  sessionId := text outcome.sessionId
  turnId := text outcome.turnId
  source := outcome.source
  rating := outcome.rating
  reason := optionText outcome.reason
  skillSlug := optionText outcome.skillSlug
  tsIso := text outcome.tsIso

/-! ### Writing -/

def Outcome.fields (outcome : Outcome) : List (Text × Json Finite) :=
  [(text "session_id", .str (text outcome.sessionId)),
   (text "turn_id", .str (text outcome.turnId)),
   (text "source", .str (text outcome.source.value)),
   (text "rating", .int outcome.rating),
   (text "reason", optionText outcome.reason),
   (text "skill_slug", optionText outcome.skillSlug),
   (text "ts", .str (text outcome.tsIso))]

def lineEnd : CodePoint := codePoint '\n'

section Log

variable (interpreter : Interpreter Finite)

/-- The line that `record` appends, without its end; `none` where `json.dumps` raises. -/
def line (outcome : Outcome) : Option Text := interpreter.dumps (.object outcome.fields)

/-- `record`, which dies after it has written so many characters, or all there are. A line is
ASCII, so these are the bytes. -/
def append (content : Text) (outcome : Outcome) (written : Nat) : Text :=
  match line interpreter outcome with
  | some whole => content ++ (whole ++ [lineEnd]).take written
  | none => content

/-! ### Reading -/

def sourceOf (value : Text) : Option OutcomeSource :=
  [.classifier, .userExplicit, .regexMarker].find? fun source => text source.value = value

/-- The loop body of `_read_records`, of a line that is an object. -/
def recordOf (data : List (Text × Json Finite)) :
    Except PyError (Option (OutcomeRecord Finite)) := do
  let orEmpty (key : String) :=
    interpreter.str (interpreter.orElse (data.lookup (text key)) (.str []))
  match data.lookup (text "source") with
  | some (.str value) =>
    match sourceOf value with
    | some source =>
      let rating ← interpreter.int (interpreter.orElse (data.lookup (text "rating")) (.int 0))
      return some {
        sessionId := orEmpty "session_id"
        turnId := orEmpty "turn_id"
        source := source
        rating := rating
        reason := (data.lookup (text "reason")).getD .null
        skillSlug := (data.lookup (text "skill_slug")).getD .null
        tsIso := orEmpty "ts" }
    | none => return none
  -- A list or a dictionary has no hash to look for it with.
  | some (.array _) | some (.object _) => .error .typeError
  | some .null | some (.bool _) | some (.int _) | some (.float _) | none => return none

/-- The loop body of `_read_records`, which passes over what is no JSON. -/
def readLine (raw : Text) : Except PyError (Option (OutcomeRecord Finite)) :=
  if strip raw = [] then .ok none
  else
    match
      loads interpreter.format interpreter.maxStrDigits interpreter.scannerDepth (strip raw)
    with
    | .error .malformed => .ok none
    | .error error => .error (scanError error)
    | .ok (.object data) => recordOf interpreter data
    | .ok _ => .ok none

/-- A line may end in both of the characters: the empty line between them is passed over. -/
def isLineEnd (char : CodePoint) : Bool := char = lineEnd || char = codePoint '\r'

/-- `_read_records` -/
def readRecords (content : Text) : Except PyError (List (OutcomeRecord Finite)) := do
  let read ← (content.splitOnP isLineEnd).mapM (readLine interpreter)
  return read.filterMap id

def latestForTurn (content turnId : Text) :
    Except PyError (Option (OutcomeRecord Finite)) := do
  let records ← readRecords interpreter content
  return records.foldl (fun latest record => if record.turnId = turnId then some record else latest)
    none

/-- The loop of `rating_stats`. -/
def countRating (isSkill : Json Finite → Bool) (stats : OutcomeStats)
    (record : OutcomeRecord Finite) : OutcomeStats :=
  if isSkill record.skillSlug then
    let stats := { stats with useCount := stats.useCount + 1 }
    if record.rating = 1 then { stats with successCount := stats.successCount + 1 }
    else if record.rating = -1 then { stats with errorCount := stats.errorCount + 1 }
    else stats
  else stats

/-- The slug of a record is the slug that is asked for. -/
def hasSlug (slug : Text) : Json Finite → Bool
  | .str value => value = slug
  | .null | .bool _ | .int _ | .float _ | .array _ | .object _ => false

def ratingStats (content slug : Text) : Except PyError OutcomeStats := do
  let records ← readRecords interpreter content
  return records.foldl (countRating (hasSlug slug)) ⟨0, 0, 0⟩

end Log

/-! ### What is to be read -/

inductive Tail where
  | ended
  /-- The last line is whole but for its end. -/
  | unended (outcome : Outcome)
  | torn

/-- The outcomes whose lines have ended and are whole, and what comes after the last line end. -/
structure Log where
  whole : List Outcome
  tail : Tail

def Log.outcomes (log : Log) : List Outcome :=
  match log.tail with
  | .unended outcome => log.whole ++ [outcome]
  | .ended | .torn => log.whole

/-- A line comes after the tail of which so many characters are written, and is lost where the tail
is not an end. -/
def Log.append (log : Log) (outcome : Outcome) (size written : Nat) : Log :=
  if written = 0 then log
  else
    match log.tail with
    | .ended =>
      if written < size then { log with tail := .torn }
      else if written = size then { log with tail := .unended outcome }
      else { log with whole := log.whole ++ [outcome] }
    | .unended _ | .torn =>
      if written ≤ size then { log with tail := .torn } else { log with tail := .ended }

/-- A call of `record`, with the number of characters after which it dies. -/
abbrev Call := Outcome × Nat

section Calls

variable (interpreter : Interpreter Finite)

def contentAfter (calls : List Call) : Text :=
  calls.foldl (fun content call => append interpreter content call.1 call.2) []

def logAfter (calls : List Call) : Log :=
  calls.foldl
    (fun log call =>
      match line interpreter call.1 with
      | some whole => log.append call.1 whole.length call.2
      | none => log)
    ⟨[], .ended⟩

/-- The call dies before it has written the end of its line. -/
def dies (call : Call) : Bool :=
  match line interpreter call.1 with
  | some whole => call.2 ≤ whole.length
  | none => false

/-- `TurnOutcomeRepo.rating_stats`, over the rows of the user. -/
def tableStats (rows : List Outcome) (slug : String) : OutcomeStats :=
  let ofSkill := rows.filter fun row => row.skillSlug = some slug
  { useCount := ofSkill.length
    successCount := (ofSkill.map fun row => if row.rating = 1 then 1 else 0).sum
    errorCount := (ofSkill.map fun row => if row.rating = -1 then 1 else 0).sum }

end Calls

/-! ### Whole lines -/

section Lines

variable {interpreter : Interpreter Finite} {outcome : Outcome} {whole : Text}

theorem line_eq (isLine : line interpreter outcome = some whole) :
    whole = (Json.object outcome.fields).dumps interpreter.format ∧
      longestInt (Json.object (outcome.fields : List (Text × Json Finite))) ≤
        interpreter.maxStrDigits := by
  unfold line Interpreter.dumps at isLine
  split at isLine
  next within =>
    cases isLine
    exact ⟨rfl, within.2⟩
  next => cases isLine

theorem depth_fields (outcome : Outcome) :
    (Json.object (outcome.fields : List (Text × Json Finite))).depth = 1 := by
  obtain ⟨_, _, _, _, reason, slug, _⟩ := outcome
  cases reason with
  | none =>
    cases slug with
    | none => rfl
    | some slug => rfl
  | some reason =>
    cases slug with
    | none => rfl
    | some slug => rfl

theorem forall_mem_fields (property : Json Finite → Prop) (outcome : Outcome)
    (ofText : ∀ value, property (.str (text value))) (ofNull : property .null)
    (ofInt : property (.int outcome.rating)) :
    ∀ field ∈ (outcome.fields : List (Text × Json Finite)), property field.2 := by
  have ofOption : ∀ value, property (optionText value) := by
    intro value
    cases value with
    | none => exact ofNull
    | some value => exact ofText value
  simp [Outcome.fields, ofText, ofOption, ofInt]

theorem readable_fields
    (few : longestInt (Json.object (outcome.fields : List (Text × Json Finite))) ≤
      interpreter.maxStrDigits) :
    (Json.object (outcome.fields : List (Text × Json Finite))).Everywhere
      (Readable interpreter.maxStrDigits) := by
  refine Interpreter.readable_of_plain few ⟨⟨?_, ?_⟩, everywhereFields_iff.mpr ?_⟩
  · show [text "session_id", text "turn_id", text "source", text "rating", text "reason",
      text "skill_slug", text "ts"].Nodup
    decide
  · simp [Outcome.fields, noSplitPair_text]
  · exact forall_mem_fields (fun value => value.Everywhere Interpreter.Plain) outcome
      noSplitPair_text trivial trivial

theorem floatless_fields (outcome : Outcome) :
    (Json.object (outcome.fields : List (Text × Json Finite))).Everywhere Floatless :=
  ⟨trivial, everywhereFields_iff.mpr (forall_mem_fields (fun value => value.Everywhere Floatless)
    outcome (fun _ => trivial) trivial trivial)⟩

theorem letterFirst_fields (outcome : Outcome) :
    LetterFirst (outcome.fields : List (Text × Json Finite)) :=
  ⟨codePoint 's', text "ession_id", _, _, rfl, by decide, by decide, by decide⟩

/-- Only the end of a text that starts with a brace is stripped. -/
theorem strip_brace {value : Text} (isBrace : value.head? = some openBrace) :
    ∃ blanks, value = strip value ++ blanks ∧
      ∀ char ∈ blanks, isSpace char = true := by
  have front : value.dropWhile isSpace = value := by
    cases value with
    | nil => rfl
    | cons char value =>
      cases isBrace
      rfl
  refine ⟨(value.reverse.takeWhile isSpace).reverse, ?_, fun char member => ?_⟩
  · unfold strip
    rw [front, ← List.reverse_append, List.takeWhile_append_dropWhile, List.reverse_reverse]
  · exact List.all_eq_true.mp List.all_takeWhile char (List.mem_reverse.mp member)

theorem dumps_ends (fields : List (Text × Json Finite)) (format : FloatFormat Finite) :
    ∃ inside, (Json.object fields).dumps format = inside ++ [closeBrace] := by
  have ends : ∀ texts, ∃ inside, sequenceText closeBrace texts = inside ++ [closeBrace] := by
    intro texts
    induction texts with
    | nil => exact ⟨[], rfl⟩
    | cons first texts inductionHypothesis =>
      cases texts with
      | nil => exact ⟨first, rfl⟩
      | cons next texts =>
        obtain ⟨inside, isEnd⟩ := inductionHypothesis
        refine ⟨first ++ comma :: inside, ?_⟩
        rw [sequenceText, isEnd, List.append_assoc]
        rfl
  obtain ⟨inside, isEnd⟩ := ends (fieldTexts format fields)
  exact ⟨openBrace :: inside, congrArg (openBrace :: ·) isEnd⟩

/-- A text between braces is stripped of nothing. -/
theorem strip_braces {value inside : Text} (isBrace : value.head? = some openBrace)
    (ends : value = inside ++ [closeBrace]) : strip value = value := by
  obtain ⟨blanks, isValue, areBlank⟩ := strip_brace isBrace
  rcases List.eq_nil_or_concat blanks with rfl | ⟨others, last, rfl⟩
  · rw [List.append_nil] at isValue
    exact isValue.symm
  · have same : inside ++ [closeBrace] = (strip value ++ others) ++ [last] := by
      rw [← ends, List.append_assoc, ← List.concat_eq_append]
      exact isValue
    have isLast : closeBrace = last := List.singleton_inj.mp (List.append_inj' same rfl).2
    have isBlank := areBlank last (by simp)
    rw [← isLast] at isBlank
    exact absurd isBlank (by decide)

theorem recordOf_fields (outcome : Outcome) :
    recordOf interpreter outcome.fields = .ok (some outcome.record) := by
  have isSource : sourceOf (text outcome.source.value) = some outcome.source := by
    cases outcome.source with
    | classifier => rfl
    | userExplicit => rfl
    | regexMarker => rfl
  have isRating : interpreter.int
      (interpreter.orElse (some (.int outcome.rating)) (.int 0)) = .ok outcome.rating := by
    show interpreter.int (if (outcome.rating != 0) = true then _ else _) = _
    split
    next => rfl
    next isFalsy =>
      have isZero : outcome.rating = 0 := by simpa using isFalsy
      rw [isZero]
      rfl
  have atSession : (outcome.fields : List (Text × Json Finite)).lookup (text "session_id") =
      some (.str (text outcome.sessionId)) := rfl
  have atTurn : (outcome.fields : List (Text × Json Finite)).lookup (text "turn_id") =
      some (.str (text outcome.turnId)) := rfl
  have atSource : (outcome.fields : List (Text × Json Finite)).lookup (text "source") =
      some (.str (text outcome.source.value)) := rfl
  have atRating : (outcome.fields : List (Text × Json Finite)).lookup (text "rating") =
      some (.int outcome.rating) := rfl
  have atReason : (outcome.fields : List (Text × Json Finite)).lookup (text "reason") =
      some (optionText outcome.reason) := rfl
  have atSlug : (outcome.fields : List (Text × Json Finite)).lookup (text "skill_slug") =
      some (optionText outcome.skillSlug) := rfl
  have atTs : (outcome.fields : List (Text × Json Finite)).lookup (text "ts") =
      some (.str (text outcome.tsIso)) := rfl
  unfold recordOf
  simp only [atSession, atTurn, atSource, atRating, atReason, atSlug, atTs, isSource, isRating,
    interpreter.str_orElse, Option.getD_some]
  rfl

/-- A whole line is read as its outcome. -/
theorem readLine_whole (isLine : line interpreter outcome = some whole) :
    readLine interpreter whole = .ok (some outcome.record) := by
  obtain ⟨rfl, few⟩ := line_eq isLine
  obtain ⟨inside, ends⟩ := dumps_ends outcome.fields interpreter.format
  have fits : (Json.object (outcome.fields : List (Text × Json Finite))).depth ≤
      interpreter.scannerDepth := by
    rw [depth_fields]
    exact (Nat.le_succ 1).trans interpreter.deepEnough.1
  have notBlank : (Json.object outcome.fields).dumps interpreter.format ≠ [] := List.cons_ne_nil _ _
  unfold readLine
  rw [strip_braces rfl ends, loads_dumps interpreter.format interpreter.maxStrDigits fits
    (readable_fields few), if_neg notBlank]
  exact recordOf_fields outcome

end Lines

end LiteHorse.Agent.FeedbackLog
