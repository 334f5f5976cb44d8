/-
This file models what a view of a skill, the outcome of a run and an approval make of the
statistics, and what a list of such changes counts up to (`tally`). A change of the counts writes
a file that is read as the new counts (`written_fields`, `readFd_fields`).
-/

import LiteHorse.Skills.StatsFile

namespace LiteHorse.Skills.StatsCounts

open JsonTexts Stats StatsFile
open Worker.Queue (Interpreter PyError longestInt strip)

variable {Finite : Type} (interpreter : Interpreter Finite)

/-! ### Changes -/

/-- `_ERROR_SUMMARY_MAX_CHARS` -/
def errorSummaryMaxChars : Nat := 500

/-- What is changed, with the time by the clock of the process. -/
inductive Change where
  | view (now : Text)
  | outcome (ok : Bool) (errorSummary : Option Text) (now : Text)
  | optimized (now : Text)

/-- `data[key] = int(data.get(key, 0)) + 1` -/
def countUp (key : Text) (data : List (Text × Json Finite)) :
    Except PyError (List (Text × Json Finite)) := do
  let count ← interpreter.int ((data.lookup key).getD (.int 0))
  return setField data key (.int (count + 1))

/-- What `record_view` makes of the statistics. -/
def recordView (now : Text) (data : List (Text × Json Finite)) :
    Except PyError (List (Text × Json Finite)) := do
  let data ← countUp interpreter (text "usage_count") data
  return setField data (text "last_used_at") (.str now)

/-- `trimmed or None` -/
def trimmedSummary (errorSummary : Text) : Option Text :=
  some ((strip errorSummary).take errorSummaryMaxChars) |>.filter fun trimmed => trimmed ≠ []

def textOrNull (value : Option Text) : Json Finite := value.elim .null .str

/-- What `record_outcome` makes of the statistics. -/
def recordOutcome (ok : Bool) (errorSummary : Option Text) (now : Text)
    (data : List (Text × Json Finite)) : Except PyError (List (Text × Json Finite)) := do
  if ok then countUp interpreter (text "success_count") data
  else
    let data ← countUp interpreter (text "error_count") data
    let data := setField data (text "last_error_at") (.str now)
    match errorSummary.filter fun summary => summary ≠ [] with
    | some summary =>
      return setField data (text "last_error_summary") (textOrNull (trimmedSummary summary))
    | none => return data

def Change.apply (data : List (Text × Json Finite)) :
    Change → Except PyError (List (Text × Json Finite))
  | .view now => recordView interpreter now data
  | .outcome ok errorSummary now => recordOutcome interpreter ok errorSummary now data
  | .optimized now => .ok (optimizedAt now data)

/-- What a change writes. An integer with too many digits is not written. -/
def Change.written (change : Change) (data : List (Text × Json Finite)) :
    Except PyError ByteArray := do
  let data ← change.apply interpreter data
  if longestInt (Json.object data) ≤ interpreter.maxStrDigits then writeFd interpreter data
  else .error .valueError

/-! ### Counts -/

structure Counters where
  usageCount : Nat
  successCount : Nat
  errorCount : Nat
  lastUsedAt : Option Text
  lastErrorAt : Option Text
  lastErrorSummary : Option Text
  lastOptimizedAt : Option Text

namespace Counters

def fields (counters : Counters) : List (Text × Json Finite) :=
  [(text "usage_count", .int counters.usageCount),
   (text "success_count", .int counters.successCount),
   (text "error_count", .int counters.errorCount),
   (text "last_used_at", textOrNull counters.lastUsedAt),
   (text "last_error_at", textOrNull counters.lastErrorAt),
   (text "last_error_summary", textOrNull counters.lastErrorSummary),
   (text "last_optimized_at", textOrNull counters.lastOptimizedAt),
   (text "schema_version", .int schemaVersion)]

/-- The texts as a file gives them back: the two halves of a character are the character. -/
def rejoin (counters : Counters) : Counters :=
  { counters with
    lastUsedAt := counters.lastUsedAt.map rejoinText
    lastErrorAt := counters.lastErrorAt.map rejoinText
    lastErrorSummary := counters.lastErrorSummary.map rejoinText
    lastOptimizedAt := counters.lastOptimizedAt.map rejoinText }

end Counters

namespace Change

def usedAt : Change → Option Text
  | view now => some now
  | outcome _ _ _ | optimized _ => none

def isSuccess : Change → Bool
  | outcome ok _ _ => ok
  | view _ | optimized _ => false

def errorAt : Change → Option Text
  | outcome false _ now => some now
  | outcome true _ _ | view _ | optimized _ => none

/-- The summary that an error sets; an empty one sets none. -/
def summary : Change → Option (Option Text)
  | outcome false errorSummary _ =>
    (errorSummary.filter fun summary => summary ≠ []).map trimmedSummary
  | outcome true _ _ | view _ | optimized _ => none

def optimizedTime : Change → Option Text
  | optimized now => some now
  | view _ | outcome _ _ _ => none

end Change

/-- What a list of changes counts up to. -/
def tally (changes : List Change) : Counters where
  usageCount := changes.countP fun change => change.usedAt.isSome
  successCount := changes.countP Change.isSuccess
  errorCount := changes.countP fun change => change.errorAt.isSome
  lastUsedAt := (changes.filterMap Change.usedAt).getLast?
  lastErrorAt := (changes.filterMap Change.errorAt).getLast?
  lastErrorSummary := (changes.filterMap Change.summary).getLast?.join
  lastOptimizedAt := (changes.filterMap Change.optimizedTime).getLast?

/-! ### What a change makes of the counts -/

/-- What a change makes of the counts. -/
def Counters.after (counters : Counters) : Change → Counters
  | .view now =>
    { counters with usageCount := counters.usageCount + 1, lastUsedAt := some now }
  | .outcome true _ _ => { counters with successCount := counters.successCount + 1 }
  | .outcome false errorSummary now =>
    { counters with
      errorCount := counters.errorCount + 1
      lastErrorAt := some now
      lastErrorSummary :=
        (Change.outcome false errorSummary now).summary.getD counters.lastErrorSummary }
  | .optimized now => { counters with lastOptimizedAt := some now }

theorem apply_fields (counters : Counters) (change : Change) :
    change.apply interpreter counters.fields = .ok (counters.after change).fields := by
  rcases change with now | ⟨ok, errorSummary, now⟩ | now
  · rfl
  · cases ok with
    | true => rfl
    | false =>
      show recordOutcome interpreter false errorSummary now counters.fields = _
      cases isSummary : errorSummary.filter fun summary => summary ≠ [] with
      | none =>
        simp only [recordOutcome, Counters.after, Change.summary, isSummary]
        rfl
      | some summary =>
        simp only [recordOutcome, Counters.after, Change.summary, isSummary]
        rfl
  · rfl

theorem tally_concat (changes : List Change) (change : Change) :
    tally (changes ++ [change]) = (tally changes).after change := by
  rcases change with now | ⟨ok, errorSummary, now⟩ | now
  · simp [tally, Counters.after, Change.usedAt, Change.isSuccess, Change.errorAt, Change.summary,
      Change.optimizedTime]
  · cases ok with
    | true =>
      simp [tally, Counters.after, Change.usedAt, Change.isSuccess, Change.errorAt,
        Change.summary, Change.optimizedTime]
    | false =>
      cases isSummary : (Change.outcome false errorSummary now).summary <;>
        simp [tally, Counters.after, Change.usedAt, Change.isSuccess, Change.errorAt,
          Change.optimizedTime, isSummary]
  · simp [tally, Counters.after, Change.usedAt, Change.isSuccess, Change.errorAt, Change.summary,
      Change.optimizedTime]

@[simp]
theorem rejoinText_rejoinText (value : Text) : rejoinText (rejoinText value) = rejoinText value :=
  rejoinText_eq_self_iff.mpr (noSplitPair_rejoinText value)

/-- It makes no difference whether the texts come from the file. -/
theorem rejoin_after (counters : Counters) (change : Change) :
    (counters.rejoin.after change).rejoin = (counters.after change).rejoin := by
  rcases change with now | ⟨ok, errorSummary, now⟩ | now
  · simp [Counters.rejoin, Counters.after, Function.comp_def]
  · cases ok with
    | true => simp [Counters.rejoin, Counters.after, Function.comp_def]
    | false =>
      cases isSummary : (Change.outcome false errorSummary now).summary <;>
        simp [Counters.rejoin, Counters.after, Function.comp_def, isSummary]
  · simp [Counters.rejoin, Counters.after, Function.comp_def]

theorem readAgain_fields (counters : Counters) :
    readAgain (counters.fields : List (Text × Json Finite)) = counters.rejoin.fields := by
  have again : ∀ value : Option Text, (textOrNull value : Json Finite).sortKeys.rejoin =
      textOrNull (value.map rejoinText) := by
    rintro (_ | value) <;> rfl
  simp [readAgain, Counters.fields, Counters.rejoin, again, Json.sortKeys, Json.rejoin]

/-! ### Counts that are written and read -/

theorem forall_mem_fields (property : Json Finite → Prop) (counters : Counters)
    (ofUsage : property (.int counters.usageCount))
    (ofSuccess : property (.int counters.successCount))
    (ofErrors : property (.int counters.errorCount))
    (ofSchema : property (.int schemaVersion))
    (ofTexts : ∀ value, property (textOrNull value)) :
    ∀ field ∈ (counters.fields : List (Text × Json Finite)), property field.2 := by
  simp [Counters.fields, ofUsage, ofSuccess, ofErrors, ofSchema, ofTexts]

/-- Every count has few enough digits. -/
structure Counters.Small (counters : Counters) (maxDigits : Nat) : Prop where
  usage : counters.usageCount < 10 ^ maxDigits
  success : counters.successCount < 10 ^ maxDigits
  errors : counters.errorCount < 10 ^ maxDigits

theorem length_of_lt {number maxDigits : Nat} (positive : 0 < maxDigits)
    (small : number < 10 ^ maxDigits) : (Whole.ofNat number).length ≤ maxDigits := by
  rw [length_ofNat]
  exact max_le positive ((Nat.digits_length_le_iff (by decide) number).mpr small)

theorem depth_fields (counters : Counters) :
    (Json.object (counters.fields : List (Text × Json Finite))).depth ≤ 1 := by
  refine Nat.succ_le_succ (depthFields_le_iff.mpr ?_)
  have ofTexts : ∀ value, (textOrNull value : Json Finite).depth ≤ 0 := by
    rintro (_ | value) <;> exact le_rfl
  exact forall_mem_fields (fun value => value.depth ≤ 0) counters le_rfl le_rfl le_rfl le_rfl
    ofTexts

variable {interpreter}

theorem positive_maxStrDigits : 0 < interpreter.maxStrDigits :=
  lt_of_lt_of_le (by decide) interpreter.enoughDigits

theorem length_schemaVersion : (Whole.ofNat schemaVersion.natAbs).length ≤
    interpreter.maxStrDigits :=
  length_of_lt positive_maxStrDigits
    (Nat.one_lt_pow positive_maxStrDigits.ne' (by decide))

/-- Small counts are read as they were written. -/
theorem readFd_fields {counters : Counters} (small : counters.Small interpreter.maxStrDigits) :
    readFd interpreter (payload interpreter counters.fields) = .ok counters.rejoin.fields := by
  have keys : HasKeys (counters.fields : List (Text × Json Finite)) := rfl
  have fits : (Json.object (counters.fields : List (Text × Json Finite))).depth ≤
      interpreter.scannerDepth :=
    (depth_fields counters).trans (le_trans (by decide) interpreter.deepEnough.1)
  rw [readFd_payload interpreter keys fits, readAgain_fields]
  have ofTexts : ∀ value, (textOrNull value : Json Finite).Everywhere
      (FewDigits interpreter.maxStrDigits) := by
    rintro (_ | value) <;> trivial
  exact ⟨trivial, everywhereFields_iff.mpr (forall_mem_fields _ counters
    (length_of_lt positive_maxStrDigits small.usage)
    (length_of_lt positive_maxStrDigits small.success)
    (length_of_lt positive_maxStrDigits small.errors) length_schemaVersion ofTexts)⟩

/-- A change writes what it makes of the counts. -/
theorem written_fields {counters : Counters} {change : Change}
    (small : (counters.after change).Small interpreter.maxStrDigits) :
    change.written interpreter counters.fields =
      .ok (payload interpreter (counters.after change).fields) := by
  have few : longestInt (Json.object ((counters.after change).fields : List (Text × Json Finite)))
      ≤ interpreter.maxStrDigits := by
    have ofTexts : ∀ value, longestInt (textOrNull value : Json Finite) ≤
        interpreter.maxStrDigits := by
      rintro (_ | value) <;> exact Nat.zero_le _
    exact Interpreter.longestIntFields_le_iff.mpr (forall_mem_fields
      (fun value => longestInt value ≤ interpreter.maxStrDigits) _
      (length_of_lt positive_maxStrDigits small.usage)
      (length_of_lt positive_maxStrDigits small.success)
      (length_of_lt positive_maxStrDigits small.errors) length_schemaVersion ofTexts)
  have shallow : (Json.object ((counters.after change).fields : List (Text × Json Finite))).depth ≤
      interpreter.encoderDepth :=
    (depth_fields _).trans (le_trans (by decide) interpreter.deepEnough.2)
  unfold Change.written
  rw [apply_fields]
  exact (if_pos few).trans (if_pos shallow)

theorem tally_small {changes : List Change} {maxDigits : Nat}
    (few : changes.length < 10 ^ maxDigits) : (tally changes).Small maxDigits where
  usage := List.countP_le_length.trans_lt few
  success := List.countP_le_length.trans_lt few
  errors := List.countP_le_length.trans_lt few

end LiteHorse.Skills.StatsCounts
