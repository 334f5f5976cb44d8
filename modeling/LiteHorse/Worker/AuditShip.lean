/-
This file models `run_audit_ship`. A run reads a batch of expired rows of the audit log, puts
them into the archive as the lines of a new object, and deletes them; the three are separate
steps, and other runs, appends and crashes come between them.

A row is in an object if one of its lines decodes to the fields of the row, which are the
fields of no other row (`rowToJsonable_injective`). `audit_rows_kept` says that in every run
of the system every row is in the log or in an object, and that only expired rows are deleted.
-/

import LiteHorse.Library.Runs
import LiteHorse.Library.Sorting
import LiteHorse.Worker.Messages

namespace LiteHorse.Worker.AuditShip

open JsonTexts Queue Interpreter Sorting

variable {Finite Time Uuid : Type}

/-! ### Rows -/

/-- A value of a `jsonb` column: no key twice, and no surrogates in its texts. -/
abbrev Stored (Finite : Type) := { value : Json Finite // value.Everywhere Plain }

/-- A row of `audit_log`. -/
@[ext]
structure Row (Finite Time Uuid : Type) where
  id : Int
  ts : Time
  actorId : Uuid
  actorRole : String
  action : String
  target : Stored Finite
  diff : Stored Finite
  requestId : Option Uuid

/-- What is used of `datetime` and `uuid`. -/
structure Formats (Time Uuid : Type) where
  /-- `now - timedelta(days=days)`, where it does not raise. -/
  minusDays : Time → Int → Option Time
  /-- `ts < cutoff` -/
  earlier : Time → Time → Bool
  isoformat : Time → String
  isoformat_injective : Function.Injective isoformat
  /-- `strftime('%Y%m%d')` -/
  dateText : Time → String
  uuidText : Uuid → String
  uuidText_injective : Function.Injective uuidText

/-- The log: the rows that are in it, and all rows that were ever written. An id is given to
one row only. -/
structure AuditTable (Finite Time Uuid : Type) where
  written : List (Row Finite Time Uuid)
  distinct : (written.map Row.id).Nodup
  rows : List (Row Finite Time Uuid)
  isWritten : ∀ row ∈ rows, row ∈ written

namespace AuditTable

variable (table : AuditTable Finite Time Uuid)

/-- A log in which nothing was deleted so far. -/
def ofRows (rows : List (Row Finite Time Uuid)) (distinct : (rows.map Row.id).Nodup) :
    AuditTable Finite Time Uuid := ⟨rows, distinct, rows, fun _ => id⟩

/-- `INSERT`. The identity column gives a new id. -/
def insert (row : Row Finite Time Uuid) : Option (AuditTable Finite Time Uuid) :=
  if fresh : row.id ∉ table.written.map Row.id then
    some {
      written := table.written ++ [row]
      distinct := by
        rw [List.map_append, List.map_singleton, ← List.concat_eq_append]
        exact table.distinct.concat fresh
      rows := table.rows ++ [row]
      isWritten := fun other member => by
        rcases List.mem_append.mp member with before | isNew
        · exact List.mem_append_left _ (table.isWritten other before)
        · exact List.mem_append_right _ isNew }
  else none

/-- `DELETE ... WHERE id IN ids` -/
def deleteIds (ids : List Int) : AuditTable Finite Time Uuid where
  written := table.written
  distinct := table.distinct
  rows := table.rows.filter fun row => decide (row.id ∉ ids)
  isWritten row member := table.isWritten row (List.mem_filter.mp member).1

variable {table} {row other : Row Finite Time Uuid} {next : AuditTable Finite Time Uuid}

theorem eq_of_id_eq (isRow : row ∈ table.written) (isOther : other ∈ table.written)
    (same : row.id = other.id) : row = other :=
  List.inj_on_of_nodup_map table.distinct isRow isOther same

theorem insert_eq_some (inserted : table.insert row = some next) :
    next.written = table.written ++ [row] ∧ next.rows = table.rows ++ [row] := by
  unfold insert at inserted
  split at inserted
  · cases inserted
    exact ⟨rfl, rfl⟩
  · cases inserted

end AuditTable

/-! ### Objects -/

section Objects

variable (formats : Formats Time Uuid) (interpreter : Interpreter Finite)

def rowToJsonable (row : Row Finite Time Uuid) : Json Finite :=
  .object [(text "id", .int row.id), (text "ts", .str (text (formats.isoformat row.ts))),
    (text "actor_id", .str (text (formats.uuidText row.actorId))),
    (text "actor_role", .str (text row.actorRole)), (text "action", .str (text row.action)),
    (text "target", row.target.val), (text "diff", row.diff.val),
    (text "request_id", row.requestId.elim .null fun id => .str (text (formats.uuidText id)))]

def newline : CodePoint := codePoint '\n'

/-- The lines of the rows; `none` where `json.dumps` raises. -/
def linesOf (rows : List (Row Finite Time Uuid)) : Option (List Text) :=
  rows.mapM fun row => interpreter.dumps (rowToJsonable formats row)

/-- `"\n".join(...)`; the text is ASCII, so its bytes are its characters. -/
def payloadOf (rows : List (Row Finite Time Uuid)) : Option Text :=
  (linesOf formats interpreter rows).map [newline].intercalate

/-- `audit/{cutoff}/{uuid}-{first}-{last}.jsonl` -/
def keyOf (cutoff : Time) (unique : Uuid) (first last : Int) : Text :=
  text "audit/" ++ text (formats.dateText cutoff) ++ text "/" ++ text (formats.uuidText unique) ++
    text "-" ++ (NumberToken.ofInt first).text ++ text "-" ++ (NumberToken.ofInt last).text ++
    text ".jsonl"

/-- One of the lines of an object decodes to the fields of the row. -/
def Contains (payload : Text) (row : Row Finite Time Uuid) : Prop :=
  ∃ line ∈ payload.splitOn newline, ∃ maxDigits limit,
    JsonTexts.loads interpreter.format maxDigits limit line = .ok (rowToJsonable formats row)

variable {formats interpreter}

theorem text_injective : Function.Injective text := by
  have codePoint_injective : Function.Injective codePoint := by
    intro first second same
    have sameValue : first.val.toNat = second.val.toNat := Fin.mk.inj same
    exact Char.ext (UInt32.toNat_inj.mp sameValue)
  intro first second same
  exact String.toList_inj.mp (List.map_injective_iff.mpr codePoint_injective same)

theorem optionalText_injective {Value : Type} {write : Value → String}
    (injective : Function.Injective write) :
    Function.Injective fun value : Option Value =>
      value.elim (.null : Json Finite) fun some => .str (text (write some)) := by
  intro first second same
  cases first with
  | none =>
    cases second with
    | none => rfl
    | some second => cases same
  | some first =>
    cases second with
    | none => cases same
    | some second => exact congrArg some (injective (text_injective (Json.str.inj same)))

/-- The fields are those of one row only. -/
theorem rowToJsonable_injective :
    Function.Injective (rowToJsonable formats : Row Finite Time Uuid → Json Finite) := by
  intro first second same
  simp only [rowToJsonable, Json.object.injEq, List.cons.injEq, Prod.mk.injEq, true_and,
    and_true, Json.int.injEq, Json.str.injEq, Subtype.val_inj] at same
  obtain ⟨sameId, sameTs, sameActor, sameRole, sameAction, sameTarget, sameDiff, sameRequest⟩ :=
    same
  ext1
  · exact sameId
  · exact formats.isoformat_injective (text_injective sameTs)
  · exact formats.uuidText_injective (text_injective sameActor)
  · exact text_injective sameRole
  · exact text_injective sameAction
  · exact sameTarget
  · exact sameDiff
  · exact optionalText_injective formats.uuidText_injective sameRequest

theorem plain_rowToJsonable (row : Row Finite Time Uuid) :
    (rowToJsonable formats row).Everywhere Plain := by
  refine ⟨⟨?_, ?_⟩, trivial, noSplitPair_text _, noSplitPair_text _, noSplitPair_text _,
    noSplitPair_text _, row.target.property, row.diff.property, ?_, trivial⟩
  · show (["id", "ts", "actor_id", "actor_role", "action", "target", "diff",
      "request_id"].map text).Nodup
    exact List.Nodup.map text_injective (by decide)
  · simp only [List.forall_mem_cons, noSplitPair_text, true_and]
    exact fun field member => absurd member List.not_mem_nil
  · cases row.requestId with
    | none => trivial
    | some id => exact noSplitPair_text _

/-- A line is read back, whatever it holds. -/
theorem loads_line {value : Json Finite} {line : Text}
    (written : interpreter.dumps value = some line) (plain : value.Everywhere Plain) :
    JsonTexts.loads interpreter.format interpreter.maxStrDigits value.depth line = .ok value := by
  unfold Interpreter.dumps at written
  split at written
  · next within =>
    cases written
    exact loads_dumps interpreter.format interpreter.maxStrDigits le_rfl
      (readable_of_plain within.2 plain)
  · cases written

theorem newline_not_mem_line {value : Json Finite} {line : Text}
    (written : interpreter.dumps value = some line) : newline ∉ line := by
  unfold Interpreter.dumps at written
  split at written
  · cases written
    intro member
    exact absurd (printable_dumps interpreter.format value _ member) (by decide)
  · cases written

theorem map_eq_of_linesOf {rows : List (Row Finite Time Uuid)} {lines : List Text}
    (isLines : linesOf formats interpreter rows = some lines) :
    rows.map (fun row => interpreter.dumps (rowToJsonable formats row)) = lines.map some := by
  induction rows generalizing lines with
  | nil =>
    cases isLines
    rfl
  | cons row rows inductionHypothesis =>
    rw [linesOf, List.mapM_cons] at isLines
    obtain ⟨line, isLine, isLines⟩ := Option.bind_eq_some_iff.mp isLines
    obtain ⟨rest, isRest, same⟩ := Option.bind_eq_some_iff.mp isLines
    cases same
    rw [List.map_cons, List.map_cons, isLine, inductionHypothesis isRest]

/-- The lines of a payload are those of its rows. -/
theorem splitOn_payload {rows : List (Row Finite Time Uuid)} {lines : List Text}
    (isLines : linesOf formats interpreter rows = some lines) (nonempty : rows ≠ []) :
    ([newline].intercalate lines).splitOn newline = lines := by
  have written := map_eq_of_linesOf isLines
  refine List.splitOn_intercalate newline (fun line isLine => ?_) ?_
  · have isSome : some line ∈ lines.map some := List.mem_map_of_mem isLine
    rw [← written] at isSome
    obtain ⟨row, _, isDump⟩ := List.mem_map.mp isSome
    exact newline_not_mem_line isDump
  · rintro rfl
    exact nonempty (List.map_eq_nil_iff.mp written)

/-- Every row of a payload is in it. -/
theorem contains_of_payload {rows : List (Row Finite Time Uuid)} {payload : Text}
    (isPayload : payloadOf formats interpreter rows = some payload) {row : Row Finite Time Uuid}
    (member : row ∈ rows) : Contains formats interpreter payload row := by
  obtain ⟨lines, isLines, rfl⟩ := Option.map_eq_some_iff.mp isPayload
  have isSome : interpreter.dumps (rowToJsonable formats row) ∈
      rows.map fun row => interpreter.dumps (rowToJsonable formats row) :=
    List.mem_map_of_mem member
  rw [map_eq_of_linesOf isLines] at isSome
  obtain ⟨line, isLine, isDump⟩ := List.mem_map.mp isSome
  refine ⟨line, ?_, interpreter.maxStrDigits, (rowToJsonable formats row).depth,
    loads_line isDump.symm (plain_rowToJsonable row)⟩
  rw [splitOn_payload isLines (List.ne_nil_of_mem member)]
  exact isLine

end Objects

/-! ### Runs -/

section Shipping

variable (formats : Formats Time Uuid) (interpreter : Interpreter Finite)

/-- What a run has read and wants to ship. -/
structure Batch (cutoff : Time) where
  rows : List (Row Finite Time Uuid)
  nonempty : rows ≠ []
  expired : ∀ row ∈ rows, formats.earlier row.ts cutoff = true
  payload : Text
  isPayload : payloadOf formats interpreter rows = some payload

/-- How far a run of `run_audit_ship` has come. -/
inductive Phase (cutoff : Time) where
  | called
  | read (batch : Batch formats interpreter cutoff)
  | uploaded (batch : Batch formats interpreter cutoff)
  | returned (success : Bool)
  /-- It has raised, or its worker has crashed. -/
  | stopped

structure Run where
  cutoff : Time
  limit : Int
  phase : Phase formats interpreter cutoff

/-- The objects are those that were uploaded successfully, by key. -/
structure State where
  table : AuditTable Finite Time Uuid
  objects : List (Text × Text)
  runs : List (Run formats interpreter)

inductive Event (Finite Time Uuid : Type) where
  | append (row : Row Finite Time Uuid)
  | call (message : AuditShipMessage) (now : Time)
  | read (run : Nat)
  /-- `store.put(key, payload)`, where `uuid.uuid4()` is `unique`. -/
  | put (run : Nat) (unique : Uuid) (succeeds : Bool)
  | delete (run : Nat)
  | crash (run : Nat)

/-- `LIMIT` takes a number of rows in 64 bits. -/
def bounded (limit : Int) : Option Nat :=
  if 0 ≤ limit ∧ limit < 2 ^ 63 then some limit.toNat else none

def selectExpired (table : AuditTable Finite Time Uuid) (cutoff : Time) (limit : Nat) :
    List (Row Finite Time Uuid) :=
  (sortedBy Row.id (table.rows.filter fun row => formats.earlier row.ts cutoff)).take limit

variable {formats} in
theorem mem_of_mem_selectExpired {table : AuditTable Finite Time Uuid} {cutoff : Time} {limit : Nat}
    {row : Row Finite Time Uuid} (member : row ∈ selectExpired formats table cutoff limit) :
    row ∈ table.rows ∧ formats.earlier row.ts cutoff = true :=
  List.mem_filter.mp ((mem_sortedBy Row.id _ row).mp (List.mem_of_mem_take member))

/-- The first session of a run, up to the payload. -/
def readBatch (table : AuditTable Finite Time Uuid) (cutoff : Time) (limit : Int) :
    Phase formats interpreter cutoff :=
  match bounded limit with
  | none => .stopped
  | some limit =>
    if empty : selectExpired formats table cutoff limit = [] then .returned true
    else
      match isPayload :
        payloadOf formats interpreter (selectExpired formats table cutoff limit) with
      | none => .stopped
      | some payload =>
        .read {
          rows := selectExpired formats table cutoff limit
          nonempty := empty
          expired := fun _ member => (mem_of_mem_selectExpired member).2
          payload := payload
          isPayload := isPayload }

variable {formats interpreter}

def Batch.key {cutoff : Time} (batch : Batch formats interpreter cutoff) (unique : Uuid) : Text :=
  keyOf formats cutoff unique (batch.rows.head batch.nonempty).id
    (batch.rows.getLast batch.nonempty).id

namespace State

/-- The run goes on. -/
def advance (state : State formats interpreter) (run : Nat) (next : Run formats interpreter) :
    State formats interpreter :=
  { state with runs := state.runs.set run next }

end State

def step (state : State formats interpreter) :
    Event Finite Time Uuid → Option (State formats interpreter)
  | .append row => (state.table.insert row).map fun table => { state with table }
  | .call message now =>
    match formats.minusDays now message.retentionDays with
    | none => some state
    | some cutoff => some { state with runs := state.runs ++ [⟨cutoff, message.limit, .called⟩] }
  | .read run =>
    match state.runs[run]? with
    | some ⟨cutoff, limit, .called⟩ =>
      some (state.advance run
        ⟨cutoff, limit, readBatch formats interpreter state.table cutoff limit⟩)
    | _ => none
  | .put run unique succeeds =>
    match state.runs[run]? with
    | some ⟨cutoff, limit, .read batch⟩ =>
      if succeeds then
        -- The key is new, since the id in it is.
        if ∀ object ∈ state.objects, object.1 ≠ batch.key unique then
          some { state.advance run ⟨cutoff, limit, .uploaded batch⟩ with
            objects := state.objects ++ [(batch.key unique, batch.payload)] }
        else none
      else some (state.advance run ⟨cutoff, limit, .returned false⟩)
    | _ => none
  | .delete run =>
    match state.runs[run]? with
    | some ⟨cutoff, limit, .uploaded batch⟩ =>
      some { state.advance run ⟨cutoff, limit, .returned true⟩ with
        table := state.table.deleteIds (batch.rows.map Row.id) }
    | _ => none
  | .crash run =>
    match state.runs[run]? with
    | some ⟨cutoff, limit, _⟩ => some (state.advance run ⟨cutoff, limit, .stopped⟩)
    | none => none

/-! ### Rows are kept -/

/-- The row is in the log or in an object. -/
def State.Keeps (state : State formats interpreter) (row : Row Finite Time Uuid) : Prop :=
  row ∈ state.table.rows ∨ ∃ object ∈ state.objects, Contains formats interpreter object.2 row

def State.Shipped (state : State formats interpreter) : Prop :=
  ∀ row ∈ state.table.written, state.Keeps row

/-- A row that leaves the log is deleted by a run whose cutoff it is older than. -/
def DeletesExpired (state : State formats interpreter) (event : Event Finite Time Uuid) : Prop :=
  ∀ next, step state event = some next → ∀ row ∈ state.table.rows, row ∉ next.table.rows →
    ∃ number run, event = .delete number ∧ state.runs[number]? = some run ∧
      formats.earlier row.ts run.cutoff = true

/-- What a run holds are rows of the log, and once it has uploaded them there is an object
with their lines. -/
def Phase.Sound {cutoff : Time} (written : List (Row Finite Time Uuid))
    (objects : List (Text × Text)) : Phase formats interpreter cutoff → Prop
  | .read batch => ∀ row ∈ batch.rows, row ∈ written
  | .uploaded batch =>
    (∀ row ∈ batch.rows, row ∈ written) ∧ ∃ object ∈ objects, object.2 = batch.payload
  | .called | .returned _ | .stopped => True

structure State.Sound (state : State formats interpreter) : Prop where
  shipped : state.Shipped
  runs : ∀ run ∈ state.runs, run.phase.Sound state.table.written state.objects

section Steps

variable {state next : State formats interpreter} {number : Nat}

/-! ### What a step does -/

theorem append_cases {row : Row Finite Time Uuid}
    (taken : step state (.append row) = some next) :
    ∃ table, state.table.insert row = some table ∧ next = { state with table := table } := by
  obtain ⟨table, inserted, rfl⟩ := Option.map_eq_some_iff.mp taken
  exact ⟨table, inserted, rfl⟩

theorem call_cases {message : AuditShipMessage} {now : Time}
    (taken : step state (.call message now) = some next) :
    next = state ∨
      ∃ cutoff, next = { state with runs := state.runs ++ [⟨cutoff, message.limit, .called⟩] } := by
  unfold step at taken
  dsimp only at taken
  split at taken
  · exact Or.inl (Option.some.inj taken).symm
  · exact Or.inr ⟨_, (Option.some.inj taken).symm⟩

theorem read_cases (taken : step state (.read number) = some next) :
    ∃ cutoff limit, next = state.advance number
      ⟨cutoff, limit, readBatch formats interpreter state.table cutoff limit⟩ := by
  unfold step at taken
  dsimp only at taken
  split at taken
  · exact ⟨_, _, (Option.some.inj taken).symm⟩
  · cases taken

theorem put_cases {unique : Uuid} {succeeds : Bool}
    (taken : step state (.put number unique succeeds) = some next) :
    ∃ cutoff limit batch, state.runs[number]? = some ⟨cutoff, limit, .read batch⟩ ∧
      (next = { state.advance number ⟨cutoff, limit, .uploaded batch⟩ with
          objects := state.objects ++ [(batch.key unique, batch.payload)] } ∨
        next = state.advance number ⟨cutoff, limit, .returned false⟩) := by
  unfold step at taken
  dsimp only at taken
  split at taken
  · next cutoff limit batch isRun =>
    refine ⟨cutoff, limit, batch, isRun, ?_⟩
    split at taken
    · split at taken
      · exact Or.inl (Option.some.inj taken).symm
      · cases taken
    · exact Or.inr (Option.some.inj taken).symm
  · cases taken

theorem delete_cases (taken : step state (.delete number) = some next) :
    ∃ cutoff limit batch, state.runs[number]? = some ⟨cutoff, limit, .uploaded batch⟩ ∧
      next = { state.advance number ⟨cutoff, limit, .returned true⟩ with
        table := state.table.deleteIds (batch.rows.map Row.id) } := by
  unfold step at taken
  dsimp only at taken
  split at taken
  · next cutoff limit batch isRun =>
    exact ⟨cutoff, limit, batch, isRun, (Option.some.inj taken).symm⟩
  · cases taken

theorem crash_cases (taken : step state (.crash number) = some next) :
    ∃ cutoff limit, next = state.advance number ⟨cutoff, limit, .stopped⟩ := by
  unfold step at taken
  dsimp only at taken
  split at taken
  · exact ⟨_, _, (Option.some.inj taken).symm⟩
  · cases taken

/-! ### What every step keeps -/

theorem Phase.Sound.mono {cutoff : Time} {written more : List (Row Finite Time Uuid)}
    {objects moreObjects : List (Text × Text)} {phase : Phase formats interpreter cutoff}
    (sound : phase.Sound written objects) (grows : written ⊆ more)
    (growsObjects : objects ⊆ moreObjects) : phase.Sound more moreObjects := by
  cases phase with
  | read batch => exact fun row member => grows (sound row member)
  | uploaded batch =>
    obtain ⟨isWritten, object, isObject, same⟩ := sound
    exact ⟨fun row member => grows (isWritten row member), object, growsObjects isObject, same⟩
  | called => trivial
  | returned success => trivial
  | stopped => trivial

theorem sound_readBatch (table : AuditTable Finite Time Uuid) (cutoff : Time) (limit : Int)
    (objects : List (Text × Text)) :
    (readBatch formats interpreter table cutoff limit).Sound table.written objects := by
  unfold readBatch
  split
  · trivial
  · split
    · trivial
    · split
      · trivial
      · exact fun row member => table.isWritten row (mem_of_mem_selectExpired member).1

/-- Among the runs only the one that goes on is new. -/
theorem State.Sound.advance {written : List (Row Finite Time Uuid)}
    {objects : List (Text × Text)} {run : Run formats interpreter} (sound : state.Sound)
    (grows : state.table.written ⊆ written) (growsObjects : state.objects ⊆ objects)
    (isSound : run.phase.Sound written objects) :
    ∀ other ∈ (state.advance number run).runs, other.phase.Sound written objects := by
  intro other member
  rcases List.mem_or_eq_of_mem_set member with before | rfl
  · exact (sound.runs other before).mono grows growsObjects
  · exact isSound

/-- A step that changes neither the log nor the objects. -/
theorem State.Sound.advance_only {run : Run formats interpreter} (sound : state.Sound)
    (isSound : run.phase.Sound state.table.written state.objects) :
    (state.advance number run).Sound where
  shipped := sound.shipped
  runs := sound.advance (List.Subset.refl _) (List.Subset.refl _) isSound

theorem State.Sound.of_append {row : Row Finite Time Uuid} (sound : state.Sound)
    (taken : step state (.append row) = some next) : next.Sound := by
  obtain ⟨table, inserted, rfl⟩ := append_cases taken
  obtain ⟨isWritten, isRows⟩ := AuditTable.insert_eq_some inserted
  have grows : state.table.written ⊆ table.written := by
    rw [isWritten]
    exact List.subset_append_left _ _
  refine ⟨fun other member => ?_, fun run member =>
    (sound.runs run member).mono grows (List.Subset.refl _)⟩
  rw [isWritten] at member
  unfold State.Keeps
  rw [isRows]
  rcases List.mem_append.mp member with before | isNew
  · exact (sound.shipped other before).imp (List.mem_append_left _) id
  · exact Or.inl (List.mem_append_right _ isNew)

theorem State.Sound.of_call {message : AuditShipMessage} {now : Time} (sound : state.Sound)
    (taken : step state (.call message now) = some next) : next.Sound := by
  obtain rfl | ⟨cutoff, rfl⟩ := call_cases taken
  · exact sound
  · refine ⟨sound.shipped, fun run member => ?_⟩
    rcases List.mem_append.mp member with before | isNew
    · exact sound.runs run before
    · rw [List.mem_singleton.mp isNew]
      trivial

theorem State.Sound.of_put {unique : Uuid} {succeeds : Bool} (sound : state.Sound)
    (taken : step state (.put number unique succeeds) = some next) : next.Sound := by
  obtain ⟨cutoff, limit, batch, isRun, rfl | rfl⟩ := put_cases taken
  · have isWritten := sound.runs _ (List.mem_of_getElem? isRun)
    have growsObjects := List.subset_append_left state.objects
      [(batch.key unique, batch.payload)]
    refine ⟨fun row member => ?_, sound.advance (List.Subset.refl _) growsObjects
      ⟨isWritten, _, List.mem_append_right _ (List.mem_singleton_self _), rfl⟩⟩
    refine (sound.shipped row member).imp id ?_
    rintro ⟨object, isObject, contains⟩
    exact ⟨object, growsObjects isObject, contains⟩
  · exact sound.advance_only trivial

/-- A deletion takes rows away whose lines are in an object. -/
theorem State.Sound.of_delete (sound : state.Sound)
    (taken : step state (.delete number) = some next) : next.Sound := by
  obtain ⟨cutoff, limit, batch, isRun, rfl⟩ := delete_cases taken
  obtain ⟨isWritten, object, isObject, samePayload⟩ := sound.runs _ (List.mem_of_getElem? isRun)
  refine ⟨fun row member => ?_, sound.advance (List.Subset.refl _) (List.Subset.refl _) trivial⟩
  by_cases shipped : row.id ∈ batch.rows.map Row.id
  · obtain ⟨other, isOther, sameId⟩ := List.mem_map.mp shipped
    obtain rfl := AuditTable.eq_of_id_eq (isWritten other isOther) member sameId
    refine Or.inr ⟨object, isObject, ?_⟩
    rw [samePayload]
    exact contains_of_payload batch.isPayload isOther
  · refine (sound.shipped row member).imp (fun isRow => ?_) id
    exact List.mem_filter.mpr ⟨isRow, decide_eq_true shipped⟩

theorem State.Sound.of_step {event : Event Finite Time Uuid} (sound : state.Sound)
    (taken : step state event = some next) : next.Sound := by
  cases event with
  | append row => exact sound.of_append taken
  | call message now => exact sound.of_call taken
  | read number =>
    obtain ⟨cutoff, limit, rfl⟩ := read_cases taken
    exact sound.advance_only (sound_readBatch state.table cutoff limit state.objects)
  | put number unique succeeds => exact sound.of_put taken
  | delete number => exact sound.of_delete taken
  | crash number =>
    obtain ⟨cutoff, limit, rfl⟩ := crash_cases taken
    exact sound.advance_only trivial

/-- Only a deletion takes rows out of the log. -/
theorem rows_subset_of_step {event : Event Finite Time Uuid}
    (taken : step state event = some next) (keeps : ∀ number, event ≠ .delete number) :
    state.table.rows ⊆ next.table.rows := by
  cases event with
  | append row =>
    obtain ⟨table, inserted, rfl⟩ := append_cases taken
    intro other member
    rw [(AuditTable.insert_eq_some inserted).2]
    exact List.mem_append_left _ member
  | call message now =>
    obtain rfl | ⟨cutoff, rfl⟩ := call_cases taken
    · exact List.Subset.refl _
    · exact List.Subset.refl _
  | read number =>
    obtain ⟨cutoff, limit, rfl⟩ := read_cases taken
    exact List.Subset.refl _
  | put number unique succeeds =>
    obtain ⟨cutoff, limit, batch, isRun, rfl | rfl⟩ := put_cases taken
    · exact List.Subset.refl _
    · exact List.Subset.refl _
  | delete number => exact absurd rfl (keeps number)
  | crash number =>
    obtain ⟨cutoff, limit, rfl⟩ := crash_cases taken
    exact List.Subset.refl _

theorem State.Sound.deletesExpired (sound : state.Sound) (event : Event Finite Time Uuid) :
    DeletesExpired state event := by
  intro next taken row isRow isGone
  by_cases deletes : ∃ number, event = .delete number
  · obtain ⟨number, rfl⟩ := deletes
    obtain ⟨cutoff, limit, batch, isRun, rfl⟩ := delete_cases taken
    refine ⟨number, _, rfl, isRun, ?_⟩
    have isWritten := (sound.runs _ (List.mem_of_getElem? isRun)).1
    have shipped : row.id ∈ batch.rows.map Row.id := by
      by_contra kept
      exact isGone (List.mem_filter.mpr ⟨isRow, decide_eq_true kept⟩)
    obtain ⟨other, isOther, sameId⟩ := List.mem_map.mp shipped
    obtain rfl := AuditTable.eq_of_id_eq (isWritten other isOther)
      (state.table.isWritten row isRow) sameId
    exact batch.expired other isOther
  · have keeps : ∀ number, event ≠ .delete number := fun number same => deletes ⟨number, same⟩
    exact absurd (rows_subset_of_step taken keeps isRow) isGone

end Steps

/-- No run, no object, and a log in which nothing was deleted. -/
def State.initial (rows : List (Row Finite Time Uuid)) (distinct : (rows.map Row.id).Nodup) :
    State formats interpreter := ⟨.ofRows rows distinct, [], []⟩

theorem sound_initial (rows : List (Row Finite Time Uuid))
    (distinct : (rows.map Row.id).Nodup) :
    (State.initial rows distinct : State formats interpreter).Sound where
  shipped _ member := Or.inl member
  runs _ member := absurd member List.not_mem_nil

/-- In every state of every run of the system each row that was ever written is in the log or
a line of an object, and every row that is deleted is older than the cutoff of the run that
deletes it. -/
theorem audit_rows_kept (formats : Formats Time Uuid) (interpreter : Interpreter Finite)
    (start : { rows : List (Row Finite Time Uuid) // (rows.map Row.id).Nodup })
    (events : List (Event Finite Time Uuid)) :
    Runs.Always step (State.Shipped : State formats interpreter → Prop)
        (.initial start.val start.property) events ∧
      Runs.StepsMeet step (DeletesExpired : State formats interpreter → _ → Prop)
        (.initial start.val start.property) events := by
  have initial : (State.initial start.val start.property : State formats interpreter).Sound :=
    sound_initial start.val start.property
  have preserved : ∀ (state : State formats interpreter) event next, state.Sound →
      step state event = some next → next.Sound :=
    fun state event next sound taken => sound.of_step taken
  constructor
  · exact (Runs.always_invariant step preserved initial).mono step fun _ sound => sound.shipped
  · exact Runs.stepsMeet_of_invariant step
      (fun state event next sound _ taken => preserved state event next sound taken)
      (fun state event sound _ => sound.deletesExpired event) initial
      (Runs.stepsMeet_true step _ events)

end Shipping

end LiteHorse.Worker.AuditShip
