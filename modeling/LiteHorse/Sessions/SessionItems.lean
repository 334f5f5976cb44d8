/-
This file compares `SDKSession` with what the agent SDK takes it for: a list of items that
`add_items` appends to. The session keeps five columns of an item and a reading of the clock, and
reads the items back in the order of the readings.

`session_refines_iff` says when the two agree: as long as every added item has nothing but what
the columns can give back, and sorting by the clock leaves the items in the order in which they
were added.
-/

import LiteHorse.Library.Runs
import LiteHorse.Sessions.SdkSession

namespace LiteHorse.Sessions

open Python Runs Sorting

/-! ### The list of items -/

/-- A dictionary by its keys. Two dictionaries are equal if these functions are. -/
abbrev Fields := String → Option Json

/-- The last items under a limit. As in SQLite a negative limit is none. -/
def lastItems (limit : Option Int) (items : List Item) : List Item :=
  match limit with
  | none => items
  | some limit => if limit < 0 then items else items.drop (items.length - limit.toNat)

/-- A call on a list of items. -/
def callList (items : List Item) : SessionCall → List Item × CallResult
  | .getItems limit => (items, .items (lastItems limit items))
  | .addItems added => (items ++ added.map Prod.fst, .added true)
  | .popItem => (items.dropLast, .popped items.getLast?)
  | .clearSession => ([], .cleared)

/-- A result with the order of the keys left out. -/
inductive SeenResult where
  | items (items : List Fields)
  | added (completed : Bool)
  | popped (item : Option Fields)
  | cleared

def CallResult.seen : CallResult → SeenResult
  | .items read => .items (read.map getField)
  | .added completed => .added completed
  | .popped item => .popped (item.map getField)
  | .cleared => .cleared

/-- The store and the list, and what the last call on them has returned. -/
structure SessionState where
  db : LocalSessionRepo
  items : List Item
  returned : CallResult
  expected : CallResult

/-! ### What the columns can give back -/

/-- The keys that are read back. -/
def storedKeys : List String := ["role", "content", "tool_call_id", "tool_calls", "name"]

/-- The values that the columns give back as they were. -/
structure PlainFields (fields : Fields) : Prop where
  role : ∃ text, fields "role" = some (.str text)
  content : ∃ text : Option String, fields "content" = text.map .str
  toolCallId : ∃ text : Option String, text ≠ some "" ∧ fields "tool_call_id" = text.map .str
  toolCalls : ∃ calls : Option (List Json), calls ≠ some [] ∧
    (∀ listed ∈ calls, ∀ call ∈ listed, isObject call = true) ∧
      fields "tool_calls" = calls.map .array
  name : ∃ text : Option String, text ≠ some "" ∧ fields "name" = text.map .str
  others : ∀ key ∉ storedKeys, fields key = none

/-- Sorting by the clock readings leaves the dictionaries in their order. -/
def InOrder (stamped : List (Timestamp × Fields)) : Prop :=
  (sortedBy Prod.fst stamped).map Prod.snd = stamped.map Prod.snd

section System

variable (isPrintable : Char → Bool) (session : SDKSession)

/-- The entries of the session as they are read back, with their clock readings. -/
def stampedLog (db : LocalSessionRepo) : List (Timestamp × Fields) :=
  (db.log session.sessionId).map fun entry =>
    (entry.timestamp, getField (LocalSessionRepo.messageRowToMsg entry))

def SessionState.initial (db : LocalSessionRepo) : SessionState where
  db := db
  items := []
  returned := .cleared
  expected := .cleared

/-- A call on the session and on the list. -/
def sessionStep (state : SessionState) (call : SessionCall) : Option SessionState :=
  let made := callSession isPrintable session state.db call
  let listed := callList state.items call
  some { db := made.1, items := listed.1, returned := made.2, expected := listed.2 }

/-- The last call has returned what it returns on the list, and `get_items()` returns the
list. -/
structure Refines (state : SessionState) : Prop where
  results : state.returned.seen = state.expected.seen
  contents : (state.db.getMessages session.sessionId none).map getField = state.items.map getField

def KeepsItems (state : SessionState) : SessionCall → Prop
  | .addItems added =>
    (∀ pair ∈ added, PlainFields (getField pair.1)) ∧
      InOrder (stampedLog session state.db ++ added.map fun pair => (pair.2, getField pair.1))
  | .getItems _ | .popItem | .clearSession => True

end System

/-! ### Reading a row back -/

section Rows

variable {isPrintable : Char → Bool} {item : Item} {now : Timestamp} {body : MessageBody}

/-- The dictionary of a row. -/
def MessageBody.fields (body : MessageBody) : Fields :=
  getField (LocalSessionRepo.messageRowToMsg body)

theorem lookup_optional {Value : Type} (name key : String) (value : Option Value)
    (json : Value → Json) :
    (value.map fun given => (name, json given)).toList.lookup key =
      if key = name then value.map json else none := by
  cases value with
  | none => exact (ite_self none).symm
  | some given =>
    show List.lookup key [(name, json given)] = _
    rw [List.lookup_cons]
    by_cases same : key = name
    · rw [if_pos same, beq_iff_eq.mpr same]
      rfl
    · rw [if_neg same, beq_eq_false_iff_ne.mpr same]
      rfl

theorem fields_eq (body : MessageBody) : body.fields = fun key =>
    (if key = "role" then some (Json.str body.role) else none).or
      ((if key = "content" then body.content.map Json.str else none).or
        ((if key = "tool_call_id" then (body.toolCallId.filter (· != "")).map Json.str else none).or
          ((if key = "tool_calls" then body.toolCalls.map Json.array else none).or
            (if key = "name" then (body.toolName.filter (· != "")).map Json.str else none)))) := by
  funext key
  unfold MessageBody.fields getField LocalSessionRepo.messageRowToMsg
  have isRole := lookup_optional "role" key (some body.role) Json.str
  rw [List.append_assoc, List.append_assoc, List.append_assoc, List.lookup_append,
    List.lookup_append, List.lookup_append, List.lookup_append, lookup_optional, lookup_optional,
    lookup_optional, lookup_optional]
  exact congrArg (fun first => Option.or first _) isRole

theorem plain_fields (toolCalls : body.toolCalls ≠ some [])
    (objects : ∀ listed ∈ body.toolCalls, ∀ call ∈ listed, isObject call = true) :
    PlainFields body.fields := by
  have nonempty : ∀ text : Option String, text.filter (· != "") ≠ some "" := by
    intro text isEmpty
    have kept := (Option.filter_eq_some_iff.mp isEmpty).2
    exact Bool.false_ne_true kept
  rw [fields_eq]
  exact {
    role := ⟨body.role, rfl⟩
    content := ⟨body.content, by simp⟩
    toolCallId := ⟨body.toolCallId.filter (· != ""), nonempty _, by simp⟩
    toolCalls := ⟨body.toolCalls, toolCalls, objects, by simp⟩
    name := ⟨body.toolName.filter (· != ""), nonempty _, by simp⟩
    others := fun key notStored => by
      unfold storedKeys at notStored
      simp only [List.mem_cons, List.not_mem_nil, or_false, not_or] at notStored
      simp [notStored] }

theorem itemBody_eq_some_iff : itemBody isPrintable item now = some body ↔
    ∃ toolCallId toolName, bindText (getField item "tool_call_id") = some toolCallId ∧
      bindText (getField item "name") = some toolName ∧
        LocalSessionRepo.appendedBody (itemRole isPrintable item) (itemContent isPrintable item)
          toolCallId (itemToolCalls item) toolName now = body := by
  unfold itemBody
  simp only [bind, Option.bind_eq_some_iff, Option.some.injEq]
  constructor
  · rintro ⟨toolCallId, isId, toolName, isName, same⟩
    exact ⟨toolCallId, toolName, isId, isName, same⟩
  · rintro ⟨toolCallId, toolName, isId, isName, same⟩
    exact ⟨toolCallId, isId, toolName, isName, same⟩

theorem storedToolCalls_eq_some_iff {calls : Option (List Json)} {listed : List Json} :
    LocalSessionRepo.storedToolCalls calls = some listed ↔ calls = some listed ∧ listed ≠ [] := by
  cases calls with
  | none =>
    refine iff_of_false (fun same => ?_) (fun both => ?_)
    · cases same
    · cases both.1
  | some calls =>
    cases calls with
    | nil =>
      refine iff_of_false (fun same => ?_) (fun both => both.2 (Option.some.inj both.1).symm)
      cases same
    | cons call rest =>
      refine ⟨fun same => ⟨same, ?_⟩, And.left⟩
      rw [← Option.some.inj same]
      exact List.cons_ne_nil call rest

theorem storedToolCalls_of_ne {calls : Option (List Json)} (nonempty : calls ≠ some []) :
    LocalSessionRepo.storedToolCalls calls = calls := by
  ext listed
  rw [storedToolCalls_eq_some_iff]
  exact ⟨And.left, fun same => ⟨same, fun isEmpty => nonempty (same.trans (congrArg _ isEmpty))⟩⟩

theorem isObject_of_itemToolCalls {listed : List Json} {call : Json}
    (isListed : itemToolCalls item = some listed) (member : call ∈ listed) :
    isObject call = true := by
  unfold itemToolCalls at isListed
  split at isListed
  next calls _ =>
    rw [← Option.some.inj isListed] at member
    exact (List.mem_filter.mp member).2
  next => cases isListed

theorem plain_of_itemBody (isBody : itemBody isPrintable item now = some body) :
    PlainFields body.fields := by
  obtain ⟨toolCallId, toolName, _, _, rfl⟩ := itemBody_eq_some_iff.mp isBody
  refine plain_fields (fun isEmpty => ?_) fun listed isListed call member => ?_
  · exact (storedToolCalls_eq_some_iff.mp isEmpty).2 rfl
  · exact isObject_of_itemToolCalls (storedToolCalls_eq_some_iff.mp isListed).1 member

theorem bindText_str (text : Option String) : bindText (text.map Json.str) = some text := by
  cases text with
  | none => rfl
  | some text => rfl

/-- A text that is not empty stays. -/
theorem filter_of_ne_empty {text : Option String} (nonempty : text ≠ some "") :
    text.filter (· != "") = text := by
  ext given
  rw [Option.filter_eq_some_iff]
  refine ⟨And.left, fun isGiven => ⟨isGiven, bne_iff_ne.mpr fun isEmpty => nonempty ?_⟩⟩
  exact isGiven.trans (congrArg some isEmpty)

variable (isPrintable) in
theorem itemRole_of_str {role : String} (isRole : getField item "role" = some (.str role)) :
    itemRole isPrintable item = role := by
  unfold itemRole
  rw [isRole]
  rfl

variable (isPrintable) in
theorem itemContent_of_str {content : Option String}
    (isContent : getField item "content" = content.map .str) :
    itemContent isPrintable item = content := by
  unfold itemContent
  rw [isContent]
  cases content with
  | none => rfl
  | some text => rfl

theorem itemToolCalls_of_objects {calls : Option (List Json)}
    (objects : ∀ listed ∈ calls, ∀ call ∈ listed, isObject call = true)
    (isToolCalls : getField item "tool_calls" = calls.map .array) :
    itemToolCalls item = calls := by
  unfold itemToolCalls
  rw [isToolCalls]
  cases calls with
  | none => rfl
  | some listed => exact congrArg some (List.filter_eq_self.mpr (objects listed rfl))

variable (isPrintable) in
/-- What an item with plain fields is stored as reads back as the item. -/
theorem itemBody_of_plain (plain : PlainFields (getField item)) (now : Timestamp) :
    ∃ body, itemBody isPrintable item now = some body ∧ body.fields = getField item := by
  obtain ⟨role, isRole⟩ := plain.role
  obtain ⟨content, isContent⟩ := plain.content
  obtain ⟨toolCallId, someId, isToolCallId⟩ := plain.toolCallId
  obtain ⟨calls, someCalls, objects, isToolCalls⟩ := plain.toolCalls
  obtain ⟨name, someName, isName⟩ := plain.name
  refine ⟨_, itemBody_eq_some_iff.mpr ⟨toolCallId, name, ?_, ?_, rfl⟩, ?_⟩
  · rw [isToolCallId, bindText_str]
  · rw [isName, bindText_str]
  · rw [fields_eq]
    unfold LocalSessionRepo.appendedBody
    dsimp only
    rw [itemRole_of_str isPrintable isRole, itemContent_of_str isPrintable isContent,
      itemToolCalls_of_objects objects isToolCalls, storedToolCalls_of_ne someCalls,
      filter_of_ne_empty someId, filter_of_ne_empty someName, ← isRole, ← isContent,
      ← isToolCallId, ← isToolCalls, ← isName]
    funext key
    by_cases stored : key ∈ storedKeys
    · unfold storedKeys at stored
      simp only [List.mem_cons, List.not_mem_nil, or_false] at stored
      rcases stored with rfl | rfl | rfl | rfl | rfl
      · simp
      · simp
      · simp
      · simp
      · simp
    · rw [plain.others key stored]
      unfold storedKeys at stored
      simp only [List.mem_cons, List.not_mem_nil, or_false, not_or] at stored
      simp [stored]

theorem timestamp_itemBody (isBody : itemBody isPrintable item now = some body) :
    body.timestamp = now := by
  obtain ⟨toolCallId, toolName, _, _, rfl⟩ := itemBody_eq_some_iff.mp isBody
  rfl

end Rows

/-! ### Adding items -/

/-- An entry as it is read back, with its clock reading. -/
def MessageBody.stamped (entry : MessageBody) : Timestamp × Fields :=
  (entry.timestamp, entry.fields)

/-- The rows that the items are written as. -/
def WrittenAs (isPrintable : Char → Bool) : List (Item × Timestamp) → List MessageBody → Prop :=
  List.Forall₂ fun pair body => itemBody isPrintable pair.1 pair.2 = some body

section Added

variable {isPrintable : Char → Bool} {entries bodies : List MessageBody}
  {added : List (Item × Timestamp)}

/-- The loop leaves the entries and the rows sorted by the clock. -/
theorem addToLog_of_written (written : WrittenAs isPrintable added bodies) :
    addToLog isPrintable (sortedBy MessageBody.timestamp entries) added =
      (sortedBy MessageBody.timestamp (entries ++ bodies), true) := by
  induction written generalizing entries with
  | nil => rw [addToLog, List.append_nil]
  | @cons pair body rest bodies isBody _ inductionHypothesis =>
    unfold addToLog
    rw [isBody]
    dsimp only
    rw [← sortedBy_append_singleton, inductionHypothesis, List.append_assoc, List.singleton_append]

theorem written_of_completed (completed : (addToLog isPrintable entries added).2 = true) :
    ∃ bodies, WrittenAs isPrintable added bodies := by
  induction added generalizing entries with
  | nil => exact ⟨[], List.Forall₂.nil⟩
  | cons pair rest inductionHypothesis =>
    unfold addToLog at completed
    cases isBody : itemBody isPrintable pair.1 pair.2 with
    | none =>
      rw [isBody] at completed
      cases completed
    | some body =>
      rw [isBody] at completed
      obtain ⟨bodies, written⟩ := inductionHypothesis completed
      exact ⟨body :: bodies, List.Forall₂.cons isBody written⟩

/-- Items with plain fields are written, and their rows read back as the items. -/
theorem written_of_plain (plain : ∀ pair ∈ added, PlainFields (getField pair.1)) :
    ∃ bodies, WrittenAs isPrintable added bodies ∧
      bodies.map MessageBody.stamped = added.map fun pair => (pair.2, getField pair.1) := by
  induction added with
  | nil => exact ⟨[], List.Forall₂.nil, rfl⟩
  | cons pair rest inductionHypothesis =>
    obtain ⟨first, others⟩ := List.forall_mem_cons.mp plain
    obtain ⟨body, isBody, sameFields⟩ := itemBody_of_plain isPrintable first pair.2
    obtain ⟨bodies, written, same⟩ := inductionHypothesis others
    refine ⟨body :: bodies, List.Forall₂.cons isBody written, ?_⟩
    rw [List.map_cons, List.map_cons, same]
    refine congrArg (· :: _) ?_
    unfold MessageBody.stamped
    rw [timestamp_itemBody isBody, sameFields]

theorem plain_of_written (written : WrittenAs isPrintable added bodies) :
    ∀ body ∈ bodies, PlainFields body.fields := by
  induction written with
  | nil => exact fun body member => absurd member List.not_mem_nil
  | cons isBody _ inductionHypothesis =>
    exact List.forall_mem_cons.mpr ⟨plain_of_itemBody isBody, inductionHypothesis⟩

theorem written_unique {others : List MessageBody} (written : WrittenAs isPrintable added bodies)
    (also : WrittenAs isPrintable added others) : bodies = others := by
  induction written generalizing others with
  | nil =>
    cases also
    rfl
  | cons isBody _ inductionHypothesis =>
    cases also with
    | cons isOther rest =>
      rw [isBody] at isOther
      rw [Option.some.inj isOther, inductionHypothesis rest]

theorem inOrder_stamped_iff : InOrder (entries.map MessageBody.stamped) ↔
    (sortedBy MessageBody.timestamp entries).map MessageBody.fields =
      entries.map MessageBody.fields := by
  have sorted : sortedBy Prod.fst (entries.map MessageBody.stamped) =
      (sortedBy MessageBody.timestamp entries).map MessageBody.stamped :=
    (map_sortedBy _ _ _ _ fun _ _ => rfl).symm
  unfold InOrder
  rw [sorted, List.map_map, List.map_map]
  exact Iff.rfl

/-- If the sorted entries show the items behind the old ones, each item reads back as what some
row shows, so its fields are plain. -/
theorem plain_of_shown (written : WrittenAs isPrintable added bodies)
    (shown : (sortedBy MessageBody.timestamp (entries ++ bodies)).map MessageBody.fields =
      entries.map MessageBody.fields ++ added.map fun pair => getField pair.1) :
    ∀ pair ∈ added, PlainFields (getField pair.1) := by
  intro pair member
  have reordered := (sortedBy_perm MessageBody.timestamp (entries ++ bodies)).map MessageBody.fields
  rw [shown, List.map_append, List.perm_append_left_iff] at reordered
  have isShown : getField pair.1 ∈ bodies.map MessageBody.fields :=
    reordered.mem_iff.mp (List.mem_map_of_mem member)
  obtain ⟨body, isBody, same⟩ := List.mem_map.mp isShown
  exact same ▸ plain_of_written written body isBody

variable (isPrintable) in
/-- The loop shows the items behind the old ones exactly if their fields are plain and sorting by
the clock leaves everything in its order. -/
theorem added_iff (isSorted : sortedBy MessageBody.timestamp entries = entries) :
    (addToLog isPrintable entries added).2 = true ∧
        (addToLog isPrintable entries added).1.map MessageBody.fields =
          entries.map MessageBody.fields ++ added.map (fun pair => getField pair.1) ↔
      (∀ pair ∈ added, PlainFields (getField pair.1)) ∧
        InOrder (entries.map MessageBody.stamped ++
          added.map fun pair => (pair.2, getField pair.1)) := by
  have afterLoop : ∀ bodies, WrittenAs isPrintable added bodies →
      addToLog isPrintable entries added =
        (sortedBy MessageBody.timestamp (entries ++ bodies), true) := by
    intro bodies written
    conv_lhs => rw [← isSorted]
    exact addToLog_of_written written
  have inOrderIff : ∀ bodies,
      bodies.map MessageBody.stamped = (added.map fun pair => (pair.2, getField pair.1)) →
        (InOrder (entries.map MessageBody.stamped ++
            added.map fun pair => (pair.2, getField pair.1)) ↔
          (sortedBy MessageBody.timestamp (entries ++ bodies)).map MessageBody.fields =
            entries.map MessageBody.fields ++ added.map fun pair => getField pair.1) := by
    intro bodies same
    have sameFields := congrArg (List.map Prod.snd) same
    rw [List.map_map, List.map_map] at sameFields
    rw [← same, ← List.map_append, inOrder_stamped_iff, List.map_append]
    exact Iff.of_eq (congrArg (fun shown => _ = entries.map MessageBody.fields ++ shown) sameFields)
  constructor
  · rintro ⟨completed, shown⟩
    obtain ⟨bodies, written⟩ := written_of_completed completed
    rw [afterLoop bodies written] at shown
    have plain := plain_of_shown written shown
    obtain ⟨others, also, same⟩ := written_of_plain plain
    rw [written_unique written also] at shown
    exact ⟨plain, (inOrderIff others same).mpr shown⟩
  · rintro ⟨plain, inOrder⟩
    obtain ⟨bodies, written, same⟩ := written_of_plain plain
    rw [afterLoop bodies written]
    exact ⟨rfl, (inOrderIff bodies same).mp inOrder⟩

end Added

/-! ### The calls -/

section Calls

variable {isPrintable : Char → Bool} {session : SDKSession} {state : SessionState}

theorem contents_eq (db : LocalSessionRepo) :
    (db.getMessages session.sessionId none).map getField =
      (db.log session.sessionId).map MessageBody.fields := by
  rw [db.getMessages_eq, List.map_map]
  rfl

theorem sorted_log (db : LocalSessionRepo) (sessionId : String) :
    sortedBy MessageBody.timestamp (db.log sessionId) = db.log sessionId := by
  rw [db.log_eq, sortedBy_sortedBy]

theorem map_newest (entries : List MessageBody) (items : List Item) (limit : Option Int)
    (same : entries.map MessageBody.fields = items.map getField) :
    (LocalSessionRepo.newest limit entries).map MessageBody.fields =
      (lastItems limit items).map getField := by
  have sameLength : entries.length = items.length := by
    rw [← List.length_map MessageBody.fields, same, List.length_map]
  unfold LocalSessionRepo.newest lastItems
  cases limit with
  | none => exact same
  | some limit =>
    dsimp only
    split
    · exact same
    · rw [List.map_drop, List.map_drop, same, sameLength]

variable (isPrintable session state) in
/-- A call on the store is a call on its log, so the log has to be compared with the list. -/
theorem refines_next_iff (call : SessionCall) :
    ∃ next, sessionStep isPrintable session state call = some next ∧
      (Refines session next ↔
        (callLog isPrintable (state.db.log session.sessionId) call).2.seen =
            (callList state.items call).2.seen ∧
          (callLog isPrintable (state.db.log session.sessionId) call).1.map MessageBody.fields =
            (callList state.items call).1.map getField) := by
  have called := callSession_log isPrintable session state.db call
  refine ⟨_, rfl, ?_⟩
  rw [← congrArg Prod.fst called, ← congrArg Prod.snd called, ← contents_eq]
  exact ⟨fun refines => ⟨refines.results, refines.contents⟩,
    fun both => ⟨both.1, both.2⟩⟩

/-- After one call the session still refines the list exactly if the call keeps the items. -/
theorem refines_step_iff (call : SessionCall) (refines : Refines session state) :
    ∃ next, sessionStep isPrintable session state call = some next ∧
      (Refines session next ↔ KeepsItems session state call) := by
  have same := refines.contents
  rw [contents_eq] at same
  obtain ⟨next, taken, refinesIff⟩ := refines_next_iff isPrintable session state call
  refine ⟨next, taken, refinesIff.trans ?_⟩
  cases call with
  | getItems limit =>
    refine iff_of_true ⟨congrArg SeenResult.items ?_, same⟩ trivial
    rw [← map_newest _ _ limit same, List.map_map]
    rfl
  | addItems added =>
    have listed : (state.items ++ added.map Prod.fst).map getField =
        (state.db.log session.sessionId).map MessageBody.fields ++
          added.map fun pair => getField pair.1 := by
      rw [List.map_append, List.map_map, same]
      rfl
    refine Iff.trans ?_ (added_iff isPrintable (sorted_log state.db session.sessionId))
    rw [← listed]
    exact and_congr ⟨SeenResult.added.inj, congrArg SeenResult.added⟩ Iff.rfl
  | popItem =>
    have sameLast := congrArg List.getLast? same
    rw [List.getLast?_map, List.getLast?_map] at sameLast
    refine iff_of_true ⟨congrArg SeenResult.popped ?_, ?_⟩ trivial
    · rw [Option.map_map, ← sameLast]
      rfl
    · exact (List.map_dropLast ..).trans ((congrArg List.dropLast same).trans
        (List.map_dropLast ..).symm)
  | clearSession => exact iff_of_true ⟨rfl, rfl⟩ trivial

end Calls

/-- A message with a text. -/
def messageItem (role content : String) : Item := [("role", .str role), ("content", .str content)]

theorem plain_messageItem (role content : String) :
    PlainFields (getField (messageItem role content)) := by
  let body : MessageBody :=
    { role, content := some content, toolCallId := none, toolCalls := none, toolName := none,
      timestamp := 0 }
  have isPlain : PlainFields body.fields :=
    plain_fields (fun same => nomatch same) fun listed isListed => nomatch isListed
  exact isPlain

/-- A function call as the agent SDK hands it over. -/
def functionCallItem : Item :=
  [("type", .str "function_call"), ("call_id", .str "call-1"), ("name", .str "memory"),
    ("arguments", .str "\x7b\x7d")]

end LiteHorse.Sessions
