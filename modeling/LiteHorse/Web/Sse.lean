/-
This file models the records of the turn stream: `encode_event` writes a name and the JSON text of
some data on a line each, and `_parse_sse` reads the records of a stream.

The reader looks at nothing but line feeds and the starts of lines. A JSON text has neither a line
feed nor any other control character, for `json.dumps` escapes them, so the reader gets back what
was written, whatever the data is (`parseSse_encoded`). That the payload is read as the data is
`loads_of_dumps`, which the surrogates of a text can stand in the way of.
-/

import LiteHorse.Library.Utf8
import LiteHorse.Worker.Runner

namespace LiteHorse.Web.Sse

open JsonTexts Worker.Queue Interpreter

variable {Finite : Type}

/-! ### Writing -/

structure Event (Finite : Type) where
  name : Text
  data : List (Text × Json Finite)

def lineFeed : CodePoint := codePoint '\n'

def eventField : Text := text "event: "

def dataField : Text := text "data: "

/-- The lines of a record, with the name and the payload. -/
def recordText (name payload : Text) : Text :=
  eventField ++ name ++ lineFeed :: (dataField ++ payload ++ [lineFeed, lineFeed])

/-- `encode_event`; `none` where `json.dumps` or `encode` raises. -/
def encodeEvent (interpreter : Interpreter Finite) (event : Event Finite) :
    Option (List UInt8) := do
  let payload ← interpreter.dumps (.object event.data)
  Utf8.encode (recordText event.name payload)

/-! ### Reading -/

/-- The variables of the loop. -/
structure ParseState where
  out : List (Text × Text) := []
  name : Text := []
  dataLines : List Text := []

/-- The body of the loop. -/
def parseLine (state : ParseState) (line : Text) : ParseState :=
  if line = [] then
    { out :=
        if state.name = [] then state.out
        else state.out ++ [(state.name, [lineFeed].intercalate state.dataLines)] }
  else
    match eventField.isPrefixOf? line with
    | some rest => { state with name := strip rest }
    | none =>
      match dataField.isPrefixOf? line with
      | some rest => { state with dataLines := state.dataLines ++ [rest] }
      | none => state

/-- `_parse_sse` -/
def parseSse (raw : List UInt8) : List (Text × Text) :=
  (((Utf8.decode raw).splitOn lineFeed).foldl parseLine {}).out

/-! ### The records of a stream -/

/-- A name that the reader gets back: not empty, on one line, and without blanks around it. -/
structure IsName (name : Text) : Prop where
  nonempty : name ≠ []
  oneLine : lineFeed ∉ name
  stripped : strip name = name

section Records

variable {name payload : Text}

theorem splitOn_line {line : Text} (oneLine : lineFeed ∉ line) (rest : Text) :
    (line ++ lineFeed :: rest).splitOn lineFeed = line :: rest.splitOn lineFeed := by
  rw [List.splitOn_append_cons_self, List.splitOn_eq_singleton oneLine, List.singleton_append]

/-- A record is three lines, the last of them empty. -/
theorem splitOn_recordText (nameLine : lineFeed ∉ name) (payloadLine : lineFeed ∉ payload)
    (rest : Text) :
    (recordText name payload ++ rest).splitOn lineFeed =
      [eventField ++ name, dataField ++ payload, []] ++ rest.splitOn lineFeed := by
  have eventLine : lineFeed ∉ eventField ++ name := by
    rw [List.mem_append]
    exact not_or_intro (by decide) nameLine
  have dataLine : lineFeed ∉ dataField ++ payload := by
    rw [List.mem_append]
    exact not_or_intro (by decide) payloadLine
  have lines : recordText name payload ++ rest =
      (eventField ++ name) ++ lineFeed :: ((dataField ++ payload) ++ lineFeed ::
        ([] ++ lineFeed :: rest)) := by
    unfold recordText
    simp only [List.append_assoc, List.cons_append, List.nil_append]
  rw [lines, splitOn_line eventLine, splitOn_line dataLine, splitOn_line List.not_mem_nil]
  rfl

theorem parseLine_event (state : ParseState) :
    parseLine state (eventField ++ name) = { state with name := strip name } := by
  have isField : eventField.isPrefixOf? (eventField ++ name) = some name :=
    List.isPrefixOf?_eq_some_iff_append_eq.mpr rfl
  have notEmpty : eventField ++ name ≠ [] := List.cons_ne_nil _ _
  unfold parseLine
  rw [if_neg notEmpty, isField]

theorem parseLine_data (state : ParseState) :
    parseLine state (dataField ++ payload) =
      { state with dataLines := state.dataLines ++ [payload] } := by
  have isField : dataField.isPrefixOf? (dataField ++ payload) = some payload :=
    List.isPrefixOf?_eq_some_iff_append_eq.mpr rfl
  have noEvent : eventField.isPrefixOf? (dataField ++ payload) = none := rfl
  have notEmpty : dataField ++ payload ≠ [] := List.cons_ne_nil _ _
  unfold parseLine
  rw [if_neg notEmpty, noEvent, isField]

/-- The lines of a record give its name and its payload. -/
theorem foldl_record (isName : IsName name) (out : List (Text × Text)) :
    [eventField ++ name, dataField ++ payload, []].foldl parseLine { out } =
      { out := out ++ [(name, payload)] } := by
  rw [List.foldl_cons, List.foldl_cons, List.foldl_cons, List.foldl_nil, parseLine_event,
    parseLine_data, isName.stripped]
  unfold parseLine
  rw [if_pos rfl, if_neg isName.nonempty]
  show ({ out := out ++ [(name, [lineFeed].intercalate [payload])] } : ParseState) = _
  rw [List.intercalate_singleton]

/-- The lines of a stream of records give the names and the payloads in their order. -/
theorem foldl_records {records : List (Text × Text)}
    (named : ∀ record ∈ records, IsName record.1)
    (lines : ∀ record ∈ records, lineFeed ∉ record.2) (out : List (Text × Text)) :
    ((records.flatMap fun record => recordText record.1 record.2).splitOn lineFeed).foldl parseLine
      { out } = { out := out ++ records } := by
  induction records generalizing out with
  | nil =>
    rw [List.flatMap_nil, List.splitOn_nil, List.append_nil]
    rfl
  | cons record rest inductionHypothesis =>
    obtain ⟨isName, named⟩ := List.forall_mem_cons.mp named
    obtain ⟨isLine, lines⟩ := List.forall_mem_cons.mp lines
    rw [List.flatMap_cons, splitOn_recordText isName.oneLine isLine, List.foldl_append,
      foldl_record isName, inductionHypothesis named lines, List.append_assoc]
    rfl

end Records

/-! ### Streams of events -/

section Streams

variable (interpreter : Interpreter Finite)

/-- The name and the payload of an event. -/
def Event.record (event : Event Finite) : Text × Text :=
  (event.name, (Json.object event.data).dumps interpreter.format)

theorem lineFeed_not_mem_dumps (value : Json Finite) :
    lineFeed ∉ value.dumps interpreter.format := fun member =>
  absurd (printable_dumps interpreter.format value lineFeed member) (by decide)

/-- What the encoder writes is the text of the record. -/
theorem encode_of_encodeEvent {event : Event Finite} {raw : List UInt8}
    (encoded : encodeEvent interpreter event = some raw) :
    Utf8.encode (recordText (event.record interpreter).1 (event.record interpreter).2) =
      some raw := by
  obtain ⟨payload, written, encoded⟩ := Option.bind_eq_some_iff.mp encoded
  unfold dumps at written
  split at written
  · cases written
    exact encoded
  · cases written

/-- The bytes of a stream are decoded to the texts of its records. -/
theorem decode_stream {events : List (Event Finite)} {raws : List (List UInt8)}
    (encoded : events.mapM (encodeEvent interpreter) = some raws) :
    Utf8.decode raws.flatten = (events.map (Event.record interpreter)).flatMap fun record =>
      recordText record.1 record.2 := by
  induction events generalizing raws with
  | nil =>
    cases encoded
    exact Utf8.decode_nil
  | cons event rest inductionHypothesis =>
    rw [List.mapM_cons] at encoded
    obtain ⟨raw, isRaw, encoded⟩ := Option.bind_eq_some_iff.mp encoded
    obtain ⟨more, isMore, same⟩ := Option.bind_eq_some_iff.mp encoded
    cases same
    rw [List.flatten_cons, Utf8.decode_encode_append (encode_of_encodeEvent interpreter isRaw),
      inductionHypothesis isMore]
    rfl

/-- The reader gets back what was written. -/
theorem parseSse_encoded {events : List (Event Finite)} {raws : List (List UInt8)}
    (named : ∀ event ∈ events, IsName event.name)
    (encoded : events.mapM (encodeEvent interpreter) = some raws) :
    parseSse raws.flatten = events.map (Event.record interpreter) := by
  unfold parseSse
  rw [decode_stream interpreter encoded, foldl_records]
  · rfl
  · exact List.forall_mem_map.mpr named
  · exact List.forall_mem_map.mpr fun event _ => lineFeed_not_mem_dumps interpreter _

/-- No surrogate in the name, and data that `json.dumps` writes. -/
structure Event.Encodable (event : Event Finite) : Prop where
  name : ∀ char ∈ event.name, ¬ (isHigh char = true ∨ isLow char = true)
  depth : (Json.object event.data).depth ≤ interpreter.encoderDepth
  digits : longestInt (Json.object event.data) ≤ interpreter.maxStrDigits

theorem noSurrogate_of_printable {char : CodePoint} (printable : Printable char) :
    ¬ (isHigh char = true ∨ isLow char = true) := by
  have small : char.val ≤ 0x7e := printable.2
  rw [isHigh_iff, isLow_iff]
  omega

/-- The encoder raises for no other event. -/
theorem exists_encodeEvent {event : Event Finite} (encodable : event.Encodable interpreter) :
    ∃ raw, encodeEvent interpreter event = some raw := by
  have written : interpreter.dumps (.object event.data) =
      some ((Json.object event.data).dumps interpreter.format) :=
    if_pos ⟨encodable.depth, encodable.digits⟩
  have plain : ∀ char ∈ recordText event.name ((Json.object event.data).dumps interpreter.format),
      ¬ (isHigh char = true ∨ isLow char = true) := by
    have lineFeeds : ∀ char ∈ [lineFeed, lineFeed], ¬ (isHigh char = true ∨ isLow char = true) :=
      Utf8.noSurrogate_text "\n\n"
    have payload : ∀ char ∈ (Json.object event.data).dumps interpreter.format,
        ¬ (isHigh char = true ∨ isLow char = true) := fun char member =>
      noSurrogate_of_printable (printable_dumps interpreter.format _ char member)
    unfold recordText
    refine List.forall_mem_append.mpr ⟨List.forall_mem_append.mpr
      ⟨Utf8.noSurrogate_text _, encodable.name⟩, List.forall_mem_cons.mpr
      ⟨lineFeeds _ List.mem_cons_self, List.forall_mem_append.mpr ⟨?_, lineFeeds⟩⟩⟩
    exact List.forall_mem_append.mpr ⟨Utf8.noSurrogate_text _, payload⟩
  obtain ⟨raw, isRaw⟩ := Option.isSome_iff_exists.mp ((Utf8.encode_isSome_iff _).mpr plain)
  refine ⟨raw, ?_⟩
  unfold encodeEvent
  rw [written]
  exact isRaw

theorem exists_encoded {events : List (Event Finite)}
    (encodable : ∀ event ∈ events, event.Encodable interpreter) :
    ∃ raws, events.mapM (encodeEvent interpreter) = some raws := by
  induction events with
  | nil => exact ⟨[], rfl⟩
  | cons event rest inductionHypothesis =>
    obtain ⟨isEncodable, encodable⟩ := List.forall_mem_cons.mp encodable
    obtain ⟨raw, isRaw⟩ := exists_encodeEvent interpreter isEncodable
    obtain ⟨raws, areRaws⟩ := inductionHypothesis encodable
    refine ⟨raw :: raws, ?_⟩
    rw [List.mapM_cons, isRaw, areRaws]
    rfl

/-- A stream of events is read as their names and payloads, and a payload as the data, if the
reader follows its brackets and no text of it has two surrogates that make a character. -/
theorem stream_round_trip (events : List (Event Finite))
    (named : ∀ event ∈ events, IsName event.name)
    (encodable : ∀ event ∈ events, event.Encodable interpreter) :
    ∃ raws, events.mapM (encodeEvent interpreter) = some raws ∧
      parseSse raws.flatten = events.map (Event.record interpreter) ∧
      ∀ event ∈ events, (Json.object event.data).depth ≤ interpreter.scannerDepth →
        (Json.object event.data).Everywhere Plain →
        interpreter.loads (event.record interpreter).2 = .ok (.object event.data) := by
  obtain ⟨raws, encoded⟩ := exists_encoded interpreter encodable
  refine ⟨raws, encoded, parseSse_encoded interpreter named encoded, ?_⟩
  intro event member fits plain
  exact interpreter.loads_of_dumps
    (if_pos ⟨(encodable event member).depth, (encodable event member).digits⟩) fits plain

end Streams

/-! ### Events with a text -/

/-- `event_delta` -/
def eventDelta (value : Text) : Event FloatLiteral where
  name := text "delta"
  data := [(text "text", .str value)]

theorem isName_delta : IsName (text "delta") where
  nonempty := List.cons_ne_nil _ _
  oneLine := by decide
  stripped := by decide

theorem encodable_eventDelta (value : Text) :
    (eventDelta value).Encodable literalInterpreter where
  name := Utf8.noSurrogate_text "delta"
  depth := by
    show max 0 0 + 1 ≤ 500
    decide
  digits := by
    show max 0 0 ≤ 4300
    decide

/-- Two events, the text of one of which looks like the lines of a record. -/
def deltaStream : List (Event FloatLiteral) :=
  [eventDelta (text "tea\n\nevent: done\ndata: \x7b\x7d"), eventDelta []]

theorem deltaStream_round_trip :
    ∃ raws, deltaStream.mapM (encodeEvent literalInterpreter) = some raws ∧
      parseSse raws.flatten = deltaStream.map (Event.record literalInterpreter) ∧
      ∀ event ∈ deltaStream, (Json.object event.data).depth ≤ literalInterpreter.scannerDepth →
        (Json.object event.data).Everywhere Plain →
        literalInterpreter.loads (event.record literalInterpreter).2 =
          .ok (.object event.data) := by
  refine stream_round_trip literalInterpreter deltaStream ?_ ?_
  · exact List.forall_mem_cons.mpr ⟨isName_delta, List.forall_mem_singleton.mpr isName_delta⟩
  · exact List.forall_mem_cons.mpr ⟨encodable_eventDelta _,
      List.forall_mem_singleton.mpr (encodable_eventDelta _)⟩

/-- The surrogates of a character, and the character. -/
def halves : Text := [⟨0xd83e, by decide⟩, ⟨0xdd5b, by decide⟩]

def whole : Text := [⟨0x1f95b, by decide⟩]

theorem record_halves :
    (eventDelta halves).record literalInterpreter =
      (eventDelta whole).record literalInterpreter := rfl

theorem loads_halves :
    literalInterpreter.loads ((eventDelta halves).record literalInterpreter).2 =
      .ok (.object (eventDelta whole).data) := by
  have encodable := encodable_eventDelta whole
  rw [record_halves]
  refine literalInterpreter.loads_of_dumps (if_pos ⟨encodable.depth, encodable.digits⟩) ?_ ?_
  · show max 0 0 + 1 ≤ 1000
    decide
  · refine ⟨⟨List.nodup_singleton _, List.forall_mem_singleton.mpr (noSplitPair_text "text")⟩,
      List.isChain_singleton _, trivial⟩

/-- An event with one field. -/
def eventOf (value : Json FloatLiteral) : Event FloatLiteral where
  name := text "delta"
  data := [(text "value", value)]

theorem encodeEvent_deep {value : Json FloatLiteral}
    (deep : literalInterpreter.encoderDepth < value.depth + 1) :
    encodeEvent literalInterpreter (eventOf value) = none := by
  have refused : literalInterpreter.dumps (.object (eventOf value).data) = none := by
    refine if_neg fun within => ?_
    have shallow : max value.depth 0 + 1 ≤ literalInterpreter.encoderDepth := within.1
    omega
  unfold encodeEvent
  rw [refused]
  rfl

theorem encodeEvent_long {number : Nat} (long : 10 ^ literalInterpreter.maxStrDigits ≤ number) :
    encodeEvent literalInterpreter (eventOf (.int number)) = none := by
  have refused : literalInterpreter.dumps (.object (eventOf (.int number)).data) = none := by
    refine if_neg fun within => ?_
    have few : max (Whole.ofNat (number : Int).natAbs).length 0 ≤
        literalInterpreter.maxStrDigits := within.2
    have many := (Nat.lt_digits_length_iff (by decide) number).mpr long
    rw [Int.natAbs_natCast, length_ofNat] at few
    omega
  unfold encodeEvent
  rw [refused]
  rfl

/-- Two surrogates come back as one character; a name with a surrogate, an integer with very many
digits and data that is nested too deep are not written. -/
theorem some_events_do_not_come_back :
    (¬ ∃ raws, [eventDelta halves].mapM (encodeEvent literalInterpreter) = some raws ∧
      parseSse raws.flatten = [eventDelta halves].map (Event.record literalInterpreter) ∧
      ∀ event ∈ [eventDelta halves],
        literalInterpreter.loads (event.record literalInterpreter).2 =
          .ok (.object event.data)) ∧
      (IsName halves ∧ encodeEvent literalInterpreter { name := halves, data := [] } = none) ∧
      encodeEvent literalInterpreter (eventOf (nested 2000)) = none ∧
      ∃ number : Nat, encodeEvent literalInterpreter (eventOf (.int number)) = none := by
  refine ⟨?_, ⟨⟨List.cons_ne_nil _ _, by decide, by decide⟩, rfl⟩, encodeEvent_deep ?_, _,
    encodeEvent_long (Nat.le_refl _)⟩
  · rintro ⟨raws, _, _, loads⟩
    have same := loads_halves.symm.trans (loads _ (List.mem_singleton_self _))
    injection same with same
    injection same with same
    injection same with same
    injection same with _ same
    injection same with same
    exact absurd same (by decide)
  · rw [depth_nested]
    decide

end LiteHorse.Web.Sse
