/-
This file is about the limits of the memory documents, of the command line's files and of the
cloud's. A content counts with its own length when it is written, and with its pieces when the
document is read: at a delimiter sign it is cut, and the cut counts like a delimiter.

`capacity_kept_iff` says when the limit holds after every call and a call that raises changes
nothing: as long as the pieces of every written content fit, and no string that cannot be encoded
gets as far as the writing of a file that has a text.
-/

import LiteHorse.Agent.MemoryScreening
import LiteHorse.Memory.DistinctEntries
import Mathlib.Algebra.GroupWithZero.Nat

namespace LiteHorse.Memory

open Agent Delimited Patterns Python Repositories Runs Security Storage

/-! ### Counting -/

section Count

variable {before after entries : List String} {first second text : String}

theorem foldl_length (total : Nat) :
    entries.foldl (fun total entry => total + entry.length) total =
      total + (entries.map String.length).sum := by
  induction entries generalizing total with
  | nil => rfl
  | cons head rest inductionHypothesis =>
    rw [List.foldl_cons, inductionHypothesis, List.map_cons, List.sum_cons, Nat.add_assoc]

theorem totalChars_eq : Agent.totalChars entries =
    (entries.map String.length).sum + (entries.length - 1) * 3 := by
  unfold Agent.totalChars
  rw [foldl_length, Nat.zero_add]
  rfl

theorem totalChars_around : Agent.totalChars (before ++ first :: after) =
    (before.map String.length).sum + first.length + (after.map String.length).sum +
      (before.length + after.length) * 3 := by
  rw [totalChars_eq, List.map_append, List.map_cons, List.sum_append, List.sum_cons,
    List.length_append, List.length_cons]
  omega

theorem totalChars_replace (shorter : first.length ≤ second.length) :
    Agent.totalChars (before ++ first :: after) ≤ Agent.totalChars (before ++ second :: after) := by
  rw [totalChars_around, totalChars_around]
  omega

theorem totalChars_remove :
    Agent.totalChars (before ++ after) ≤ Agent.totalChars (before ++ first :: after) := by
  rw [totalChars_around, totalChars_eq, List.map_append, List.sum_append, List.length_append]
  omega

theorem totalChars_eraseIdx (index : Nat) :
    Agent.totalChars (entries.eraseIdx index) ≤ Agent.totalChars entries := by
  by_cases inside : index < entries.length
  · have whole : entries.take index ++ entries[index] :: entries.drop (index + 1) = entries := by
      rw [← List.drop_eq_getElem_cons inside, List.take_append_drop]
    rw [List.eraseIdx_eq_take_drop_succ]
    conv_rhs => rw [← whole]
    exact totalChars_remove
  · rw [List.eraseIdx_of_length_le (not_lt.mp inside)]

theorem length_strip_le (text : String) : (strip text).length ≤ text.length := by
  rw [← String.length_toList, ← String.length_toList, toList_strip]
  exact trim_inside.length_le

theorem length_universalNewlines_le (text : List Char) :
    (universalNewlines text).length ≤ text.length := by
  fun_induction universalNewlines text with
  | case1 rest inductionHypothesis =>
    rw [List.length_cons, List.length_cons, List.length_cons]
    omega
  | case2 rest noNewline inductionHypothesis => exact Nat.succ_le_succ inductionHypothesis
  | case3 first rest noReturn notReturn inductionHypothesis =>
    exact Nat.succ_le_succ inductionHypothesis
  | case4 => exact le_rfl

theorem length_readText_le (text : String) : (readText text).length ≤ text.length := by
  unfold readText
  rw [String.length_ofList, ← String.length_toList]
  exact length_universalNewlines_le _

/-- A content without the delimiter sign is read back as no longer than it was. -/
theorem totalChars_pieces_le (nonblank : strip text ≠ "") (single : '§' ∉ text.toList) :
    Agent.totalChars (before ++ pieces text ++ after) ≤
      Agent.totalChars (before ++ text :: after) := by
  have onePiece : pieces text = [readText (strip text)] := by
    unfold pieces
    rw [splitEntries_single nonblank single]
    rfl
  rw [onePiece, List.append_assoc]
  exact totalChars_replace ((length_readText_le _).trans (length_strip_le text))

end Count

/-! ### The store of a file -/

/-- `total_chars() <= char_limit` -/
def WithinLimit (store : MemoryStore) : Prop := store.totalChars ≤ store.charLimit

/-- A call that raises leaves the file as it is. -/
def RaisesCleanly (isPrintable : Char → Bool) (store : MemoryStore) (call : StoreCall) : Prop :=
  ∀ raised, (store.call isPrintable call).1 = .error raised →
    (store.call isPrintable call).2.text = store.text

/-- The content a call writes fits as it is read back, which is a question for contents with the
delimiter sign alone; one that cannot be encoded meets an empty file. -/
def FitsReadBack (store : MemoryStore) (call : StoreCall) : Prop :=
  ∀ before content after, call.place store.entries = some { before, content, after } →
    Place.Passes store.charLimit { before, content, after } →
      match content.encode with
      | some text => '§' ∈ text.toList →
        Agent.totalChars (before ++ pieces text ++ after) ≤ store.charLimit
      | none => store.text = ""

section Store

variable {isPrintable : Char → Bool} {store : MemoryStore}

theorem withinLimit_iff :
    WithinLimit store ↔ Agent.totalChars store.entries ≤ store.charLimit := Iff.rfl

theorem withinLimit_save_iff (entries : List String) :
    WithinLimit (store.save entries) ↔
      Agent.totalChars (store.save entries).entries ≤ store.charLimit := Iff.rfl

/-- What the writing of a content leaves. -/
theorem withinLimit_written_iff {before after : List String} {content : Str}
    (old : ∀ entry ∈ before ++ after, entry ∈ store.entries)
    (passes : Place.Passes store.charLimit { before, content, after }) :
    (∀ raised, (store.saveStr (before.map Str.ofString ++
          content :: after.map Str.ofString)).1 = .error raised →
        (store.saveStr (before.map Str.ofString ++
          content :: after.map Str.ofString)).2.text = store.text) ∧
        WithinLimit (store.saveStr (before.map Str.ofString ++
          content :: after.map Str.ofString)).2 ↔
      match content.encode with
      | some text => '§' ∈ text.toList →
        Agent.totalChars (before ++ pieces text ++ after) ≤ store.charLimit
      | none => store.text = "" := by
  cases encoded : content.encode with
  | none =>
    rw [saveStr_surrogate encoded]
    have fits : WithinLimit { store with text := "" } := by
      rw [withinLimit_iff, entries_emptied]
      exact Nat.zero_le _
    rw [and_iff_left fits]
    exact ⟨fun clean => (clean _ rfl).symm, fun isEmpty raised _ => isEmpty.symm⟩
  | some text =>
    have isText := ofString_of_encode encoded
    rw [saveStr_encoded encoded]
    have succeeds : ∀ raised, (Except.ok () : Except CallError Unit) = .error raised →
        (store.save (before ++ text :: after)).text = store.text := by
      intro raised same
      cases same
    rw [and_iff_right succeeds, withinLimit_save_iff, entries_save_place text old]
    refine ⟨fun fits _ => fits, fun fits => ?_⟩
    by_cases hasSign : '§' ∈ text.toList
    · exact fits hasSign
    · have counted := passes.2
      rw [isText, shown_ofString] at counted
      exact (totalChars_pieces_le (nonblank_of_passes passes encoded) hasSign).trans counted

theorem withinLimit_step_iff (call : StoreCall) (within : WithinLimit store) :
    (RaisesCleanly isPrintable store call ∧
        ∀ next, store.step isPrintable call = some next → WithinLimit next) ↔
      FitsReadBack store call := by
  have onlyNext : (∀ next, store.step isPrintable call = some next → WithinLimit next) ↔
      WithinLimit (store.call isPrintable call).2 :=
    ⟨fun all => all _ rfl, fun holds next taken => Option.some.inj taken ▸ holds⟩
  rw [onlyNext]
  unfold RaisesCleanly
  cases store.outcome isPrintable call with
  | refused raised noPlace answer =>
    rw [answer]
    refine iff_of_true ⟨fun _ _ => rfl, within⟩ ?_
    exact fun before content after isPlace passes => absurd passes (noPlace _ isPlace)
  | repeated content isAdd isThere answer =>
    rw [answer]
    refine iff_of_true ⟨fun _ _ => rfl, within⟩ fun before other after isPlace => ?_
    rw [isAdd, place_add_repeated isThere] at isPlace
    cases isPlace
  | written before content after isPlace passes answer =>
    rw [answer, withinLimit_written_iff (mem_of_place isPlace) passes]
    constructor
    · intro fits before content after isOther _
      rw [isPlace] at isOther
      obtain ⟨rfl, rfl, rfl⟩ := Place.mk.inj (Option.some.inj isOther)
      exact fits
    · exact fun fits => fits before content after isPlace passes
  | removed substring index isRemove found answer =>
    have kept : (store.save (store.entries.eraseIdx index)).entries =
        store.entries.eraseIdx index :=
      entries_save_old fun entry member => List.mem_of_mem_eraseIdx member
    rw [answer]
    refine iff_of_true ⟨fun raised same => ?_, ?_⟩ fun before content after isPlace => ?_
    · cases same
    · rw [withinLimit_save_iff, kept]
      exact (totalChars_eraseIdx index).trans (withinLimit_iff.mp within)
    · rw [isRemove] at isPlace
      cases isPlace

end Store

/-! ### The documents of the cloud -/

/-- A call of somebody's cloud backend. -/
structure CloudEvent where
  backend : MemoryCloudBackend
  owner : UUID
  kind : MemoryKind
  call : StoreCall

/-- The call, if its strings have no surrogates. -/
def StoreCall.encoded : StoreCall → Option MemoryCall
  | .add content => content.encode.map .add
  | .replace oldSubstring newContent =>
    oldSubstring.encode.bind fun old => newContent.encode.map (.replace old)
  | .remove substring => substring.encode.map .remove

/-- A string with a surrogate is in no entry and cannot be sent to the database, so a call with one
raises. -/
def cloudAnswer (isPrintable : Char → Bool) (documents : UserDocuments) (event : CloudEvent) :
    Except MemoryError Unit × UserDocuments :=
  match event.call.encoded with
  | none => (.error (.repo .dbapiError), documents)
  | some call =>
    match event.backend.call isPrintable documents event.owner event.kind call with
    | .error raised => (.error raised, documents)
    | .ok next => (.ok (), next)

def cloudStep (isPrintable : Char → Bool) (documents : UserDocuments) (event : CloudEvent) :
    Option UserDocuments :=
  some (cloudAnswer isPrintable documents event).2

def CloudRaisesCleanly (isPrintable : Char → Bool) (documents : UserDocuments)
    (event : CloudEvent) : Prop :=
  ∀ raised, (cloudAnswer isPrintable documents event).1 = .error raised →
    (cloudAnswer isPrintable documents event).2 = documents

/-- Every document is within the limit of its kind. -/
def WithinLimits (documents : UserDocuments) : Prop :=
  ∀ userId kind, Agent.totalChars (splitEntries (documentText documents userId (kindDoc kind))) ≤
    kindLimit kind

/-- The content a call writes fits as it is read back, which is a question for contents with the
delimiter sign that the database takes. -/
def FitsDocument (documents : UserDocuments) (event : CloudEvent) : Prop :=
  ∀ before content after text,
    event.call.place (splitEntries (documentText documents event.backend.userId
      (kindDoc event.kind))) = some { before, content, after } →
    Place.Passes (kindLimit event.kind) { before, content, after } → content.encode = some text →
      '\x00' ∉ text.toList → '§' ∈ text.toList →
        Agent.totalChars (before ++ splitEntries text ++ after) ≤ kindLimit event.kind

section Cloud

variable {isPrintable : Char → Bool} {kind : MemoryKind} {body content text : String}
  {call : StoreCall} {before after : List String}

theorem passes_ofString_iff {limit : Nat} :
    Place.Passes limit { before, content := Str.ofString content, after } ↔
      checkEntry content = .ok () ∧
        Agent.totalChars (before ++ content :: after) ≤ limit := by
  show MemoryStore.validate (Str.ofString content).shown = .ok () ∧
    MemoryStore.charsOf (before ++ (Str.ofString content).shown :: after) ≤ limit ↔ _
  rw [shown_ofString, validate_ok_iff, checkEntry_ok_iff]
  rfl

/-- A call without surrogates in the cloud's terms. -/
theorem encoded_cases {cloudCall : MemoryCall} (encoded : call.encoded = some cloudCall) :
    (∃ content, call = .add (Str.ofString content) ∧ cloudCall = .add content) ∨
    (∃ old new, call = .replace (Str.ofString old) (Str.ofString new) ∧
      cloudCall = .replace old new) ∨
    ∃ substring, call = .remove (Str.ofString substring) ∧ cloudCall = .remove substring := by
  cases call with
  | add content =>
    obtain ⟨text, isText, rfl⟩ := Option.map_eq_some_iff.mp encoded
    exact Or.inl ⟨text, by rw [ofString_of_encode isText], rfl⟩
  | replace oldSubstring newContent =>
    obtain ⟨old, isOld, encoded⟩ := Option.bind_eq_some_iff.mp encoded
    obtain ⟨new, isNew, rfl⟩ := Option.map_eq_some_iff.mp encoded
    exact Or.inr (Or.inl ⟨old, new, by rw [ofString_of_encode isOld, ofString_of_encode isNew],
      rfl⟩)
  | remove substring =>
    obtain ⟨text, isText, rfl⟩ := Option.map_eq_some_iff.mp encoded
    exact Or.inr (Or.inr ⟨text, by rw [ofString_of_encode isText], rfl⟩)

/-- What is written over a text: a content that passes in its place, or the text less an entry. -/
theorem textAfter_written {cloudCall : MemoryCall} (encoded : call.encoded = some cloudCall)
    (writes : cloudCall.textAfter isPrintable kind body = .ok (some text)) :
    (∃ before content after,
      call.place (splitEntries body) = some { before, content := Str.ofString content, after } ∧
      Place.Passes (kindLimit kind) { before, content := Str.ofString content, after } ∧
      '\x00' ∉ content.toList ∧ text = joinEntries (before ++ content :: after)) ∨
    ∃ index, text = joinEntries ((splitEntries body).eraseIdx index) := by
  obtain ⟨checked, changed, isChange, stored, rfl⟩ := textAfter_some_iff.mp writes
  have noNul : ∀ entry ∈ changed, '\x00' ∉ entry.toList := fun entry member hasNul =>
    (storable_ok_iff.mp stored).2 ((inside_joinEntries member).subset hasNul)
  rcases encoded_cases encoded with
    ⟨content, rfl, rfl⟩ | ⟨old, new, rfl, rfl⟩ | ⟨substring, rfl, rfl⟩
  · left
    change addEntry kind content (splitEntries body) = _ at isChange
    have isNew : content ∉ splitEntries body := by
      intro isThere
      rw [addEntry_eq, if_pos isThere] at isChange
      cases isChange
    obtain ⟨rfl, counted⟩ := addEntry_some isChange
    refine ⟨splitEntries body, content, [], place_add_new ?_, passes_ofString_iff.mpr
      ⟨checked, counted⟩, noNul content (List.mem_append_right _ List.mem_cons_self), rfl⟩
    rw [List.mem_map_of_injective ofString_injective]
    exact isNew
  · left
    obtain ⟨index, found, inside, same, counted⟩ := replaceEntry_ok isChange
    cases same
    rw [List.set_eq_take_append_cons_drop, if_pos inside] at counted noNul ⊢
    refine ⟨(splitEntries body).take index, new, (splitEntries body).drop (index + 1),
      place_replace ?_, passes_ofString_iff.mpr ⟨checked, counted⟩,
      noNul new (List.mem_append_right _ List.mem_cons_self), rfl⟩
    rw [isIn_ofString]
    exact found
  · right
    obtain ⟨index, _, _, same⟩ := removeEntry_ok isChange
    cases same
    exact ⟨index, rfl⟩

theorem length_joinEntries (entries : List String) :
    (joinEntries entries).length = Agent.totalChars entries := by
  have ofJoin : ∀ parts : List (List Char), (memoryFormat.join parts).length =
      (parts.map List.length).sum + (parts.length - 1) * 3 := by
    intro parts
    induction parts with
    | nil => rfl
    | cons first rest inductionHypothesis =>
      cases rest with
      | nil =>
        rw [Format.join_singleton]
        exact (Nat.add_zero _).symm
      | cons second rest =>
        have lengths : ((first :: second :: rest).map List.length).sum =
            first.length + ((second :: rest).map List.length).sum := by
          rw [List.map_cons, List.sum_cons]
        have count : (first :: second :: rest).length = (second :: rest).length + 1 :=
          List.length_cons
        have positive : 0 < (second :: rest).length := Nat.succ_pos rest.length
        have joined : (memoryFormat.join (first :: second :: rest)).length =
            first.length + 3 + (memoryFormat.join (second :: rest)).length := by
          rw [Format.join_cons_cons, List.length_append, List.length_append, List.length_singleton,
            List.length_cons, List.length_cons]
          omega
        rw [joined, inductionHypothesis, lengths, count]
        omega
  rw [← String.length_toList, toList_joinEntries, ofJoin, List.map_map, List.length_map,
    totalChars_eq]
  exact congrArg (fun lengths => List.sum lengths + (entries.length - 1) * 3)
    (List.map_congr_left fun entry _ => String.length_toList)

/-- A call that has a place for its content is one without surrogates, if its content is. -/
theorem encoded_of_place {entries : List String}
    (isPlace : call.place entries = some { before, content := Str.ofString content, after }) :
    call = .add (Str.ofString content) ∧ before = entries ∧ after = [] ∧ content ∉ entries ∨
    ∃ old index, call = .replace (Str.ofString old) (Str.ofString content) ∧
      entries.findIdxs (isIn old) = [index] ∧ before = entries.take index ∧
      after = entries.drop (index + 1) := by
  rcases place_cases isPlace with
    ⟨rfl, isNew, rfl, rfl⟩ | ⟨oldSubstring, index, rfl, found, rfl, rfl⟩
  · rw [List.mem_map_of_injective ofString_injective] at isNew
    exact Or.inl ⟨rfl, rfl, rfl, isNew⟩
  · cases encoded : oldSubstring.encode with
    | none =>
      have nowhere : oldSubstring.isIn = fun _ => false := by
        funext value
        unfold Str.isIn
        rw [encoded]
      have member : index ∈ entries.findIdxs oldSubstring.isIn :=
        found ▸ List.mem_singleton_self index
      obtain ⟨_, isMatch⟩ := List.mem_findIdxs_iff_exists_getElem_pos.mp member
      rw [nowhere] at isMatch
      cases isMatch
    | some old =>
      have isOld := ofString_of_encode encoded
      rw [isOld, isIn_ofString] at found
      exact Or.inr ⟨old, index, by rw [isOld], found, rfl, rfl⟩

/-- A content that passes in its place is written, if the database takes it. -/
theorem textAfter_of_place
    (isPlace : call.place (splitEntries body) =
      some { before, content := Str.ofString content, after })
    (passes : Place.Passes (kindLimit kind) { before, content := Str.ofString content, after })
    (noNul : '\x00' ∉ content.toList) (safe : checkUntrusted body = .ok ())
    (bodyNoNul : '\x00' ∉ body.toList) :
    ∃ cloudCall, call.encoded = some cloudCall ∧
      cloudCall.textAfter isPrintable kind body =
        .ok (some (joinEntries (before ++ content :: after))) := by
  obtain ⟨checked, counted⟩ := passes_ofString_iff.mp passes
  have isOld := mem_of_place isPlace
  have stored : storable kind (joinEntries (before ++ content :: after)) = .ok () := by
    refine storable_ok_iff.mpr ⟨⟨?_, fun _ => ?_⟩, fun hasNul => ?_⟩
    · rw [length_joinEntries]
      exact counted.trans kindLimit_le_docLimit
    · have ofOld : ∀ entry ∈ before ++ after, checkUntrusted entry = .ok () :=
        fun entry member => checkUntrusted_of_mem_splitEntries safe (isOld entry member)
      refine checkUntrusted_joinEntries_iff.mpr fun entry member => ?_
      rcases List.mem_append.mp member with inBefore | inRest
      · exact ofOld entry (List.mem_append_left _ inBefore)
      · rcases List.mem_cons.mp inRest with rfl | inAfter
        · exact (checkEntry_ok_iff.mp checked).2
        · exact ofOld entry (List.mem_append_right _ inAfter)
    · have ofOld : ∀ entry ∈ before ++ after, '\x00' ∉ entry.toList := fun entry member hasNul =>
        bodyNoNul ((inside_of_mem_splitEntries (isOld entry member)).subset hasNul)
      rcases mem_joinEntries hasNul with inDelimiter | ⟨entry, isEntry, inEntry⟩
      · exact absurd inDelimiter (by decide)
      · rcases List.mem_append.mp isEntry with inBefore | inRest
        · exact ofOld entry (List.mem_append_left _ inBefore) inEntry
        · rcases List.mem_cons.mp inRest with rfl | inAfter
          · exact noNul inEntry
          · exact ofOld entry (List.mem_append_right _ inAfter) inEntry
  rcases encoded_of_place isPlace with ⟨rfl, rfl, rfl, isNew⟩ | ⟨old, index, rfl, found, rfl, rfl⟩
  · refine ⟨.add content, ?_, textAfter_some_iff.mpr ⟨checked, _, ?_, stored, rfl⟩⟩
    · unfold StoreCall.encoded
      dsimp only
      rw [encode_ofString]
      rfl
    · show addEntry kind content (splitEntries body) = _
      rw [addEntry_eq, if_neg isNew, if_neg (not_lt.mpr counted)]
  · refine ⟨.replace old content, ?_, textAfter_some_iff.mpr ⟨checked, _, ?_, stored, rfl⟩⟩
    · unfold StoreCall.encoded
      dsimp only
      rw [encode_ofString, encode_ofString]
      rfl
    · have inside : index < (splitEntries body).length := by
        have member : index ∈ (splitEntries body).findIdxs (isIn old) :=
          found ▸ List.mem_singleton_self index
        exact (List.mem_findIdxs_iff_exists_getElem_pos.mp member).1
      have replaced : (splitEntries body).set index content =
          (splitEntries body).take index ++ content :: (splitEntries body).drop (index + 1) :=
        List.set_eq_take_append_cons_drop.trans (if_pos inside)
      have isMatch : Agent.matchOf isPrintable old (splitEntries body) = .ok index := by
        unfold Agent.matchOf
        rw [found]
      show (Agent.matchOf isPrintable old (splitEntries body) >>= fun index => _) = _
      rw [isMatch, ok_bind]
      dsimp only
      rw [replaced, if_neg (not_lt.mpr counted)]
      rfl

/-- No document is unsafe or has a NUL. -/
structure Storable (documents : UserDocuments) : Prop where
  screened : Screened documents
  noNul : ∀ userId kind, '\x00' ∉ (documentText documents userId kind).toList

variable {documents next : UserDocuments} {event : CloudEvent}

theorem cloudStep_cases (taken : cloudStep isPrintable documents event = some next) :
    next = documents ∨ ∃ cloudCall text, event.call.encoded = some cloudCall ∧
      cloudCall.textAfter isPrintable event.kind
        (documentText documents event.backend.userId (kindDoc event.kind)) = .ok (some text) ∧
      next = written documents event.backend.userId event.owner event.kind (some text) := by
  unfold cloudStep cloudAnswer at taken
  cases encoded : event.call.encoded with
  | none =>
    rw [encoded] at taken
    exact Or.inl (Option.some.inj taken).symm
  | some cloudCall =>
    have asStep : memoryStep isPrintable documents { event with call := cloudCall } =
        some next := by
      rw [encoded] at taken
      unfold memoryStep
      dsimp only at taken ⊢
      rw [← taken]
      cases event.backend.call isPrintable documents event.owner event.kind cloudCall with
      | error raised => rfl
      | ok reached => rfl
    exact (memoryStep_cases asStep).imp_right fun ⟨text, writes, isNext⟩ =>
      ⟨cloudCall, text, rfl, writes, isNext⟩

theorem Storable.cloudStep (storable : Storable documents)
    (taken : cloudStep isPrintable documents event = some next) : Storable next := by
  rcases cloudStep_cases taken with rfl | ⟨cloudCall, text, _, writes, rfl⟩
  · exact storable
  · obtain ⟨_, changed, _, stored, rfl⟩ := textAfter_some_iff.mp writes
    exact ⟨forall_documentText_written (fun _ _ text => checkUntrusted text = .ok ())
        storable.screened (checkUntrusted_textAfter (storable.screened _ _) writes),
      forall_documentText_written (fun _ _ text => '\x00' ∉ text.toList) storable.noNul
        (storable_ok_iff.mp stored).2⟩

theorem splitEntries_joinEntries_old {entries : List String}
    (old : ∀ entry ∈ entries, entry ∈ splitEntries body) :
    splitEntries (joinEntries entries) = entries :=
  splitEntries_joinEntries_clean fun entry member => clean_of_mem_splitEntries (old entry member)

theorem splitEntries_place (old : ∀ entry ∈ before ++ after, entry ∈ splitEntries body) :
    splitEntries (joinEntries (before ++ content :: after)) =
      before ++ splitEntries content ++ after := by
  rw [List.forall_mem_append] at old
  have beforeSame := splitEntries_joinEntries_old old.1
  have afterSame := splitEntries_joinEntries_old old.2
  rw [splitEntries_joinEntries] at beforeSame afterSame
  rw [splitEntries_joinEntries, List.flatMap_append, List.flatMap_cons, beforeSame, afterSame,
    List.append_assoc]

theorem totalChars_splitEntries_le (nonblank : strip text ≠ "") (single : '§' ∉ text.toList) :
    Agent.totalChars (before ++ splitEntries text ++ after) ≤
      Agent.totalChars (before ++ text :: after) := by
  rw [splitEntries_single nonblank single, List.append_assoc]
  exact totalChars_replace (length_strip_le text)

theorem withinLimits_step (within : WithinLimits documents)
    (fits : FitsDocument documents event)
    (taken : cloudStep isPrintable documents event = some next) : WithinLimits next := by
  rcases cloudStep_cases taken with rfl | ⟨cloudCall, text, encoded, writes, rfl⟩
  · exact within
  · have newFits : Agent.totalChars (splitEntries text) ≤ kindLimit event.kind := by
      rcases textAfter_written encoded writes with
        ⟨before, content, after, isPlace, passes, noNul, rfl⟩ | ⟨index, rfl⟩
      · rw [splitEntries_place (mem_of_place isPlace)]
        by_cases hasSign : '§' ∈ content.toList
        · exact fits before _ after content isPlace passes (encode_ofString content) noNul hasSign
        · have accepted := passes_ofString_iff.mp passes
          exact (totalChars_splitEntries_le (checkEntry_ok_iff.mp accepted.1).1 hasSign).trans
            accepted.2
      · rw [splitEntries_joinEntries_old fun entry member => List.mem_of_mem_eraseIdx member]
        exact (totalChars_eraseIdx index).trans (within _ _)
    intro userId kind
    refine forall_documentText_written (fun _ kindText text => ∀ kind, kindText = kindDoc kind →
      Agent.totalChars (splitEntries text) ≤ kindLimit kind) ?_ ?_ userId (kindDoc kind) kind rfl
    · exact fun userId kindText kind isKind => isKind ▸ within userId kind
    · exact fun kind isKind => kindDoc_injective isKind ▸ newFits

/-- A content that does not fit as it is read back takes its document over the limit. -/
theorem not_withinLimits (storable : Storable documents)
    (unfit : ¬ FitsDocument documents event) :
    ∃ next, cloudStep isPrintable documents event = some next ∧ ¬ WithinLimits next := by
  unfold FitsDocument at unfit
  push Not at unfit
  obtain ⟨before, content, after, text, isPlace, passes, encoded, noNul, _, tooMany⟩ := unfit
  rw [ofString_of_encode encoded] at isPlace passes
  obtain ⟨cloudCall, isCall, writes⟩ := @textAfter_of_place isPrintable _ _ _ _ _ _ isPlace
    passes noNul (storable.screened _ _) (storable.noNul _ _)
  refine ⟨_, rfl, fun within => ?_⟩
  have reached := within event.backend.userId event.kind
  unfold cloudAnswer at reached
  rw [isCall] at reached
  dsimp only at reached
  rw [MemoryCloudBackend.call_eq, writes] at reached
  change Agent.totalChars (splitEntries (documentText
    (written documents event.backend.userId event.owner event.kind (some _)) _ _)) ≤ _ at reached
  rw [documentText_written, Option.getD_some, splitEntries_place (mem_of_place isPlace)] at reached
  exact absurd reached (Nat.not_le_of_lt tooMany)

theorem cloudRaisesCleanly (isPrintable : Char → Bool) (documents : UserDocuments)
    (event : CloudEvent) : CloudRaisesCleanly isPrintable documents event := by
  unfold CloudRaisesCleanly cloudAnswer
  intro raised
  cases event.call.encoded with
  | none => exact fun _ => rfl
  | some call =>
    dsimp only
    cases event.backend.call isPrintable documents event.owner event.kind call with
    | error other => exact fun _ => rfl
    | ok next => exact fun same => by cases same

end Cloud

/-- From an empty file, and from empty documents, the limit holds after every call and a call that
raises changes nothing, if and only if the content of every call fits as it is read back. -/
theorem capacity_kept_iff (isPrintable : Char → Bool) :
    (∀ (charLimit : Nat) (calls : List StoreCall),
      Always (MemoryStore.step isPrintable) WithinLimit (MemoryStore.empty charLimit) calls ∧
          StepsMeet (MemoryStore.step isPrintable) (RaisesCleanly isPrintable)
            (MemoryStore.empty charLimit) calls ↔
        StepsMeet (MemoryStore.step isPrintable) FitsReadBack (MemoryStore.empty charLimit)
          calls) ∧
    ∀ (documents : UserDocuments) (events : List CloudEvent),
      (∀ userId kind, documentText documents userId kind = "") →
        (Always (cloudStep isPrintable) WithinLimits documents events ∧
            StepsMeet (cloudStep isPrintable) (CloudRaisesCleanly isPrintable) documents events ↔
          StepsMeet (cloudStep isPrintable) FitsDocument documents events) := by
  constructor
  · intro charLimit calls
    refine always_and_stepsMeet_iff _ (fun _ call within => withinLimit_step_iff call within) ?_
    rw [withinLimit_iff, entries_empty]
    exact Nat.zero_le _
  · intro documents events empty
    rw [and_iff_left (stepsMeet_of_forall _ (cloudRaisesCleanly isPrintable) documents events)]
    have preserved : ∀ documents event next, WithinLimits documents ∧ Storable documents →
        FitsDocument documents event → cloudStep isPrintable documents event = some next →
          WithinLimits next ∧ Storable next :=
      fun documents event next both fits taken =>
        ⟨withinLimits_step both.1 fits taken, both.2.cloudStep taken⟩
    refine always_iff_of_invariant (cloudStep isPrintable) preserved (fun documents => And.left)
      (fun documents event both unfit => not_withinLimits both.2 unfit) ⟨?_, ?_, ?_⟩
    · intro userId kind
      rw [empty]
      exact Nat.zero_le _
    · intro userId kind
      rw [empty]
      rfl
    · intro userId kind
      rw [empty]
      exact List.not_mem_nil

/-- Three characters fit a limit of three, and are read as two entries with a delimiter between. -/
theorem sign_in_content_exceeds :
    ¬ ∀ isPrintable : Char → Bool,
      (∀ (charLimit : Nat) (calls : List StoreCall),
        Always (MemoryStore.step isPrintable) WithinLimit (MemoryStore.empty charLimit) calls ∧
          StepsMeet (MemoryStore.step isPrintable) (RaisesCleanly isPrintable)
            (MemoryStore.empty charLimit) calls) ∧
      ∀ (documents : UserDocuments) (events : List CloudEvent),
        (∀ userId kind, documentText documents userId kind = "") →
          Always (cloudStep isPrintable) WithinLimits documents events ∧
            StepsMeet (cloudStep isPrintable) (CloudRaisesCleanly isPrintable) documents
              events := by
  intro assumed
  have within := (((assumed fun _ => true).1 3 [.add (Str.ofString "a§b")]).1.2 _ rfl).head
  revert within
  unfold WithinLimit
  decide +kernel

end LiteHorse.Memory
