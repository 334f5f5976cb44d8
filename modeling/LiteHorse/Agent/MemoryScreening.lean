/-
This file is about the screening of memory texts. The backend screens what a call is given, and
the repository screens the text that the entries make together.

No forbidden pattern accepts the delimiter's sign, and none starts or ends with a newline, so a
joined text is safe exactly if its entries are (`checkUntrusted_joinEntries_iff`).
`memory_screening` says what follows for the backend: the second screening refuses nothing that
the first let through, and documents that start out safe stay safe.
-/

import LiteHorse.Agent.MemoryCloud
import LiteHorse.Library.PatternJoin
import LiteHorse.Library.Runs

namespace LiteHorse.Agent

open Delimited Patterns Python Repositories Runs Security Storage

/-! ### The forbidden patterns and the delimiter -/

/-- A text of ASCII characters does not match at a character that is none of them. -/
theorem solid_literal {text : String} {symbol first : Char} {rest : List Char}
    (isText : text.toList = first :: rest)
    (other : text.toList.all (fun char => decide (foldCase symbol ≠ foldCase char)) = true) :
    (literal text).Solid symbol := by
  have solid : ∀ pattern ∈ text.toList.map fun char =>
      (Pattern.one fun other => foldCase other = foldCase char), pattern.Solid symbol := by
    intro pattern member
    obtain ⟨char, isChar, rfl⟩ := List.mem_map.mp member
    have differs := of_decide_eq_true (List.all_eq_true.mp other char isChar)
    exact Pattern.solid_one (decide_eq_false differs)
  unfold literal
  rw [isText] at solid ⊢
  rw [List.map_cons] at solid ⊢
  exact Pattern.solid_sequence List.head?_cons
    (List.getLast?_eq_some_getLast (List.cons_ne_nil _ _)) (solid _ List.mem_cons_self)
    (solid _ (List.getLast_mem _))

theorem injectionPatterns_avoid :
    ∀ pat ∈ injectionPatterns, pat.compiled.Avoids memoryFormat.separator := by
  decide +kernel

theorem injectionPatterns_solid :
    ∀ pat ∈ injectionPatterns, pat.compiled.Solid memoryFormat.padding := by
  unfold injectionPatterns
  rw [List.forall_mem_cons, List.forall_mem_cons, List.forall_mem_singleton]
  refine ⟨?_, ?_, ?_⟩
  · exact Pattern.solid_sequence rfl rfl (solid_literal rfl (by decide +kernel))
      (solid_literal rfl (by decide +kernel))
  · exact Pattern.solid_sequence rfl rfl (solid_literal rfl (by decide +kernel))
      (solid_literal rfl (by decide +kernel))
  · exact Pattern.solid_sequence rfl rfl (solid_literal rfl (by decide +kernel))
      (solid_literal rfl (by decide +kernel))

/-! ### Entries and documents -/

section Entries

variable {body entry : String} {entries : List String}

theorem checkUntrusted_of_mem_splitEntries (accepted : checkUntrusted body = .ok ())
    (member : entry ∈ splitEntries body) : checkUntrusted entry = .ok () :=
  checkUntrusted_of_inside accepted (inside_of_mem_splitEntries member)

theorem mem_joinEntries {char : Char} (member : char ∈ (joinEntries entries).toList) :
    char ∈ memoryFormat.delimiter ∨ ∃ entry ∈ entries, char ∈ entry.toList := by
  rw [toList_joinEntries] at member
  have ofJoin : ∀ parts : List (List Char), char ∈ memoryFormat.join parts →
      char ∈ memoryFormat.delimiter ∨ ∃ part ∈ parts, char ∈ part := by
    intro parts
    unfold Format.join
    induction parts with
    | nil => exact fun member => absurd member List.not_mem_nil
    | cons first rest inductionHypothesis =>
      cases rest with
      | nil =>
        rw [List.intercalate_singleton]
        exact fun member => Or.inr ⟨first, List.mem_cons_self, member⟩
      | cons second rest =>
        rw [List.intercalate_cons_cons, List.mem_append, List.mem_append]
        rintro ((inFirst | inDelimiter) | inRest)
        · exact Or.inr ⟨first, List.mem_cons_self, inFirst⟩
        · exact Or.inl inDelimiter
        · exact (inductionHypothesis inRest).imp_right fun ⟨part, isPart, inPart⟩ =>
            ⟨part, List.mem_cons_of_mem _ isPart, inPart⟩
  refine (ofJoin _ member).imp_right ?_
  rintro ⟨part, isPart, inPart⟩
  obtain ⟨entry, isEntry, rfl⟩ := List.mem_map.mp isPart
  exact ⟨entry, isEntry, inPart⟩

/-- A document is safe if and only if all its entries are. -/
theorem checkUntrusted_joinEntries_iff :
    checkUntrusted (joinEntries entries) = .ok () ↔
      ∀ entry ∈ entries, checkUntrusted entry = .ok () := by
  constructor
  · exact fun accepted entry member => checkUntrusted_of_inside accepted (inside_joinEntries member)
  · intro accepted
    refine checkUntrusted_ok_iff.mpr ⟨?_, fun pat isPattern found => ?_⟩
    · intro char member invisible
      rcases mem_joinEntries member with inDelimiter | ⟨entry, isEntry, inEntry⟩
      · have visible : memoryFormat.delimiter.all (fun char => !isInvisible char) = true := by
          decide
        have isVisible := List.all_eq_true.mp visible char inDelimiter
        rw [invisible] at isVisible
        cases isVisible
      · exact (checkUntrusted_ok_iff.mp (accepted entry isEntry)).1 char inEntry invisible
    · rw [toList_joinEntries, found_join_iff (injectionPatterns_avoid pat isPattern)
        (injectionPatterns_solid pat isPattern)] at found
      obtain ⟨part, isPart, found⟩ := found
      obtain ⟨entry, isEntry, rfl⟩ := List.mem_map.mp isPart
      exact (checkUntrusted_ok_iff.mp (accepted entry isEntry)).2 pat isPattern found

end Entries

/-! ### The calls -/

section Calls

variable {isPrintable : Char → Bool} {kind : MemoryKind} {call : MemoryCall} {body text : String}
  {changed : List String}

theorem checkEntry_ok_iff {content : String} :
    checkEntry content = .ok () ↔ strip content ≠ "" ∧ checkUntrusted content = .ok () := by
  unfold checkEntry
  split
  next isBlank =>
    refine ⟨fun accepted => ?_, fun both => absurd isBlank both.1⟩
    cases accepted
  next nonblank => rw [mapError_eq_ok_iff, and_iff_right nonblank]

/-- The entries a call leaves are safe if the document and what the call was given are. -/
theorem checkUntrusted_of_change (accepted : checkUntrusted body = .ok ())
    (checked : call.check = .ok ())
    (isChange : call.change isPrintable kind (splitEntries body) = .ok (some changed)) :
    ∀ entry ∈ changed, checkUntrusted entry = .ok () := by
  intro entry member
  cases call with
  | add content =>
    obtain ⟨rfl, _⟩ := addEntry_some isChange
    rcases List.mem_append.mp member with isOld | isNew
    · exact checkUntrusted_of_mem_splitEntries accepted isOld
    · rw [List.mem_singleton.mp isNew]
      exact (checkEntry_ok_iff.mp checked).2
  | replace old new =>
    obtain ⟨index, _, _, same, _⟩ := replaceEntry_ok isChange
    cases same
    rcases List.mem_or_eq_of_mem_set member with isOld | rfl
    · exact checkUntrusted_of_mem_splitEntries accepted isOld
    · exact (checkEntry_ok_iff.mp checked).2
  | remove old =>
    obtain ⟨index, _, _, same⟩ := removeEntry_ok isChange
    cases same
    exact checkUntrusted_of_mem_splitEntries accepted (List.mem_of_mem_eraseIdx member)

theorem checkUntrusted_textAfter (accepted : checkUntrusted body = .ok ())
    (writes : call.textAfter isPrintable kind body = .ok (some text)) :
    checkUntrusted text = .ok () := by
  obtain ⟨checked, changed, isChange, _, rfl⟩ := textAfter_some_iff.mp writes
  exact checkUntrusted_joinEntries_iff.mpr (checkUntrusted_of_change accepted checked isChange)

/-- The changes of the list refuse nothing as unsafe. -/
theorem change_ne_refusal {entries : List String} {message : String} :
    call.change isPrintable kind entries ≠ .error (.unsafeMemoryContent message) := by
  have noMatch : ∀ old,
      matchOf isPrintable old entries ≠ .error (.unsafeMemoryContent message) := by
    intro old
    unfold matchOf
    split
    · exact fun same => by cases same
    · exact fun same => by cases same
    · exact fun same => by cases same
  intro refused
  cases call with
  | add content =>
    change addEntry kind content entries = _ at refused
    rw [addEntry_eq] at refused
    split at refused
    next => cases refused
    next =>
      split at refused
      next => cases refused
      next => cases refused
  | replace old new =>
    change (matchOf isPrintable old entries >>= fun index => _) = _ at refused
    cases found : matchOf isPrintable old entries with
    | error error =>
      rw [found] at refused
      cases refused
      exact noMatch old found
    | ok index =>
      rw [found] at refused
      change (if _ > kindLimit kind then _ else _) = _ at refused
      split at refused
      next => cases refused
      next => cases refused
  | remove old =>
    change (matchOf isPrintable old entries >>= fun index => _) = _ at refused
    cases found : matchOf isPrintable old entries with
    | error error =>
      rw [found] at refused
      cases refused
      exact noMatch old found
    | ok index =>
      rw [found] at refused
      cases refused

/-- A safe text is never refused as unsafe. -/
theorem storable_ne_refusal {message : String} (accepted : checkUntrusted text = .ok ()) :
    storable kind text ≠ .error (.unsafeMemoryContent message) := by
  unfold storable checkContent
  rw [accepted]
  intro refused
  split at refused
  next => cases refused
  next =>
    have passed : (if text ≠ "" then (Except.ok () : Except String Unit).mapError
        MemoryRepoError.unsafeMemoryContent else .ok ()) = .ok () := ite_self _
    rw [passed] at refused
    change (textColumn text).mapError _ = _ at refused
    unfold textColumn at refused
    split at refused
    next => cases refused
    next => cases refused

/-- On a safe document a call is refused as unsafe by its own check or not at all. -/
theorem textAfter_unsafe {message : String} (accepted : checkUntrusted body = .ok ())
    (refused : call.textAfter isPrintable kind body = .error (.unsafeMemoryContent message)) :
    call.check = .error (.unsafeMemoryContent message) := by
  unfold MemoryCall.textAfter at refused
  cases checked : call.check with
  | error error =>
    rw [checked] at refused
    cases refused
    rfl
  | ok passed =>
    rw [checked] at refused
    change (call.change isPrintable kind (splitEntries body) >>= fun changed => _) = _ at refused
    cases isChange : call.change isPrintable kind (splitEntries body) with
    | error error =>
      rw [isChange] at refused
      cases refused
      exact absurd isChange change_ne_refusal
    | ok changed =>
      rw [isChange] at refused
      cases changed with
      | none => cases refused
      | some entries =>
        have safe := checkUntrusted_joinEntries_iff.mpr
          (checkUntrusted_of_change accepted checked isChange)
        change (storable kind (joinEntries entries) >>= fun _ => _) = _ at refused
        cases stored : storable kind (joinEntries entries) with
        | error error =>
          rw [stored] at refused
          cases refused
          exact absurd stored (storable_ne_refusal safe)
        | ok passed =>
          rw [stored] at refused
          cases refused

end Calls

/-! ### The documents of all users -/

/-- A call of somebody's backend. -/
structure BackendEvent where
  backend : MemoryCloudBackend
  owner : UUID
  kind : MemoryKind
  call : MemoryCall

/-- A call that raises leaves the rows as they are: its transaction is rolled back. -/
def memoryStep (isPrintable : Char → Bool) (documents : UserDocuments) (event : BackendEvent) :
    Option UserDocuments :=
  match event.backend.call isPrintable documents event.owner event.kind event.call with
  | .error _ => some documents
  | .ok next => some next

/-- Every document passes the check. -/
def Screened (documents : UserDocuments) : Prop :=
  ∀ userId kind, checkUntrusted (documentText documents userId kind) = .ok ()

section Documents

variable {isPrintable : Char → Bool} {documents next : UserDocuments} {userId owner : UUID}
  {kind : MemoryKind}

theorem documentText_written_user {other : UUID} (different : other ≠ userId)
    (after : Option String) (kindText : String) :
    documentText (written documents userId owner kind after) other kindText =
      documentText documents other kindText := by
  cases after with
  | none => rfl
  | some text =>
    have unchanged : written documents userId owner kind (some text) other = documents other :=
      Function.update_of_ne different ..
    unfold documentText
    rw [unchanged]

theorem documentText_written_kind {kindText : String} (different : kindText ≠ kindDoc kind)
    (after : Option String) :
    documentText (written documents userId owner kind after) userId kindText =
      documentText documents userId kindText := by
  cases after with
  | none => rfl
  | some text =>
    have unchanged : written documents userId owner kind (some text) userId kindText =
        documents userId kindText := writeRow_other different
    unfold documentText
    rw [unchanged]

/-- A call writes the text that it makes of its document, or nothing. -/
theorem memoryStep_cases {event : BackendEvent}
    (taken : memoryStep isPrintable documents event = some next) :
    next = documents ∨ ∃ text,
      event.call.textAfter isPrintable event.kind
        (documentText documents event.backend.userId (kindDoc event.kind)) = .ok (some text) ∧
      next = written documents event.backend.userId event.owner event.kind (some text) := by
  unfold memoryStep at taken
  rw [MemoryCloudBackend.call_eq] at taken
  cases result : event.call.textAfter isPrintable event.kind
      (documentText documents event.backend.userId (kindDoc event.kind)) with
  | error error =>
    rw [result] at taken
    exact Or.inl (Option.some.inj taken).symm
  | ok after =>
    rw [result] at taken
    cases after with
    | none => exact Or.inl (Option.some.inj taken).symm
    | some text => exact Or.inr ⟨text, rfl, (Option.some.inj taken).symm⟩

/-- The rows with a new text have it for its document, and for the others what they had. -/
theorem forall_documentText_written {text : String} (holds : UUID → String → String → Prop)
    (old : ∀ userId kind, holds userId kind (documentText documents userId kind))
    (new : holds userId (kindDoc kind) text) (other : UUID) (kindText : String) :
    holds other kindText
      (documentText (written documents userId owner kind (some text)) other kindText) := by
  by_cases sameUser : other = userId
  · rw [sameUser]
    by_cases sameKind : kindText = kindDoc kind
    · rw [sameKind, documentText_written]
      exact new
    · rw [documentText_written_kind sameKind]
      exact old userId kindText
  · rw [documentText_written_user sameUser]
    exact old other kindText

theorem Screened.memoryStep {event : BackendEvent} (screened : Screened documents)
    (taken : memoryStep isPrintable documents event = some next) : Screened next := by
  rcases memoryStep_cases taken with rfl | ⟨text, writes, rfl⟩
  · exact screened
  · exact forall_documentText_written (fun _ _ text => checkUntrusted text = .ok ())
      screened (checkUntrusted_textAfter (screened _ _) writes)

end Documents

/-- The screening of entries is the screening of documents. So the repository refuses no document
as unsafe that the backend makes of a safe one and of a content it has let through, and documents
that are only ever changed by the backend stay safe. -/
theorem memory_screening (isPrintable : Char → Bool) :
    (∀ body, checkUntrusted body = .ok () →
      ∀ entry ∈ splitEntries body, checkUntrusted entry = .ok ()) ∧
    (∀ entries, (∀ entry ∈ entries, checkUntrusted entry = .ok ()) →
      checkUntrusted (joinEntries entries) = .ok ()) ∧
    (∀ kind (call : MemoryCall) body changed, checkUntrusted body = .ok () → call.check = .ok () →
      call.change isPrintable kind (splitEntries body) = .ok (some changed) →
        checkUntrusted (joinEntries changed) = .ok ()) ∧
    (∀ (backend : MemoryCloudBackend) documents owner kind call message,
      checkUntrusted (documentText documents backend.userId (kindDoc kind)) = .ok () →
      backend.call isPrintable documents owner kind call = .error (.unsafeMemoryContent message) →
        call.check = .error (.unsafeMemoryContent message)) ∧
    ∀ documents events, (∀ userId kind, documentText documents userId kind = "") →
      Always (memoryStep isPrintable) Screened documents events := by
  refine ⟨fun body accepted entry member => checkUntrusted_of_mem_splitEntries accepted member,
    fun entries accepted => checkUntrusted_joinEntries_iff.mpr accepted, ?_, ?_, ?_⟩
  · intro kind call body changed accepted checked isChange
    exact checkUntrusted_joinEntries_iff.mpr (checkUntrusted_of_change accepted checked isChange)
  · intro backend documents owner kind call message accepted refused
    rw [MemoryCloudBackend.call_eq] at refused
    cases result : call.textAfter isPrintable kind
        (documentText documents backend.userId (kindDoc kind)) with
    | error error =>
      rw [result] at refused
      cases refused
      exact textAfter_unsafe accepted result
    | ok after =>
      rw [result] at refused
      cases refused
  · intro documents events empty
    refine always_invariant (memoryStep isPrintable)
      (fun documents event next screened taken => screened.memoryStep taken) ?_
    intro userId kind
    rw [empty userId kind]
    rfl

/-- Two entries that would make a forbidden text without the delimiter between them. -/
theorem apart_entries_screened :
    checkUntrusted (joinEntries ["system:", "you are"]) = .ok () ∧
      Always (memoryStep fun _ => true) Screened (fun _ _ => none)
        [{ backend := { userId := 7 }, owner := 1, kind := .memory, call := .add "system:" },
         { backend := { userId := 7 }, owner := 1, kind := .memory, call := .add "you are" }] := by
  refine ⟨(memory_screening fun _ => true).2.1 ["system:", "you are"] ?_,
    (memory_screening fun _ => true).2.2.2.2 (fun _ _ => none) _ fun _ _ => rfl⟩
  rw [List.forall_mem_cons, List.forall_mem_singleton]
  exact ⟨by decide +kernel, by decide +kernel⟩

end LiteHorse.Agent
