/-
This file models the route that compacts a session into memory.md: the consolidator makes entries
of the session's messages, and each of them goes under the document as a line with a bullet, if the
document with the line can be stored.

The memory tool reads the entries between delimiters, and the route writes none. So
`storesSeparately_iff` says that what it stores are entries of their own only if it stores one, and
that one not under another entry.
-/

import LiteHorse.Agent.MemoryScreening
import LiteHorse.Memory.DistinctEntries

namespace LiteHorse.Web.SessionCompact

open Agent Delimited Memory Python Repositories Runs Storage

/-! ### The route -/

structure SessionCompactOut where
  entriesAdded : Nat
  skipped : Nat

inductive CompactError where
  /-- The key is no session's, or that of several. -/
  | notFound
  | conflict (message : String)
  | repo (error : MemoryRepoError)

/-- `not body or body.endswith("\n")` -/
def endsInLine (body : String) : Bool := body = "" || body.toList.getLast? = some '\n'

/-- `(body + sep + f"- {entry}\n").strip() + "\n"` -/
def candidateOf (body entry : String) : String :=
  let sep := if endsInLine body then "" else "\n"
  strip (body ++ sep ++ ("- " ++ entry ++ "\n")) ++ "\n"

/-- The variables of the loop, and the rows as its transaction sees them. -/
structure LoopState where
  documents : UserDocuments
  body : String
  added : Nat
  skipped : Nat

section Route

variable (isPrintable : Char → Bool) (userId owner : UUID)

/-- `put` of the document with the entry. An entry with a surrogate fails as it is sent to the
database. -/
def putCandidate (state : LoopState) (entry : Str) : Except MemoryRepoError UserDocuments := do
  let next ← MemoryRepo.put isPrintable state.documents (dbSession (some userId)) owner "memory.md"
    (candidateOf state.body entry.shown)
  if entry.encode.isNone then throw .dbapiError
  return next

/-- The body of the loop. -/
def compactEntry (state : LoopState) (entry : Str) : Except MemoryRepoError LoopState :=
  match putCandidate isPrintable userId owner state entry with
  | .ok next =>
    .ok { state with documents := next, body := candidateOf state.body entry.shown,
                     added := state.added + 1 }
  | .error (.memoryFull _ _ _) | .error (.unsafeMemoryContent _) | .error (.valueError _) =>
    .ok { state with skipped := state.skipped + 1 }
  | .error raised => .error raised

/-- `compact_session`. The messages are those of the session with the key, and the consolidator
gives `none` if it raises. -/
def compactSession (documents : UserDocuments) (messages : Except CompactError (List Json))
    (consolidator : List Json → Option (List Str)) :
    Except CompactError (UserDocuments × SessionCompactOut) := do
  let messages ← messages
  if messages.isEmpty then return (documents, { entriesAdded := 0, skipped := 0 })
  match consolidator messages with
  | none => return (documents, { entriesAdded := 0, skipped := 1 })
  | some entries =>
    if entries.isEmpty then return (documents, { entriesAdded := 0, skipped := 0 })
    let current ← (MemoryRepo.get isPrintable documents (dbSession (some userId))
      "memory.md").mapError .repo
    let final ← (entries.foldlM (compactEntry isPrintable userId owner)
      { documents, body := current, added := 0, skipped := 0 }).mapError .repo
    return (final.documents, { entriesAdded := final.added, skipped := final.skipped })

end Route

/-- The entries that get to the loop. -/
def consolidated (messages : List Json) (consolidator : List Json → Option (List Str)) :
    List Str :=
  if messages.isEmpty then [] else (consolidator messages).getD []

/-! ### The document with a line more -/

section Candidate

variable {body entry : String}

/-- What the candidate adds to the body. -/
def additionOf (body entry : String) : List Char :=
  (if endsInLine body then "" else "\n").toList ++
    '-' :: (' ' :: entry.toList ++ ['\n'])

theorem splitEntries_candidateOf :
    (splitEntries (candidateOf body entry)).map String.toList =
      memoryFormat.entries (body.toList ++ additionOf body entry) := by
  have whole : (body ++ (if endsInLine body then "" else "\n") ++
      ("- " ++ entry ++ "\n")).toList = body.toList ++ additionOf body entry := by
    rw [String.toList_append, String.toList_append, String.toList_append, String.toList_append,
      List.append_assoc]
    rfl
  unfold candidateOf
  dsimp only
  rw [splitEntries_newline, splitEntries_strip, toList_splitEntries, whole]

theorem separator_not_mem_additionOf (single : '§' ∉ entry.toList) :
    memoryFormat.separator ∉ additionOf body entry := by
  have noSign : '§' ∉ (if endsInLine body then "" else "\n").toList := by
    split
    · exact List.not_mem_nil
    · decide
  show '§' ∉ _
  unfold additionOf
  rw [List.mem_append, List.mem_cons, List.mem_append, List.mem_cons, List.mem_singleton]
  rintro (inSep | inBullet | (inBlank | inEntry) | inNewline)
  · exact noSign inSep
  · exact absurd inBullet (by decide)
  · exact absurd inBlank (by decide)
  · exact single inEntry
  · exact absurd inNewline (by decide)

theorem bullet_solid : ¬ memoryFormat.blank '-' = true := by decide

theorem trim_additionOf :
    trim memoryFormat.blank (additionOf body entry) = (strip ("- " ++ entry)).toList := by
  have allBlank : ∀ char ∈ (if endsInLine body then "" else "\n").toList,
      memoryFormat.blank char = true := by
    split
    · exact fun char member => absurd member List.not_mem_nil
    · exact List.forall_mem_singleton.mpr rfl
  have added : '-' :: (' ' :: entry.toList ++ ['\n']) = ("- " ++ entry).toList ++ ['\n'] := by
    rw [String.toList_append]
    rfl
  unfold additionOf
  rw [trim_append_of_blank allBlank, added, trim_concat_blank rfl, toList_strip]
  rfl

/-- After the route has stored a line the document ends in an entry. -/
theorem not_endsBlank_candidateOf (single : '§' ∉ entry.toList) :
    ¬ memoryFormat.EndsBlank (candidateOf body entry).toList := by
  have whole : (candidateOf body entry).toList =
      trim memoryFormat.blank (body.toList ++ additionOf body entry) ++ ['\n'] := by
    unfold candidateOf additionOf
    dsimp only
    rw [String.toList_append, toList_strip, String.toList_append, String.toList_append,
      String.toList_append, String.toList_append, List.append_assoc]
    rfl
  have noSign := @separator_not_mem_additionOf body entry single
  unfold additionOf at noSign whole
  rw [List.mem_append, not_or] at noSign
  obtain ⟨start, trimmed⟩ := trim_append_solid
    (body.toList ++ (if endsInLine body then "" else "\n").toList)
    (' ' :: entry.toList ++ ['\n']) bullet_solid
  rw [whole, ← List.append_assoc, trimmed, List.append_assoc, List.cons_append]
  refine Format.not_endsBlank bullet_solid fun member => noSign.2 ?_
  rcases List.mem_cons.mp member with isBullet | member
  · exact isBullet ▸ List.mem_cons_self
  · refine List.mem_cons_of_mem _ ?_
    rcases List.mem_append.mp member with inText | inNewline
    · exact (List.rdropWhile_prefix _ _).subset inText
    · exact absurd (List.mem_singleton.mp inNewline) (by decide)

theorem isIn_bullet (entry : String) : isIn (strip entry) (strip ("- " ++ entry)) = true := by
  refine decide_eq_true ?_
  rw [toList_strip, toList_strip, String.toList_append]
  exact trim_inside_append _ _

/-- Under blanks the line is an entry of its own. -/
theorem splitEntries_candidateOf_blank (single : '§' ∉ entry.toList)
    (endsBlank : memoryFormat.EndsBlank body.toList) :
    splitEntries (candidateOf body entry) = splitEntries body ++ [strip ("- " ++ entry)] := by
  have solid : trim memoryFormat.blank (additionOf body entry) ≠ [] := by
    intro isEmpty
    have bullet : '-' ∈ additionOf body entry :=
      List.mem_append_right _ List.mem_cons_self
    exact bullet_solid (trim_eq_nil_iff.mp isEmpty '-' bullet)
  refine List.map_injective_iff.mpr (fun _ _ => String.toList_injective) ?_
  rw [splitEntries_candidateOf, Format.entries_append_of_blank endsBlank
    (separator_not_mem_additionOf single) solid, List.map_append, toList_splitEntries,
    trim_additionOf, List.map_singleton]

/-- Under an entry the line becomes a part of it. -/
theorem length_splitEntries_candidateOf (single : '§' ∉ entry.toList)
    (notBlank : ¬ memoryFormat.EndsBlank body.toList) :
    (splitEntries (candidateOf body entry)).length = (splitEntries body).length := by
  have lengths : ∀ text, (splitEntries text).length =
      ((splitEntries text).map String.toList).length := fun text => (List.length_map ..).symm
  rw [lengths, lengths, splitEntries_candidateOf, toList_splitEntries,
    Format.length_entries_append notBlank (separator_not_mem_additionOf single)]

end Candidate

/-! ### The loop -/

/-- The document with the entry can be stored. -/
def Takes (body : String) (entry : Str) : Prop :=
  ∃ text, entry.encode = some text ∧ (candidateOf body text).length ≤ memoryMdCharLimit ∧
    Security.checkUntrusted (candidateOf body text) = .ok () ∧
    '\x00' ∉ (candidateOf body text).toList

section Loop

variable {isPrintable : Char → Bool} {userId owner : UUID} {state next final : LoopState}
  {entry : Str} {entries : List Str}

theorem put_memory (isPrintable : Char → Bool) (documents : UserDocuments) (userId owner : UUID)
    (content : String) :
    MemoryRepo.put isPrintable documents (dbSession (some userId)) owner "memory.md" content =
      (checkContent "memory.md" content memoryMdCharLimit >>= fun _ => textColumn content).map
        fun _ => written documents userId owner .memory (some content) := by
  rw [MemoryRepo.put_user]
  have limit : limitOf isPrintable "memory.md" = .ok memoryMdCharLimit := rfl
  rw [limit, ok_bind, mapValue_bind]
  cases checkContent "memory.md" content memoryMdCharLimit with
  | error raised => rfl
  | ok passed =>
    rw [ok_bind, ok_bind]
    cases textColumn content with
    | error raised => rfl
    | ok stored => rfl

theorem candidateOf_ne_empty (body text : String) : candidateOf body text ≠ "" := by
  intro isEmpty
  have chars := congrArg String.toList isEmpty
  unfold candidateOf at chars
  dsimp only at chars
  rw [String.toList_append] at chars
  exact List.cons_ne_nil _ _ (List.append_eq_nil_iff.mp chars).2

theorem checkContent_candidate (body text : String) :
    checkContent "memory.md" (candidateOf body text) memoryMdCharLimit = .ok () ↔
      (candidateOf body text).length ≤ memoryMdCharLimit ∧
        Security.checkUntrusted (candidateOf body text) = .ok () := by
  unfold checkContent
  split
  next tooLong =>
    refine iff_of_false (fun same => ?_) fun both => absurd both.1 (not_le.mpr tooLong)
    cases same
  next short =>
    rw [if_pos (candidateOf_ne_empty _ _), mapError_eq_ok_iff, and_iff_right (not_lt.mp short)]

/-- The put takes the candidate, or raises. -/
theorem putCandidate_cases (isPrintable : Char → Bool) (userId owner : UUID) (state : LoopState)
    (entry : Str) :
    (∃ text, entry.encode = some text ∧ Takes state.body entry ∧
      putCandidate isPrintable userId owner state entry =
        .ok (written state.documents userId owner .memory (some (candidateOf state.body text)))) ∨
    (¬ Takes state.body entry ∧
      ∃ raised, putCandidate isPrintable userId owner state entry = .error raised) := by
  unfold putCandidate
  rw [put_memory]
  have ofTakes : Takes state.body entry →
      checkContent "memory.md" (candidateOf state.body entry.shown) memoryMdCharLimit = .ok () ∧
        '\x00' ∉ (candidateOf state.body entry.shown).toList := by
    rintro ⟨text, encoded, short, safe, noNul⟩
    rw [ofString_of_encode encoded, shown_ofString]
    exact ⟨(checkContent_candidate _ _).mpr ⟨short, safe⟩, noNul⟩
  cases checked : checkContent "memory.md" (candidateOf state.body entry.shown)
      memoryMdCharLimit with
  | error raised =>
    rw [checked] at ofTakes
    refine Or.inr ⟨fun taken => ?_, raised, rfl⟩
    cases (ofTakes taken).1
  | ok passed =>
    rw [ok_bind]
    by_cases hasNul : '\x00' ∈ (candidateOf state.body entry.shown).toList
    · have fails : textColumn (candidateOf state.body entry.shown) = .error .dbapiError :=
        if_pos hasNul
      rw [fails]
      exact Or.inr ⟨fun taken => (ofTakes taken).2 hasNul, .dbapiError, rfl⟩
    · have stored : textColumn (candidateOf state.body entry.shown) = .ok () := if_neg hasNul
      rw [stored]
      cases encoded : entry.encode with
      | none =>
        refine Or.inr ⟨fun taken => ?_, .dbapiError, rfl⟩
        obtain ⟨text, isText, _⟩ := taken
        rw [encoded] at isText
        cases isText
      | some text =>
        have isText := ofString_of_encode encoded
        rw [isText, shown_ofString] at checked hasNul ⊢
        obtain ⟨short, safe⟩ := (checkContent_candidate _ _).mp checked
        exact Or.inl ⟨text, rfl, ⟨text, encode_ofString text, short, safe, hasNul⟩, rfl⟩

/-- What is refused as too long or unsafe is skipped. -/
theorem compactEntry_cases
    (ran : compactEntry isPrintable userId owner state entry = .ok next) :
    (∃ text, entry.encode = some text ∧ Takes state.body entry ∧
      documentText next.documents userId "memory.md" = next.body ∧
      next.body = candidateOf state.body text ∧ next.added = state.added + 1) ∨
    (¬ Takes state.body entry ∧ next.documents = state.documents ∧ next.body = state.body ∧
      next.added = state.added) := by
  unfold compactEntry at ran
  rcases putCandidate_cases isPrintable userId owner state entry with
    ⟨text, encoded, taken, isPut⟩ | ⟨refused, raised, isPut⟩
  · rw [isPut, ofString_of_encode encoded, shown_ofString] at ran
    rw [← Except.ok.inj ran]
    exact Or.inl ⟨text, encoded, taken, documentText_written (some _), rfl, rfl⟩
  · rw [isPut] at ran
    cases raised with
    | memoryFull kind attempted limit =>
      rw [← Except.ok.inj ran]
      exact Or.inr ⟨refused, rfl, rfl, rfl⟩
    | unsafeMemoryContent message =>
      rw [← Except.ok.inj ran]
      exact Or.inr ⟨refused, rfl, rfl, rfl⟩
    | valueError message =>
      rw [← Except.ok.inj ran]
      exact Or.inr ⟨refused, rfl, rfl, rfl⟩
    | runtimeError message => cases ran
    | dbapiError => cases ran

theorem foldlM_cons_ok (ran : (entry :: entries).foldlM (compactEntry isPrintable userId owner)
    state = .ok final) :
    ∃ next, compactEntry isPrintable userId owner state entry = .ok next ∧
      entries.foldlM (compactEntry isPrintable userId owner) next = .ok final := by
  rw [List.foldlM_cons] at ran
  exact bind_eq_ok_iff.mp ran

theorem no_sign_of_encode {text : String} (noSign : StrChar.char '§' ∉ entry)
    (encoded : entry.encode = some text) : '§' ∉ text.toList := by
  intro hasSign
  rw [ofString_of_encode encoded] at noSign
  exact noSign (List.mem_map_of_mem hasSign)

/-- An entry without the sign is skipped, or the body then ends in it. -/
theorem foldlM_cons_cases (noSign : StrChar.char '§' ∉ entry)
    (ran : (entry :: entries).foldlM (compactEntry isPrintable userId owner) state = .ok final) :
    ∃ next, entries.foldlM (compactEntry isPrintable userId owner) next = .ok final ∧
      ((∃ text, entry.encode = some text ∧ Takes state.body entry ∧ '§' ∉ text.toList ∧
          ¬ memoryFormat.EndsBlank next.body.toList ∧ next.body = candidateOf state.body text ∧
          next.added = state.added + 1) ∨
        (¬ Takes state.body entry ∧ next.body = state.body ∧ next.added = state.added)) := by
  obtain ⟨next, first, ran⟩ := foldlM_cons_ok ran
  refine ⟨next, ran, ?_⟩
  rcases compactEntry_cases first with
    ⟨text, encoded, taken, _, isBody, more⟩ | ⟨refused, _, isBody, same⟩
  · have single := no_sign_of_encode noSign encoded
    have nextNotBlank := @not_endsBlank_candidateOf state.body text single
    rw [← isBody] at nextNotBlank
    exact Or.inl ⟨text, encoded, taken, single, nextNotBlank, isBody, more⟩
  · exact Or.inr ⟨refused, isBody, same⟩

/-- Under a document that ends in an entry the loop adds no entry, and counts all that is taken. -/
theorem foldlM_under_entry (noSign : ∀ entry ∈ entries, StrChar.char '§' ∉ entry)
    (notBlank : ¬ memoryFormat.EndsBlank state.body.toList)
    (ran : entries.foldlM (compactEntry isPrintable userId owner) state = .ok final) :
    (splitEntries final.body).length = (splitEntries state.body).length ∧
      state.added ≤ final.added ∧
      (final.added = state.added → final.body = state.body) ∧
      (final.added = state.added ↔ ∀ entry ∈ entries, ¬ Takes state.body entry) := by
  induction entries generalizing state with
  | nil =>
    cases ran
    exact ⟨rfl, le_rfl, fun _ => rfl,
      iff_of_true rfl fun _ member => absurd member List.not_mem_nil⟩
  | cons entry rest inductionHypothesis =>
    rw [List.forall_mem_cons] at noSign
    obtain ⟨next, ran, ⟨text, encoded, taken, single, nextNotBlank, isBody, more⟩ |
      ⟨refused, isBody, same⟩⟩ := foldlM_cons_cases noSign.1 ran
    · obtain ⟨sameLength, grows, _, _⟩ := inductionHypothesis noSign.2 nextNotBlank ran
      rw [isBody, length_splitEntries_candidateOf single notBlank] at sameLength
      refine ⟨sameLength, by omega, by omega, iff_of_false (by omega) fun none => ?_⟩
      exact none entry List.mem_cons_self taken
    · rw [← isBody] at notBlank
      obtain ⟨sameLength, grows, sameBody, counts⟩ := inductionHypothesis noSign.2 notBlank ran
      rw [isBody] at sameLength sameBody counts
      rw [same] at grows sameBody counts
      refine ⟨sameLength, grows, sameBody, counts.trans ?_⟩
      rw [List.forall_mem_cons, and_iff_right refused]

end Loop

/-! ### What is stored -/

/-- The memory tool sees the entries from before and then, for each entry that the answer counts,
one entry that has its text. -/
def StoresSeparately (userId : UUID) (documents next : UserDocuments) (entries : List Str)
    (out : SessionCompactOut) : Prop :=
  ∃ counted stored, (counted.map Str.ofString).Sublist entries ∧
    counted.length = out.entriesAdded ∧
    List.Forall₂ (fun text entry => isIn (strip text) entry = true) counted stored ∧
    splitEntries (documentText next userId "memory.md") =
      splitEntries (documentText documents userId "memory.md") ++ stored

/-- The first entry that can be stored comes under blanks, and under it none can be. -/
def StoresOneAlone (body : String) (entries : List Str) : Prop :=
  ∀ front entry rest text, entries = front ++ entry :: rest →
    (∀ earlier ∈ front, ¬ Takes body earlier) → entry.encode = some text → Takes body entry →
      memoryFormat.EndsBlank body.toList ∧
        ∀ later ∈ rest, ¬ Takes (candidateOf body text) later

section Stores

variable {isPrintable : Char → Bool} {userId owner : UUID} {state final : LoopState}
  {entry : Str} {entries : List Str} {body : String}

theorem storesOneAlone_cons_refused (refused : ¬ Takes body entry) :
    StoresOneAlone body (entry :: entries) ↔ StoresOneAlone body entries := by
  constructor
  · intro alone front other rest text same none encoded taken
    refine alone (entry :: front) other rest text (congrArg (entry :: ·) same) ?_ encoded taken
    exact List.forall_mem_cons.mpr ⟨refused, none⟩
  · intro alone front other rest text same none encoded taken
    cases front with
    | nil =>
      obtain ⟨rfl, rfl⟩ := List.cons.inj same
      exact absurd taken refused
    | cons first front =>
      obtain ⟨rfl, sameRest⟩ := List.cons.inj same
      exact alone front other rest text sameRest (List.forall_mem_cons.mp none).2 encoded taken

theorem storesOneAlone_cons_taken {text : String} (encoded : entry.encode = some text)
    (taken : Takes body entry) :
    StoresOneAlone body (entry :: entries) ↔
      memoryFormat.EndsBlank body.toList ∧
        ∀ later ∈ entries, ¬ Takes (candidateOf body text) later := by
  constructor
  · intro alone
    exact alone [] entry entries text rfl (fun _ member => absurd member List.not_mem_nil) encoded
      taken
  · intro both front other rest otherText same none otherEncoded _
    cases front with
    | nil =>
      obtain ⟨rfl, rfl⟩ := List.cons.inj same
      rw [encoded] at otherEncoded
      exact Option.some.inj otherEncoded ▸ both
    | cons first front =>
      obtain ⟨rfl, _⟩ := List.cons.inj same
      exact absurd taken (List.forall_mem_cons.mp none).1

/-- The body is the document's text all along. -/
theorem foldlM_text (isText : documentText state.documents userId "memory.md" = state.body)
    (ran : entries.foldlM (compactEntry isPrintable userId owner) state = .ok final) :
    documentText final.documents userId "memory.md" = final.body := by
  induction entries generalizing state with
  | nil =>
    cases ran
    exact isText
  | cons entry rest inductionHypothesis =>
    obtain ⟨next, first, ran⟩ := foldlM_cons_ok ran
    rcases compactEntry_cases first with
      ⟨text, encoded, taken, nextText, isBody, more⟩ | ⟨refused, sameRows, isBody, same⟩
    · exact inductionHypothesis nextText ran
    · rw [← sameRows, ← isBody] at isText
      exact inductionHypothesis isText ran

/-- The tool sees as many new entries as are counted only if one is stored alone. -/
theorem storesOneAlone_of_count (noSign : ∀ entry ∈ entries, StrChar.char '§' ∉ entry)
    (ran : entries.foldlM (compactEntry isPrintable userId owner) state = .ok final)
    (count : (splitEntries final.body).length + state.added =
      (splitEntries state.body).length + final.added) : StoresOneAlone state.body entries := by
  induction entries generalizing state with
  | nil =>
    intro front entry rest text same
    exact absurd same.symm (List.append_ne_nil_of_right_ne_nil front (List.cons_ne_nil entry rest))
  | cons entry rest inductionHypothesis =>
    rw [List.forall_mem_cons] at noSign
    obtain ⟨next, ran, ⟨text, encoded, taken, single, nextNotBlank, isBody, more⟩ |
      ⟨refused, isBody, same⟩⟩ := foldlM_cons_cases noSign.1 ran
    · obtain ⟨sameLength, grows, _, counts⟩ := foldlM_under_entry noSign.2 nextNotBlank ran
      rw [storesOneAlone_cons_taken encoded taken, ← isBody, ← counts]
      rw [sameLength, isBody] at count
      by_cases endsBlank : memoryFormat.EndsBlank state.body.toList
      · rw [splitEntries_candidateOf_blank single endsBlank, List.length_append,
          List.length_singleton] at count
        exact ⟨endsBlank, by omega⟩
      · rw [length_splitEntries_candidateOf single endsBlank] at count
        omega
    · rw [← isBody, ← same] at count
      rw [storesOneAlone_cons_refused refused, ← isBody]
      exact inductionHypothesis noSign.2 ran count

theorem storesSeparately_of_alone (noSign : ∀ entry ∈ entries, StrChar.char '§' ∉ entry)
    (ran : entries.foldlM (compactEntry isPrintable userId owner) state = .ok final)
    (alone : StoresOneAlone state.body entries) :
    ∃ counted stored, (counted.map Str.ofString).Sublist entries ∧
      counted.length + state.added = final.added ∧
      List.Forall₂ (fun text entry => isIn (strip text) entry = true) counted stored ∧
      splitEntries final.body = splitEntries state.body ++ stored := by
  induction entries generalizing state with
  | nil =>
    cases ran
    exact ⟨[], [], List.Sublist.slnil, Nat.zero_add _, .nil, (List.append_nil _).symm⟩
  | cons entry rest inductionHypothesis =>
    rw [List.forall_mem_cons] at noSign
    obtain ⟨next, ran, ⟨text, encoded, taken, single, nextNotBlank, isBody, more⟩ |
      ⟨refused, isBody, same⟩⟩ := foldlM_cons_cases noSign.1 ran
    · obtain ⟨_, _, sameBody, counts⟩ := foldlM_under_entry noSign.2 nextNotBlank ran
      rw [storesOneAlone_cons_taken encoded taken, ← isBody, ← counts] at alone
      obtain ⟨endsBlank, noMore⟩ := alone
      refine ⟨[text], [strip ("- " ++ text)], ?_, ?_, .cons (isIn_bullet text) .nil, ?_⟩
      · rw [ofString_of_encode encoded]
        exact List.Sublist.cons_cons _ (List.nil_sublist rest)
      · rw [noMore, more]
        exact Nat.add_comm ..
      · rw [sameBody noMore, isBody, splitEntries_candidateOf_blank single endsBlank]
    · rw [storesOneAlone_cons_refused refused, ← isBody] at alone
      obtain ⟨counted, stored, isPart, count, matched, after⟩ :=
        inductionHypothesis noSign.2 ran alone
      rw [same] at count
      rw [isBody] at after
      exact ⟨counted, stored, isPart.cons _, count, matched, after⟩

end Stores

/-- A request that gets no entry to the loop changes nothing. -/
theorem stores_nothing (userId : UUID) (documents : UserDocuments) (body : String)
    (skipped : Nat) :
    StoresSeparately userId documents documents [] { entriesAdded := 0, skipped } ↔
      StoresOneAlone body [] := by
  refine iff_of_true ⟨[], [], List.Sublist.slnil, rfl, .nil, (List.append_nil _).symm⟩ ?_
  intro front entry rest text same
  exact absurd same.symm (List.append_ne_nil_of_right_ne_nil front (List.cons_ne_nil entry rest))

/-- Of an answered request: what is stored are entries of their own if and only if one entry is
stored alone, or none. -/
theorem storesSeparately_iff (isPrintable : Char → Bool) (userId owner : UUID)
    (documents next : UserDocuments) (messages : List Json)
    (consolidator : List Json → Option (List Str)) (out : SessionCompactOut)
    (noSign : ∀ entry ∈ consolidated messages consolidator, StrChar.char '§' ∉ entry)
    (answered : compactSession isPrintable userId owner documents (.ok messages) consolidator =
      .ok (next, out)) :
    StoresSeparately userId documents next (consolidated messages consolidator) out ↔
      StoresOneAlone (documentText documents userId "memory.md")
        (consolidated messages consolidator) := by
  unfold compactSession at answered
  unfold consolidated at noSign ⊢
  rw [ok_bind] at answered
  by_cases noMessages : messages.isEmpty = true
  · rw [if_pos noMessages] at answered ⊢
    cases answered
    exact stores_nothing ..
  · rw [if_neg noMessages] at answered noSign ⊢
    cases isRun : consolidator messages with
    | none =>
      rw [isRun] at answered
      cases answered
      exact stores_nothing ..
    | some entries =>
      rw [isRun, Option.getD_some] at noSign
      rw [isRun] at answered
      rw [Option.getD_some]
      dsimp only at answered
      by_cases noEntries : entries.isEmpty = true
      · rw [if_pos noEntries] at answered
        rw [List.isEmpty_iff.mp noEntries]
        cases answered
        exact stores_nothing ..
      · rw [if_neg noEntries] at answered
        obtain ⟨current, isCurrent, answered⟩ := bind_eq_ok_iff.mp answered
        obtain ⟨final, ran, answered⟩ := bind_eq_ok_iff.mp answered
        rw [mapError_eq_ok_iff] at isCurrent ran
        have isBody : documentText documents userId "memory.md" = current :=
          Except.ok.inj ((get_kindDoc isPrintable documents userId .memory).symm.trans isCurrent)
        have isText := foldlM_text isBody ran
        cases answered
        unfold StoresSeparately
        dsimp only
        rw [isBody, isText]
        have ofCount := storesOneAlone_of_count noSign ran
        have ofAlone := storesSeparately_of_alone noSign ran
        dsimp only at ofCount ofAlone
        constructor
        · rintro ⟨counted, stored, _, isCount, matched, after⟩
          have sameCount := matched.length_eq
          have lengths := congrArg List.length after
          rw [List.length_append] at lengths
          exact ofCount (by omega)
        · intro alone
          obtain ⟨counted, stored, isPart, count, matched, after⟩ := ofAlone alone
          exact ⟨counted, stored, isPart, count, matched, after⟩

/-- On an empty document one entry is stored alone. -/
theorem firstEntry_storesSeparately :
    StoresSeparately 7 (fun _ _ => none)
      (written (fun _ _ => none) 7 1 .memory (some "- likes tea\n"))
      (consolidated [.null] fun _ => some [Str.ofString "likes tea"])
      { entriesAdded := 1, skipped := 0 } := by
  refine (storesSeparately_iff (fun _ => true) 7 1 (fun _ _ => none) _ [.null]
    (fun _ => some [Str.ofString "likes tea"]) _ (by decide +kernel) rfl).mpr ?_
  intro front entry rest text same _ _ _
  cases front with
  | nil =>
    obtain ⟨_, rfl⟩ := List.cons.inj same
    refine ⟨fun piece isLast => ?_, fun later member => absurd member List.not_mem_nil⟩
    cases isLast
    rfl
  | cons first front =>
    exact absurd (List.cons.inj same).2.symm
      (List.append_ne_nil_of_right_ne_nil front (List.cons_ne_nil entry rest))

/-- The memory tool has written an entry, and the route puts its line into that entry. -/
theorem line_under_entry_joins_it :
    ¬ ∀ (isPrintable : Char → Bool) (userId owner : UUID) (events : List BackendEvent)
        (documents next : UserDocuments) (messages : List Json)
        (consolidator : List Json → Option (List Str)) (out : SessionCompactOut),
      exec (Agent.memoryStep isPrintable) (fun _ _ => none) events = some documents →
      (∀ entry ∈ consolidated messages consolidator, entry ≠ [] ∧ StrChar.char '§' ∉ entry) →
      compactSession isPrintable userId owner documents (.ok messages) consolidator =
        .ok (next, out) →
      StoresSeparately userId documents next (consolidated messages consolidator) out := by
  intro assumed
  obtain ⟨counted, stored, _, isCount, matched, after⟩ := assumed (fun _ => true) 7 1
    [{ backend := { userId := 7 }, owner := 1, kind := .memory, call := .add "tea" }]
    (written (fun _ _ => none) 7 1 .memory (some "tea"))
    (written (written (fun _ _ => none) 7 1 .memory (some "tea")) 7 1 .memory
      (some "tea\n- likes milk\n")) [.null] (fun _ => some [Str.ofString "likes milk"])
    { entriesAdded := 1, skipped := 0 } rfl (by decide +kernel) rfl
  have one : (splitEntries "tea\n- likes milk\n").length =
      (splitEntries "tea").length + stored.length := by
    rw [← List.length_append]
    exact congrArg List.length after
  have sameCount := matched.length_eq
  have before : (splitEntries "tea").length = 1 := by decide +kernel
  have joined : (splitEntries "tea\n- likes milk\n").length = 1 := by decide +kernel
  rw [before, joined] at one
  dsimp only at isCount
  omega

end LiteHorse.Web.SessionCompact
