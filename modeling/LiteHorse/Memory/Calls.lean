/-
This file models the calls of the memory store with any Python string for an argument. No file
can be written with a lone surrogate, and the writing empties the file before it fails.

`MemoryStore.outcome` says all that a call can do. It is refused, it repeats an entry, it writes a
content into a place among the entries, or it removes an entry. What is read back after a write
are the pieces of the content, in its place (`entries_save_place`).
-/

import LiteHorse.Agent.MemoryConcurrency
import LiteHorse.Memory.Store
import LiteHorse.Strings

namespace LiteHorse.Memory

open Agent Delimited Python Security

/-! ### The calls -/

inductive StoreCall where
  | add (content : Str)
  | replace (oldSubstring newContent : Str)
  | remove (substring : Str)

inductive CallError where
  | store (error : StoreError)
  /-- A `ValueError` of the encoder. -/
  | unicodeEncodeError

namespace MemoryStore

variable (isPrintable : Char → Bool) (store : MemoryStore)

/-- The entries `add` saves; `none` if the content is there already. -/
def planAdd (content : Str) : Except StoreError (Option (List Str)) := do
  validate content.shown
  let existing := store.entries
  if content ∈ existing.map Str.ofString then return none
  let newTotal := store.totalChars + content.length +
    (if existing.isEmpty then 0 else entryDelimiter.length)
  if newTotal > store.charLimit then
    throw (.memoryFull store.totalChars store.charLimit content.length)
  return some (existing.map Str.ofString ++ [content])

def matchOfStr (substring : Str) (entries : List String) : Except StoreError Nat :=
  match entries.findIdxs substring.isIn with
  | [] => .error (.valueError ("no entry matches substring: " ++ substring.repr isPrintable))
  | [index] => .ok index
  | found =>
    .error (.valueError ("substring " ++ substring.repr isPrintable ++ " matches " ++
      toString found.length ++ " entries; be more specific"))

/-- The entries `replace` saves. -/
def planReplace (oldSubstring newContent : Str) : Except StoreError (Option (List Str)) := do
  validate newContent.shown
  let index ← matchOfStr isPrintable oldSubstring store.entries
  let total := charsOf (store.entries.set index newContent.shown)
  if total > store.charLimit then
    throw (.memoryFull total store.charLimit newContent.length)
  return some ((store.entries.map Str.ofString).set index newContent)

/-- The entries `remove` saves. -/
def planRemove (substring : Str) : Except StoreError (Option (List Str)) := do
  let index ← matchOfStr isPrintable substring store.entries
  return some ((store.entries.map Str.ofString).eraseIdx index)

def plan : StoreCall → Except StoreError (Option (List Str))
  | .add content => store.planAdd content
  | .replace oldSubstring newContent => store.planReplace isPrintable oldSubstring newContent
  | .remove substring => store.planRemove isPrintable substring

/-- `_save`, which opens the file for writing before it encodes the text. -/
def saveStr (entries : List Str) : Except CallError Unit × MemoryStore :=
  match entries.mapM Str.encode with
  | some entries => (.ok (), store.save entries)
  | none => (.error .unicodeEncodeError, { store with text := "" })

/-- A call's answer, and the store after it. -/
def call (call : StoreCall) : Except CallError Unit × MemoryStore :=
  match store.plan isPrintable call with
  | .error raised => (.error (.store raised), store)
  | .ok none => (.ok (), store)
  | .ok (some entries) => store.saveStr entries

end MemoryStore

/-! ### What a call can do -/

/-- Where a call puts its content among the entries. -/
structure Place where
  before : List String
  content : Str
  after : List String

/-- The place of the call's content, if there is one to put there. -/
def StoreCall.place (entries : List String) : StoreCall → Option Place
  | .add content =>
    if content ∈ entries.map Str.ofString then none
    else some { before := entries, content, after := [] }
  | .replace oldSubstring newContent =>
    match entries.findIdxs oldSubstring.isIn with
    | [index] =>
      some { before := entries.take index, content := newContent,
             after := entries.drop (index + 1) }
    | _ => none
  | .remove _ => none

/-- The content passes the checks, and its own length the limit. -/
def Place.Passes (limit : Nat) : Place → Prop
  | { before, content, after } =>
    MemoryStore.validate content.shown = .ok () ∧
      MemoryStore.charsOf (before ++ content.shown :: after) ≤ limit

inductive Outcome (isPrintable : Char → Bool) (store : MemoryStore) (call : StoreCall) : Prop where
  | refused (raised : StoreError)
      (noPlace : ∀ place, call.place store.entries = some place → ¬ place.Passes store.charLimit)
      (answer : store.call isPrintable call = (.error (.store raised), store))
  | repeated (content : Str) (isAdd : call = .add content)
      (isThere : content ∈ store.entries.map Str.ofString)
      (answer : store.call isPrintable call = (.ok (), store))
  | written (before : List String) (content : Str) (after : List String)
      (isPlace : call.place store.entries = some { before, content, after })
      (passes : Place.Passes store.charLimit { before, content, after })
      (answer : store.call isPrintable call =
        store.saveStr (before.map Str.ofString ++ content :: after.map Str.ofString))
  | removed (substring : Str) (index : Nat) (isRemove : call = .remove substring)
      (found : store.entries.findIdxs substring.isIn = [index])
      (answer : store.call isPrintable call = (.ok (), store.save (store.entries.eraseIdx index)))

section Calls

variable {isPrintable : Char → Bool} {store : MemoryStore}

theorem call_of_error {call : StoreCall} {raised : StoreError}
    (isPlan : store.plan isPrintable call = .error raised) :
    store.call isPrintable call = (.error (.store raised), store) := by
  unfold MemoryStore.call
  rw [isPlan]

theorem call_of_none {call : StoreCall} (isPlan : store.plan isPrintable call = .ok none) :
    store.call isPrintable call = (.ok (), store) := by
  unfold MemoryStore.call
  rw [isPlan]

theorem call_of_some {call : StoreCall} {entries : List Str}
    (isPlan : store.plan isPrintable call = .ok (some entries)) :
    store.call isPrintable call = store.saveStr entries := by
  unfold MemoryStore.call
  rw [isPlan]

theorem planAdd_eq (content : Str) :
    store.planAdd content = MemoryStore.validate content.shown >>= fun _ =>
      if content ∈ store.entries.map Str.ofString then .ok none
      else if MemoryStore.charsOf (store.entries ++ [content.shown]) > store.charLimit then
        .error (.memoryFull store.totalChars store.charLimit content.length)
      else .ok (some (store.entries.map Str.ofString ++ [content])) := by
  have total : MemoryStore.charsOf (store.entries ++ [content.shown]) = store.totalChars +
      content.length + (if store.entries.isEmpty then 0 else entryDelimiter.length) := by
    rw [← length_shown]
    show Agent.totalChars _ = Agent.totalChars _ + _ + _
    exact totalChars_concat
  unfold MemoryStore.planAdd
  refine congrArg _ (funext fun _ => ?_)
  rw [total]
  by_cases isThere : content ∈ store.entries.map Str.ofString
  · rw [if_pos isThere, if_pos isThere]
    rfl
  · rw [if_neg isThere, if_neg isThere]
    rfl

theorem planReplace_eq (old new : Str) :
    store.planReplace isPrintable old new = MemoryStore.validate new.shown >>= fun _ =>
      MemoryStore.matchOfStr isPrintable old store.entries >>= fun index =>
        if MemoryStore.charsOf (store.entries.set index new.shown) > store.charLimit then
          .error (.memoryFull (MemoryStore.charsOf (store.entries.set index new.shown))
            store.charLimit new.length)
        else .ok (some ((store.entries.map Str.ofString).set index new)) := rfl

theorem place_add_repeated {content : Str} {entries : List String}
    (isThere : content ∈ entries.map Str.ofString) :
    (StoreCall.add content).place entries = none := if_pos isThere

theorem place_add_new {content : Str} {entries : List String}
    (isNew : content ∉ entries.map Str.ofString) :
    (StoreCall.add content).place entries = some { before := entries, content, after := [] } :=
  if_neg isNew

/-- The content that a call puts among the entries is the one it was given. -/
theorem place_replace_content {old new : Str} {entries : List String} {place : Place}
    (isPlace : (StoreCall.replace old new).place entries = some place) :
    ∃ index, entries.findIdxs old.isIn = [index] ∧
      place = { before := entries.take index, content := new,
                after := entries.drop (index + 1) } := by
  unfold StoreCall.place at isPlace
  dsimp only at isPlace
  split at isPlace
  next index found => exact ⟨index, found, (Option.some.inj isPlace).symm⟩
  next => cases isPlace

/-- A content has a place at the end, where it is new, or at the one entry that is replaced. -/
theorem place_cases {call : StoreCall} {before after entries : List String} {content : Str}
    (isPlace : call.place entries = some { before, content, after }) :
    (call = .add content ∧ content ∉ entries.map Str.ofString ∧ before = entries ∧ after = []) ∨
      ∃ old index, call = .replace old content ∧ entries.findIdxs old.isIn = [index] ∧
        before = entries.take index ∧ after = entries.drop (index + 1) := by
  cases call with
  | add given =>
    by_cases isThere : given ∈ entries.map Str.ofString
    · rw [place_add_repeated isThere] at isPlace
      cases isPlace
    · rw [place_add_new isThere] at isPlace
      cases isPlace
      exact Or.inl ⟨rfl, isThere, rfl, rfl⟩
  | replace old given =>
    obtain ⟨index, found, same⟩ := place_replace_content isPlace
    cases same
    exact Or.inr ⟨old, index, rfl, found, rfl, rfl⟩
  | remove substring => cases isPlace

theorem not_passes_of_error {limit : Nat} {place : Place} {raised : StoreError}
    (checked : MemoryStore.validate place.content.shown = .error raised) :
    ¬ place.Passes limit := by
  intro passes
  have accepted := passes.1
  rw [checked] at accepted
  cases accepted

theorem outcome_add (content : Str) : Outcome isPrintable store (.add content) := by
  have isPlan : store.plan isPrintable (.add content) = store.planAdd content := rfl
  rw [planAdd_eq] at isPlan
  cases checked : MemoryStore.validate content.shown with
  | error raised =>
    rw [checked] at isPlan
    refine .refused raised (fun place isPlace => ?_) (call_of_error isPlan)
    by_cases isThere : content ∈ store.entries.map Str.ofString
    · rw [place_add_repeated isThere] at isPlace
      cases isPlace
    · rw [place_add_new isThere] at isPlace
      rw [← Option.some.inj isPlace]
      exact not_passes_of_error checked
  | ok passed =>
    rw [checked] at isPlan
    rw [ok_bind] at isPlan
    by_cases isThere : content ∈ store.entries.map Str.ofString
    · rw [if_pos isThere] at isPlan
      exact .repeated content rfl isThere (call_of_none isPlan)
    · have isPlace := place_add_new isThere
      rw [if_neg isThere] at isPlan
      by_cases tooLong : MemoryStore.charsOf (store.entries ++ [content.shown]) > store.charLimit
      · rw [if_pos tooLong] at isPlan
        refine .refused _ (fun place isThis passes => ?_) (call_of_error isPlan)
        rw [isPlace] at isThis
        have counted := (Option.some.inj isThis ▸ passes).2
        exact absurd counted (Nat.not_le_of_lt tooLong)
      · have counted := Nat.le_of_not_lt tooLong
        rw [if_neg tooLong] at isPlan
        have answer := call_of_some isPlan
        exact .written _ _ _ isPlace ⟨checked, counted⟩ answer

/-- The one match of a substring, or an error. -/
theorem matchOfStr_cases (substring : Str) (entries : List String) :
    (∃ raised, MemoryStore.matchOfStr isPrintable substring entries = .error raised ∧
      ∀ index, entries.findIdxs substring.isIn ≠ [index]) ∨
    ∃ index, MemoryStore.matchOfStr isPrintable substring entries = .ok index ∧
      entries.findIdxs substring.isIn = [index] ∧ index < entries.length := by
  unfold MemoryStore.matchOfStr
  split
  next none =>
    refine Or.inl ⟨_, rfl, fun index same => ?_⟩
    rw [none] at same
    cases same
  next index found =>
    refine Or.inr ⟨index, rfl, found, ?_⟩
    have member : index ∈ entries.findIdxs substring.isIn := by
      rw [found]
      exact List.mem_singleton_self index
    exact (List.mem_findIdxs_iff_exists_getElem_pos.mp member).1
  next many =>
    refine Or.inl ⟨_, rfl, fun index same => ?_⟩
    exact many index same

theorem place_replace {old new : Str} {entries : List String} {index : Nat}
    (found : entries.findIdxs old.isIn = [index]) :
    (StoreCall.replace old new).place entries =
      some { before := entries.take index, content := new, after := entries.drop (index + 1) } := by
  unfold StoreCall.place
  dsimp only
  rw [found]

theorem outcome_replace (old new : Str) : Outcome isPrintable store (.replace old new) := by
  have isPlan : store.plan isPrintable (.replace old new) =
    store.planReplace isPrintable old new := rfl
  rw [planReplace_eq] at isPlan
  cases checked : MemoryStore.validate new.shown with
  | error raised =>
    rw [checked] at isPlan
    refine .refused raised (fun place isPlace => ?_) (call_of_error isPlan)
    obtain ⟨index, _, rfl⟩ := place_replace_content isPlace
    exact not_passes_of_error checked
  | ok passed =>
    rw [checked] at isPlan
    rw [ok_bind] at isPlan
    rcases @matchOfStr_cases isPrintable old store.entries with
      ⟨raised, isError, notOne⟩ | ⟨index, isOk, found, inside⟩
    · rw [isError] at isPlan
      refine .refused raised (fun place isPlace => ?_) (call_of_error isPlan)
      obtain ⟨index, found, _⟩ := place_replace_content isPlace
      exact absurd found (notOne index)
    · rw [isOk, ok_bind] at isPlan
      have isPlace : (StoreCall.replace old new).place store.entries = some
          { before := store.entries.take index, content := new,
            after := store.entries.drop (index + 1) } := place_replace found
      have replaced : store.entries.set index new.shown =
          store.entries.take index ++ new.shown :: store.entries.drop (index + 1) :=
        List.set_eq_take_append_cons_drop.trans (if_pos inside)
      by_cases tooLong : MemoryStore.charsOf (store.entries.set index new.shown) > store.charLimit
      · rw [if_pos tooLong] at isPlan
        refine .refused _ (fun place isThis passes => ?_) (call_of_error isPlan)
        rw [isPlace] at isThis
        have counted := (Option.some.inj isThis ▸ passes).2
        rw [← replaced] at counted
        exact absurd counted (Nat.not_le_of_lt tooLong)
      · rw [if_neg tooLong, List.set_eq_take_append_cons_drop, List.length_map, if_pos inside,
          ← List.map_take, ← List.map_drop] at isPlan
        have counted := Nat.le_of_not_lt tooLong
        rw [replaced] at counted
        have answer := call_of_some isPlan
        exact .written _ _ _ isPlace ⟨checked, counted⟩ answer

theorem outcome_remove (substring : Str) : Outcome isPrintable store (.remove substring) := by
  have isPlan : store.plan isPrintable (.remove substring) =
    MemoryStore.matchOfStr isPrintable substring store.entries >>= fun index =>
      .ok (some ((store.entries.map Str.ofString).eraseIdx index)) := rfl
  rcases @matchOfStr_cases isPrintable substring store.entries with
    ⟨raised, isError, _⟩ | ⟨index, isOk, found, _⟩
  · rw [isError] at isPlan
    refine .refused raised (fun place isPlace => ?_) (call_of_error isPlan)
    cases isPlace
  · rw [isOk] at isPlan
    refine .removed substring index rfl found ((call_of_some isPlan).trans ?_)
    unfold MemoryStore.saveStr
    rw [List.eraseIdx_map, mapM_encode_ofString]

theorem MemoryStore.outcome (isPrintable : Char → Bool) (store : MemoryStore) (call : StoreCall) :
    Outcome isPrintable store call := by
  cases call with
  | add content => exact outcome_add content
  | replace oldSubstring newContent => exact outcome_replace oldSubstring newContent
  | remove substring => exact outcome_remove substring

/-! ### What is read back -/

/-- The entries a written content is read back as. -/
def pieces (content : String) : List String := (splitEntries content).map readText

theorem pieces_of_mem {entry : String} (member : entry ∈ store.entries) :
    pieces entry = [entry] := by
  have noReturn := no_return_of_mem_entries member
  rw [entries_eq] at member
  unfold pieces
  rw [splitEntries_entry member, List.map_singleton, readText_eq_self.mpr noReturn]

theorem flatMap_pieces {entries : List String}
    (old : ∀ entry ∈ entries, entry ∈ store.entries) : entries.flatMap pieces = entries := by
  induction entries with
  | nil => rfl
  | cons first rest inductionHypothesis =>
    rw [List.forall_mem_cons] at old
    rw [List.flatMap_cons, pieces_of_mem old.1, inductionHypothesis old.2, List.singleton_append]

theorem entries_save_pieces (entries : List String) :
    (store.save entries).entries = entries.flatMap pieces := by
  rw [entries_save, splitEntries_joinEntries, List.map_flatMap]
  rfl

theorem entries_save_old {entries : List String}
    (old : ∀ entry ∈ entries, entry ∈ store.entries) : (store.save entries).entries = entries := by
  rw [entries_save_pieces, flatMap_pieces old]

theorem entries_save_place {before after : List String} (content : String)
    (old : ∀ entry ∈ before ++ after, entry ∈ store.entries) :
    (store.save (before ++ content :: after)).entries = before ++ pieces content ++ after := by
  rw [List.forall_mem_append] at old
  rw [entries_save_pieces, List.flatMap_append, List.flatMap_cons, flatMap_pieces old.1,
    flatMap_pieces old.2, List.append_assoc]

theorem entries_emptied (store : MemoryStore) : ({ store with text := "" }).entries = [] :=
  @entries_save_pieces store []

/-- Around the place of a content there are old entries. -/
theorem mem_of_place {call : StoreCall} {before after entries : List String} {content : Str}
    (isPlace : call.place entries = some { before, content, after }) :
    ∀ entry ∈ before ++ after, entry ∈ entries := by
  rw [List.forall_mem_append]
  rcases place_cases isPlace with ⟨_, _, rfl, rfl⟩ | ⟨old, index, _, _, rfl, rfl⟩
  · exact ⟨fun entry member => member, fun entry member => absurd member List.not_mem_nil⟩
  · exact ⟨fun entry member => List.mem_of_mem_take member,
      fun entry member => List.mem_of_mem_drop member⟩

theorem saveStr_encoded {before after : List String} {content : Str} {text : String}
    (encoded : content.encode = some text) :
    store.saveStr (before.map Str.ofString ++ content :: after.map Str.ofString) =
      (.ok (), store.save (before ++ text :: after)) := by
  unfold MemoryStore.saveStr
  rw [mapM_encode_place, encoded]
  rfl

theorem saveStr_surrogate {before after : List String} {content : Str}
    (notEncoded : content.encode = none) :
    store.saveStr (before.map Str.ofString ++ content :: after.map Str.ofString) =
      (.error .unicodeEncodeError, { store with text := "" }) := by
  unfold MemoryStore.saveStr
  rw [mapM_encode_place, notEncoded]
  rfl

theorem charLimit_save (entries : List String) :
    (store.save entries).charLimit = store.charLimit := rfl

/-- The limit is the same all along a run. -/
theorem charLimit_call (call : StoreCall) :
    (store.call isPrintable call).2.charLimit = store.charLimit := by
  cases store.outcome isPrintable call with
  | refused raised noPlace answer => rw [answer]
  | repeated content isAdd isThere answer => rw [answer]
  | written before content after isPlace passes answer =>
    rw [answer]
    cases encoded : content.encode with
    | some text =>
      rw [saveStr_encoded encoded]
      exact charLimit_save _
    | none => rw [saveStr_surrogate encoded]
  | removed substring index isRemove found answer =>
    rw [answer]
    exact charLimit_save _

end Calls

/-! ### Strings without surrogates -/

section Agreement

variable (isPrintable : Char → Bool) (store : MemoryStore)

/-- The answer and the store that a mutation's result stands for. -/
def MemoryStore.answered : Except StoreError MemoryStore → Except CallError Unit × MemoryStore
  | .error raised => (.error (.store raised), store)
  | .ok next => (.ok (), next)

theorem matchOfStr_ofString (substring : String) (entries : List String) :
    MemoryStore.matchOfStr isPrintable (Str.ofString substring) entries =
      MemoryStore.matchOf isPrintable substring entries := by
  unfold MemoryStore.matchOfStr MemoryStore.matchOf
  rewrite [isIn_ofString, repr_ofString]
  rfl

theorem add_eq (content : String) :
    store.add content = MemoryStore.validate content >>= fun _ =>
      if content ∈ store.entries then .ok store
      else if MemoryStore.charsOf (store.entries ++ [content]) > store.charLimit then
        .error (.memoryFull store.totalChars store.charLimit content.length)
      else .ok (store.save (store.entries ++ [content])) := by
  have total : MemoryStore.charsOf (store.entries ++ [content]) = store.totalChars +
      content.length + (if store.entries.isEmpty then 0 else entryDelimiter.length) := by
    show Agent.totalChars _ = Agent.totalChars _ + _ + _
    exact totalChars_concat
  unfold MemoryStore.add
  refine congrArg _ (funext fun _ => ?_)
  rw [total]
  by_cases isThere : content ∈ store.entries
  · rw [if_pos isThere, if_pos isThere]
    rfl
  · rw [if_neg isThere, if_neg isThere]
    rfl

/-- Adding a string without surrogates is `add`. -/
theorem call_add (content : String) :
    store.call isPrintable (.add (Str.ofString content)) = store.answered (store.add content) := by
  have isPlan : store.plan isPrintable (.add (Str.ofString content)) =
    store.planAdd (Str.ofString content) := rfl
  have member : Str.ofString content ∈ store.entries.map Str.ofString ↔
    content ∈ store.entries := List.mem_map_of_injective ofString_injective
  rw [planAdd_eq, shown_ofString] at isPlan
  rw [add_eq]
  cases checked : MemoryStore.validate content with
  | error raised =>
    rw [checked] at isPlan
    exact call_of_error isPlan
  | ok passed =>
    rw [checked, ok_bind] at isPlan
    rw [ok_bind]
    by_cases isThere : content ∈ store.entries
    · rw [if_pos (member.mpr isThere)] at isPlan
      rw [if_pos isThere]
      exact call_of_none isPlan
    · rw [if_neg fun inText => isThere (member.mp inText)] at isPlan
      rw [if_neg isThere]
      have sameLength : (Str.ofString content).length = content.length := by
        rw [← length_shown, shown_ofString]
      by_cases tooLong : MemoryStore.charsOf (store.entries ++ [content]) > store.charLimit
      · rw [if_pos tooLong, sameLength] at isPlan
        rw [if_pos tooLong]
        exact call_of_error isPlan
      · rw [if_neg tooLong] at isPlan
        rw [if_neg tooLong]
        refine (call_of_some isPlan).trans ?_
        exact @saveStr_encoded store store.entries [] _ _ (encode_ofString content)

/-- Replacing by a string without surrogates is `replace`. -/
theorem call_replace (old new : String) :
    store.call isPrintable (.replace (Str.ofString old) (Str.ofString new)) =
      store.answered (store.replace isPrintable old new) := by
  have isPlan : store.plan isPrintable (.replace (Str.ofString old) (Str.ofString new)) =
    store.planReplace isPrintable (Str.ofString old) (Str.ofString new) := rfl
  have replaced : store.replace isPrintable old new = MemoryStore.validate new >>= fun _ =>
      MemoryStore.matchOf isPrintable old store.entries >>= fun index =>
        if MemoryStore.charsOf (store.entries.set index new) > store.charLimit then
          .error (.memoryFull (MemoryStore.charsOf (store.entries.set index new))
            store.charLimit new.length)
        else .ok (store.save (store.entries.set index new)) := rfl
  rw [planReplace_eq, shown_ofString, matchOfStr_ofString] at isPlan
  rw [replaced]
  cases checked : MemoryStore.validate new with
  | error raised =>
    rw [checked] at isPlan
    exact call_of_error isPlan
  | ok passed =>
    rw [checked, ok_bind] at isPlan
    rw [ok_bind]
    cases found : MemoryStore.matchOf isPrintable old store.entries with
    | error raised =>
      rw [found] at isPlan
      exact call_of_error isPlan
    | ok index =>
      rw [found, ok_bind] at isPlan
      rw [ok_bind]
      have sameLength : (Str.ofString new).length = new.length := by
        rw [← length_shown, shown_ofString]
      by_cases tooLong : MemoryStore.charsOf (store.entries.set index new) > store.charLimit
      · rw [if_pos tooLong, sameLength] at isPlan
        rw [if_pos tooLong]
        exact call_of_error isPlan
      · rw [if_neg tooLong, ← List.map_set] at isPlan
        rw [if_neg tooLong]
        refine (call_of_some isPlan).trans ?_
        unfold MemoryStore.saveStr
        rw [mapM_encode_ofString]
        rfl

theorem call_remove (substring : String) :
    store.call isPrintable (.remove (Str.ofString substring)) =
      store.answered (store.remove isPrintable substring) := by
  have isPlan : store.plan isPrintable (.remove (Str.ofString substring)) =
    MemoryStore.matchOfStr isPrintable (Str.ofString substring) store.entries >>= fun index =>
      .ok (some ((store.entries.map Str.ofString).eraseIdx index)) := rfl
  have removed : store.remove isPrintable substring =
    MemoryStore.matchOf isPrintable substring store.entries >>= fun index =>
      .ok (store.save (store.entries.eraseIdx index)) := rfl
  rw [matchOfStr_ofString] at isPlan
  rw [removed]
  cases found : MemoryStore.matchOf isPrintable substring store.entries with
  | error raised =>
    rw [found] at isPlan
    exact call_of_error isPlan
  | ok index =>
    rw [found, ok_bind, List.eraseIdx_map] at isPlan
    refine (call_of_some isPlan).trans ?_
    unfold MemoryStore.saveStr
    rw [mapM_encode_ofString]
    rfl

end Agreement

/-! ### Runs -/

/-- A store with an empty file. -/
def MemoryStore.empty (charLimit : Nat) : MemoryStore where
  text := ""
  charLimit := charLimit

def MemoryStore.step (isPrintable : Char → Bool) (store : MemoryStore) (call : StoreCall) :
    Option MemoryStore :=
  some (store.call isPrintable call).2

theorem entries_empty (charLimit : Nat) : (MemoryStore.empty charLimit).entries = [] :=
  entries_emptied (MemoryStore.empty charLimit)

end LiteHorse.Memory
