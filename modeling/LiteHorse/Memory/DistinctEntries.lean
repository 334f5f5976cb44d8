/-
This file compares the calls of the memory store with operations on a list of distinct entries:
append an entry that is not there, replace the one that has a substring, remove it.

A content is stripped only when it is read, and then also cut at every delimiter sign and rewritten
at every carriage return. `refines_list_iff` says when none of it shows: as long as every content
that gets into the file has no sign, no carriage return inside, and is no other entry with blanks
around it.
-/

import LiteHorse.Library.Runs
import LiteHorse.Memory.Calls

namespace LiteHorse.Memory

open Agent Delimited Python Runs

/-! ### The entry a content is read back as -/

section Pieces

variable {text : String}

theorem splitEntries_single (nonblank : strip text ≠ "") (single : '§' ∉ text.toList) :
    splitEntries text = [strip text] := by
  refine List.map_injective_iff.mpr (fun _ _ => String.toList_injective) ?_
  rw [toList_splitEntries, @Format.entries_single Char _ memoryFormat _ single,
    List.map_singleton, toList_strip]
  refine List.filter_eq_self.mpr fun piece member => ?_
  rw [List.mem_singleton.mp member]
  cases trimmed : trim memoryFormat.blank text.toList with
  | nil =>
    refine absurd (String.toList_injective ?_) nonblank
    rw [toList_strip]
    exact trimmed
  | cons first rest => rfl

/-- A content is read back stripped exactly if it has no delimiter sign, and no carriage return
inside. -/
theorem pieces_eq_iff (nonblank : strip text ≠ "") :
    pieces text = [strip text] ↔ '§' ∉ text.toList ∧ '\r' ∉ (strip text).toList := by
  unfold pieces
  constructor
  · intro same
    obtain ⟨entry, entries, isSplit, isText, noMore⟩ := List.map_eq_cons_iff.mp same
    have isEntry : entry ∈ splitEntries text := isSplit ▸ List.mem_cons_self
    have characters : (strip text).toList = universalNewlines entry.toList := by
      rw [← isText]
      exact String.toList_ofList
    refine ⟨fun hasSign => ?_, fun hasReturn => ?_⟩
    · have inStripped : '§' ∈ (strip text).toList := by
        rw [toList_strip]
        exact mem_trim hasSign (by decide)
      rw [characters] at inStripped
      rcases (mem_universalNewlines inStripped).2 with inEntry | isNewline
      · exact (clean_of_mem_splitEntries isEntry).single inEntry
      · exact absurd isNewline (by decide)
    · rw [characters] at hasReturn
      exact (mem_universalNewlines hasReturn).1 rfl
  · rintro ⟨single, noReturn⟩
    rw [splitEntries_single nonblank single, List.map_singleton, readText_eq_self.mpr noReturn]

theorem strip_of_clean (clean : memoryFormat.Clean text.toList) : strip text = text :=
  String.toList_injective ((toList_strip text).trans clean.trimmed)

theorem clean_of_mem_entries {store : MemoryStore} (member : text ∈ store.entries) :
    memoryFormat.Clean text.toList := by
  rw [entries_eq] at member
  exact clean_of_mem_splitEntries member

/-- An entry with blanks around it reads as the entry. -/
theorem pieces_ne_nil (clean : memoryFormat.Clean (strip text).toList) : pieces text ≠ [] := by
  have nonblank : strip text ≠ "" := fun isEmpty => clean.nonempty (by rw [isEmpty]; rfl)
  have single : '§' ∉ text.toList := by
    intro hasSign
    refine clean.single ?_
    rw [toList_strip]
    exact mem_trim hasSign (by decide)
  unfold pieces
  rw [splitEntries_single nonblank single]
  exact List.cons_ne_nil _ _

end Pieces

/-! ### The list operations -/

/-- The list after a call, as the list operation of the call has it. -/
def StoreCall.OnList (before after : List String) : StoreCall → Prop
  | .add content => ∃ text, content = Str.ofString text ∧
      after = if strip text ∈ before then before else before ++ [strip text]
  | .replace oldSubstring newContent => ∃ text index, newContent = Str.ofString text ∧
      before.findIdxs oldSubstring.isIn = [index] ∧ after = before.set index (strip text)
  | .remove substring => ∃ index, before.findIdxs substring.isIn = [index] ∧
      after = before.eraseIdx index

/-- A call that succeeds does the list operation. -/
def RefinesList (isPrintable : Char → Bool) (store : MemoryStore) (call : StoreCall) : Prop :=
  (store.call isPrintable call).1 = .ok () →
    call.OnList store.entries (store.call isPrintable call).2.entries

def Distinct (store : MemoryStore) : Prop := store.entries.Nodup

/-- A content that the call puts into the file has no delimiter sign and, once it is stripped, no
carriage return, and is none of the entries around its place. -/
def StaysOneEntry (store : MemoryStore) (call : StoreCall) : Prop :=
  ∀ before content after text, call.place store.entries = some { before, content, after } →
    Place.Passes store.charLimit { before, content, after } → content.encode = some text →
      '§' ∉ text.toList ∧ '\r' ∉ (strip text).toList ∧ strip text ∉ before ++ after

section Step

variable {isPrintable : Char → Bool} {store : MemoryStore} {call : StoreCall}

theorem nonblank_of_passes {limit : Nat} {before after : List String} {content : Str}
    {text : String} (passes : Place.Passes limit { before, content, after })
    (encoded : content.encode = some text) : strip text ≠ "" := by
  have checked := passes.1
  rw [ofString_of_encode encoded, shown_ofString] at checked
  exact (validate_ok_iff.mp checked).1

/-- Around the place of a content the entries are still distinct. -/
theorem nodup_of_place {before after entries : List String} {content : Str}
    (distinct : entries.Nodup) (isPlace : call.place entries = some { before, content, after }) :
    (before ++ after).Nodup := by
  rcases place_cases isPlace with ⟨_, _, rfl, rfl⟩ | ⟨old, index, _, _, rfl, rfl⟩
  · rwa [List.append_nil]
  · rw [← List.eraseIdx_eq_take_drop_succ]
    exact distinct.sublist (List.eraseIdx_sublist ..)

section Written

variable {content : Str} {text : String} {entries : List String}

theorem append_pieces_iff {before after middle : List String} :
    before ++ middle ++ after = before ++ strip text :: after ↔ middle = [strip text] := by
  rw [List.append_assoc, List.append_right_inj, ← List.singleton_append, List.append_left_inj]

theorem exists_ofString_iff (encoded : content.encode = some text) (holds : String → Prop) :
    (∃ other, content = Str.ofString other ∧ holds other) ↔ holds text := by
  constructor
  · rintro ⟨other, isContent, holdsOther⟩
    rw [isContent, encode_ofString] at encoded
    exact Option.some.inj encoded ▸ holdsOther
  · exact fun holdsText => ⟨text, ofString_of_encode encoded, holdsText⟩

/-- What is written is the list operation exactly if the content stays one entry that is new. -/
theorem onList_add_iff (encoded : content.encode = some text)
    (clean : ∀ entry ∈ entries, memoryFormat.Clean entry.toList) :
    (StoreCall.add content).OnList entries (entries ++ pieces text ++ []) ∧
        (entries ++ pieces text ++ []).Nodup ↔
      pieces text = [strip text] ∧ (entries ++ strip text :: []).Nodup := by
  unfold StoreCall.OnList
  dsimp only
  rw [exists_ofString_iff encoded]
  constructor
  · rintro ⟨isList, distinct⟩
    split at isList
    next isThere =>
      rw [List.append_nil] at isList
      have isEmpty := List.append_cancel_left (isList.trans (List.append_nil entries).symm)
      exact absurd isEmpty (pieces_ne_nil (clean _ isThere))
    next isNew =>
      have single : pieces text = [strip text] := append_pieces_iff.mp isList
      rw [single, List.append_nil] at distinct
      exact ⟨single, distinct⟩
  · rintro ⟨single, distinct⟩
    have isNew : strip text ∉ entries := by
      rw [List.nodup_middle, List.append_nil] at distinct
      exact (List.nodup_cons.mp distinct).1
    rw [if_neg isNew, single, List.append_nil]
    exact ⟨rfl, distinct⟩

theorem onList_replace_iff {old : Str} {index : Nat} (encoded : content.encode = some text)
    (found : entries.findIdxs old.isIn = [index]) :
    (StoreCall.replace old content).OnList entries
          (entries.take index ++ pieces text ++ entries.drop (index + 1)) ∧
        (entries.take index ++ pieces text ++ entries.drop (index + 1)).Nodup ↔
      pieces text = [strip text] ∧
        (entries.take index ++ strip text :: entries.drop (index + 1)).Nodup := by
  have inside : index < entries.length := by
    have member : index ∈ entries.findIdxs old.isIn := found ▸ List.mem_singleton_self index
    exact (List.mem_findIdxs_iff_exists_getElem_pos.mp member).1
  have replaced : entries.set index (strip text) =
      entries.take index ++ strip text :: entries.drop (index + 1) :=
    List.set_eq_take_append_cons_drop.trans (if_pos inside)
  unfold StoreCall.OnList
  dsimp only
  constructor
  · rintro ⟨⟨other, place, isContent, isPlace, isList⟩, distinct⟩
    rw [isContent, encode_ofString] at encoded
    cases encoded
    rw [found] at isPlace
    cases isPlace
    rw [replaced] at isList
    rw [isList] at distinct
    exact ⟨append_pieces_iff.mp isList, distinct⟩
  · rintro ⟨single, distinct⟩
    rw [append_pieces_iff.mpr single]
    exact ⟨⟨text, index, ofString_of_encode encoded, found, replaced.symm⟩, distinct⟩

theorem onList_written_iff {before after : List String}
    (isPlace : call.place entries = some { before, content, after })
    (encoded : content.encode = some text)
    (clean : ∀ entry ∈ entries, memoryFormat.Clean entry.toList) :
    call.OnList entries (before ++ pieces text ++ after) ∧
        (before ++ pieces text ++ after).Nodup ↔
      pieces text = [strip text] ∧ (before ++ strip text :: after).Nodup := by
  rcases place_cases isPlace with ⟨rfl, _, rfl, rfl⟩ | ⟨old, index, rfl, found, rfl, rfl⟩
  · exact onList_add_iff encoded clean
  · exact onList_replace_iff encoded found

/-- One call. -/
theorem refinesList_step_iff (call : StoreCall) (distinct : Distinct store) :
    (RefinesList isPrintable store call ∧
        ∀ next, store.step isPrintable call = some next → Distinct next) ↔
      StaysOneEntry store call := by
  have onlyNext : (∀ next, store.step isPrintable call = some next → Distinct next) ↔
      Distinct (store.call isPrintable call).2 :=
    ⟨fun all => all _ rfl, fun holds next taken => Option.some.inj taken ▸ holds⟩
  rw [onlyNext]
  unfold RefinesList
  cases store.outcome isPrintable call with
  | refused raised noPlace answer =>
    rw [answer]
    refine iff_of_true ⟨fun succeeds => ?_, distinct⟩ ?_
    · cases succeeds
    · exact fun before content after text isPlace passes => absurd passes (noPlace _ isPlace)
  | repeated content isAdd isThere answer =>
    rw [answer]
    obtain ⟨text, member, isText⟩ := List.mem_map.mp isThere
    have clean := strip_of_clean (clean_of_mem_entries member)
    refine iff_of_true ⟨fun _ => ?_, distinct⟩ ?_
    · rw [isAdd]
      exact ⟨text, isText.symm, by rw [clean, if_pos member]⟩
    · intro before other after text isPlace
      rw [isAdd, place_add_repeated isThere] at isPlace
      cases isPlace
  | written before content after isPlace passes answer =>
    have onlyPlace : StaysOneEntry store call ↔ ∀ text, content.encode = some text →
        '§' ∉ text.toList ∧ '\r' ∉ (strip text).toList ∧ strip text ∉ before ++ after := by
      constructor
      · exact fun stays text => stays before content after text isPlace passes
      · intro stays before content after text isOther passes encoded
        rw [isPlace] at isOther
        obtain ⟨rfl, rfl, rfl⟩ := Place.mk.inj (Option.some.inj isOther)
        exact stays text encoded
    rw [onlyPlace, answer]
    cases encoded : content.encode with
    | none =>
      rw [saveStr_surrogate encoded]
      refine iff_of_true ⟨fun succeeds => ?_, ?_⟩ fun text isText => ?_
      · cases succeeds
      · unfold Distinct
        rw [entries_emptied]
        exact List.nodup_nil
      · cases isText
    | some text =>
      have nonblank := nonblank_of_passes passes encoded
      have around := nodup_of_place distinct isPlace
      have written := onList_written_iff isPlace encoded fun entry => clean_of_mem_entries
      rw [saveStr_encoded encoded, forall_prop_of_true rfl, Distinct,
        entries_save_place text (mem_of_place isPlace), written, pieces_eq_iff nonblank,
        List.nodup_middle, List.nodup_cons, and_iff_left around, and_assoc]
      exact ⟨fun stays other same => Option.some.inj same ▸ stays, fun stays => stays text rfl⟩
  | removed substring index isRemove found answer =>
    rw [answer]
    have after : (store.save (store.entries.eraseIdx index)).entries =
        store.entries.eraseIdx index :=
      entries_save_old fun entry member => List.mem_of_mem_eraseIdx member
    refine iff_of_true ⟨fun _ => ?_, ?_⟩ ?_
    · rw [isRemove, after]
      exact ⟨index, found, rfl⟩
    · unfold Distinct
      rw [after]
      exact distinct.sublist (List.eraseIdx_sublist ..)
    · intro before content after text isPlace
      rw [isRemove] at isPlace
      cases isPlace

end Written

end Step

/-- From an empty file every call does its list operation and no two entries are equal, if and only
if every content that gets into the file stays one entry that is new. -/
theorem refines_list_iff (isPrintable : Char → Bool) (charLimit : Nat) (calls : List StoreCall) :
    Always (MemoryStore.step isPrintable) Distinct (MemoryStore.empty charLimit) calls ∧
        StepsMeet (MemoryStore.step isPrintable) (RefinesList isPrintable)
          (MemoryStore.empty charLimit) calls ↔
      StepsMeet (MemoryStore.step isPrintable) StaysOneEntry (MemoryStore.empty charLimit)
        calls := by
  refine always_and_stepsMeet_iff _ (fun _ call distinct => refinesList_step_iff call distinct) ?_
  unfold Distinct
  rw [entries_empty]
  exact List.nodup_nil

/-- An entry with a blank before it is added a second time. -/
theorem blank_before_entry_repeats :
    ¬ ∀ (isPrintable : Char → Bool) (charLimit : Nat) (calls : List StoreCall),
        Always (MemoryStore.step isPrintable) Distinct (MemoryStore.empty charLimit) calls ∧
          StepsMeet (MemoryStore.step isPrintable) (RefinesList isPrintable)
            (MemoryStore.empty charLimit) calls := by
  intro assumed
  have distinct := (((assumed (fun _ => true) 2200 [.add (Str.ofString "tea"),
    .add (Str.ofString " tea")]).1.2 _ rfl).2 _ rfl).head
  revert distinct
  unfold Distinct
  decide +kernel

end LiteHorse.Memory
