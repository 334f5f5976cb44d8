/-
This file models the tool with which the agent manages its skills, in a cloud turn: the tool checks
its arguments, the backend writes the skill, and after a write the recall index is brought up to
date with what the backend reads of the skill.

A backend reads a skill of the config that the turn started with from there. So the index has the
chunks of what the turn has written only where the config has no such skill, or one with the same
chunks; `index_follows` says this of every sequence of calls, with failures of the index anywhere.
-/

import LiteHorse.Agent.RecallCloud
import LiteHorse.Agent.SkillCloud

namespace LiteHorse.Agent.SkillManage

open Providers Python Reindex Repositories Runs SkillCloud Versions

/-! ### The arguments -/

inductive Action where
  | create
  | patch
  | edit
  | delete
  | writeFile
  | removeFile
  | list
  deriving DecidableEq

structure Arguments where
  name : Option String := none
  content : Option String := none
  oldString : Option String := none
  newString : Option String := none
  filePath : Option String := none

/-- `not value` -/
def isMissing (value : Option String) : Bool :=
  match value with
  | some text => text = ""
  | none => true

/-- What the tool asks of the backend. -/
inductive Request where
  | slugs
  | call (call : Call)

def unsupported (name : String) : String :=
  name ++ " is not supported in cloud mode; supporting files lands in a future iteration"

/-- The checks of `skill_manage`, or what the backend refuses at once. -/
def request (action : Action) (arguments : Arguments) : Except String Request :=
  if action = .list then .ok .slugs
  else if isMissing arguments.name then .error "name is required"
  else
    let name := arguments.name.getD ""
    match action with
    | .create =>
      if isMissing arguments.content then
        .error ("content must be a complete SKILL.md with YAML frontmatter " ++
          "(--- name: ... description: ... ---)")
      else .ok (.call (.create name (arguments.content.getD "")))
    | .patch =>
      if isMissing arguments.oldString || arguments.newString.isNone then
        .error "old_string and new_string required"
      else
        .ok (.call (.patch name (arguments.oldString.getD "") (arguments.newString.getD "")))
    | .edit =>
      if isMissing arguments.content then .error "content must include YAML frontmatter"
      else .ok (.call (.edit name (arguments.content.getD "")))
    | .delete => .ok (.call (.delete name))
    | .writeFile =>
      if isMissing arguments.filePath || arguments.content.isNone then
        .error "file_path and content required"
      else .error (unsupported "write_file")
    | .removeFile =>
      if isMissing arguments.filePath then .error "file_path required"
      else .error (unsupported "remove_file")
    | .list => .ok .slugs

/-- `list_slugs` -/
def listSlugs (rows : List (UserRow Skill)) : List String :=
  ((rows.filter fun row => row.row.isCurrent).map fun row => row.row.name).mergeSort
    fun first second => !decide (second < first)

/-- `result.get("success")` -/
def succeeds : SkillCloud.Answer → Bool
  | .failure _ => false
  | _ => true

/-! ### A turn -/

structure State where
  skills : SkillCloud.State
  chunks : List MemoryChunk
  /-- Whether the index took the last change of the skill. -/
  indexed : String → Bool

def State.start (rows : List (UserRow Skill)) (chunks : List MemoryChunk) : State where
  skills := .start rows
  chunks := chunks
  indexed := fun _ => false

/-- A call of the tool, and whether the recall index takes what it is given. -/
structure Event where
  action : Action
  arguments : Arguments
  recalls : Bool

inductive Reply where
  | slugs (slugs : List String)
  | answer (answer : SkillCloud.Answer)
  | raised

section Tool

variable {Mapping : Type} (isPrintable : Char → Bool) (yaml : Yaml Mapping)
  (accepts : UserRow Skill → Bool) (tokenizer : Tokenizer) (backend : RecallCloudBackend)
  (userId : String) (snapshot : List ResolvedSkill) (officials : List (Row String Skill))

def skillSource (slug : String) : ChunkSource := backend.source "skill_body" (some slug)

/-- `_reindex_skill_body`: the rows of the index, unless reading the skill raises. -/
def reindexSkillBody (rows : List (UserRow Skill)) (chunks : List MemoryChunk) (slug : String) :
    Option (List MemoryChunk) :=
  match readMd yaml snapshot officials rows slug with
  | .ok (some body) => some (backend.index tokenizer chunks "skill_body" (some slug) body)
  | .ok none => some (MemoryChunkRepo.deleteSource chunks (skillSource backend slug))
  | .error _ => none

/-- What the index has after a call that succeeded; `none` where it has not taken the change. -/
def recalled (rows : List (UserRow Skill)) (chunks : List MemoryChunk) (call : Call)
    (recalls : Bool) : Option (List MemoryChunk) :=
  if recalls then
    match call with
    | .delete slug => some (MemoryChunkRepo.deleteSource chunks (skillSource backend slug))
    | call => reindexSkillBody yaml tokenizer backend snapshot officials rows chunks call.slug
  else none

/-- `skill_manage` -/
def skillManage (state : State) (event : Event) : Reply × State :=
  match request event.action event.arguments with
  | .error error => (.answer (.failure error), state)
  | .ok .slugs => (.slugs (listSlugs state.skills.rows), state)
  | .ok (.call call) =>
    match perform isPrintable yaml accepts userId snapshot officials state.skills.rows call with
    | .error _ => (.raised, state)
    | .ok outcome =>
      let skills := state.skills.after call.slug outcome
      if succeeds outcome.answer then
        let chunks := recalled yaml tokenizer backend snapshot officials outcome.rows state.chunks
          call event.recalls
        (.answer outcome.answer,
          { skills
            chunks := chunks.getD state.chunks
            indexed := Function.update state.indexed call.slug chunks.isSome })
      else (.answer outcome.answer, { state with skills })

def step (state : State) (event : Event) : Option State :=
  some (skillManage isPrintable yaml accepts tokenizer backend userId snapshot officials state
    event).2

/-! ### What is to be kept -/

/-- The rows of the index that come from a source. -/
def chunksOf (chunks : List MemoryChunk) (source : ChunkSource) : List MemoryChunk :=
  chunks.filter fun row => row.toChunkSource = source

/-- What the backend reads of a skill that the turn has written. -/
def readBack (slug text : String) : String := (entryOf snapshot slug).elim text (entryText yaml)

/-- The index after some calls of a turn that began with other rows. Where it took the last change
of a skill, it has what the backend reads of it; it has what the turn has written if and only if
the config has no skill in its place with other chunks. -/
structure IndexFollows (before : List MemoryChunk) (state : State) : Prop where
  written : ∀ slug text, state.skills.deeds slug = some (.written text) →
    state.indexed slug = true → chunksOf state.chunks (skillSource backend slug) =
      chunkRows (skillSource backend slug) (chunkText tokenizer (readBack yaml snapshot slug text))
  current : ∀ slug text, state.skills.deeds slug = some (.written text) →
    state.indexed slug = true →
      (chunksOf state.chunks (skillSource backend slug) =
          chunkRows (skillSource backend slug) (chunkText tokenizer text) ↔
        ∀ entry, entryOf snapshot slug = some entry →
          chunkText tokenizer (entryText yaml entry) = chunkText tokenizer text)
  deleted : ∀ slug text, state.skills.deeds slug = some (.deleted text) →
    state.indexed slug = true → chunksOf state.chunks (skillSource backend slug) = []
  untouched : ∀ slug, state.skills.deeds slug = none →
    chunksOf state.chunks (skillSource backend slug) =
      chunksOf before (skillSource backend slug)
  elsewhere : ∀ source, (∀ slug, source ≠ skillSource backend slug) →
    chunksOf state.chunks source = chunksOf before source

variable {isPrintable yaml accepts tokenizer backend userId snapshot officials}
  {rows : List (UserRow Skill)} {chunks before : List MemoryChunk} {slug other : String}
  {outcome : Outcome} {state next : State}

/-! ### The rows of a source -/

theorem chunksOf_deleteSource (source other : ChunkSource) :
    chunksOf (MemoryChunkRepo.deleteSource chunks source) other =
      if other = source then [] else chunksOf chunks other := by
  unfold chunksOf MemoryChunkRepo.deleteSource
  rw [List.filter_filter]
  by_cases same : other = source
  · rw [if_pos same, List.filter_eq_nil_iff]
    intro row _ kept
    obtain ⟨isOther, notSource⟩ := Bool.and_eq_true_iff.mp kept
    exact of_decide_eq_true notSource ((of_decide_eq_true isOther).trans same)
  · rw [if_neg same]
    refine List.filter_congr fun row _ => ?_
    by_cases isOther : row.toChunkSource = other
    · simp [isOther, same]
    · simp [isOther]

theorem chunksOf_chunkRows (source : ChunkSource) (contents : List String) :
    chunksOf (chunkRows source contents) source = chunkRows source contents :=
  List.filter_eq_self.mpr fun _ member => decide_eq_true (mem_chunkRows member).1

theorem chunksOf_chunkRows_other {source other : ChunkSource} (different : other ≠ source)
    (contents : List String) : chunksOf (chunkRows source contents) other = [] := by
  refine List.filter_eq_nil_iff.mpr fun row member isOther => ?_
  exact different ((of_decide_eq_true isOther).symm.trans (mem_chunkRows member).1)

theorem chunksOf_index (sourceKind content : String) (sourceId : Option String)
    (other : ChunkSource) :
    chunksOf (backend.index tokenizer chunks sourceKind sourceId content) other =
      if other = backend.source sourceKind sourceId then
        chunkRows (backend.source sourceKind sourceId) (chunkText tokenizer content)
      else chunksOf chunks other := by
  have isReplaced : backend.index tokenizer chunks sourceKind sourceId content =
      MemoryChunkRepo.deleteSource chunks (backend.source sourceKind sourceId) ++
        chunkRows (backend.source sourceKind sourceId) (chunkText tokenizer content) :=
    RecallCloudBackend.index_eq tokenizer backend chunks sourceKind sourceId content
  have splits : ∀ first second : List MemoryChunk,
      chunksOf (first ++ second) other = chunksOf first other ++ chunksOf second other :=
    fun first second => List.filter_append first second
  rw [isReplaced, splits, chunksOf_deleteSource]
  by_cases same : other = backend.source sourceKind sourceId
  · rw [if_pos same, if_pos same, same, chunksOf_chunkRows, List.nil_append]
  · rw [if_neg same, if_neg same, chunksOf_chunkRows_other same, List.append_nil]

theorem chunkRows_injective (source : ChunkSource) : Function.Injective (chunkRows source) := by
  have contents : ∀ chunks, (chunkRows source chunks).map MemoryChunk.content = chunks := by
    intro chunks
    unfold chunkRows
    rw [List.map_map]
    exact List.zipIdx_map_fst 0 chunks
  intro first second same
  rw [← contents first, same, contents]

theorem skillSource_injective : Function.Injective (skillSource backend) := by
  intro first second same
  exact Option.some.inj (congrArg ChunkSource.sourceId same)

/-! ### What the backend has done -/

/-- A call has written a skill and succeeded, or it has failed. -/
def Wrote (outcome : Outcome) : Prop :=
  (succeeds outcome.answer = true ∧ ∃ text, outcome.deed = some (.written text)) ∨
    (succeeds outcome.answer = false ∧ outcome.deed = none)

theorem wrote_of_failure {error : String}
    (performed : answering rows (.failure error) = .ok outcome) : Wrote outcome := by
  cases performed
  exact Or.inr ⟨rfl, rfl⟩

theorem create_wrote {content : String}
    (performed : SkillCloud.create isPrintable yaml accepts userId rows slug content =
      .ok outcome) : Wrote outcome := by
  unfold SkillCloud.create at performed
  split at performed
  case isFalse => exact wrote_of_failure performed
  case isTrue =>
    split at performed
    next => exact wrote_of_failure performed
    next mapping body parsed =>
      split at performed
      next => exact wrote_of_failure performed
      next safe =>
        obtain ⟨own, found, performed⟩ := ok_of_bind performed
        cases own with
        | some row => exact wrote_of_failure performed
        | none =>
          dsimp only at performed
          split at performed
          next => cases performed
          next frontmatter isColumn =>
            cases inserted : insertSkill accepts userId rows slug frontmatter body with
            | error error =>
              rw [inserted] at performed
              cases performed
            | ok next =>
              rw [inserted] at performed
              cases performed
              exact Or.inl ⟨rfl, _, rfl⟩

theorem overwrite_wrote {row : UserRow Skill} {mapping : Mapping} {body : String}
    (found : getUser rows slug = .ok (some row))
    (performed : overwrite yaml userId rows slug mapping body = .ok outcome) : Wrote outcome := by
  unfold overwrite at performed
  split at performed
  next => cases performed
  next frontmatter isColumn =>
    rw [updateSkill found] at performed
    cases performed
    exact Or.inl ⟨rfl, _, rfl⟩

theorem patch_wrote {oldString newString : String}
    (performed : patch isPrintable yaml userId rows slug oldString newString = .ok outcome) :
    Wrote outcome := by
  unfold patch at performed
  obtain ⟨own, found, performed⟩ := ok_of_bind performed
  cases own with
  | none => exact wrote_of_failure performed
  | some row =>
    dsimp only at performed
    split at performed
    · exact wrote_of_failure performed
    split at performed
    · exact wrote_of_failure performed
    split at performed
    · exact wrote_of_failure performed
    split at performed
    · exact wrote_of_failure performed
    · exact overwrite_wrote found performed

theorem edit_wrote {content : String}
    (performed : edit isPrintable yaml userId rows slug content = .ok outcome) :
    Wrote outcome := by
  unfold edit at performed
  split at performed
  · exact wrote_of_failure performed
  split at performed
  · exact wrote_of_failure performed
  obtain ⟨own, found, performed⟩ := ok_of_bind performed
  cases own with
  | none => exact wrote_of_failure performed
  | some row => exact overwrite_wrote found performed

/-- What the index has after it took a deed. -/
def Took (yaml : Yaml Mapping) (tokenizer : Tokenizer) (backend : RecallCloudBackend)
    (snapshot : List ResolvedSkill) (chunks after : List MemoryChunk) (slug : String) :
    Deed → Prop
  | .written text => after = backend.index tokenizer chunks "skill_body" (some slug)
    (readBack yaml snapshot slug text)
  | .deleted _ => after = MemoryChunkRepo.deleteSource chunks (skillSource backend slug)

theorem reindex_of_written {text : String} {after : List MemoryChunk}
    (written : Holds yaml rows slug (.written text))
    (isAfter : reindexSkillBody yaml tokenizer backend snapshot officials rows chunks slug =
      some after) : Took yaml tokenizer backend snapshot chunks after slug (.written text) := by
  obtain ⟨row, found, isText⟩ := written
  unfold reindexSkillBody at isAfter
  show after = _
  unfold readBack
  cases isEntry : entryOf snapshot slug with
  | some entry =>
    rw [readMd_of_entry isEntry] at isAfter
    exact (Option.some.inj isAfter).symm
  | none =>
    rw [readMd_of_row isEntry found, isText] at isAfter
    exact (Option.some.inj isAfter).symm

/-- What the tool calls. -/
inductive Changes : Call → Prop
  | create (slug content : String) : Changes (.create slug content)
  | patch (slug oldString newString : String) : Changes (.patch slug oldString newString)
  | edit (slug content : String) : Changes (.edit slug content)
  | delete (slug : String) : Changes (.delete slug)

theorem changes_of_request {action : Action} {arguments : Arguments} {call : Call}
    (isCall : request action arguments = .ok (.call call)) : Changes call := by
  unfold request at isCall
  split at isCall
  next => cases isCall
  next =>
    split at isCall
    next => cases isCall
    next =>
      dsimp only at isCall
      split at isCall
      · split at isCall
        · cases isCall
        · cases isCall
          exact .create _ _
      · split at isCall
        · cases isCall
        · cases isCall
          exact .patch _ _ _
      · split at isCall
        · cases isCall
        · cases isCall
          exact .edit _ _
      · cases isCall
        exact .delete _
      · split at isCall
        · cases isCall
        · cases isCall
      · split at isCall
        · cases isCall
        · cases isCall
      · cases isCall

/-- What a call does to the skill, when it succeeds, and what the index then takes. -/
structure Performed (yaml : Yaml Mapping) (tokenizer : Tokenizer) (backend : RecallCloudBackend)
    (snapshot : List ResolvedSkill) (officials : List (Row String Skill))
    (chunks : List MemoryChunk) (call : Call) (outcome : Outcome) : Prop where
  failed : succeeds outcome.answer = false → outcome.deed = none
  succeeded : succeeds outcome.answer = true → ∃ deed, outcome.deed = some deed ∧
    ∀ recalls after, recalled yaml tokenizer backend snapshot officials outcome.rows chunks call
      recalls = some after → Took yaml tokenizer backend snapshot chunks after call.slug deed

theorem performed_of_wrote {call : Call} (notDelete : ∀ slug, call ≠ .delete slug)
    (wrote : Wrote outcome) (does : Does yaml rows call.slug outcome) :
    Performed yaml tokenizer backend snapshot officials chunks call outcome where
  failed isFailure := by
    rcases wrote with ⟨isSuccess, _⟩ | ⟨_, noDeed⟩
    · cases isFailure.symm.trans isSuccess
    · exact noDeed
  succeeded isSuccess := by
    rcases wrote with ⟨_, text, isDeed⟩ | ⟨isFailure, _⟩
    · refine ⟨.written text, isDeed, fun recalls after isAfter => ?_⟩
      have written := does.own _ isDeed
      unfold recalled at isAfter
      split at isAfter
      next =>
        split at isAfter
        next slug => exact absurd rfl (notDelete slug)
        next => exact reindex_of_written written isAfter
      next => cases isAfter
    · cases isSuccess.symm.trans isFailure

theorem performed_of_delete
    (performed : SkillCloud.delete isPrintable yaml rows slug = .ok outcome) :
    Performed yaml tokenizer backend snapshot officials chunks (.delete slug) outcome := by
  unfold SkillCloud.delete at performed
  split at performed
  next =>
    cases performed
    exact ⟨fun _ => rfl, fun isSuccess => by cases isSuccess⟩
  next remaining deleted =>
    cases performed
    refine ⟨fun isFailure => (by cases isFailure), fun _ => ⟨_, rfl, ?_⟩⟩
    intro recalls after isAfter
    unfold recalled at isAfter
    split at isAfter
    next => exact (Option.some.inj isAfter).symm
    next => cases isAfter

theorem performed_of_changes {call : Call} (changes : Changes call)
    (performed : perform isPrintable yaml accepts userId snapshot officials rows call =
      .ok outcome) :
    Performed yaml tokenizer backend snapshot officials chunks call outcome := by
  cases changes with
  | create slug content =>
    dsimp only [perform] at performed
    exact performed_of_wrote (fun _ => Call.noConfusion) (create_wrote performed)
      (create_does performed)
  | patch slug oldString newString =>
    dsimp only [perform] at performed
    exact performed_of_wrote (fun _ => Call.noConfusion) (patch_wrote performed)
      (patch_does performed)
  | edit slug content =>
    dsimp only [perform] at performed
    exact performed_of_wrote (fun _ => Call.noConfusion) (edit_wrote performed)
      (edit_does performed)
  | delete slug =>
    dsimp only [perform] at performed
    exact performed_of_delete performed

/-! ### Turns -/

/-- A call of the tool leaves the index and what is known of it alone, or it does something to a
skill and the index takes it or not. -/
theorem step_cases {event : Event}
    (taken : step isPrintable yaml accepts tokenizer backend userId snapshot officials state
      event = some next) :
    (next.skills.deeds = state.skills.deeds ∧ next.chunks = state.chunks ∧
      next.indexed = state.indexed) ∨
    ∃ slug deed chunks, next.skills.deeds = Function.update state.skills.deeds slug (some deed) ∧
      next.chunks = Option.getD chunks state.chunks ∧
      next.indexed = Function.update state.indexed slug chunks.isSome ∧
      ∀ after, chunks = some after →
        Took yaml tokenizer backend snapshot state.chunks after slug deed := by
  have isNext := Option.some.inj taken
  unfold skillManage at isNext
  split at isNext
  next => exact Or.inl ⟨by rw [← isNext], by rw [← isNext], by rw [← isNext]⟩
  next => exact Or.inl ⟨by rw [← isNext], by rw [← isNext], by rw [← isNext]⟩
  next call isCall =>
    split at isNext
    next => exact Or.inl ⟨by rw [← isNext], by rw [← isNext], by rw [← isNext]⟩
    next outcome performed =>
      have done : Performed yaml tokenizer backend snapshot officials state.chunks call outcome :=
        performed_of_changes (changes_of_request isCall) performed
      dsimp only at isNext
      split at isNext
      next isSuccess =>
        obtain ⟨deed, isDeed, took⟩ := done.succeeded isSuccess
        subst isNext
        refine Or.inr ⟨call.slug, deed, _, ?_, rfl, rfl, took event.recalls⟩
        unfold SkillCloud.State.after
        rw [isDeed]
      next isFailure =>
        have noDeed := done.failed (Bool.eq_false_iff.mpr isFailure)
        subst isNext
        refine Or.inl ⟨?_, rfl, rfl⟩
        unfold SkillCloud.State.after
        rw [noDeed]

theorem current_of_written {text : String} {source : ChunkSource} {found : List MemoryChunk}
    (isFound : found = chunkRows source (chunkText tokenizer (readBack yaml snapshot slug text))) :
    found = chunkRows source (chunkText tokenizer text) ↔
      ∀ entry, entryOf snapshot slug = some entry →
        chunkText tokenizer (entryText yaml entry) = chunkText tokenizer text := by
  rw [isFound, (chunkRows_injective source).eq_iff]
  unfold readBack
  cases isEntry : entryOf snapshot slug with
  | some entry =>
    constructor
    · intro same other isOther
      cases isOther
      exact same
    · exact fun same => same entry rfl
  | none => exact ⟨fun _ _ isOther => (by cases isOther), fun _ => rfl⟩

/-- What the index has of another source than that of a skill it took a deed of. -/
theorem took_other {deed : Deed} {after : List MemoryChunk} {source : ChunkSource}
    (different : source ≠ skillSource backend slug)
    (took : Took yaml tokenizer backend snapshot chunks after slug deed) :
    chunksOf after source = chunksOf chunks source := by
  cases deed with
  | written text => rw [took, chunksOf_index]; exact if_neg different
  | deleted text => rw [took, chunksOf_deleteSource]; exact if_neg different

theorem step_follows {event : Event}
    (follows : IndexFollows yaml tokenizer backend snapshot before state)
    (taken : step isPrintable yaml accepts tokenizer backend userId snapshot officials state
      event = some next) : IndexFollows yaml tokenizer backend snapshot before next := by
  rcases step_cases taken with
    ⟨sameDeeds, sameChunks, sameIndexed⟩ | ⟨slug, deed, chunks, isDeeds, isChunks, isIndexed, took⟩
  · exact {
      written := by rw [sameDeeds, sameChunks, sameIndexed]; exact follows.written
      current := by rw [sameDeeds, sameChunks, sameIndexed]; exact follows.current
      deleted := by rw [sameDeeds, sameChunks, sameIndexed]; exact follows.deleted
      untouched := by rw [sameDeeds, sameChunks]; exact follows.untouched
      elsewhere := by rw [sameChunks]; exact follows.elsewhere }
  · have others : ∀ source, source ≠ skillSource backend slug →
        chunksOf next.chunks source = chunksOf state.chunks source := by
      intro source different
      rw [isChunks]
      cases isAfter : chunks with
      | none => rfl
      | some after => exact took_other different (took after isAfter)
    have elsewhere : ∀ {other : String}, other ≠ slug →
        next.skills.deeds other = state.skills.deeds other ∧
          next.indexed other = state.indexed other ∧
            chunksOf next.chunks (skillSource backend other) =
              chunksOf state.chunks (skillSource backend other) := by
      intro other different
      refine ⟨?_, ?_, others _ fun same => different (skillSource_injective same)⟩
      · rw [isDeeds, Function.update_of_ne different]
      · rw [isIndexed, Function.update_of_ne different]
    have own : next.skills.deeds slug = some deed ∧ (next.indexed slug = true →
        Took yaml tokenizer backend snapshot state.chunks next.chunks slug deed) := by
      refine ⟨by rw [isDeeds, Function.update_self], fun isTaken => ?_⟩
      rw [isIndexed, Function.update_self] at isTaken
      obtain ⟨after, isAfter⟩ := Option.isSome_iff_exists.mp isTaken
      rw [isChunks, isAfter]
      exact took after isAfter
    have written : ∀ other text, next.skills.deeds other = some (.written text) →
        next.indexed other = true → chunksOf next.chunks (skillSource backend other) =
          chunkRows (skillSource backend other)
            (chunkText tokenizer (readBack yaml snapshot other text)) := by
      intro other text isWritten isTaken
      by_cases same : other = slug
      · subst same
        cases own.1.symm.trans isWritten
        rw [own.2 isTaken, chunksOf_index]
        exact if_pos rfl
      · obtain ⟨sameDeed, sameIndexed, sameChunks⟩ := elsewhere same
        rw [sameChunks]
        exact follows.written other text (sameDeed ▸ isWritten) (sameIndexed ▸ isTaken)
    exact {
      written := written
      current := fun other text isWritten isTaken =>
        current_of_written (written other text isWritten isTaken)
      deleted := fun other text isDeleted isTaken => by
        by_cases same : other = slug
        · subst same
          cases own.1.symm.trans isDeleted
          rw [own.2 isTaken, chunksOf_deleteSource]
          exact if_pos rfl
        · obtain ⟨sameDeed, sameIndexed, sameChunks⟩ := elsewhere same
          rw [sameChunks]
          exact follows.deleted other text (sameDeed ▸ isDeleted) (sameIndexed ▸ isTaken)
      untouched := fun other noDeed => by
        have different : other ≠ slug := by
          rintro rfl
          cases own.1.symm.trans noDeed
        obtain ⟨sameDeed, _, sameChunks⟩ := elsewhere different
        rw [sameChunks]
        exact follows.untouched other (sameDeed ▸ noDeed)
      elsewhere := fun source apart => by
        rw [others source (apart slug)]
        exact follows.elsewhere source apart }

/-- In every turn the recall index has of each skill, where it took the last change, what the
backend reads back: what was written, unless the config of the turn has the skill with other
chunks. -/
theorem index_follows (rows : List (UserRow Skill)) (chunks : List MemoryChunk)
    (events : List Event) :
    Always (step isPrintable yaml accepts tokenizer backend userId snapshot officials)
      (IndexFollows yaml tokenizer backend snapshot chunks) (State.start rows chunks) events := by
  refine always_invariant _ (fun _ _ _ follows taken => step_follows follows taken) ?_
  exact {
    written := fun _ _ isWritten => by cases isWritten
    current := fun _ _ isWritten => by cases isWritten
    deleted := fun _ _ isDeleted => by cases isDeleted
    untouched := fun _ _ => rfl
    elsewhere := fun _ _ => rfl }

end Tool

end LiteHorse.Agent.SkillManage
