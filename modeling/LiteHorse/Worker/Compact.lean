/-
This file is about the compaction of memory.md: the worker reads the document in one transaction,
asks a model for fewer and shorter entries and writes them over the document in another. Calls of
the memory tool go on in the meantime, and in the middle of each other.

`compaction_keeps` says when an entry that was added after the worker's read survives: whenever
a write of the document commits, be it a call's or the worker's own, the text that the writer
read has the entry, or the writer puts it in.
-/

import LiteHorse.Agent.MemoryConcurrency

namespace LiteHorse.Worker

open Agent Delimited Python ReadModifyWrite Repositories Runs Storage

/-! ### The worker -/

/-- `_split_entries` of the worker. -/
def compactSplitEntries (body : String) : List String :=
  if strip body = "" then []
  else ((splitAt '§' body).map strip).filter fun entry => entry ≠ ""

/-- `_join_entries` of the worker. -/
def compactJoinEntries (entries : List String) : String := entryDelimiter.intercalate entries

/-- `len(body) / MEMORY_MD_CHAR_LIMIT <= 0.8` -/
def belowThreshold (body : String) : Bool := body.length * 10 ≤ memoryMdCharLimit * 8

/-- `Consolidator.run` on the entries; `none` if it raises. -/
abbrev Consolidator := List String → Option (List String)

/-- What the worker makes of the body. -/
inductive CompactPlan where
  /-- Return the value to the queue and leave the document as it is. -/
  | leave (returned : Bool)
  | write (newEntries : List String)

/-- `run_compact`, from the read to the write. -/
def planCompact (consolidator : Consolidator) (body : String) : CompactPlan :=
  let entries := compactSplitEntries body
  if entries.isEmpty then .leave true
  else if belowThreshold body then .leave true
  else
    match consolidator entries with
    | none => .leave false
    | some newEntries =>
      if newEntries.isEmpty then .leave true
      else if (compactJoinEntries newEntries).length ≥ body.length then .leave true
      else .write newEntries

/-- The two ways of reading the entries agree. -/
theorem compactSplitEntries_eq (body : String) : compactSplitEntries body = splitEntries body := by
  have same :
      splitEntries body = ((splitAt '§' body).map strip).filter fun entry => entry ≠ "" := by
    unfold splitEntries
    split
    next isEmpty =>
      rw [isEmpty]
      rfl
    next => rfl
  unfold compactSplitEntries
  split
  next isBlank =>
    have noEntries : memoryFormat.entries body.toList = [] := by
      have noText := toList_strip body
      rw [isBlank] at noText
      refine (Format.entries_trim body.toList).symm.trans ?_
      exact congrArg memoryFormat.entries noText.symm
    rw [← toList_splitEntries, List.map_eq_nil_iff] at noEntries
    exact noEntries.symm
  next => exact same.symm

/-! ### The worker and the memory tool, statement by statement -/

/-- What uses the document. -/
inductive MemoryWork where
  | tool (call : MemoryCall)
  | compact (consolidator : Consolidator)

section Statements

variable (isPrintable : Char → Bool) (userId agentId owner : UUID)

/-- The statements of the tool's calls and of the worker. The worker's transactions name its
agent. -/
def compactAccess :
    Access UserDocuments (Except MemoryRepoError String) MemoryWork (List String) MemoryError where
  read
    | .tool call, documents => (memoryAccess isPrintable userId owner .memory).read call documents
    | .compact _, documents =>
      MemoryRepo.get isPrintable documents (dbSession (some userId) (some agentId)) "memory.md"
  plan
    | .tool call, seen => (memoryAccess isPrintable userId owner .memory).plan call seen
    | .compact consolidator, seen => do
      let body ← seen.mapError .repo
      match planCompact consolidator body with
      | .leave _ => return none
      | .write newEntries => return some newEntries
  write
    | .tool call, entries, documents =>
      (memoryAccess isPrintable userId owner .memory).write call entries documents
    | .compact _, newEntries, documents =>
      (MemoryRepo.put isPrintable documents (dbSession (some userId) (some agentId)) owner
        "memory.md" (compactJoinEntries newEntries)).mapError .repo

/-- The worker has no number, the tool's calls have one each. -/
abbrev WorkState :=
  State UserDocuments (Except MemoryRepoError String) MemoryWork MemoryError (Option Nat)

structure CompactState where
  base : WorkState
  /-- The entries whose addition was committed after the worker's read and that no call has
  taken away since. -/
  owed : List String

def CompactState.initial (documents : UserDocuments) : CompactState where
  base := State.initial documents
  owed := []

inductive CompactEvent where
  | tool (id : Nat) (call : MemoryCall)
  | compact (consolidator : Consolidator)
  | put (id : Option Nat)
  | commit (id : Option Nat)

def CompactEvent.statement : CompactEvent → Event (Option Nat) MemoryWork
  | .tool id call => .get (some id) (.tool call)
  | .compact consolidator => .get none (.compact consolidator)
  | .put id => .put id
  | .commit id => .commit id

def CompactState.hasRead (state : CompactState) : Bool :=
  match state.base.phase none with
  | .idle => false
  | _ => true

/-- What is owed after a call of the tool that has succeeded on what it saw. -/
def CompactState.owe (state : CompactState) (call : MemoryCall) :
    Except MemoryRepoError String → List String
  | .error _ => state.owed
  | .ok body =>
    if state.hasRead then
      (state.owed.filter fun entry => !call.takes body entry) ++ call.adds
    else []

/-- What is owed after an event that leads to the statements' next state. -/
def CompactState.owedAfter (state : CompactState) (next : WorkState) :
    CompactEvent → List String
  | .tool id call =>
    match next.phase (some id) with
    | .returned _ (.ok _) =>
      state.owe call ((memoryAccess isPrintable userId owner .memory).read call state.base.store)
    | _ => state.owed
  | .compact _ => []
  | .put _ => state.owed
  | .commit id =>
    match state.base.phase id with
    | .written (.tool call) seen _ => state.owe call seen
    | _ => state.owed

def compactStep (state : CompactState) (event : CompactEvent) : Option CompactState :=
  (step (compactAccess isPrintable userId agentId owner) state.base event.statement).map
    fun next => { base := next, owed := state.owedAfter isPrintable userId owner next event }

/-- Once the worker has returned, every entry that is owed is in the document. -/
def LosesNothing (state : CompactState) : Prop :=
  ∀ work result, state.base.phase none = .returned work result →
    ∀ entry ∈ state.owed, entry ∈ splitEntries (documentText state.base.store userId "memory.md")

/-- The writer of a text with the entry in it: a call that has read the entry or was given it, or
the worker if the model has put the entry among the new ones. -/
def MemoryWork.covers (body entry : String) : MemoryWork → Prop
  | .tool call => entry ∈ splitEntries body ∨ entry ∈ call.writes
  | .compact consolidator =>
    ∃ newEntries, consolidator (compactSplitEntries body) = some newEntries ∧
      ∃ new ∈ newEntries, entry ∈ splitEntries new

/-- Whoever commits a write has every entry that is owed in it. -/
def Covers (state : CompactState) : CompactEvent → Prop
  | .commit id => ∀ work body store, state.base.phase id = .written work (.ok body) store →
      ∀ entry ∈ state.owed, work.covers body entry
  | .tool _ _ | .compact _ | .put _ => True

end Statements

/-! ### What a write leaves in the document -/

section Steps

variable {isPrintable : Char → Bool} {userId agentId owner : UUID} {body entry : String}
  {draft : List String} {documents after : UserDocuments} {call : MemoryCall}

theorem plan_tool {changed : Option (List String)} {seen : Except MemoryRepoError String}
    (isPlan : (compactAccess isPrintable userId agentId owner).plan (.tool call) seen =
      .ok changed) :
    call.check = .ok () ∧ ∃ body, seen = .ok body ∧
      call.change isPrintable .memory (splitEntries body) = .ok changed := by
  obtain ⟨_, checked, isPlan⟩ := bind_eq_ok_iff.mp isPlan
  obtain ⟨body, isBody, isPlan⟩ := bind_eq_ok_iff.mp isPlan
  exact ⟨checked, body, mapError_eq_ok_iff.mp isBody, isPlan⟩

theorem plan_compact {consolidator : Consolidator} {seen : Except MemoryRepoError String}
    (isPlan : (compactAccess isPrintable userId agentId owner).plan (.compact consolidator) seen =
      .ok (some draft)) :
    ∃ body, seen = .ok body ∧ consolidator (compactSplitEntries body) = some draft := by
  obtain ⟨body, isBody, isPlan⟩ := bind_eq_ok_iff.mp isPlan
  refine ⟨body, mapError_eq_ok_iff.mp isBody, ?_⟩
  have isWrite : planCompact consolidator body = .write draft := by
    split at isPlan
    next => cases isPlan
    next newEntries same =>
      cases isPlan
      exact same
  unfold planCompact at isWrite
  dsimp only at isWrite
  split at isWrite
  next => cases isWrite
  next =>
    split at isWrite
    next => cases isWrite
    next =>
      split at isWrite
      next => cases isWrite
      next newEntries answer =>
        split at isWrite
        next => cases isWrite
        next =>
          split at isWrite
          next => cases isWrite
          next =>
            cases isWrite
            exact answer

theorem plan_of_write {consolidator : Consolidator}
    (isWrite : planCompact consolidator body = .write draft) :
    (compactAccess isPrintable userId agentId owner).plan (.compact consolidator) (.ok body) =
      .ok (some draft) := by
  refine bind_eq_ok_iff.mpr ⟨body, rfl, ?_⟩
  rw [isWrite]
  rfl

/-- The removal of the only entry. -/
theorem plan_remove_only (only : splitEntries body = [body]) :
    (compactAccess isPrintable userId agentId owner).plan (.tool (.remove body)) (.ok body) =
      .ok (some []) := by
  show removeEntry isPrintable body (splitEntries body) = _
  have found : isIn body body = true := decide_eq_true (List.infix_refl _)
  rw [only]
  unfold removeEntry matchOf
  rw [List.findIdxs_cons, found]
  rfl

/-- A write leaves the entries of its list, whoever writes. -/
theorem text_of_write {work : MemoryWork}
    (stored : (compactAccess isPrintable userId agentId owner).write work draft documents =
      .ok after) : documentText after userId "memory.md" = joinEntries draft := by
  cases work with
  | tool call => exact MemoryRepo.documentText_put rfl (mapError_eq_ok_iff.mp stored)
  | compact consolidator => exact MemoryRepo.documentText_put rfl (mapError_eq_ok_iff.mp stored)

/-- The invariant: what is owed is there, and the writes under way are what their callers have
planned. -/
structure Keeps (isPrintable : Char → Bool) (userId agentId owner : UUID) (state : CompactState) :
    Prop where
  owed : ∀ entry ∈ state.owed,
    entry ∈ splitEntries (documentText state.base.store userId "memory.md")
  written : ∀ id work seen store, state.base.phase id = .written work seen store →
    ∃ draft before, (compactAccess isPrintable userId agentId owner).plan work seen =
        .ok (some draft) ∧
      (compactAccess isPrintable userId agentId owner).write work draft before = .ok store

variable {state : CompactState} {next : WorkState} {id : Nat} {writer : Option Nat}
  {consolidator : Consolidator}

theorem mem_owe (isOwed : entry ∈ state.owe call (.ok body)) :
    (entry ∈ state.owed ∧ call.takes body entry = false) ∨ entry ∈ call.adds := by
  unfold CompactState.owe at isOwed
  dsimp only at isOwed
  split at isOwed
  next =>
    rcases List.mem_append.mp isOwed with kept | added
    · obtain ⟨kept, spared⟩ := List.mem_filter.mp kept
      exact Or.inl ⟨kept, by simpa using spared⟩
    · exact Or.inr added
  next => cases isOwed

/-- The writes under way after an event that starts none. -/
theorem Keeps.written_move (keeps : Keeps isPrintable userId agentId owner state)
    {phase : Phase UserDocuments (Except MemoryRepoError String) MemoryWork MemoryError}
    (notWritten : ∀ work seen store, phase ≠ .written work seen store)
    (id : Option Nat) (work : MemoryWork) (seen : Except MemoryRepoError String)
    (store : UserDocuments)
    (isPhase : (state.base.move writer phase).phase id = .written work seen store) :
    ∃ draft before, (compactAccess isPrintable userId agentId owner).plan work seen =
        .ok (some draft) ∧
      (compactAccess isPrintable userId agentId owner).write work draft before = .ok store :=
  keeps.written id work seen store (written_of_move notWritten isPhase).2

theorem Keeps.tool (keeps : Keeps isPrintable userId agentId owner state)
    (taken : get (compactAccess isPrintable userId agentId owner) state.base (some id)
      (.tool call) = some next) :
    Keeps isPrintable userId agentId owner
      { base := next, owed := state.owedAfter isPrintable userId owner next (.tool id call) } := by
  rcases get_cases taken with ⟨raised, _, rfl⟩ | ⟨isPlan, rfl⟩ | ⟨draft, _, rfl⟩
  · refine ⟨fun entry isOwed => keeps.owed entry ?_,
      keeps.written_move fun _ _ _ same => by cases same⟩
    unfold CompactState.owedAfter at isOwed
    dsimp only at isOwed
    rw [phase_move_self] at isOwed
    exact isOwed
  · refine ⟨fun entry isOwed => ?_, keeps.written_move fun _ _ _ same => by cases same⟩
    unfold CompactState.owedAfter at isOwed
    change entry ∈ (match (state.base.move (some id) (.returned (.tool call) (.ok ()))).phase
      (some id) with | .returned _ (.ok _) => _ | _ => _) at isOwed
    rw [phase_move_self] at isOwed
    obtain ⟨_, body, isBody, isChange⟩ := plan_tool isPlan
    change (memoryAccess isPrintable userId owner .memory).read call state.base.store = _ at isBody
    have isText := (get_kindDoc isPrintable state.base.store userId .memory).symm.trans isBody
    dsimp only at isOwed
    rw [isBody] at isOwed
    rcases mem_owe isOwed with ⟨isOwed, _⟩ | added
    · exact keeps.owed entry isOwed
    · rw [← Except.ok.inj isText] at isChange
      exact mem_of_adds_unchanged isChange added
  · refine ⟨fun entry isOwed => keeps.owed entry ?_,
      keeps.written_move fun _ _ _ same => by cases same⟩
    unfold CompactState.owedAfter at isOwed
    dsimp only at isOwed
    rw [phase_move_self] at isOwed
    exact isOwed

/-- The worker owes nothing yet when it has read. -/
theorem Keeps.compact (keeps : Keeps isPrintable userId agentId owner state)
    (taken : get (compactAccess isPrintable userId agentId owner) state.base none
      (.compact consolidator) = some next) :
    Keeps isPrintable userId agentId owner
      { base := next,
        owed := state.owedAfter isPrintable userId owner next (.compact consolidator) } := by
  have nothing : ∀ entry ∈ state.owedAfter isPrintable userId owner next (.compact consolidator),
      entry ∈ splitEntries (documentText next.store userId "memory.md") :=
    fun entry isOwed => absurd isOwed List.not_mem_nil
  refine ⟨nothing, ?_⟩
  rcases get_cases taken with ⟨raised, _, rfl⟩ | ⟨_, rfl⟩ | ⟨draft, _, rfl⟩
  · exact keeps.written_move fun _ _ _ same => by cases same
  · exact keeps.written_move fun _ _ _ same => by cases same
  · exact keeps.written_move fun _ _ _ same => by cases same

theorem Keeps.put (keeps : Keeps isPrintable userId agentId owner state)
    (taken : put (compactAccess isPrintable userId agentId owner) state.base writer = some next) :
    Keeps isPrintable userId agentId owner
      { base := next, owed := state.owedAfter isPrintable userId owner next (.put writer) } := by
  obtain ⟨work, seen, draft, _, _, isPlan, outcome⟩ := put_cases taken
  rcases outcome with ⟨raised, _, rfl⟩ | ⟨store, stored, rfl⟩
  · exact ⟨keeps.owed, keeps.written_move fun _ _ _ same => by cases same⟩
  · refine ⟨keeps.owed, fun other otherWork otherSeen otherStore isPhase => ?_⟩
    change (state.base.move writer _).phase other = _ at isPhase
    by_cases same : other = writer
    · rw [same, phase_move_self] at isPhase
      cases isPhase
      exact ⟨draft, state.base.store, isPlan, stored⟩
    · rw [phase_move_other same] at isPhase
      exact keeps.written other otherWork otherSeen otherStore isPhase

/-- The step that matters: the text a commit makes visible has what is owed after it. -/
theorem Keeps.commit (keeps : Keeps isPrintable userId agentId owner state)
    (covers : Covers state (.commit writer))
    (taken : commit state.base writer = some next) :
    Keeps isPrintable userId agentId owner
      { base := next, owed := state.owedAfter isPrintable userId owner next (.commit writer) } := by
  obtain ⟨work, seen, store, isWritten, rfl⟩ := commit_cases taken
  obtain ⟨draft, before, isPlan, stored⟩ := keeps.written writer work seen store isWritten
  refine ⟨fun entry isOwed => ?_, keeps.written_move fun _ _ _ same => by cases same⟩
  show entry ∈ splitEntries (documentText store userId "memory.md")
  rw [text_of_write stored]
  unfold CompactState.owedAfter at isOwed
  dsimp only at isOwed
  rw [isWritten] at isOwed
  cases work with
  | tool call =>
    obtain ⟨_, body, rfl, isChange⟩ := plan_tool isPlan
    rcases mem_owe isOwed with ⟨isOwed, spared⟩ | added
    · rcases covers _ _ _ isWritten entry isOwed with wasRead | isGiven
      · exact mem_text_of_spared isChange wasRead spared
      · exact mem_text_of_writes isChange isGiven
    · exact mem_text_of_writes isChange (writes_of_adds added)
  | compact consolidator =>
    obtain ⟨body, rfl, answer⟩ := plan_compact isPlan
    obtain ⟨newEntries, sameAnswer, new, isNew, inNew⟩ := covers _ _ _ isWritten entry isOwed
    rw [answer] at sameAnswer
    cases sameAnswer
    rw [splitEntries_joinEntries]
    exact List.mem_flatMap.mpr ⟨new, isNew, inNew⟩

/-- The step lemma. -/
theorem keeps_step {next : CompactState} {event : CompactEvent}
    (keeps : Keeps isPrintable userId agentId owner state) (covers : Covers state event)
    (taken : compactStep isPrintable userId agentId owner state event = some next) :
    Keeps isPrintable userId agentId owner next := by
  obtain ⟨base, stepped, rfl⟩ := Option.map_eq_some_iff.mp taken
  cases event with
  | tool id call => exact keeps.tool stepped
  | compact consolidator => exact keeps.compact stepped
  | put writer => exact keeps.put stepped
  | commit writer => exact keeps.commit covers stepped

end Steps

/-- The worker loses nothing it has not seen if whoever commits a write has in it every entry
that was added since the worker's read. -/
theorem compaction_keeps (isPrintable : Char → Bool) (userId agentId owner : UUID)
    (documents : UserDocuments) (events : List CompactEvent)
    (meet : StepsMeet (compactStep isPrintable userId agentId owner) Covers
      (CompactState.initial documents) events) :
    Always (compactStep isPrintable userId agentId owner) (LosesNothing userId)
      (CompactState.initial documents) events := by
  have initial : Keeps isPrintable userId agentId owner (CompactState.initial documents) := by
    refine ⟨fun entry isOwed => absurd isOwed List.not_mem_nil,
      fun id work seen store isPhase => ?_⟩
    cases isPhase
  refine Always.mono _ (fun state keeps _ _ _ => keeps.owed) (always_of_invariant _
    (fun state event next keeps covers taken => keeps_step keeps covers taken) initial meet)

/-! ### A document that is over the threshold -/

@[irreducible]
def fillerText : String := String.ofList (List.replicate 1921 'a')

def overfull : UserDocuments :=
  fun _ _ => some { agentId := 1, content := fillerText, version := 1 }

def summarize : Consolidator := fun _ => some ["summary"]

theorem toList_fillerText : fillerText.toList = List.replicate 1921 'a' := by
  unfold fillerText
  exact String.toList_ofList

theorem length_fillerText : fillerText.length = 1921 := by
  rw [← String.length_toList, toList_fillerText, List.length_replicate]

theorem solid_replicate (count : Nat) :
    ∀ symbol ∈ List.replicate count 'a', ¬ isSpace symbol = true := by
  intro symbol member
  rw [List.eq_of_mem_replicate member]
  decide

theorem splitEntries_fillerText : splitEntries fillerText = [fillerText] := by
  have clean : memoryFormat.Clean fillerText.toList := by
    rw [toList_fillerText]
    refine ⟨trim_of_solid (solid_replicate 1921), fun isEmpty => ?_, fun separated => ?_⟩
    · cases isEmpty
    · exact absurd (List.eq_of_mem_replicate separated) (by decide)
  have read := toList_splitEntries fillerText
  rw [Format.entries_of_clean clean] at read
  exact List.map_injective_iff.mpr (fun _ _ => String.toList_injective) read

theorem planCompact_fillerText : planCompact summarize fillerText = .write ["summary"] := by
  unfold planCompact
  rw [compactSplitEntries_eq, splitEntries_fillerText]
  unfold belowThreshold
  rw [length_fillerText]
  rfl

theorem plan_fillerText :
    (compactAccess (fun _ => true) 7 1 1).plan (.compact summarize) (.ok fillerText) =
      .ok (some ["summary"]) := plan_of_write planCompact_fillerText

theorem compactStep_of {isPrintable : Char → Bool} {userId agentId owner : UUID}
    {state : CompactState} {event : CompactEvent} {base : WorkState}
    (taken : step (compactAccess isPrintable userId agentId owner) state.base event.statement =
      some base) :
    compactStep isPrintable userId agentId owner state event =
      some { base, owed := state.owedAfter isPrintable userId owner base event } := by
  unfold compactStep
  rw [taken]
  rfl

/-- The worker writes before the tool adds, and the second addition reads the first. -/
def addedAfterwards : List CompactEvent :=
  [.compact summarize, .put none, .commit none, .tool 1 (.add "tea"), .put (some 1),
    .commit (some 1), .tool 2 (.add "milk"), .put (some 2), .commit (some 2)]

theorem addedAfterwards_keeps :
    Always (compactStep (fun _ => true) 7 1 1) (LosesNothing 7) (CompactState.initial overfull)
      addedAfterwards := by
  refine compaction_keeps (fun _ => true) 7 1 1 overfull addedAfterwards ?_
  refine StepsMeet.cons _ trivial (compactStep_of (get_eq rfl rfl plan_fillerText))
    (StepsMeet.cons _ trivial (compactStep_of (put_eq rfl rfl plan_fillerText rfl))
      (StepsMeet.cons _ (fun work body store isWritten entry isOwed => ?_) rfl
        (StepsMeet.cons _ trivial rfl (StepsMeet.cons _ trivial rfl
          (StepsMeet.cons _ (fun work body store isWritten entry isOwed => ?_) rfl
            (StepsMeet.cons _ trivial rfl (StepsMeet.cons _ trivial rfl
              (StepsMeet.cons _ (fun work body store isWritten entry isOwed => ?_) rfl
                trivial))))))))
  · exact absurd isOwed List.not_mem_nil
  · exact absurd isOwed List.not_mem_nil
  · cases isWritten
    have isTea : entry = "tea" := List.mem_singleton.mp isOwed
    rw [isTea]
    exact Or.inl (by decide)

/-- While the model thinks, the tool removes the long entry and adds another. -/
def addedMeanwhile : List CompactEvent :=
  [.compact summarize, .tool 1 (.remove fillerText), .put (some 1), .commit (some 1),
    .tool 2 (.add "tea"), .put (some 2), .commit (some 2), .put none, .commit none]

theorem compaction_loses_addition :
    ¬ ∀ (isPrintable : Char → Bool) (userId agentId owner : UUID) (documents : UserDocuments)
      (events : List CompactEvent),
      Always (compactStep isPrintable userId agentId owner) (LosesNothing userId)
        (CompactState.initial documents) events := by
  intro assumed
  have start := assumed (fun _ => true) 7 1 1 overfull addedMeanwhile
  have read := start.2 _ (compactStep_of (get_eq rfl rfl plan_fillerText))
  have removed := read.2 _ (compactStep_of (get_eq rfl rfl
    (plan_remove_only splitEntries_fillerText)))
  have emptied := removed.2 _ (compactStep_of (put_eq rfl rfl
    (plan_remove_only splitEntries_fillerText) rfl))
  have added := ((((emptied.2 _ rfl).2 _ rfl).2 _ rfl).2 _ rfl)
  have summarized := added.2 _ (compactStep_of (put_eq rfl rfl plan_fillerText rfl))
  have isThere := (summarized.2 _ rfl).head _ _ _ rfl "tea" (List.mem_singleton_self _)
  exact absurd isThere (by decide)

end LiteHorse.Worker
