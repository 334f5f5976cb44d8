/-
This file is about the recall rows of memory.md. The memory tool indexes the whole document
anew after each of its changes, under no source id; the compaction indexes the entries it has
written, each under a source id with its number. Both delete the rows of the source id they
index, and no others.

`index_agrees_iff` says when every row is a chunk of the document: as long as the rows that a
step does not delete are chunks of the text it leaves.
-/

import LiteHorse.Agent.RecallCloud
import LiteHorse.Worker.Compact

namespace LiteHorse.Worker

open Agent Delimited Patterns Providers Python Reindex Repositories Runs Security Storage

/-! ### The memory tool -/

structure IndexState where
  documents : UserDocuments
  chunks : List MemoryChunk

/-- The tool asks for the texts that the call needs. -/
def isGiven : MemoryCall → Bool
  | .add content => content ≠ ""
  | .replace old new => old ≠ "" && new ≠ ""
  | .remove old => old ≠ ""

/-- `source_kind` -/
def sourceKindOf : MemoryKind → String
  | .memory => "memory_md"
  | .user => "user_md"

/-- The source id of an entry the compaction has written. -/
def compactSourceId (idx : Nat) : String := "compact-" ++ toString idx

section System

variable (isPrintable : Char → Bool) (tokenizer : Tokenizer) (userId agentId owner : UUID)

/-- `_reindex_memory_doc` -/
def reindexMemoryDoc (kind : MemoryKind) (state : IndexState) : IndexState :=
  match MemoryCloudBackend.get isPrintable { userId } state.documents kind with
  | .error _ => state
  | .ok body =>
    { state with
      chunks := RecallCloudBackend.index tokenizer { userId, agentId } state.chunks
        (sourceKindOf kind) none body }

/-- `memory_tool`, whose other outcomes are answers that change nothing. -/
def memoryTool (kind : MemoryKind) (state : IndexState) (call : MemoryCall) : IndexState :=
  if isGiven call then
    match MemoryCloudBackend.call isPrintable { userId } state.documents owner kind call with
    | .error _ => state
    | .ok documents =>
      reindexMemoryDoc isPrintable tokenizer userId agentId kind { state with documents }
  else state

/-- The loop of `run_compact` over the new entries. -/
def indexEntries (rows : List MemoryChunk) (newEntries : List String) : List MemoryChunk :=
  newEntries.zipIdx.foldl (fun rows (entry, idx) =>
    RecallCloudBackend.index tokenizer { userId, agentId } rows "memory_md"
      (some (compactSourceId idx)) entry) rows

/-- `run_compact`, with what it returns to the queue. -/
def runCompact (consolidator : Consolidator) (state : IndexState) :
    Except MemoryRepoError (IndexState × Bool) := do
  let session := dbSession (some userId) (some agentId)
  let body ← MemoryRepo.get isPrintable state.documents session "memory.md"
  match planCompact consolidator body with
  | .leave returned => return (state, returned)
  | .write newEntries =>
    let documents ← MemoryRepo.put isPrintable state.documents session owner "memory.md"
      (compactJoinEntries newEntries)
    return ({ documents, chunks := indexEntries tokenizer userId agentId state.chunks newEntries },
      true)

/-- A call of the memory tool for memory.md, or a compaction. -/
inductive IndexEvent where
  | tool (call : MemoryCall)
  | compact (consolidator : Consolidator)

def indexStep (state : IndexState) : IndexEvent → Option IndexState
  | .tool call =>
    some (memoryTool isPrintable tokenizer userId agentId owner .memory state call)
  | .compact consolidator =>
    match runCompact isPrintable tokenizer userId agentId owner consolidator state with
    | .error _ => some state
    | .ok (next, _) => some next

/-- The chunks of the whole text and of its entries. -/
def documentChunks (body : String) : List String :=
  chunkText tokenizer body ++ (splitEntries body).flatMap (chunkText tokenizer)

def IndexState.body (state : IndexState) : String :=
  documentText state.documents userId "memory.md"

/-- The rows of memory.md. -/
def IndexState.rows (state : IndexState) : List MemoryChunk :=
  state.chunks.filter fun row =>
    row.userId = userId && row.agentId = agentId && row.sourceKind = "memory_md"

/-- Every row of memory.md is a chunk of the document. -/
def IndexAgrees (state : IndexState) : Prop :=
  ∀ row ∈ state.rows userId agentId, row.content ∈ documentChunks tokenizer (state.body userId)

/-- The entries that a compaction writes in the state. -/
def Writes (state : IndexState) (consolidator : Consolidator) (newEntries : List String) : Prop :=
  ∃ body documents, MemoryRepo.get isPrintable state.documents
      (dbSession (some userId) (some agentId)) "memory.md" = .ok body ∧
    planCompact consolidator body = .write newEntries ∧
      MemoryRepo.put isPrintable state.documents (dbSession (some userId) (some agentId)) owner
        "memory.md" (compactJoinEntries newEntries) = .ok documents

/-- The rows that the step does not delete are chunks of the text it leaves. For a call of the
tool these are the rows of earlier compactions. For a compaction that writes they are the rows of
the tool and those of earlier entries with higher numbers, and the entries' own chunks have to be
chunks of the joined text. -/
def LeavesNoStale (state : IndexState) : IndexEvent → Prop
  | .tool call => isGiven call → ∀ after,
      call.textAfter isPrintable .memory (state.body userId) = .ok after →
        ∀ row ∈ state.rows userId agentId, row.sourceId ≠ none →
          row.content ∈ documentChunks tokenizer (after.getD (state.body userId))
  | .compact consolidator => ∀ newEntries,
      Writes isPrintable userId agentId owner state consolidator newEntries →
        (∀ row ∈ state.rows userId agentId,
            (∀ idx < newEntries.length, row.sourceId ≠ some (compactSourceId idx)) →
              row.content ∈ documentChunks tokenizer (compactJoinEntries newEntries)) ∧
          ∀ entry ∈ newEntries, ∀ chunk ∈ chunkText tokenizer entry,
            chunk ∈ documentChunks tokenizer (compactJoinEntries newEntries)

end System

/-! ### The rows after a step -/

section Steps

variable {isPrintable : Char → Bool} {tokenizer : Tokenizer} {userId agentId owner : UUID}
  {state next : IndexState} {row : MemoryChunk} {call : MemoryCall} {consolidator : Consolidator}
  {newEntries : List String} {body : String}

theorem compactSourceId_injective : Function.Injective compactSourceId := by
  intro first second same
  have digits : first.repr.toList = second.repr.toList := by
    have lists := congrArg String.toList same
    unfold compactSourceId at lists
    rw [String.toList_append, String.toList_append] at lists
    exact List.append_cancel_left lists
  rw [Nat.toList_repr, Nat.toList_repr] at digits
  rw [← Nat.ofDigitChars_ten_toDigits (n := first), digits, Nat.ofDigitChars_ten_toDigits]

/-- A source of memory.md. -/
def memorySource (userId agentId : UUID) (sourceId : Option String) : ChunkSource :=
  { userId, agentId, sourceKind := "memory_md", sourceId }

theorem memorySource_inj {first second : Option String} :
    memorySource userId agentId first = memorySource userId agentId second ↔ first = second :=
  ⟨fun same => congrArg ChunkSource.sourceId same, fun same => congrArg _ same⟩

theorem mem_rows : row ∈ state.rows userId agentId ↔
    row ∈ state.chunks ∧ row.toChunkSource = memorySource userId agentId row.sourceId := by
  unfold IndexState.rows memorySource
  rw [List.mem_filter]
  refine and_congr Iff.rfl ?_
  rw [Bool.and_eq_true, Bool.and_eq_true, decide_eq_true_iff, decide_eq_true_iff,
    decide_eq_true_iff]
  constructor
  · rintro ⟨⟨isUser, isAgent⟩, isKind⟩
    rw [← isUser, ← isAgent, ← isKind]
  · intro same
    exact ⟨⟨congrArg ChunkSource.userId same, congrArg ChunkSource.agentId same⟩,
      congrArg ChunkSource.sourceKind same⟩

/-- The rows of the entries a compaction indexes. -/
def entrySources (tokenizer : Tokenizer) (userId agentId : UUID) (newEntries : List String) :
    List (ChunkSource × List MemoryChunk) :=
  newEntries.zipIdx.map fun numbered =>
    (memorySource userId agentId (some (compactSourceId numbered.2)),
      chunkRows (memorySource userId agentId (some (compactSourceId numbered.2)))
        (chunkText tokenizer numbered.1))

theorem indexEntries_eq (rows : List MemoryChunk) :
    indexEntries tokenizer userId agentId rows newEntries =
      replaceAll MemoryChunk.toChunkSource rows
        (entrySources tokenizer userId agentId newEntries) := by
  unfold indexEntries entrySources
  generalize newEntries.zipIdx = numbered
  induction numbered generalizing rows with
  | nil => rfl
  | cons first rest inductionHypothesis =>
    obtain ⟨entry, idx⟩ := first
    rw [List.foldl_cons, inductionHypothesis]
    dsimp only
    rw [RecallCloudBackend.index_eq]
    rfl

theorem entrySources_keys :
    (entrySources tokenizer userId agentId newEntries).map Prod.fst =
      (List.range' 0 newEntries.length).map fun idx =>
        memorySource userId agentId (some (compactSourceId idx)) := by
  unfold entrySources
  rw [List.map_map, ← List.zipIdx_map_snd 0 newEntries, List.map_map]
  rfl

theorem mem_indexEntries {rows : List MemoryChunk} :
    row ∈ indexEntries tokenizer userId agentId rows newEntries ↔
      (row ∈ rows ∧ row.toChunkSource ∉
          (entrySources tokenizer userId agentId newEntries).map Prod.fst) ∨
        ∃ numbered ∈ newEntries.zipIdx,
          row ∈ chunkRows (memorySource userId agentId (some (compactSourceId numbered.2)))
            (chunkText tokenizer numbered.1) := by
  have entryRows : (∃ indexed ∈ entrySources tokenizer userId agentId newEntries,
      row ∈ indexed.2) ↔ ∃ numbered ∈ newEntries.zipIdx,
        row ∈ chunkRows (memorySource userId agentId (some (compactSourceId numbered.2)))
          (chunkText tokenizer numbered.1) := by
    unfold entrySources
    simp only [List.mem_map, exists_exists_and_eq_and]
  rw [indexEntries_eq, ← entryRows]
  refine mem_replaceAll (fun indexed isSource row member => ?_) ?_
  · obtain ⟨⟨entry, idx⟩, _, rfl⟩ := List.mem_map.mp isSource
    dsimp only at member ⊢
    exact (mem_chunkRows member).1
  · rw [entrySources_keys]
    refine List.Nodup.map (fun first second same => ?_) List.nodup_range'
    exact compactSourceId_injective (Option.some.inj (memorySource_inj.mp same))

/-- A row of memory.md is kept if its source id is none of the new entries'. -/
theorem kept_iff (isMemory : row.toChunkSource = memorySource userId agentId row.sourceId) :
    row.toChunkSource ∉ (entrySources tokenizer userId agentId newEntries).map Prod.fst ↔
      ∀ idx < newEntries.length, row.sourceId ≠ some (compactSourceId idx) := by
  rw [entrySources_keys, isMemory, List.mem_map, not_exists]
  refine forall_congr' fun idx => ?_
  rw [List.mem_range'_1, Nat.zero_add, not_and, memorySource_inj, eq_comm,
    and_iff_right idx.zero_le]
  exact Iff.rfl

/-- What a call of the tool that succeeds leaves. -/
theorem agrees_tool_iff (agentRows : next.chunks = RecallCloudBackend.index tokenizer
      { userId, agentId } state.chunks "memory_md" none (next.body userId)) :
    IndexAgrees tokenizer userId agentId next ↔
      ∀ row ∈ state.rows userId agentId, row.sourceId ≠ none →
        row.content ∈ documentChunks tokenizer (next.body userId) := by
  have isIndexed : ∀ row, row ∈ next.chunks ↔
      (row ∈ state.chunks ∧ row.toChunkSource ≠ memorySource userId agentId none) ∨
        row ∈ chunkRows (memorySource userId agentId none)
          (chunkText tokenizer (next.body userId)) := by
    intro row
    rw [agentRows, RecallCloudBackend.index_eq]
    exact mem_replace
  constructor
  · intro agrees row isRow hasSource
    obtain ⟨inChunks, isMemory⟩ := mem_rows.mp isRow
    refine agrees row (mem_rows.mpr ⟨(isIndexed row).mpr (Or.inl ⟨inChunks, ?_⟩), isMemory⟩)
    rw [isMemory]
    exact fun same => hasSource (memorySource_inj.mp same)
  · intro kept row isRow
    obtain ⟨inChunks, isMemory⟩ := mem_rows.mp isRow
    rcases (isIndexed row).mp inChunks with ⟨inChunks, otherSource⟩ | isNew
    · refine kept row (mem_rows.mpr ⟨inChunks, isMemory⟩) fun noSource => otherSource ?_
      rw [isMemory, noSource]
    · exact List.mem_append_left _ (mem_chunkRows isNew).2

/-- What a compaction that writes leaves. -/
theorem agrees_compact_iff
    (entryRows : next.chunks = indexEntries tokenizer userId agentId state.chunks newEntries) :
    IndexAgrees tokenizer userId agentId next ↔
      (∀ row ∈ state.rows userId agentId,
          (∀ idx < newEntries.length, row.sourceId ≠ some (compactSourceId idx)) →
            row.content ∈ documentChunks tokenizer (next.body userId)) ∧
        ∀ entry ∈ newEntries, ∀ chunk ∈ chunkText tokenizer entry,
          chunk ∈ documentChunks tokenizer (next.body userId) := by
  constructor
  · refine fun agrees => ⟨fun row isRow isKept => ?_, fun entry isEntry chunk isChunk => ?_⟩
    · obtain ⟨inChunks, isMemory⟩ := mem_rows.mp isRow
      refine agrees row (mem_rows.mpr ⟨?_, isMemory⟩)
      rw [entryRows, mem_indexEntries]
      exact Or.inl ⟨inChunks, (kept_iff isMemory).mpr isKept⟩
    · obtain ⟨idx, inside, same⟩ := List.mem_iff_getElem.mp isEntry
      obtain ⟨row, isNew, rfl⟩ := exists_mem_chunkRows
        (memorySource userId agentId (some (compactSourceId idx))) isChunk
      refine agrees row (mem_rows.mpr ⟨?_, ?_⟩)
      · rw [entryRows, mem_indexEntries]
        refine Or.inr ⟨(entry, idx), ?_, isNew⟩
        exact List.mk_mem_zipIdx_iff_getElem?.mpr (List.getElem?_eq_some_iff.mpr ⟨inside, same⟩)
      · have isSource := (mem_chunkRows isNew).1
        exact isSource.trans (congrArg (memorySource userId agentId)
          (congrArg ChunkSource.sourceId isSource).symm)
  · rintro ⟨kept, new⟩ row isRow
    obtain ⟨inChunks, isMemory⟩ := mem_rows.mp isRow
    rw [entryRows, mem_indexEntries] at inChunks
    rcases inChunks with ⟨inChunks, isKept⟩ | ⟨numbered, isEntry, isNew⟩
    · exact kept row (mem_rows.mpr ⟨inChunks, isMemory⟩) ((kept_iff isMemory).mp isKept)
    · exact new numbered.1 (List.fst_mem_of_mem_zipIdx isEntry) _ (mem_chunkRows isNew).2

theorem reindexMemoryDoc_eq (kind : MemoryKind) :
    reindexMemoryDoc isPrintable tokenizer userId agentId kind state =
      { state with
        chunks := RecallCloudBackend.index tokenizer { userId, agentId } state.chunks
          (sourceKindOf kind) none (documentText state.documents userId (kindDoc kind)) } := by
  unfold reindexMemoryDoc MemoryCloudBackend.get
  rw [get_kindDoc]

variable (tokenizer agentId owner state) in
/-- The rows of a successful call of the tool are those of the text it has left. -/
theorem memoryTool_of_ok {after : Option String} (given : isGiven call = true)
    (succeeds : call.textAfter isPrintable .memory (state.body userId) = .ok after) :
    ∃ next, indexStep isPrintable tokenizer userId agentId owner state (.tool call) = some next ∧
      next.documents = written state.documents userId owner .memory after ∧
      next.body userId = after.getD (state.body userId) ∧
      next.chunks = RecallCloudBackend.index tokenizer { userId, agentId } state.chunks
        "memory_md" none (next.body userId) := by
  have called : MemoryCloudBackend.call isPrintable { userId } state.documents owner .memory call =
      .ok (written state.documents userId owner .memory after) := by
    rw [MemoryCloudBackend.call_eq]
    show Except.map _ (call.textAfter isPrintable .memory (state.body userId)) = _
    rw [succeeds]
    rfl
  have isNext : memoryTool isPrintable tokenizer userId agentId owner .memory state call =
      { documents := written state.documents userId owner .memory after
        chunks := RecallCloudBackend.index tokenizer { userId, agentId } state.chunks "memory_md"
          none (documentText (written state.documents userId owner .memory after) userId
            "memory.md") } := by
    unfold memoryTool
    rw [if_pos given, called]
    exact reindexMemoryDoc_eq ..
  refine ⟨_, congrArg some isNext, rfl, documentText_written after, ?_⟩
  unfold IndexState.body
  dsimp only

theorem memoryTool_of_not (fails : isGiven call = false ∨
      ∃ raised, call.textAfter isPrintable .memory (state.body userId) = .error raised) :
    indexStep isPrintable tokenizer userId agentId owner state (.tool call) = some state := by
  refine congrArg some ?_
  unfold memoryTool
  rcases fails with notGiven | ⟨raised, fails⟩
  · rw [if_neg (ne_true_of_eq_false notGiven)]
  · have called : MemoryCloudBackend.call isPrintable { userId } state.documents owner .memory
        call = .error raised := by
      rw [MemoryCloudBackend.call_eq]
      show Except.map _ (call.textAfter isPrintable .memory (state.body userId)) = _
      rw [fails]
      rfl
    rw [called]
    exact ite_self state

variable (tokenizer) in
theorem runCompact_of_writes
    (writes : Writes isPrintable userId agentId owner state consolidator newEntries) :
    ∃ next, runCompact isPrintable tokenizer userId agentId owner consolidator state =
        .ok (next, true) ∧
      next.body userId = compactJoinEntries newEntries ∧
      next.chunks = indexEntries tokenizer userId agentId state.chunks newEntries := by
  obtain ⟨body, documents, isBody, isPlan, stored⟩ := writes
  refine ⟨{ documents, chunks := indexEntries tokenizer userId agentId state.chunks newEntries },
    bind_eq_ok_iff.mpr ⟨body, isBody, ?_⟩, MemoryRepo.documentText_put rfl stored, rfl⟩
  rw [isPlan]
  exact bind_eq_ok_iff.mpr ⟨documents, stored, rfl⟩

/-- A compaction that does not write changes nothing. -/
theorem runCompact_of_not_writes {returned : Bool}
    (noWrite : ∀ newEntries,
      ¬ Writes isPrintable userId agentId owner state consolidator newEntries)
    (run : runCompact isPrintable tokenizer userId agentId owner consolidator state =
      .ok (next, returned)) : next = state := by
  obtain ⟨body, isBody, run⟩ := bind_eq_ok_iff.mp run
  split at run
  next =>
    cases run
    rfl
  next newEntries isPlan =>
    obtain ⟨documents, stored, _⟩ := bind_eq_ok_iff.mp run
    exact absurd ⟨body, documents, isBody, isPlan, stored⟩ (noWrite newEntries)

theorem compact_of_not_writes
    (noWrite : ∀ newEntries,
      ¬ Writes isPrintable userId agentId owner state consolidator newEntries) :
    indexStep isPrintable tokenizer userId agentId owner state (.compact consolidator) =
      some state := by
  unfold indexStep
  dsimp only
  cases run : runCompact isPrintable tokenizer userId agentId owner consolidator state with
  | error raised => rfl
  | ok result => exact congrArg some (runCompact_of_not_writes noWrite run)

theorem writes_unique {otherEntries : List String}
    (writes : Writes isPrintable userId agentId owner state consolidator newEntries)
    (others : Writes isPrintable userId agentId owner state consolidator otherEntries) :
    newEntries = otherEntries := by
  obtain ⟨body, _, isBody, isPlan, _⟩ := writes
  obtain ⟨other, _, isOther, otherPlan, _⟩ := others
  rw [isBody] at isOther
  cases isOther
  rw [isPlan] at otherPlan
  exact CompactPlan.write.inj otherPlan

/-- After a step from a state in which the index agrees with the document, it agrees again
exactly if the step leaves no stale row. -/
theorem agrees_step_iff {event : IndexEvent} (agrees : IndexAgrees tokenizer userId agentId state) :
    ∃ next, indexStep isPrintable tokenizer userId agentId owner state event = some next ∧
      (IndexAgrees tokenizer userId agentId next ↔
        LeavesNoStale isPrintable tokenizer userId agentId owner state event) := by
  cases event with
  | tool call =>
    by_cases given : isGiven call = true
    · cases outcome : call.textAfter isPrintable .memory (state.body userId) with
      | error raised =>
        refine ⟨state, memoryTool_of_not (Or.inr ⟨raised, outcome⟩), iff_of_true agrees ?_⟩
        intro _ after succeeds
        rw [outcome] at succeeds
        cases succeeds
      | ok after =>
        obtain ⟨next, taken, _, isBody, agentRows⟩ := memoryTool_of_ok tokenizer agentId owner _
          given outcome
        refine ⟨next, taken, (agrees_tool_iff agentRows).trans ?_⟩
        rw [isBody]
        refine ⟨fun kept _ other succeeds => ?_, fun leaves => leaves given after outcome⟩
        rw [outcome] at succeeds
        cases succeeds
        exact kept
    · refine ⟨state, memoryTool_of_not (Or.inl (Bool.eq_false_iff.mpr given)),
        iff_of_true agrees fun isGiven => absurd isGiven given⟩
  | compact consolidator =>
    by_cases writes : ∃ newEntries,
        Writes isPrintable userId agentId owner state consolidator newEntries
    · obtain ⟨newEntries, writes⟩ := writes
      obtain ⟨next, run, isBody, entryRows⟩ := runCompact_of_writes tokenizer writes
      have taken : indexStep isPrintable tokenizer userId agentId owner state
          (.compact consolidator) = some next := by
        unfold indexStep
        dsimp only
        rw [run]
      refine ⟨next, taken, (agrees_compact_iff entryRows).trans ?_⟩
      rw [isBody]
      refine ⟨fun both otherEntries others => ?_, fun leaves => leaves newEntries writes⟩
      rw [← writes_unique writes others]
      exact both
    · have noWrite := not_exists.mp writes
      refine ⟨state, compact_of_not_writes noWrite, iff_of_true agrees ?_⟩
      exact fun newEntries writes => absurd writes (noWrite newEntries)

end Steps

/-- The index agrees with the document in every state if and only if no step leaves a stale
row. -/
theorem index_agrees_iff (isPrintable : Char → Bool) (tokenizer : Tokenizer)
    (userId agentId owner : UUID) (state : IndexState)
    (agrees : IndexAgrees tokenizer userId agentId state) (events : List IndexEvent) :
    Always (indexStep isPrintable tokenizer userId agentId owner)
        (IndexAgrees tokenizer userId agentId) state events ↔
      StepsMeet (indexStep isPrintable tokenizer userId agentId owner)
        (LeavesNoStale isPrintable tokenizer userId agentId owner) state events :=
  always_iff_stepsMeet _ (fun _ _ agrees => agrees_step_iff agrees) agrees

/-! ### A compaction of a document that was not indexed -/

def charTokenizer : Tokenizer where
  encode := fun _ => none
  decode := fun _ => ""

theorem writes_overfull :
    Writes (fun _ => true) 7 1 1 { documents := overfull, chunks := [] } summarize ["summary"] :=
  ⟨fillerText, _, rfl, planCompact_fillerText, rfl⟩

/-- The rows of the summary's only entry. -/
theorem mem_summaryRows {tokenizer : Tokenizer} {state : IndexState} {row : MemoryChunk}
    (entryRows : state.chunks = indexEntries tokenizer 7 1 [] ["summary"]) :
    row ∈ state.chunks ↔
      row ∈ chunkRows (memorySource 7 1 (some (compactSourceId 0)))
        (chunkText tokenizer "summary") := by
  rw [entryRows, mem_indexEntries]
  simp

theorem chunk_of_entry {tokenizer : Tokenizer} {body entry chunk : String}
    (isEntry : entry ∈ splitEntries body) (isChunk : chunk ∈ chunkText tokenizer entry) :
    chunk ∈ documentChunks tokenizer body :=
  List.mem_append_right _ (List.mem_flatMap.mpr ⟨entry, isEntry, isChunk⟩)

section Summary

variable {state : IndexState} (noRows : state.chunks = [])
  (writes : Writes (fun _ => true) 7 1 1 state summarize ["summary"])

include noRows

theorem agrees_of_no_rows : IndexAgrees charTokenizer 7 1 state := by
  intro row isRow
  have inChunks := (mem_rows.mp isRow).1
  rw [noRows] at inChunks
  cases inChunks

include writes

theorem summarized_of_no_rows :
    ∃ next, indexStep (fun _ => true) charTokenizer 7 1 1 state (.compact summarize) = some next ∧
      next.body 7 = "summary" ∧
        next.chunks = indexEntries charTokenizer 7 1 [] ["summary"] := by
  obtain ⟨next, run, isBody, entryRows⟩ := runCompact_of_writes charTokenizer writes
  rw [noRows] at entryRows
  refine ⟨next, ?_, isBody, entryRows⟩
  unfold indexStep
  dsimp only
  rw [run]

/-- An addition after the compaction leaves the summary in the document. -/
theorem summaryThenAdd_leaves :
    StepsMeet (indexStep (fun _ => true) charTokenizer 7 1 1)
      (LeavesNoStale (fun _ => true) charTokenizer 7 1 1) state
      [.compact summarize, .tool (.add "tea")] := by
  obtain ⟨summarized, taken, isBody, entryRows⟩ := summarized_of_no_rows noRows writes
  refine StepsMeet.cons _ ?_ taken ⟨?_, fun _ _ => trivial⟩
  · intro newEntries others
    rw [← writes_unique writes others]
    refine ⟨fun row isRow => ?_, fun entry isEntry chunk isChunk => ?_⟩
    · have inChunks := (mem_rows.mp isRow).1
      rw [noRows] at inChunks
      cases inChunks
    · rw [List.mem_singleton.mp isEntry] at isChunk
      exact chunk_of_entry (by decide) isChunk
  · intro _ after succeeds row isRow _
    rw [isBody] at succeeds
    cases succeeds
    have inChunks := (mem_rows.mp isRow).1
    have isThere : "summary" ∈ splitEntries (joinEntries (splitEntries "summary" ++ ["tea"])) := by
      decide
    exact chunk_of_entry isThere (mem_chunkRows ((mem_summaryRows entryRows).mp inChunks)).2

end Summary

theorem summaryThenAdd_agrees :
    Always (indexStep (fun _ => true) charTokenizer 7 1 1) (IndexAgrees charTokenizer 7 1)
      { documents := overfull, chunks := [] } [.compact summarize, .tool (.add "tea")] :=
  (index_agrees_iff (fun _ => true) charTokenizer 7 1 1 { documents := overfull, chunks := [] }
    (agrees_of_no_rows rfl) [.compact summarize, .tool (.add "tea")]).mpr
      (summaryThenAdd_leaves rfl writes_overfull)

/-! ### A document that the tool has written -/

theorem strip_fillerText : strip fillerText ≠ "" := by
  intro isBlank
  have noText := toList_strip fillerText
  rw [isBlank, toList_fillerText, trim_of_solid (solid_replicate 1921)] at noText
  cases noText

theorem add_fillerText :
    (MemoryCall.add fillerText).textAfter (fun _ => true) .memory "" = .ok (some fillerText) := by
  have accepted : checkUntrusted fillerText = .ok () := by
    have refuses : ∀ pat ∈ injectionPatterns, pat.compiled.repeats 'a' = false := by
      decide +kernel
    rw [checkUntrusted_ok_iff, toList_fillerText]
    refine ⟨fun char member => ?_, fun pat isPattern => ?_⟩
    · rw [List.eq_of_mem_replicate member]
      decide
    · exact not_found_replicate (refuses pat isPattern) 1921
  refine textAfter_add_first strip_fillerText accepted ?_ ?_
  · rw [length_fillerText]
    decide
  · rw [toList_fillerText]
    exact fun hasNul => absurd (List.eq_of_mem_replicate hasNul) (by decide)

/-- A window's length of the filler, its first chunk. -/
def fillerChunk : String := String.ofList (List.replicate 1024 'a')

theorem fillerChunk_ne {text : String} (short : text.toList.length < 1024) :
    fillerChunk ≠ text := by
  intro same
  unfold fillerChunk at same
  rw [← same, String.toList_ofList, List.length_replicate] at short
  exact lt_irrefl _ short

theorem fillerChunk_mem : fillerChunk ∈ chunkText charTokenizer fillerText := by
  refine take_mem_chunkText rfl strip_fillerText (String.toList_injective ?_) ?_
  · unfold fillerChunk
    rw [toList_strip, String.toList_ofList, String.toList_ofList, toList_fillerText,
      List.take_replicate]
    exact trim_of_solid (solid_replicate 1024)
  · exact fillerChunk_ne (by decide)

theorem documentChunks_summary {chunk : String}
    (isChunk : chunk ∈ documentChunks charTokenizer "summary") : chunk = "summary" := by
  have whole : chunkText charTokenizer "summary" = ["summary"] :=
    chunkText_short rfl (by decide) (by decide) (by decide)
  have isOnly : splitEntries "summary" = ["summary"] := by decide
  unfold documentChunks at isChunk
  rw [isOnly, List.flatMap_singleton, whole] at isChunk
  simpa using isChunk

/-- The document that the first addition leaves. -/
def filled : UserDocuments := written (fun _ _ => none) 7 1 .memory (some fillerText)

theorem writes_filled {state : IndexState} (isFilled : state.documents = filled) :
    Writes (fun _ => true) 7 1 1 state summarize ["summary"] := by
  unfold Writes
  rw [isFilled]
  exact ⟨fillerText, _, rfl, planCompact_fillerText, rfl⟩

/-- The tool has indexed the document under no source id, and the compaction leaves its rows. -/
theorem compacted_text_stays_indexed :
    ¬ ∀ (isPrintable : Char → Bool) (tokenizer : Tokenizer) (userId agentId owner : UUID)
        (state : IndexState), IndexAgrees tokenizer userId agentId state →
          ∀ events, Always (indexStep isPrintable tokenizer userId agentId owner)
            (IndexAgrees tokenizer userId agentId) state events := by
  intro assumed
  have given : isGiven (.add fillerText) = true := by
    refine decide_eq_true fun isEmpty => strip_fillerText ?_
    rw [isEmpty]
    rfl
  let empty : IndexState := { documents := fun _ _ => none, chunks := [] }
  obtain ⟨added, firstStep, isFilled, isBody, toolRows⟩ :=
    memoryTool_of_ok charTokenizer 1 1 empty given add_fillerText
  obtain ⟨compacted, run, isSummary, entryRows⟩ := runCompact_of_writes charTokenizer
    (writes_filled isFilled)
  have secondStep : indexStep (fun _ => true) charTokenizer 7 1 1 added (.compact summarize) =
      some compacted := by
    unfold indexStep
    dsimp only
    rw [run]
  have always := assumed (fun _ => true) charTokenizer 7 1 1
    { documents := fun _ _ => none, chunks := [] } (agrees_of_no_rows rfl)
    [.tool (.add fillerText), .compact summarize]
  have agrees := ((always.2 _ firstStep).2 _ secondStep).head
  obtain ⟨row, isNew, isChunk⟩ := exists_mem_chunkRows (memorySource 7 1 none) fillerChunk_mem
  have isRow : row ∈ added.rows 7 1 := by
    have isSource := (mem_chunkRows isNew).1
    refine mem_rows.mpr ⟨?_, ?_⟩
    · rw [toolRows, isBody, RecallCloudBackend.index_eq]
      exact mem_replace.mpr (Or.inr isNew)
    · rw [congrArg ChunkSource.sourceId isSource]
      exact isSource
  have stale := ((agrees_compact_iff entryRows).mp agrees).1 row isRow fun idx _ same => by
    rw [congrArg ChunkSource.sourceId (mem_chunkRows isNew).1] at same
    cases same
  rw [isSummary, isChunk] at stale
  exact fillerChunk_ne (by decide) (documentChunks_summary stale)

end LiteHorse.Worker
