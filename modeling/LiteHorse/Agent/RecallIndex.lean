/-
This file models the recall index under the calls that change it at once: the backend indexes a
source or deletes one, the data of a user is purged, and the worker fills in the vectors that are
missing. Each call is a transaction of its own at read committed.

A `DELETE` finds its rows first, and then locks and deletes one after the other; it waits for a row
that another transaction has written and looks at it anew. A vector comes from a provider, which
may fail or leave texts out.
-/

import LiteHorse.Agent.RecallCloud
import LiteHorse.Library.RowVersions
import LiteHorse.Library.Runs

namespace LiteHorse.Agent.RecallIndex

open Providers Python Reindex Repositories RowVersions Runs

/-! ### Rows and calls -/

/-- A row of `memory_chunks` with the columns of its vector. -/
structure Row (Coordinate : Type) extends MemoryChunk where
  embedding : Option (List Coordinate)
  embedModel : String

inductive Call where
  | index (source : ChunkSource) (content : String)
  | delete (source : ChunkSource)
  | purge (userId : UUID)

/-- The `WHERE` of the `DELETE`. -/
def Call.covers (call : Call) (source : ChunkSource) : Bool :=
  match call with
  | .index own _ => source = own
  | .delete own => source = own
  | .purge userId => source.userId = userId

/-- What the call inserts. -/
def Call.chunks (tokenizer : Tokenizer) : Call → List String
  | .index _ content => chunkText tokenizer content
  | .delete _ => []
  | .purge _ => []

/-- The rows that one call has inserted, the n-th for the n-th chunk. -/
structure Generation where
  source : ChunkSource
  chunks : List String
  ids : List Nat
deriving DecidableEq

/-- The generation has the row with this id. -/
def Generation.Has (generation : Generation) (id : Nat) (chunk : MemoryChunk) : Prop :=
  chunk.toChunkSource = generation.source ∧ generation.ids[chunk.chunkIndex]? = some id ∧
    generation.chunks[chunk.chunkIndex]? = some chunk.content

/-- A batch of texts and the vectors that a provider has answered. -/
structure Answer (Coordinate : Type) where
  model : String
  texts : List String
  vectors : List (List Coordinate)

/-- The vector was answered for the text. -/
def Answer.Gives {Coordinate : Type} (answer : Answer Coordinate) (text model : String)
    (vector : List Coordinate) : Prop :=
  answer.model = model ∧
    ∃ index : Nat, answer.texts[index]? = some text ∧ answer.vectors[index]? = some vector

/-! ### Transactions -/

/-- Where a transaction stands. A call deletes the rows it has found, of the generations that were
there when it began, and inserts its chunks. The worker has listed rows without a vector and then
fills them in. -/
inductive Phase (Coordinate : Type) where
  | idle
  | clearing (call : Call) (seen : List Generation) (todo : List Nat) (deleted : Nat)
  | inserting (call : Call) (seen : List Generation) (generation : Generation)
      (vectors : List (List Coordinate)) (model : String)
  | listed (pending : List (Nat × String))
  | filling (model : String) (todo : List (Nat × List Coordinate)) (done : List Nat)
  | returned (count : Nat)
  | embedded (succeeded : Bool)
  | aborted

inductive Event (Tx Coordinate : Type) where
  | begin (tx : Tx) (call : Call)
  | deleteRow (tx : Tx) (id : Nat)
  /-- The provider answers, or `none` if it raises. -/
  | embed (tx : Tx) (model : String) (answer : Option (List (List Coordinate)))
  | insert (tx : Tx)
  | commit (tx : Tx)
  | list (tx : Tx) (userId agentId : UUID) (limit : Int)
  | embedListed (tx : Tx) (model : String) (answer : Option (List (List Coordinate)))
  | setEmbedding (tx : Tx)
  | commitFilled (tx : Tx)
  | abort (tx : Tx)

structure State (Tx Coordinate : Type) where
  rows : Table Tx Nat (Option (Row Coordinate))
  nextId : Nat
  phase : Tx → Phase Coordinate
  answers : List (Answer Coordinate)
  /-- What the calls that have committed did, in the order of the commits. -/
  changes : List (Change Generation)
  /-- The rows that the worker has filled in or found deleted. -/
  filled : List Nat

section System

variable {Tx Coordinate : Type}

def State.initial : State Tx Coordinate where
  rows := .still fun _ => none
  nextId := 1
  phase := fun _ => .idle
  answers := []
  changes := []
  filled := []

variable [DecidableEq Tx]

def State.move (state : State Tx Coordinate) (tx : Tx) (phase : Phase Coordinate) :
    State Tx Coordinate :=
  { state with phase := Function.update state.phase tx phase }

/-- The transaction writes a row and goes on. -/
def State.write (state : State Tx Coordinate) (tx : Tx) (id : Nat) (row : Option (Row Coordinate))
    (phase : Phase Coordinate) : State Tx Coordinate :=
  { state.move tx phase with rows := state.rows.write tx id row }

def State.answered (state : State Tx Coordinate) (model : String) (texts : List String)
    (answer : Option (List (List Coordinate))) : State Tx Coordinate :=
  { state with
    answers := state.answers ++ (answer.map fun vectors => { model, texts, vectors }).toList }

/-- The transaction commits. -/
def State.finish (state : State Tx Coordinate) (tx : Tx) (phase : Phase Coordinate)
    (changes : List (Change Generation)) (filled : List Nat) : State Tx Coordinate :=
  { state.move tx phase with
    rows := state.rows.commit tx
    changes := changes
    filled := filled }

def State.rollback (state : State Tx Coordinate) (tx : Tx) : State Tx Coordinate :=
  { state.move tx .aborted with rows := state.rows.rollback tx }

/-- The session begins and the `DELETE` finds its rows. -/
def begin (state : State Tx Coordinate) (tx : Tx) (call : Call) : Option (State Tx Coordinate) :=
  match state.phase tx with
  | .idle =>
    let todo := (List.range state.nextId).filter fun id =>
      (state.rows.view tx id).any fun row => call.covers row.toChunkSource
    some (state.move tx (.clearing call (liveAfter state.changes) todo 0))
  | _ => none

/-- The `DELETE` comes to a row, which may be deleted by now. -/
def deleteRow (state : State Tx Coordinate) (tx : Tx) (id : Nat) :
    Option (State Tx Coordinate) :=
  match state.phase tx with
  | .clearing call seen todo deleted =>
    if todo.contains id && (state.rows id).freeFor tx then
      let rest := todo.filter (· ≠ id)
      if (state.rows.view tx id).any fun row => call.covers row.toChunkSource then
        some (state.write tx id none (.clearing call seen rest (deleted + 1)))
      else some (state.move tx (.clearing call seen rest deleted))
    else none
  | _ => none

/-- `embed_batch` of the chunks. Without an answer no row gets a vector. -/
def embed (tokenizer : Tokenizer) (state : State Tx Coordinate) (tx : Tx) (model : String)
    (answer : Option (List (List Coordinate))) : Option (State Tx Coordinate) :=
  match state.phase tx with
  | .clearing (.index source content) seen [] _ =>
    let chunks := chunkText tokenizer content
    if chunks.isEmpty then none
    else
      let vectors := answer.getD (chunks.map fun _ => [])
      some ((state.answered model chunks answer).move tx
        (.inserting (.index source content) seen { source, chunks, ids := [] } vectors model))
  | _ => none

/-- The row of the next chunk. -/
def Generation.nextRow {Coordinate : Type} (generation : Generation)
    (vectors : List (List Coordinate)) (model : String) : Option (Row Coordinate) :=
  let index := generation.ids.length
  generation.chunks[index]?.map fun content =>
    { generation.source with
      chunkIndex := index
      content := content
      embedding := vectors[index]?.filter fun vector => !vector.isEmpty
      embedModel := model }

/-- `MemoryChunkRepo.insert` -/
def insert (state : State Tx Coordinate) (tx : Tx) : Option (State Tx Coordinate) :=
  match state.phase tx with
  | .inserting call seen generation vectors model =>
    (generation.nextRow vectors model).map fun row =>
      let inserted := { generation with ids := generation.ids ++ [state.nextId] }
      { state.write tx state.nextId (some row) (.inserting call seen inserted vectors model) with
        nextId := state.nextId + 1 }
  | _ => none

/-- What the transaction has done once its last statement has run, and the count it returns. -/
def Phase.change (tokenizer : Tokenizer) :
    Phase Coordinate → Option (Change Generation × Nat)
  | .clearing call seen [] deleted =>
    if (call.chunks tokenizer).isEmpty then
      let count := match call with
        | .index _ _ => 0
        | _ => deleted
      some ({ seen, covers := fun generation => call.covers generation.source, added := none },
        count)
    else none
  | .inserting call seen generation _ _ =>
    if generation.ids.length = generation.chunks.length then
      some ({ seen, covers := fun generation => call.covers generation.source,
              added := some generation }, generation.chunks.length)
    else none
  | _ => none

def commit (tokenizer : Tokenizer) (state : State Tx Coordinate) (tx : Tx) :
    Option (State Tx Coordinate) :=
  ((state.phase tx).change tokenizer).map fun (change, count) =>
    state.finish tx (.returned count) (state.changes ++ [change]) state.filled

/-- `list_pending_embeddings` -/
def listPendingEmbeddings (state : State Tx Coordinate) (tx : Tx) (userId agentId : UUID)
    (limit : Nat) : List (Nat × String) :=
  ((List.range state.nextId).filterMap fun id =>
    (state.rows.view tx id).bind fun row =>
      if row.userId = userId ∧ row.agentId = agentId ∧ row.embedding.isNone then
        some (id, row.content)
      else none).take limit

/-- `run_embed` up to the provider. The database refuses a negative limit. -/
def list (state : State Tx Coordinate) (tx : Tx) (userId agentId : UUID) (limit : Int) :
    Option (State Tx Coordinate) :=
  match state.phase tx with
  | .idle =>
    if limit < 0 then some (state.rollback tx)
    else
      let pending := listPendingEmbeddings state tx userId agentId limit.toNat
      if pending.isEmpty then some (state.move tx (.embedded true))
      else some (state.move tx (.listed pending))
  | _ => none

/-- `embed_batch` of what was listed. An empty vector is left out, and so is a row without one. -/
def embedListed (state : State Tx Coordinate) (tx : Tx) (model : String)
    (answer : Option (List (List Coordinate))) : Option (State Tx Coordinate) :=
  match state.phase tx with
  | .listed pending =>
    match answer with
    | none => some (state.move tx (.embedded false))
    | some vectors =>
      let todo := ((pending.map Prod.fst).zip vectors).filter fun pair => !pair.2.isEmpty
      some ((state.answered model (pending.map Prod.snd) answer).move tx
        (.filling model todo []))
  | _ => none

/-- `set_embedding`, which waits for the lock of the row and may find it deleted. -/
def setEmbedding (state : State Tx Coordinate) (tx : Tx) : Option (State Tx Coordinate) :=
  match state.phase tx with
  | .filling model ((id, vector) :: rest) done =>
    if (state.rows id).freeFor tx then
      match state.rows.view tx id with
      | some row =>
        let filled := { row with embedding := some vector, embedModel := model }
        some (state.write tx id (some filled) (.filling model rest (id :: done)))
      | none => some (state.move tx (.filling model rest (id :: done)))
    else none
  | _ => none

def commitFilled (state : State Tx Coordinate) (tx : Tx) : Option (State Tx Coordinate) :=
  match state.phase tx with
  | .filling _ [] done =>
    some (state.finish tx (.embedded true) state.changes (done ++ state.filled))
  | _ => none

/-- A statement raises, or the connection goes away. -/
def abort (state : State Tx Coordinate) (tx : Tx) : Option (State Tx Coordinate) :=
  match state.phase tx with
  | .idle | .returned _ | .embedded _ | .aborted => none
  | _ => some (state.rollback tx)

def step (tokenizer : Tokenizer) (state : State Tx Coordinate) :
    Event Tx Coordinate → Option (State Tx Coordinate)
  | .begin tx call => begin state tx call
  | .deleteRow tx id => deleteRow state tx id
  | .embed tx model answer => embed tokenizer state tx model answer
  | .insert tx => insert state tx
  | .commit tx => commit tokenizer state tx
  | .list tx userId agentId limit => list state tx userId agentId limit
  | .embedListed tx model answer => embedListed state tx model answer
  | .setEmbedding tx => setEmbedding state tx
  | .commitFilled tx => commitFilled state tx
  | .abort tx => abort state tx

end System

/-! ### What is to be kept -/

section Kept

variable {Tx Coordinate : Type}

/-- The vector of the row, if it has one, was answered for its content by its model. -/
def Vouched (answers : List (Answer Coordinate)) (row : Row Coordinate) : Prop :=
  ∀ vector, row.embedding = some vector →
    vector ≠ [] ∧ ∃ answer ∈ answers, answer.Gives row.content row.embedModel vector

structure RecallKept (tokenizer : Tokenizer) (state : State Tx Coordinate) : Prop where
  /-- The committed rows are those of the generations that the changes leave. -/
  rows : ∀ id chunk, (∃ row, state.rows.committed id = some row ∧ row.toMemoryChunk = chunk) ↔
    ∃ generation ∈ liveAfter state.changes, generation.Has id chunk
  /-- A generation has a row for each chunk, and shares none with another. -/
  complete : ∀ generation ∈ added state.changes,
    generation.ids.length = generation.chunks.length
  distinct : ((added state.changes).flatMap Generation.ids).Nodup
  /-- What adds a generation has indexed its source. -/
  indexed : ∀ change ∈ state.changes, ∀ generation, change.added = some generation →
    ∃ content, generation.chunks = chunkText tokenizer content ∧
      change.covers = fun other => (Call.index generation.source content).covers other.source
  /-- What a change has seen are all generations at a time before it. -/
  seen : ∀ before change after, state.changes = before ++ change :: after →
    ∃ earlier, earlier <+: before ∧ change.seen = liveAfter earlier
  vouched : ∀ id row, state.rows.committed id = some row → Vouched state.answers row
  filled : ∀ id ∈ state.filled, ∀ row, state.rows.committed id = some row →
    row.embedding.isSome = true

end Kept

end LiteHorse.Agent.RecallIndex
