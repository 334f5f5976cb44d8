/-
This file models the recall backend of the cloud turns as far as it writes: to index a source it
deletes the source's rows and inserts one for each chunk of the content. The embeddings, which
may be filled in later, are no part of the model.
-/

import LiteHorse.Providers.Chunker
import LiteHorse.Repositories.MemoryChunkRepo

namespace LiteHorse.Agent

open Providers Python Reindex Repositories

structure RecallCloudBackend where
  userId : UUID
  agentId : UUID

/-- A source of the backend's user and agent. -/
def RecallCloudBackend.source (backend : RecallCloudBackend) (sourceKind : String)
    (sourceId : Option String) : ChunkSource :=
  { userId := backend.userId, agentId := backend.agentId, sourceKind, sourceId }

/-- `RecallCloudBackend.index`, which succeeds. -/
def RecallCloudBackend.index (tokenizer : Tokenizer) (backend : RecallCloudBackend)
    (rows : List MemoryChunk) (sourceKind : String) (sourceId : Option String)
    (content : String) : List MemoryChunk :=
  let chunks := chunkText tokenizer content
  let source := backend.source sourceKind sourceId
  let rows := MemoryChunkRepo.deleteSource rows source
  if chunks.isEmpty then rows
  else
    chunks.zipIdx.foldl (fun rows (chunk, chunkIndex) =>
      MemoryChunkRepo.insert rows source chunkIndex chunk) rows

theorem RecallCloudBackend.index_eq (tokenizer : Tokenizer) (backend : RecallCloudBackend)
    (rows : List MemoryChunk) (sourceKind : String) (sourceId : Option String)
    (content : String) :
    backend.index tokenizer rows sourceKind sourceId content =
      replace MemoryChunk.toChunkSource rows (backend.source sourceKind sourceId)
        (chunkRows (backend.source sourceKind sourceId) (chunkText tokenizer content)) := by
  unfold RecallCloudBackend.index
  dsimp only
  split
  next noChunks =>
    rw [List.isEmpty_iff.mp noChunks]
    exact (List.append_nil _).symm
  next => exact foldl_insert _ _ _

end LiteHorse.Agent
