/-
This file models the rows of the recall index and the two statements that change them: a source's
rows are deleted and its chunks inserted.
-/

import LiteHorse.Library.Reindex
import LiteHorse.Storage.Db

namespace LiteHorse.Repositories

open Python Reindex Storage

/-- What a row of `memory_chunks` comes from. -/
structure ChunkSource where
  userId : UUID
  agentId : UUID
  sourceKind : String
  sourceId : Option String
deriving DecidableEq

/-- A row of `memory_chunks`. -/
structure MemoryChunk extends ChunkSource where
  chunkIndex : Nat
  content : String

/-- `MemoryChunkRepo.delete_source`, in a transaction of the source's user and agent. -/
def MemoryChunkRepo.deleteSource (rows : List MemoryChunk) (source : ChunkSource) :
    List MemoryChunk :=
  rows.filter fun row => row.toChunkSource ≠ source

/-- `MemoryChunkRepo.insert` -/
def MemoryChunkRepo.insert (rows : List MemoryChunk) (source : ChunkSource) (chunkIndex : Nat)
    (content : String) : List MemoryChunk :=
  rows ++ [{ source with chunkIndex, content }]

/-- The rows of the chunks of a source. -/
def chunkRows (source : ChunkSource) (chunks : List String) : List MemoryChunk :=
  chunks.zipIdx.map fun (content, chunkIndex) => { source with chunkIndex, content }

theorem mem_chunkRows {source : ChunkSource} {chunks : List String} {row : MemoryChunk}
    (member : row ∈ chunkRows source chunks) :
    row.toChunkSource = source ∧ row.content ∈ chunks := by
  obtain ⟨⟨content, index⟩, isChunk, rfl⟩ := List.mem_map.mp member
  exact ⟨rfl, List.fst_mem_of_mem_zipIdx isChunk⟩

theorem exists_mem_chunkRows (source : ChunkSource) {chunks : List String} {chunk : String}
    (member : chunk ∈ chunks) : ∃ row ∈ chunkRows source chunks, row.content = chunk := by
  obtain ⟨index, inside, same⟩ := List.mem_iff_getElem.mp member
  refine ⟨{ source with chunkIndex := index, content := chunk }, ?_, rfl⟩
  exact List.mem_map.mpr ⟨(chunk, index), List.mk_mem_zipIdx_iff_getElem?.mpr
    (List.getElem?_eq_some_iff.mpr ⟨inside, same⟩), rfl⟩

/-- The inserts of the chunks, one after the other, append the rows. -/
theorem foldl_insert (rows : List MemoryChunk) (source : ChunkSource) (chunks : List String) :
    (chunks.zipIdx.foldl (fun rows (content, chunkIndex) =>
      MemoryChunkRepo.insert rows source chunkIndex content) rows) =
        rows ++ chunkRows source chunks := by
  unfold chunkRows
  generalize chunks.zipIdx = numbered
  induction numbered generalizing rows with
  | nil => exact (List.append_nil rows).symm
  | cons first rest inductionHypothesis =>
    rw [List.foldl_cons, inductionHypothesis, List.map_cons]
    exact List.append_assoc rows [_] _

end LiteHorse.Repositories
