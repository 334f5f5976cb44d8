/-
This file states the invariant of the recall index, and shows for the statements of any call what
keeps it: a transaction goes on, writes a row, is rolled back or commits.
-/

import LiteHorse.Agent.RecallKnows

namespace LiteHorse.Agent.RecallIndex

open Providers Python Reindex Repositories RowVersions Runs

/-! ### The invariant -/

section Invariant

variable {Tx Coordinate : Type} [DecidableEq Tx]

def State.sight (state : State Tx Coordinate) (tx : Tx) : Sight Coordinate where
  committed := state.rows.committed
  held := state.rows.held tx
  view := state.rows.view tx

structure Invariant (tokenizer : Tokenizer) (state : State Tx Coordinate) : Prop
    extends RecallKept tokenizer state where
  knows : ∀ tx, (state.phase tx).Knows tokenizer state.changes state.answers (state.sight tx)
  drafts : ∀ tx id row, state.rows.held tx id = true → state.rows.view tx id = some row →
    Vouched state.answers row
  used : ∀ generation ∈ added state.changes, ∀ id ∈ generation.ids, id < state.nextId
  own : ∀ tx, ∀ id ∈ (state.phase tx).own, id < state.nextId ∧
    ∀ generation ∈ added state.changes, id ∉ generation.ids
  ownDistinct : ∀ tx, (state.phase tx).own.Nodup
  filledKnown : ∀ id ∈ state.filled, ∃ generation ∈ added state.changes, id ∈ generation.ids

variable {tokenizer : Tokenizer} {state next : State Tx Coordinate} {tx other : Tx} {id : Nat}

theorem invariant_initial : Invariant tokenizer (State.initial : State Tx Coordinate) where
  rows id chunk := by
    constructor
    · rintro ⟨row, isRow, _⟩
      cases isRow
    · rintro ⟨generation, member, _⟩
      cases member
  complete _ member := absurd member List.not_mem_nil
  distinct := List.nodup_nil
  indexed _ member := absurd member List.not_mem_nil
  seen before change after same := by cases before <;> cases same
  vouched _ _ isRow := by cases isRow
  filled _ member := absurd member List.not_mem_nil
  knows _ _ := rfl
  drafts _ _ _ held := by cases held
  used _ member := absurd member List.not_mem_nil
  own _ _ member := absurd member List.not_mem_nil
  ownDistinct _ := List.nodup_nil
  filledKnown _ member := absurd member List.not_mem_nil

/-! ### Rows and their generations -/

theorem Generation.mem_of_has {generation : Generation} {chunk : MemoryChunk}
    (has : generation.Has id chunk) : id ∈ generation.ids :=
  List.mem_of_getElem? has.2.1

/-- A committed row is that of a generation. -/
theorem Invariant.has_of_committed (invariant : Invariant tokenizer state) {row : Row Coordinate}
    (isRow : state.rows.committed id = some row) :
    ∃ generation ∈ added state.changes, generation.Has id row.toMemoryChunk := by
  obtain ⟨generation, isLive, has⟩ :=
    (invariant.rows id row.toMemoryChunk).mp ⟨row, isRow, rfl⟩
  exact ⟨generation, added_of_liveAfter generation isLive, has⟩

theorem Invariant.generation_unique (invariant : Invariant tokenizer state)
    {first second : Generation} (isFirst : first ∈ added state.changes)
    (isSecond : second ∈ added state.changes) (inFirst : id ∈ first.ids)
    (inSecond : id ∈ second.ids) : first = second := by
  by_contra different
  have symm : Std.Symm (Function.onFun List.Disjoint Generation.ids) :=
    ⟨fun _ _ disjoint _ inSecond inFirst => disjoint inFirst inSecond⟩
  have disjoint := (List.nodup_flatMap.mp invariant.distinct).2.forall isFirst isSecond different
  exact disjoint inFirst inSecond

omit [DecidableEq Tx] in
theorem Generation.Has.unique {generation : Generation} {chunk other : MemoryChunk}
    (distinct : generation.ids.Nodup) (has : generation.Has id chunk)
    (otherHas : generation.Has id other) : chunk = other := by
  have sameIndex : chunk.chunkIndex = other.chunkIndex :=
    (List.getElem?_inj (List.getElem?_eq_some_iff.mp has.2.1).1 distinct).mp
      (has.2.1.trans otherHas.2.1.symm)
  obtain ⟨source, index, content⟩ := chunk
  obtain ⟨otherSource, otherIndex, otherContent⟩ := other
  cases sameIndex
  cases has.1.trans otherHas.1.symm
  cases Option.some.inj (has.2.2.symm.trans otherHas.2.2)
  rfl

theorem Invariant.chunk_unique (invariant : Invariant tokenizer state)
    {first second : Generation} {chunk other : MemoryChunk} (isFirst : first ∈ added state.changes)
    (isSecond : second ∈ added state.changes) (ofFirst : first.Has id chunk)
    (ofSecond : second.Has id other) : chunk = other := by
  cases invariant.generation_unique isFirst isSecond (Generation.mem_of_has ofFirst)
    (Generation.mem_of_has ofSecond)
  exact ofFirst.unique ((List.nodup_flatMap.mp invariant.distinct).1 first isFirst) ofSecond

/-- A generation that is there has a row for each of its ids. -/
theorem Invariant.row_of_live (invariant : Invariant tokenizer state) {generation : Generation}
    (isLive : generation ∈ liveAfter state.changes) (inside : id ∈ generation.ids) :
    ∃ row, state.rows.committed id = some row ∧ row.toChunkSource = generation.source := by
  obtain ⟨index, isId⟩ := List.getElem?_of_mem inside
  have bound : index < generation.chunks.length := by
    rw [← invariant.complete generation (added_of_liveAfter generation isLive)]
    exact (List.getElem?_eq_some_iff.mp isId).1
  obtain ⟨row, isRow, isChunk⟩ := (invariant.rows id
    { generation.source with chunkIndex := index, content := generation.chunks[index] }).mpr
      ⟨generation, isLive, rfl, isId, List.getElem?_eq_getElem bound⟩
  exact ⟨row, isRow, congrArg MemoryChunk.toChunkSource isChunk⟩

/-! ### What is held -/

/-- A row that is deleted does not come back. -/
theorem Invariant.gone_stays (invariant : Invariant tokenizer state) {generation : Generation}
    (isAdded : generation ∈ added state.changes) (inside : id ∈ generation.ids)
    (isGone : state.rows.committed id = none) : state.rows.view tx id = none := by
  cases held : state.rows.held tx id with
  | false => exact (Table.view_of_not_held held).trans isGone
  | true =>
    rcases (invariant.knows tx).cases_held held with own | deleted | ⟨before, _, isBefore, _⟩
    · exact absurd inside ((invariant.own tx id own).2 generation isAdded)
    · exact deleted.1
    · cases isGone.symm.trans isBefore

theorem Invariant.lt_of_held (invariant : Invariant tokenizer state)
    (held : state.rows.held tx id = true) : id < state.nextId := by
  rcases (invariant.knows tx).cases_held held with
    own | ⟨_, generation, isAdded, inside⟩ | ⟨before, _, isBefore, _⟩
  · exact (invariant.own tx id own).1
  · exact invariant.used generation isAdded id inside
  · obtain ⟨generation, isAdded, has⟩ := invariant.has_of_committed isBefore
    exact invariant.used generation isAdded id (Generation.mem_of_has has)

/-- Nobody has written the row that is inserted next. -/
theorem Invariant.next_free (invariant : Invariant tokenizer state) (tx : Tx) :
    (state.rows state.nextId).freeFor tx = true := by
  unfold Cell.freeFor
  cases isDraft : (state.rows state.nextId).draft with
  | none => rfl
  | some draft =>
    have held : state.rows.held draft.1 state.nextId = true := Cell.heldBy_of_draft isDraft
    exact absurd (invariant.lt_of_held held) (Nat.lt_irrefl _)

/-! ### Statements -/

theorem sight_write_other {row : Option (Row Coordinate)} {phase : Phase Coordinate}
    (isFree : (state.rows id).freeFor tx = true) (different : other ≠ tx) :
    (state.write tx id row phase).sight other = state.sight other := by
  unfold State.sight State.write
  rw [Table.committed_write, Table.held_write_other isFree different,
    Table.view_write_other isFree different]

theorem sight_write {row : Option (Row Coordinate)} {phase : Phase Coordinate} :
    (state.write tx id row phase).sight tx =
      { committed := state.rows.committed
        held := Function.update (state.rows.held tx) id true
        view := Function.update (state.rows.view tx) id row } := by
  unfold State.sight State.write
  rw [Table.committed_write, Table.held_write, Table.view_write]

theorem cases_phase (property : Tx → Phase Coordinate → Prop) {phase : Phase Coordinate}
    (ofTx : property tx phase) (others : ∀ other, other ≠ tx → property other (state.phase other))
    (other : Tx) : property other (Function.update state.phase tx phase other) := by
  by_cases same : other = tx
  · rw [same, Function.update_self]
    exact ofTx
  · rw [Function.update_of_ne same]
    exact others other same

/-- A transaction goes on and writes nothing. -/
theorem Invariant.move (invariant : Invariant tokenizer state) {phase : Phase Coordinate}
    (knows : phase.Knows tokenizer state.changes state.answers (state.sight tx))
    (own : phase.own = (state.phase tx).own ∨ phase.own = []) :
    Invariant tokenizer (state.move tx phase) :=
  { invariant with
    knows := cases_phase (fun other phase =>
      phase.Knows tokenizer state.changes state.answers (state.sight other)) knows
      fun other _ => invariant.knows other
    own := cases_phase (fun _ phase => ∀ id ∈ phase.own, id < state.nextId ∧
      ∀ generation ∈ added state.changes, id ∉ generation.ids)
      (by
        rcases own with same | none
        · rw [same]
          exact invariant.own tx
        · rw [none]
          exact fun _ member => absurd member List.not_mem_nil)
      fun other _ => invariant.own other
    ownDistinct := cases_phase (fun _ phase => phase.own.Nodup)
      (by
        rcases own with same | none
        · rw [same]
          exact invariant.ownDistinct tx
        · rw [none]
          exact List.nodup_nil)
      fun other _ => invariant.ownDistinct other }

theorem Vouched.answered {answers : List (Answer Coordinate)} {row : Row Coordinate}
    (vouched : Vouched answers row) (newer : List (Answer Coordinate)) :
    Vouched (answers ++ newer) row := by
  intro vector isVector
  obtain ⟨nonempty, answer, member, gives⟩ := vouched vector isVector
  exact ⟨nonempty, answer, List.mem_append_left newer member, gives⟩

theorem Invariant.answered (invariant : Invariant tokenizer state) (model : String)
    (texts : List String) (answer : Option (List (List Coordinate))) :
    Invariant tokenizer (state.answered model texts answer) :=
  { invariant with
    vouched := fun id row isRow => (invariant.vouched id row isRow).answered _
    drafts := fun tx id row held isRow => (invariant.drafts tx id row held isRow).answered _
    knows := fun tx => (invariant.knows tx).answered _ }

theorem Invariant.write (invariant : Invariant tokenizer state)
    (isFree : (state.rows id).freeFor tx = true) {row : Option (Row Coordinate)}
    {phase : Phase Coordinate} {nextId : Nat} (further : state.nextId ≤ nextId)
    (knows : phase.Knows tokenizer state.changes state.answers
      { committed := state.rows.committed
        held := Function.update (state.rows.held tx) id true
        view := Function.update (state.rows.view tx) id row })
    (own : ∀ other ∈ phase.own, other ∈ (state.phase tx).own ∨
      (state.nextId ≤ other ∧ other < nextId))
    (ownDistinct : phase.own.Nodup)
    (vouched : ∀ written, row = some written → Vouched state.answers written) :
    Invariant tokenizer { state.write tx id row phase with nextId } := by
  have committed : (state.rows.write tx id row).committed = state.rows.committed :=
    Table.committed_write
  exact { invariant with
    rows := fun place chunk => by
      show (∃ found, (state.rows.write tx id row).committed place = some found ∧ _) ↔ _
      rw [committed]
      exact invariant.rows place chunk
    vouched := fun place found => by
      show (state.rows.write tx id row).committed place = some found → _
      rw [committed]
      exact invariant.vouched place found
    filled := fun place member found => by
      show (state.rows.write tx id row).committed place = some found → _
      rw [committed]
      exact invariant.filled place member found
    knows := fun other => by
      show Phase.Knows tokenizer state.changes state.answers
        ((state.write tx id row phase).sight other) (Function.update state.phase tx phase other)
      by_cases same : other = tx
      · rw [same, sight_write, Function.update_self]
        exact knows
      · rw [sight_write_other isFree same, Function.update_of_ne same]
        exact invariant.knows other
    drafts := fun other place found => by
      show ((state.write tx id row phase).sight other).held place = true →
        ((state.write tx id row phase).sight other).view place = some found → _
      by_cases same : other = tx
      · rw [same, sight_write]
        intro held isFound
        change Function.update (state.rows.view tx) id row place = some found at isFound
        by_cases isPlace : place = id
        · rw [isPlace, Function.update_self] at isFound
          exact vouched found isFound
        · rw [Function.update_of_ne isPlace] at isFound
          change Function.update (state.rows.held tx) id true place = true at held
          rw [Function.update_of_ne isPlace] at held
          exact invariant.drafts tx place found held isFound
      · rw [sight_write_other isFree same]
        exact invariant.drafts other place found
    used := fun generation isAdded place inside =>
      Nat.lt_of_lt_of_le (invariant.used generation isAdded place inside) further
    own := cases_phase (fun _ phase => ∀ place ∈ phase.own, place < nextId ∧
      ∀ generation ∈ added state.changes, place ∉ generation.ids)
      (fun place member => by
        rcases own place member with old | ⟨isNew, bound⟩
        · exact ⟨Nat.lt_of_lt_of_le (invariant.own tx place old).1 further,
            (invariant.own tx place old).2⟩
        · exact ⟨bound, fun generation isAdded inside =>
            Nat.not_lt.mpr isNew (invariant.used generation isAdded place inside)⟩)
      fun other _ place member => ⟨Nat.lt_of_lt_of_le (invariant.own other place member).1 further,
        (invariant.own other place member).2⟩
    ownDistinct := cases_phase (fun _ phase => phase.own.Nodup) ownDistinct
      fun other _ => invariant.ownDistinct other }

/-! ### The end of a transaction -/

theorem Invariant.rollback (invariant : Invariant tokenizer state) (tx : Tx) :
    Invariant tokenizer (state.rollback tx) := by
  have others : ∀ other, other ≠ tx → (state.rollback tx).sight other = state.sight other := by
    intro other different
    unfold State.sight State.rollback
    rw [Table.committed_rollback, Table.held_rollback_other different,
      Table.view_rollback_other different]
  have committed : (state.rows.rollback tx).committed = state.rows.committed :=
    Table.committed_rollback
  exact { invariant with
    rows := fun place chunk => by
      show (∃ found, (state.rows.rollback tx).committed place = some found ∧ _) ↔ _
      rw [committed]
      exact invariant.rows place chunk
    vouched := fun place found => by
      show (state.rows.rollback tx).committed place = some found → _
      rw [committed]
      exact invariant.vouched place found
    filled := fun place member found => by
      show (state.rows.rollback tx).committed place = some found → _
      rw [committed]
      exact invariant.filled place member found
    knows := fun other => by
      show Phase.Knows tokenizer state.changes state.answers ((state.rollback tx).sight other)
        (Function.update state.phase tx .aborted other)
      by_cases same : other = tx
      · rw [same, Function.update_self]
        exact fun _ => Table.held_rollback
      · rw [others other same, Function.update_of_ne same]
        exact invariant.knows other
    drafts := fun other place found held => by
      by_cases same : other = tx
      · rw [same] at held
        have notHeld : (state.rows.rollback tx).held tx place = false := Table.held_rollback
        cases notHeld.symm.trans held
      · change ((state.rollback tx).sight other).held place = true at held
        show ((state.rollback tx).sight other).view place = some found → _
        rw [others other same] at held ⊢
        exact invariant.drafts other place found held
    own := cases_phase (fun _ phase => ∀ place ∈ phase.own, place < state.nextId ∧
      ∀ generation ∈ added state.changes, place ∉ generation.ids)
      (fun _ member => absurd member List.not_mem_nil) fun other _ => invariant.own other
    ownDistinct := cases_phase (fun _ phase => phase.own.Nodup) List.nodup_nil
      fun other _ => invariant.ownDistinct other }

/-- What a commit leaves alone for another transaction. -/
theorem Invariant.goesOn (invariant : Invariant tokenizer state) {phase : Phase Coordinate}
    {changes : List (Change Generation)} {filled : List Nat} (later : state.changes <+: changes)
    (different : other ≠ tx) :
    GoesOn state.changes changes (state.sight other)
      ((state.finish tx phase changes filled).sight other) where
  later := later
  held := Table.held_commit_other different
  gone generation isAdded place inside isGone := by
    show (state.rows.commit tx).committed place = none
    rw [Table.committed_commit]
    exact invariant.gone_stays isAdded inside isGone
  kept place held := by
    have notHeld : state.rows.held tx place = false :=
      Table.not_held_of_other held (Ne.symm different)
    refine ⟨?_, (Table.view_commit_other different place).trans (if_pos held)⟩
    show (state.rows.commit tx).committed place = _
    rw [Table.committed_commit]
    exact Table.view_of_not_held notHeld

theorem Invariant.finish (invariant : Invariant tokenizer state) {phase : Phase Coordinate}
    {changes : List (Change Generation)} {filled : List Nat} (later : state.changes <+: changes)
    (quiet : ∀ sight : Sight Coordinate, (∀ id, sight.held id = false) →
      phase.Knows tokenizer changes state.answers sight)
    (noOwn : phase.own = [])
    (kept : RecallKept tokenizer (state.finish tx phase changes filled))
    (used : ∀ generation ∈ added changes, ∀ id ∈ generation.ids, id < state.nextId)
    (own : ∀ other, other ≠ tx → ∀ id ∈ (state.phase other).own,
      ∀ generation ∈ added changes, id ∉ generation.ids)
    (filledKnown : ∀ id ∈ filled, ∃ generation ∈ added changes, id ∈ generation.ids) :
    Invariant tokenizer (state.finish tx phase changes filled) :=
  { kept with
    knows := fun other => by
      show Phase.Knows tokenizer changes state.answers
        ((state.finish tx phase changes filled).sight other)
        (Function.update state.phase tx phase other)
      by_cases same : other = tx
      · rw [same, Function.update_self]
        exact quiet _ fun _ => Table.held_commit
      · rw [Function.update_of_ne same]
        exact (invariant.knows other).mono (invariant.goesOn later same)
    drafts := fun other place found held isFound => by
      change (state.rows.commit tx).held other place = true at held
      change (state.rows.commit tx).view other place = some found at isFound
      by_cases same : other = tx
      · rw [same] at held
        have notHeld : (state.rows.commit tx).held tx place = false := Table.held_commit
        cases notHeld.symm.trans held
      · rw [Table.held_commit_other same] at held
        rw [Table.view_commit_other same, if_pos held] at isFound
        exact invariant.drafts other place found held isFound
    used := used
    own := cases_phase (fun _ phase => ∀ place ∈ phase.own, place < state.nextId ∧
        ∀ generation ∈ added changes, place ∉ generation.ids)
      (by
        rw [noOwn]
        exact fun _ member => absurd member List.not_mem_nil)
      fun other different place member =>
        ⟨(invariant.own other place member).1, own other different place member⟩
    ownDistinct := cases_phase (fun _ phase => phase.own.Nodup)
      (by
        rw [noOwn]
        exact List.nodup_nil)
      fun other _ => invariant.ownDistinct other
    filledKnown := filledKnown }

end Invariant

end LiteHorse.Agent.RecallIndex
