/-
This file shows that the recall index is what its generations say, in every order of the statements
of the calls that change it: each statement keeps the invariant, and so does every run.

A call that overlaps with no other does what `RecallCloudBackend.index` does to the list of the
rows (`apply_eq_index`).
-/

import LiteHorse.Agent.RecallInvariant

namespace LiteHorse.Agent.RecallIndex

open Providers Python Reindex Repositories RowVersions Runs

section Steps

variable {Tx Coordinate : Type} [DecidableEq Tx] {tokenizer : Tokenizer}
  {state next : State Tx Coordinate} {tx : Tx} {id : Nat}

/-! ### The `DELETE` -/

theorem view_of_quiet (quiet : ∀ id, (state.sight tx).held id = false) (id : Nat) :
    state.rows.view tx id = state.rows.committed id :=
  Table.view_of_not_held (quiet id)

theorem begin_kept (invariant : Invariant tokenizer state) {call : Call}
    (taken : begin state tx call = some next) : Invariant tokenizer next := by
  have quiet := invariant.knows tx
  unfold begin at taken
  split at taken
  next isIdle =>
    rw [isIdle] at quiet
    cases taken
    refine invariant.move ?_ (Or.inr rfl)
    exact {
      held := fun id held => by cases (quiet id).symm.trans held
      coming := fun id member => by
        obtain ⟨row, isRow, covered⟩ :=
          (Option.any_eq_true _ _).mp (List.mem_filter.mp member).2
        rw [view_of_quiet quiet] at isRow
        obtain ⟨generation, isLive, has⟩ :=
          (invariant.rows id row.toMemoryChunk).mp ⟨row, isRow, rfl⟩
        exact ⟨generation, isLive, has.1 ▸ covered, Generation.mem_of_has has⟩
      rest := fun generation isLive covered id inside => by
        obtain ⟨row, isRow, isSource⟩ := invariant.row_of_live isLive inside
        have bound := invariant.used generation (added_of_liveAfter generation isLive) id inside
        refine Or.inl (List.mem_filter.mpr ⟨List.mem_range.mpr bound, ?_⟩)
        rw [view_of_quiet quiet, isRow]
        exact (congrArg call.covers isSource).trans covered
      snapshot := ⟨state.changes, List.prefix_rfl, rfl⟩ }
  next => cases taken

/-- The rows to come without one that is deleted, or that was found to be. -/
theorem Clears.pass (id : Nat) {changes : List (Change Generation)} {sight after : Sight Coordinate}
    {call : Call} {seen : List Generation} {todo : List Nat}
    (clears : Clears changes sight call seen todo [])
    (committed : after.committed = sight.committed)
    (held : ∀ other, after.held other = true → other ≠ id → sight.held other = true ∧
      after.view other = sight.view other)
    (more : ∀ other, sight.held other = true → after.held other = true)
    (isComing : id ∈ todo) (isGone : after.held id = true → after.view id = none)
    (passed : after.held id = true ∨ after.committed id = none) :
    Clears changes after call seen (todo.filter (· ≠ id)) [] where
  held other isHeld := by
    by_cases same : other = id
    · rw [same] at isHeld ⊢
      exact Or.inr ⟨isGone isHeld, clears.coming id isComing⟩
    · obtain ⟨before, sameView⟩ := held other isHeld same
      rw [sameView]
      exact clears.held other before
  coming other member := clears.coming other (List.mem_filter.mp member).1
  rest generation isSeen covered other inside := by
    by_cases same : other = id
    · rw [same]
      exact Or.inr passed
    · rw [committed]
      refine (clears.rest generation isSeen covered other inside).imp (fun coming => ?_)
        (Or.imp_left (more other))
      exact List.mem_filter.mpr ⟨coming, decide_eq_true same⟩
  snapshot := clears.snapshot

/-- A row to come is of a generation that the call covers, as long as it is there. -/
theorem Invariant.covers_of_coming (invariant : Invariant tokenizer state) {call : Call}
    {seen : List Generation} {todo : List Nat}
    (clears : Clears state.changes (state.sight tx) call seen todo []) (isComing : id ∈ todo)
    {row : Row Coordinate} (isRow : state.rows.view tx id = some row) :
    call.covers row.toChunkSource = true := by
  obtain ⟨generation, isSeen, covered, inside⟩ := clears.coming id isComing
  have notHeld : state.rows.held tx id = false := by
    refine Bool.eq_false_iff.mpr fun held => ?_
    rcases clears.held id held with own | ⟨isGone, _⟩
    · cases own
    · cases isGone.symm.trans isRow
  have isCommitted : state.rows.committed id = some row :=
    (Table.view_of_not_held notHeld).symm.trans isRow
  obtain ⟨owner, isAdded, has⟩ := invariant.has_of_committed isCommitted
  have same := invariant.generation_unique isAdded (clears.added_of_seen generation isSeen)
    (Generation.mem_of_has has) inside
  rw [has.1, same]
  exact covered

theorem deleteRow_kept (invariant : Invariant tokenizer state)
    (taken : deleteRow state tx id = some next) : Invariant tokenizer next := by
  have clears := invariant.knows tx
  unfold deleteRow at taken
  split at taken
  next call seen todo deleted isClearing =>
    rw [isClearing] at clears
    split at taken
    next allowed =>
      have ⟨coming, isFree⟩ := Bool.and_eq_true_iff.mp allowed
      have isComing := List.contains_iff_mem.mp coming
      split at taken
      next found =>
        cases taken
        refine invariant.write isFree (Nat.le_refl _) ?_ (fun _ own => absurd own List.not_mem_nil)
          List.nodup_nil fun _ isNone => by cases isNone
        refine Clears.pass id clears rfl (fun other held different => ?_)
          (fun other held => ?_) isComing (fun _ => Function.update_self ..)
          (Or.inl (Function.update_self ..))
        · change Function.update (state.rows.held tx) id true other = true at held
          rw [Function.update_of_ne different] at held
          exact ⟨held, Function.update_of_ne different ..⟩
        · show Function.update (state.rows.held tx) id true other = true
          by_cases same : other = id
          · rw [same, Function.update_self]
          · rw [Function.update_of_ne same]
            exact held
      next notFound =>
        cases taken
        have isNone : state.rows.view tx id = none := by
          cases isRow : state.rows.view tx id with
          | none => rfl
          | some row =>
            rw [isRow] at notFound
            exact absurd (invariant.covers_of_coming clears isComing isRow) notFound
        refine invariant.move ?_ (Or.inr rfl)
        refine Clears.pass id clears rfl (fun _ held _ => ⟨held, rfl⟩)
          (fun _ held => held) isComing (fun _ => isNone) ?_
        cases held : (state.sight tx).held id with
        | true => exact Or.inl rfl
        | false => exact Or.inr ((Table.view_of_not_held held).symm.trans isNone)
    next => cases taken
  next => cases taken

/-! ### The inserts -/

theorem embed_kept (invariant : Invariant tokenizer state) {model : String}
    {answer : Option (List (List Coordinate))}
    (taken : embed tokenizer state tx model answer = some next) : Invariant tokenizer next := by
  have clears := invariant.knows tx
  unfold embed at taken
  split at taken
  next source content seen deleted isClearing =>
    rw [isClearing] at clears
    dsimp only at taken
    split at taken
    next => cases taken
    next =>
      cases taken
      refine (invariant.answered model (chunkText tokenizer content) answer).move ?_ (Or.inr rfl)
      refine ⟨clears, ⟨fun _ _ isId => (by cases isId), ?_⟩, content, rfl, rfl⟩
      intro index vector text isVector nonempty isText
      cases answer with
      | none =>
        obtain ⟨_, _, isEmpty⟩ := Option.map_eq_some_iff.mp (List.getElem?_map .. ▸ isVector)
        exact absurd isEmpty.symm nonempty
      | some vectors =>
        exact ⟨_, List.mem_append_right _ (List.mem_singleton_self _), rfl, index, isText, isVector⟩
  next => cases taken

theorem getElem?_concat_cases {ids : List Nat} {index last : Nat}
    (isId : (ids ++ [last])[index]? = some id) :
    ids[index]? = some id ∨ (index = ids.length ∧ last = id) := by
  rw [List.getElem?_append] at isId
  split at isId
  next => exact Or.inl isId
  next beyond =>
    rw [List.getElem?_singleton] at isId
    split at isId
    next isZero =>
      have isLast : index = ids.length :=
        Nat.le_antisymm (Nat.sub_eq_zero_iff_le.mp isZero) (Nat.not_lt.mp beyond)
      exact Or.inr ⟨isLast, Option.some.inj isId⟩
    next => cases isId

/-- What `nextRow` inserts. -/
theorem nextRow_spec {generation : Generation} {vectors : List (List Coordinate)} {model : String}
    {row : Row Coordinate} (isNext : generation.nextRow vectors model = some row) :
    row.toChunkSource = generation.source ∧ row.chunkIndex = generation.ids.length ∧
      generation.chunks[generation.ids.length]? = some row.content ∧ row.embedModel = model ∧
        ∀ vector, row.embedding = some vector →
          vectors[generation.ids.length]? = some vector ∧ vector ≠ [] := by
  obtain ⟨content, isContent, rfl⟩ := Option.map_eq_some_iff.mp isNext
  refine ⟨rfl, rfl, isContent, rfl, fun vector isVector => ?_⟩
  obtain ⟨isAnswer, nonempty⟩ := Option.filter_eq_some_iff.mp isVector
  refine ⟨isAnswer, ?_⟩
  rintro rfl
  cases nonempty

theorem insert_kept (invariant : Invariant tokenizer state)
    (taken : insert state tx = some next) : Invariant tokenizer next := by
  have knows := invariant.knows tx
  have own := invariant.own tx
  have ownDistinct := invariant.ownDistinct tx
  unfold insert at taken
  split at taken
  next call seen generation vectors model isInserting =>
    rw [isInserting] at knows own ownDistinct
    obtain ⟨row, isRow, isNext⟩ := Option.map_eq_some_iff.mp taken
    obtain ⟨isSource, isIndex, isChunk, isModel, isVector⟩ := nextRow_spec isRow
    obtain ⟨clears, inserts, indexed⟩ := knows
    have isOld : ∀ id ∈ generation.ids, id ≠ state.nextId := fun id member =>
      Nat.ne_of_lt (own id member).1
    subst isNext
    refine invariant.write (invariant.next_free tx) (Nat.le_succ _) ⟨?_, ?_, indexed⟩ ?_ ?_ ?_
    · exact {
        held := fun id held => by
          by_cases same : id = state.nextId
          · exact Or.inl (List.mem_append_right _ (List.mem_singleton.mpr same))
          · change Function.update (state.rows.held tx) _ true id = true at held
            rw [Function.update_of_ne same] at held
            rcases clears.held id held with old | ⟨isGone, deleted⟩
            · exact Or.inl (List.mem_append_left _ old)
            · exact Or.inr ⟨(Function.update_of_ne same ..).trans isGone, deleted⟩
        coming := clears.coming
        rest := fun other isSeen covered id inside => by
          refine (clears.rest other isSeen covered id inside).imp_right (Or.imp_left fun held => ?_)
          show Function.update (state.rows.held tx) _ true id = true
          by_cases same : id = state.nextId
          · rw [same, Function.update_self]
          · rw [Function.update_of_ne same]
            exact held
        snapshot := clears.snapshot }
    · exact {
        rows := fun index id isId => by
          show Function.update (state.rows.held tx) _ true id = true ∧
            ∃ found, Function.update (state.rows.view tx) _ (some row) id = some found ∧ _
          rcases getElem?_concat_cases isId with old | ⟨isLast, isNew⟩
          · have different := isOld id (List.mem_of_getElem? old)
            obtain ⟨held, found, isFound, sameIndex, has⟩ := inserts.rows index id old
            rw [Function.update_of_ne different, Function.update_of_ne different]
            exact ⟨held, found, isFound, sameIndex, has.1, sameIndex ▸ isId, has.2.2⟩
          · rw [← isNew, Function.update_self, Function.update_self]
            refine ⟨rfl, row, rfl, isIndex.trans isLast.symm, isSource, ?_, isIndex ▸ isChunk⟩
            rw [isIndex]
            exact List.getElem?_concat_length
        vouched := inserts.vouched }
    · intro id member
      rw [isInserting]
      refine (List.mem_append.mp member).imp_right fun isNew => ?_
      rw [List.mem_singleton.mp isNew]
      exact ⟨Nat.le_refl _, Nat.lt_succ_self _⟩
    · exact List.nodup_append.mpr ⟨ownDistinct, List.nodup_singleton _, fun id member _ isNew =>
        (List.mem_singleton.mp isNew) ▸ isOld id member⟩
    · intro written isWritten vector isEmbedding
      cases isWritten
      obtain ⟨isAnswer, nonempty⟩ := isVector vector isEmbedding
      exact ⟨nonempty, isModel ▸ inserts.vouched _ vector _ isAnswer nonempty isChunk⟩
  next => cases taken

/-! ### The commit of a call -/

/-- The transaction has done what the change says. -/
structure Ready (tokenizer : Tokenizer) (state : State Tx Coordinate) (tx : Tx)
    (change : Change Generation) : Prop where
  clears : ∃ call : Call, (change.covers = fun generation => call.covers generation.source) ∧
    Clears state.changes (state.sight tx) call change.seen [] (state.phase tx).own ∧
      ∀ generation, change.added = some generation →
        ∃ content, call = .index generation.source content ∧
          generation.chunks = chunkText tokenizer content
  ids : ∀ generation, change.added = some generation →
    generation.ids = (state.phase tx).own ∧ generation.ids.length = generation.chunks.length
  rows : ∀ id ∈ (state.phase tx).own, ∀ chunk,
    (∃ row, state.rows.view tx id = some row ∧ row.toMemoryChunk = chunk) ↔
      ∃ generation, change.added = some generation ∧ generation.Has id chunk

theorem Invariant.ready (invariant : Invariant tokenizer state) {change : Change Generation}
    {count : Nat} (isChange : (state.phase tx).change tokenizer = some (change, count)) :
    Ready tokenizer state tx change := by
  have knows := invariant.knows tx
  have ownDistinct := invariant.ownDistinct tx
  unfold Phase.change at isChange
  split at isChange
  next call seen deleted isClearing =>
    rw [isClearing] at knows
    split at isChange
    next =>
      cases isChange
      have noOwn : (state.phase tx).own = [] := by
        rw [isClearing]
        rfl
      exact {
        clears := ⟨call, rfl, by rw [noOwn]; exact knows, fun _ isAdded => by cases isAdded⟩
        ids := fun _ isAdded => by cases isAdded
        rows := fun _ member => by
          rw [noOwn] at member
          cases member }
    next => cases isChange
  next call seen generation vectors model isInserting =>
    rw [isInserting] at knows ownDistinct
    obtain ⟨clears, inserts, indexed⟩ := knows
    split at isChange
    next complete =>
      cases isChange
      have isOwn : (state.phase tx).own = generation.ids := by
        rw [isInserting]
        rfl
      exact {
        clears := ⟨call, rfl, isOwn ▸ clears, fun _ isAdded => by cases isAdded; exact indexed⟩
        ids := fun _ isAdded => by
          cases isAdded
          exact ⟨isOwn.symm, complete⟩
        rows := fun id member chunk => by
          rw [isOwn] at member
          obtain ⟨index, isId⟩ := List.getElem?_of_mem member
          obtain ⟨_, row, isRow, _, has⟩ := inserts.rows index id isId
          constructor
          · rintro ⟨found, isFound, rfl⟩
            cases isRow.symm.trans isFound
            exact ⟨generation, rfl, has⟩
          · rintro ⟨_, isAdded, otherHas⟩
            cases isAdded
            exact ⟨row, isRow, has.unique ownDistinct otherHas⟩ }
    next => cases isChange
  next => cases isChange

/-- What a transaction sees at its commit is what its change makes of the generations. -/
theorem Invariant.rows_of_ready (invariant : Invariant tokenizer state)
    {change : Change Generation} (ready : Ready tokenizer state tx change) (id : Nat)
    (chunk : MemoryChunk) :
    (∃ row, state.rows.view tx id = some row ∧ row.toMemoryChunk = chunk) ↔
      ∃ generation ∈ change.apply (liveAfter state.changes), generation.Has id chunk := by
  by_cases isOwn : id ∈ (state.phase tx).own
  · rw [ready.rows id isOwn chunk]
    constructor
    · rintro ⟨generation, isAdded, has⟩
      exact ⟨generation, mem_apply.mpr (Or.inr isAdded), has⟩
    · rintro ⟨generation, isLive, has⟩
      rcases mem_apply.mp isLive with ⟨isOld, _⟩ | isAdded
      · exact absurd (Generation.mem_of_has has)
          ((invariant.own tx id isOwn).2 generation (added_of_liveAfter generation isOld))
      · exact ⟨generation, isAdded, has⟩
  · obtain ⟨call, isCall, clears, _⟩ := ready.clears
    constructor
    · rintro ⟨row, isRow, rfl⟩
      have notHeld : state.rows.held tx id = false := by
        refine Bool.eq_false_iff.mpr fun held => ?_
        rcases clears.held id held with own | ⟨isGone, _⟩
        · exact isOwn own
        · cases isGone.symm.trans isRow
      have isCommitted := (Table.view_of_not_held notHeld).symm.trans isRow
      obtain ⟨generation, isLive, has⟩ :=
        (invariant.rows id row.toMemoryChunk).mp ⟨row, isCommitted, rfl⟩
      refine ⟨generation, mem_apply.mpr (Or.inl ⟨isLive, ?_⟩), has⟩
      rintro ⟨isSeen, covered⟩
      rw [isCall] at covered
      rcases clears.rest generation isSeen covered id (Generation.mem_of_has has) with
        coming | held | isGone
      · cases coming
      · cases notHeld.symm.trans held
      · cases isGone.symm.trans isCommitted
    · rintro ⟨generation, isLive, has⟩
      rcases mem_apply.mp isLive with ⟨isOld, notDeleted⟩ | isAdded
      · have notHeld : state.rows.held tx id = false := by
          refine Bool.eq_false_iff.mpr fun held => ?_
          rcases clears.held id held with own | ⟨_, other, isSeen, covered, inside⟩
          · exact isOwn own
          · have same := invariant.generation_unique (added_of_liveAfter generation isOld)
              (clears.added_of_seen other isSeen) (Generation.mem_of_has has) inside
            rw [same, isCall] at notDeleted
            exact notDeleted ⟨isSeen, covered⟩
        rw [Table.view_of_not_held notHeld]
        exact (invariant.rows id chunk).mpr ⟨generation, isOld, has⟩
      · exact absurd ((ready.ids generation isAdded).1 ▸ Generation.mem_of_has has) isOwn

theorem prefix_of_snoc {Item : Type} {before after items : List Item} {item last : Item}
    (same : items ++ [last] = before ++ item :: after) :
    (before = items ∧ item = last) ∨ ∃ rest, items = before ++ item :: rest := by
  rcases List.eq_nil_or_concat after with rfl | ⟨rest, final, rfl⟩
  · obtain ⟨isBefore, isItem⟩ := List.append_inj' same rfl
    exact Or.inl ⟨isBefore.symm, (List.singleton_inj.mp isItem).symm⟩
  · rw [List.concat_eq_append, ← List.cons_append, ← List.append_assoc] at same
    exact Or.inr ⟨rest, (List.append_inj' same rfl).1⟩

theorem commit_kept (invariant : Invariant tokenizer state)
    (taken : commit tokenizer state tx = some next) : Invariant tokenizer next := by
  obtain ⟨⟨change, count⟩, isChange, rfl⟩ := Option.map_eq_some_iff.mp taken
  have ready := invariant.ready isChange
  have isAfter : added (state.changes ++ [change]) = added state.changes ++ change.added.toList :=
    added_append state.changes change
  have cases_added : ∀ {generation : Generation},
      generation ∈ added (state.changes ++ [change]) →
        generation ∈ added state.changes ∨ change.added = some generation := by
    intro generation member
    rw [isAfter, List.mem_append, Option.mem_toList] at member
    exact member
  have noOwn : ∀ {id : Nat}, id ∈ (state.phase tx).own → ∀ {generation : Generation},
      generation ∈ added state.changes → id ∉ generation.ids :=
    fun own _ isOld => (invariant.own tx _ own).2 _ isOld
  refine invariant.finish (List.prefix_append _ _) (fun _ quiet => quiet) rfl ?_ ?_ ?_ ?_
  · exact {
      rows := fun id chunk => by
        show (∃ row, (state.rows.commit tx).committed id = some row ∧ _) ↔
          ∃ generation ∈ liveAfter (state.changes ++ [change]), _
        rw [Table.committed_commit, liveAfter_append]
        exact invariant.rows_of_ready ready id chunk
      complete := fun generation member => by
        rcases cases_added member with isOld | isAdded
        · exact invariant.complete generation isOld
        · exact (ready.ids generation isAdded).2
      distinct := by
        show ((added (state.changes ++ [change])).flatMap Generation.ids).Nodup
        rw [isAfter, List.flatMap_append]
        refine List.nodup_append.mpr ⟨invariant.distinct, ?_, ?_⟩
        · cases isAdded : change.added with
          | none => exact List.nodup_nil
          | some generation =>
            show (generation.ids ++ []).Nodup
            rw [List.append_nil, (ready.ids generation isAdded).1]
            exact invariant.ownDistinct tx
        · rintro id old _ new rfl
          obtain ⟨generation, isOld, inOld⟩ := List.mem_flatMap.mp old
          obtain ⟨other, isAdded, inNew⟩ := List.mem_flatMap.mp new
          rw [(ready.ids other (Option.mem_toList.mp isAdded)).1] at inNew
          exact noOwn inNew isOld inOld
      indexed := fun other member generation isAdded => by
        rcases List.mem_append.mp member with isOld | isNew
        · exact invariant.indexed other isOld generation isAdded
        · rw [List.mem_singleton.mp isNew] at isAdded ⊢
          obtain ⟨call, isCall, _, indexed⟩ := ready.clears
          obtain ⟨content, isIndex, isChunks⟩ := indexed generation isAdded
          exact ⟨content, isChunks, isIndex ▸ isCall⟩
      seen := fun before other after same => by
        rcases prefix_of_snoc same with ⟨rfl, rfl⟩ | ⟨rest, isOld⟩
        · obtain ⟨call, _, clears, _⟩ := ready.clears
          exact clears.snapshot
        · exact invariant.seen before other rest isOld
      vouched := fun id row isRow => by
        change (state.rows.commit tx).committed id = some row at isRow
        rw [Table.committed_commit] at isRow
        cases held : state.rows.held tx id with
        | true => exact invariant.drafts tx id row held isRow
        | false =>
          rw [Table.view_of_not_held held] at isRow
          exact invariant.vouched id row isRow
      filled := fun id member row isRow => by
        change (state.rows.commit tx).committed id = some row at isRow
        rw [Table.committed_commit] at isRow
        obtain ⟨generation, isAdded, inside⟩ := invariant.filledKnown id member
        cases held : state.rows.held tx id with
        | true =>
          obtain ⟨_, _, clears, _⟩ := ready.clears
          rcases clears.held id held with own | ⟨isGone, _⟩
          · exact absurd inside (noOwn own isAdded)
          · cases isGone.symm.trans isRow
        | false =>
          rw [Table.view_of_not_held held] at isRow
          exact invariant.filled id member row isRow }
  · intro generation member id inside
    rcases cases_added member with isOld | isAdded
    · exact invariant.used generation isOld id inside
    · rw [(ready.ids generation isAdded).1] at inside
      exact (invariant.own tx id inside).1
  · intro other different id own generation member inside
    rcases cases_added member with isOld | isAdded
    · exact (invariant.own other id own).2 generation isOld inside
    · rw [(ready.ids generation isAdded).1] at inside
      have held := (invariant.knows tx).held_of_own id inside
      have otherHeld := (invariant.knows other).held_of_own id own
      exact different (Cell.holder_unique otherHeld held)
  · intro id member
    obtain ⟨generation, isOld, inside⟩ := invariant.filledKnown id member
    exact ⟨generation, added_of_prefix (List.prefix_append _ _) generation isOld, inside⟩

/-! ### The worker -/

theorem list_kept (invariant : Invariant tokenizer state) {userId agentId : UUID} {limit : Int}
    (taken : list state tx userId agentId limit = some next) : Invariant tokenizer next := by
  have quiet := invariant.knows tx
  unfold list at taken
  split at taken
  next isIdle =>
    rw [isIdle] at quiet
    split at taken
    next =>
      cases taken
      exact invariant.rollback tx
    next =>
      dsimp only at taken
      split at taken
      next =>
        cases taken
        exact invariant.move quiet (Or.inr rfl)
      next =>
        cases taken
        refine invariant.move ⟨quiet, fun pair member => ?_⟩ (Or.inr rfl)
        obtain ⟨id, _, isListed⟩ := List.mem_filterMap.mp (List.mem_of_mem_take member)
        obtain ⟨row, isRow, isPending⟩ := Option.bind_eq_some_iff.mp isListed
        split at isPending
        next =>
          cases isPending
          rw [view_of_quiet quiet] at isRow
          obtain ⟨generation, isAdded, has⟩ := invariant.has_of_committed isRow
          exact ⟨generation, isAdded, row.toMemoryChunk, has, rfl⟩
        next => cases isPending
  next => cases taken

theorem embedListed_kept (invariant : Invariant tokenizer state) {model : String}
    {answer : Option (List (List Coordinate))}
    (taken : embedListed state tx model answer = some next) : Invariant tokenizer next := by
  have knows := invariant.knows tx
  unfold embedListed at taken
  split at taken
  next pending isListed =>
    rw [isListed] at knows
    obtain ⟨quiet, listed⟩ := knows
    split at taken
    next =>
      cases taken
      exact invariant.move quiet (Or.inr rfl)
    next vectors =>
      cases taken
      refine (invariant.answered model (pending.map Prod.snd) (some vectors)).move ?_ (Or.inr rfl)
      exact {
        held := fun id held => by cases (quiet id).symm.trans held
        coming := fun pair member => by
          obtain ⟨inZip, nonempty⟩ := List.mem_filter.mp member
          obtain ⟨index, isPair⟩ := List.getElem?_of_mem inZip
          obtain ⟨isId, isVector⟩ := List.getElem?_zip_eq_some.mp isPair
          obtain ⟨entry, isEntry, sameId⟩ := Option.map_eq_some_iff.mp (List.getElem?_map .. ▸ isId)
          obtain ⟨generation, isAdded, chunk, has, sameContent⟩ :=
            listed entry (List.mem_of_getElem? isEntry)
          refine ⟨fun isEmpty => (by rw [isEmpty] at nonempty; cases nonempty), generation,
            isAdded, chunk, sameId ▸ has, _, List.mem_append_right _ (List.mem_singleton_self _),
            rfl, index, ?_, isVector⟩
          show (pending.map Prod.snd)[index]? = _
          rw [List.getElem?_map, isEntry, sameContent]
          exact Option.map_some ..
        passed := fun _ member => absurd member List.not_mem_nil }
  next => cases taken

theorem setEmbedding_kept (invariant : Invariant tokenizer state)
    (taken : setEmbedding state tx = some next) : Invariant tokenizer next := by
  have fills := invariant.knows tx
  unfold setEmbedding at taken
  split at taken
  next model id vector rest done isFilling =>
    rw [isFilling] at fills
    obtain ⟨nonempty, generation, isAdded, chunk, has, gives⟩ :=
      Fills.coming fills (id, vector) List.mem_cons_self
    have passes : ∀ {sight : Sight Coordinate},
        (∀ other, (state.sight tx).held other = true → sight.held other = true) →
        sight.committed = state.rows.committed →
        (sight.held id = true ∨ sight.committed id = none) →
        ∀ other ∈ id :: done, (∃ generation ∈ added state.changes, other ∈ generation.ids) ∧
          (sight.held other = true ∨ sight.committed other = none) := by
      intro sight more same isPassed other member
      rcases List.mem_cons.mp member with rfl | old
      · exact ⟨⟨generation, isAdded, Generation.mem_of_has has⟩, isPassed⟩
      · obtain ⟨known, isDone⟩ := Fills.passed fills other old
        exact ⟨known, isDone.imp (more other) fun isGone => same ▸ isGone⟩
    split at taken
    next isFree =>
      split at taken
      next row isRow =>
        cases taken
        obtain ⟨before, isBefore, sameChunk⟩ :
            ∃ before, state.rows.committed id = some before ∧
              row.toMemoryChunk = before.toMemoryChunk := by
          cases held : state.rows.held tx id with
          | true =>
            obtain ⟨before, found, isBefore, isFound, sameChunk, _⟩ := Fills.held fills id held
            cases isRow.symm.trans isFound
            exact ⟨before, isBefore, sameChunk⟩
          | false => exact ⟨row, (Table.view_of_not_held held).symm.trans isRow, rfl⟩
        have isChunk : row.toMemoryChunk = chunk := by
          obtain ⟨owner, isOwner, ownerHas⟩ := invariant.has_of_committed isBefore
          rw [sameChunk]
          exact invariant.chunk_unique isOwner isAdded ownerHas has
        refine invariant.write isFree (Nat.le_refl _) ?_ (fun _ own => absurd own List.not_mem_nil)
          List.nodup_nil ?_
        · exact {
            held := fun other held => by
              change Function.update (state.rows.held tx) id true other = true at held
              show ∃ before row, state.rows.committed other = some before ∧
                Function.update (state.rows.view tx) id _ other = some row ∧ _
              by_cases same : other = id
              · rw [same, Function.update_self]
                exact ⟨before, _, isBefore, rfl, sameChunk, rfl⟩
              · rw [Function.update_of_ne same] at held ⊢
                exact Fills.held fills other held
            coming := fun pair member => Fills.coming fills pair (List.mem_cons_of_mem _ member)
            passed := passes (fun other held => by
              show Function.update (state.rows.held tx) id true other = true
              by_cases same : other = id
              · rw [same, Function.update_self]
              · rw [Function.update_of_ne same]
                exact held) rfl (Or.inl (Function.update_self ..)) }
        · intro written isWritten other isVector
          cases isWritten
          cases isVector
          exact ⟨nonempty, isChunk ▸ gives⟩
      next isNone =>
        cases taken
        have notHeld : state.rows.held tx id = false := by
          refine Bool.eq_false_iff.mpr fun held => ?_
          obtain ⟨_, _, _, isFound, _⟩ := Fills.held fills id held
          cases isNone.symm.trans isFound
        refine invariant.move ?_ (Or.inr rfl)
        exact {
          held := Fills.held fills
          coming := fun pair member => Fills.coming fills pair (List.mem_cons_of_mem _ member)
          passed := passes (fun _ held => held) rfl
            (Or.inr ((Table.view_of_not_held notHeld).symm.trans isNone)) }
    next => cases taken
  next => cases taken

theorem commitFilled_kept (invariant : Invariant tokenizer state)
    (taken : commitFilled state tx = some next) : Invariant tokenizer next := by
  have fills := invariant.knows tx
  unfold commitFilled at taken
  split at taken
  next model done isFilling =>
    rw [isFilling] at fills
    cases taken
    refine invariant.finish List.prefix_rfl (fun _ quiet => quiet) rfl ?_ invariant.used
      (fun other _ id own => (invariant.own other id own).2) ?_
    · exact { invariant with
        rows := fun id chunk => by
          show (∃ row, (state.rows.commit tx).committed id = some row ∧ _) ↔ _
          rw [Table.committed_commit]
          refine Iff.trans ?_ (invariant.rows id chunk)
          cases held : state.rows.held tx id with
          | true =>
            obtain ⟨before, row, isBefore, isRow, sameChunk, _⟩ := Fills.held fills id held
            change state.rows.committed id = some before at isBefore
            change state.rows.view tx id = some row at isRow
            rw [isBefore, isRow]
            simp only [Option.some.injEq, exists_eq_left', sameChunk]
          | false => rw [Table.view_of_not_held held]
        vouched := fun id row isRow => by
          change (state.rows.commit tx).committed id = some row at isRow
          rw [Table.committed_commit] at isRow
          cases held : state.rows.held tx id with
          | true => exact invariant.drafts tx id row held isRow
          | false =>
            rw [Table.view_of_not_held held] at isRow
            exact invariant.vouched id row isRow
        filled := fun id member row isRow => by
          change (state.rows.commit tx).committed id = some row at isRow
          rw [Table.committed_commit] at isRow
          cases held : state.rows.held tx id with
          | true =>
            obtain ⟨_, found, _, isFound, _, isSome⟩ := Fills.held fills id held
            cases isRow.symm.trans isFound
            exact isSome
          | false =>
            rw [Table.view_of_not_held held] at isRow
            rcases List.mem_append.mp member with new | old
            · rcases (Fills.passed fills id new).2 with isHeld | isGone
              · cases held.symm.trans isHeld
              · cases isGone.symm.trans isRow
            · exact invariant.filled id old row isRow }
    · intro id member
      exact (List.mem_append.mp member).elim (fun new => (Fills.passed fills id new).1)
        (invariant.filledKnown id)
  next => cases taken

theorem abort_kept (invariant : Invariant tokenizer state) (taken : abort state tx = some next) :
    Invariant tokenizer next := by
  unfold abort at taken
  split at taken
  · cases taken
  · cases taken
  · cases taken
  · cases taken
  · cases taken
    exact invariant.rollback tx

/-! ### A call alone -/

/-- The rows of a generation. -/
def Generation.rows (generation : Generation) : List MemoryChunk :=
  chunkRows generation.source generation.chunks

theorem filter_rows (live : List Generation) (source : ChunkSource) :
    (live.filter fun generation => generation.source ≠ source).flatMap Generation.rows =
      (live.flatMap Generation.rows).filter fun row => row.toChunkSource ≠ source := by
  induction live with
  | nil => rfl
  | cons generation rest inductionHypothesis =>
    have own : ∀ row ∈ generation.rows, row.toChunkSource = generation.source :=
      fun row member => (mem_chunkRows member).1
    rw [List.flatMap_cons, List.filter_append, ← inductionHypothesis]
    by_cases same : generation.source = source
    · have noneLeft : (generation.rows.filter fun row => row.toChunkSource ≠ source) = [] := by
        refine List.filter_eq_nil_iff.mpr fun row member => ?_
        simpa [own row member] using same
      rw [noneLeft, List.filter_cons_of_neg (by simpa using same)]
      rfl
    · have allLeft :
          (generation.rows.filter fun row => row.toChunkSource ≠ source) = generation.rows := by
        refine List.filter_eq_self.mpr fun row member => ?_
        simpa [own row member] using same
      rw [allLeft, List.filter_cons_of_pos (by simpa using same), List.flatMap_cons]

/-- A call that has seen all there is does to the rows what the backend's `index` does. -/
theorem apply_eq_index (backend : RecallCloudBackend) {change : Change Generation}
    {live : List Generation} {sourceKind content : String} {sourceId : Option String}
    (seen : ∀ generation ∈ live, generation ∈ change.seen)
    (covers : change.covers = fun generation =>
      (Call.index (backend.source sourceKind sourceId) content).covers generation.source)
    (inserted : change.added.toList.flatMap Generation.rows =
      chunkRows (backend.source sourceKind sourceId) (chunkText tokenizer content)) :
    (change.apply live).flatMap Generation.rows =
      backend.index tokenizer (live.flatMap Generation.rows) sourceKind sourceId content := by
  rw [apply_eq_replace Generation.source seen fun generation => congrFun covers generation,
    RecallCloudBackend.index_eq]
  unfold replace
  rw [List.flatMap_append, inserted, filter_rows]

/-! ### Runs -/

theorem step_kept (invariant : Invariant tokenizer state) {event : Event Tx Coordinate}
    (taken : step tokenizer state event = some next) : Invariant tokenizer next := by
  cases event with
  | begin => exact begin_kept invariant taken
  | deleteRow => exact deleteRow_kept invariant taken
  | embed => exact embed_kept invariant taken
  | insert => exact insert_kept invariant taken
  | commit => exact commit_kept invariant taken
  | list => exact list_kept invariant taken
  | embedListed => exact embedListed_kept invariant taken
  | setEmbedding => exact setEmbedding_kept invariant taken
  | commitFilled => exact commitFilled_kept invariant taken
  | abort => exact abort_kept invariant taken

/-- In every run the committed rows are those of the generations that the calls leave, whole, each
vector was answered for the content of its row, and one that the worker has filled in stays. -/
theorem recall_kept (tokenizer : Tokenizer) (events : List (Event Tx Coordinate)) :
    Always (step tokenizer) (RecallKept tokenizer) State.initial events := by
  have always : Always (step tokenizer) (Invariant tokenizer) State.initial events :=
    always_invariant (step tokenizer) (fun _ _ _ kept taken => step_kept kept taken)
      invariant_initial
  exact always.mono (step tokenizer) fun _ kept => kept.toRecallKept

end Steps

end LiteHorse.Agent.RecallIndex
