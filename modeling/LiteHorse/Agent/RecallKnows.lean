/-
This file says what a transaction on the recall index knows in each of its phases: which rows it
has deleted, inserted or filled in, and what has become of the rows that it has yet to come to.

Nobody else writes a row that a transaction has written, and a row that is deleted does not come
back; so what a transaction knows stays true when another one commits (`Phase.Knows.mono`).
-/

import LiteHorse.Agent.RecallIndex

namespace LiteHorse.Agent.RecallIndex

open Providers Python Reindex Repositories RowVersions Runs

/-! ### What a transaction knows -/

/-- What is committed, and what a transaction has written and sees. -/
structure Sight (Coordinate : Type) where
  committed : Nat → Option (Row Coordinate)
  held : Nat → Bool
  view : Nat → Option (Row Coordinate)

section Knows

variable {Coordinate : Type} (tokenizer : Tokenizer) (changes : List (Change Generation))
  (answers : List (Answer Coordinate)) (sight : Sight Coordinate)

/-- The `DELETE` of a call, with rows to come, beside inserted rows. -/
structure Clears (call : Call) (seen : List Generation) (todo own : List Nat) : Prop where
  held : ∀ id, sight.held id = true → id ∈ own ∨ (sight.view id = none ∧
    ∃ generation ∈ seen, call.covers generation.source = true ∧ id ∈ generation.ids)
  coming : ∀ id ∈ todo, ∃ generation ∈ seen,
    call.covers generation.source = true ∧ id ∈ generation.ids
  rest : ∀ generation ∈ seen, call.covers generation.source = true → ∀ id ∈ generation.ids,
    id ∈ todo ∨ sight.held id = true ∨ sight.committed id = none
  snapshot : ∃ earlier, earlier <+: changes ∧ seen = liveAfter earlier

structure Inserts (generation : Generation) (vectors : List (List Coordinate))
    (model : String) : Prop where
  rows : ∀ index : Nat, ∀ id, generation.ids[index]? = some id → sight.held id = true ∧
    ∃ row, sight.view id = some row ∧ row.chunkIndex = index ∧
      generation.Has id row.toMemoryChunk
  vouched : ∀ index : Nat, ∀ vector text, vectors[index]? = some vector → vector ≠ [] →
    generation.chunks[index]? = some text → ∃ answer ∈ answers, answer.Gives text model vector

structure Fills (model : String) (todo : List (Nat × List Coordinate)) (done : List Nat) :
    Prop where
  held : ∀ id, sight.held id = true → ∃ before row, sight.committed id = some before ∧
    sight.view id = some row ∧ row.toMemoryChunk = before.toMemoryChunk ∧
      row.embedding.isSome = true
  coming : ∀ pair ∈ todo, pair.2 ≠ [] ∧ ∃ generation ∈ added changes, ∃ chunk,
    generation.Has pair.1 chunk ∧ ∃ answer ∈ answers, answer.Gives chunk.content model pair.2
  passed : ∀ id ∈ done, (∃ generation ∈ added changes, id ∈ generation.ids) ∧
    (sight.held id = true ∨ sight.committed id = none)

def Phase.Knows : Phase Coordinate → Prop
  | .clearing call seen todo _ => Clears changes sight call seen todo []
  | .inserting call seen generation vectors model =>
    Clears changes sight call seen [] generation.ids ∧
      Inserts answers sight generation vectors model ∧
        ∃ content, call = .index generation.source content ∧
          generation.chunks = chunkText tokenizer content
  | .listed pending => (∀ id, sight.held id = false) ∧ ∀ pair ∈ pending,
    ∃ generation ∈ added changes, ∃ chunk, generation.Has pair.1 chunk ∧ chunk.content = pair.2
  | .filling model todo done => Fills changes answers sight model todo done
  | .idle | .returned _ | .embedded _ | .aborted => ∀ id, sight.held id = false

/-- What a transaction has inserted. -/
def Phase.own : Phase Coordinate → List Nat
  | .inserting _ _ generation _ _ => generation.ids
  | _ => []

end Knows

section Mono

variable {Coordinate : Type} {tokenizer : Tokenizer} {changes more : List (Change Generation)}
  {answers : List (Answer Coordinate)} {sight after : Sight Coordinate}

theorem added_of_prefix (isPrefix : changes <+: more) :
    ∀ generation ∈ added changes, generation ∈ added more :=
  fun _ member => (isPrefix.filterMap Change.added).subset member

/-- What was seen was there. -/
theorem Clears.added_of_seen {call : Call} {seen : List Generation} {todo own : List Nat}
    (clears : Clears changes sight call seen todo own) :
    ∀ generation ∈ seen, generation ∈ added changes := by
  obtain ⟨earlier, isPrefix, rfl⟩ := clears.snapshot
  exact fun generation member => added_of_prefix isPrefix generation (added_of_liveAfter _ member)

/-- The world goes on beside a transaction: there are more changes, no row comes back that was
deleted, and what the transaction has written is as it was. -/
structure GoesOn (changes more : List (Change Generation)) (sight after : Sight Coordinate) :
    Prop where
  later : changes <+: more
  held : after.held = sight.held
  gone : ∀ generation ∈ added changes, ∀ id ∈ generation.ids, sight.committed id = none →
    after.committed id = none
  kept : ∀ id, sight.held id = true →
    after.committed id = sight.committed id ∧ after.view id = sight.view id

theorem Clears.mono (goesOn : GoesOn changes more sight after) {call : Call}
    {seen : List Generation} {todo own : List Nat}
    (clears : Clears changes sight call seen todo own) :
    Clears more after call seen todo own where
  held id held := by
    rw [goesOn.held] at held
    rw [(goesOn.kept id held).2]
    exact clears.held id held
  coming := clears.coming
  rest generation member covered id inside := by
    rw [goesOn.held]
    exact (clears.rest generation member covered id inside).imp_right fun rest =>
      rest.imp_right (goesOn.gone generation (clears.added_of_seen generation member) id inside)
  snapshot := by
    obtain ⟨earlier, isPrefix, isSeen⟩ := clears.snapshot
    exact ⟨earlier, isPrefix.trans goesOn.later, isSeen⟩

theorem Inserts.mono (goesOn : GoesOn changes more sight after) {generation : Generation}
    {vectors : List (List Coordinate)} {model : String}
    (inserts : Inserts answers sight generation vectors model) :
    Inserts answers after generation vectors model where
  rows index id isId := by
    obtain ⟨held, isRow⟩ := inserts.rows index id isId
    rw [goesOn.held, (goesOn.kept id held).2]
    exact ⟨held, isRow⟩
  vouched := inserts.vouched

theorem Fills.mono (goesOn : GoesOn changes more sight after) {model : String}
    {todo : List (Nat × List Coordinate)} {done : List Nat}
    (fills : Fills changes answers sight model todo done) :
    Fills more answers after model todo done where
  held id held := by
    rw [goesOn.held] at held
    rw [(goesOn.kept id held).1, (goesOn.kept id held).2]
    exact fills.held id held
  coming pair member := by
    obtain ⟨nonempty, generation, isAdded, rest⟩ := fills.coming pair member
    exact ⟨nonempty, generation, added_of_prefix goesOn.later generation isAdded, rest⟩
  passed id member := by
    obtain ⟨⟨generation, isAdded, inside⟩, isDone⟩ := fills.passed id member
    rw [goesOn.held]
    exact ⟨⟨generation, added_of_prefix goesOn.later generation isAdded, inside⟩,
      isDone.imp_right (goesOn.gone generation isAdded id inside)⟩

/-- What a transaction knows stays true. -/
theorem Phase.Knows.mono (goesOn : GoesOn changes more sight after) {phase : Phase Coordinate}
    (knows : phase.Knows tokenizer changes answers sight) :
    phase.Knows tokenizer more answers after := by
  cases phase with
  | clearing => exact Clears.mono goesOn knows
  | inserting =>
    obtain ⟨clears, inserts, indexed⟩ := knows
    exact ⟨clears.mono goesOn, inserts.mono goesOn, indexed⟩
  | listed =>
    obtain ⟨noneHeld, pending⟩ := knows
    refine ⟨fun id => goesOn.held ▸ noneHeld id, fun pair member => ?_⟩
    obtain ⟨generation, isAdded, rest⟩ := pending pair member
    exact ⟨generation, added_of_prefix goesOn.later generation isAdded, rest⟩
  | filling => exact Fills.mono goesOn knows
  | idle => exact fun id => goesOn.held ▸ knows id
  | returned => exact fun id => goesOn.held ▸ knows id
  | embedded => exact fun id => goesOn.held ▸ knows id
  | aborted => exact fun id => goesOn.held ▸ knows id

theorem Phase.Knows.answered (newer : List (Answer Coordinate)) {phase : Phase Coordinate}
    (knows : phase.Knows tokenizer changes answers sight) :
    phase.Knows tokenizer changes (answers ++ newer) sight := by
  have weaken : ∀ {text model : String} {vector : List Coordinate},
      (∃ answer ∈ answers, answer.Gives text model vector) →
        ∃ answer ∈ answers ++ newer, answer.Gives text model vector :=
    fun ⟨answer, member, gives⟩ => ⟨answer, List.mem_append_left newer member, gives⟩
  cases phase with
  | inserting =>
    obtain ⟨clears, inserts, indexed⟩ := knows
    exact ⟨clears, ⟨inserts.rows, fun index vector text isVector nonempty isText =>
      weaken (inserts.vouched index vector text isVector nonempty isText)⟩, indexed⟩
  | filling =>
    refine ⟨knows.held, fun pair member => ?_, knows.passed⟩
    obtain ⟨nonempty, generation, isAdded, chunk, has, gives⟩ := knows.coming pair member
    exact ⟨nonempty, generation, isAdded, chunk, has, weaken gives⟩
  | clearing => exact knows
  | listed => exact knows
  | idle => exact knows
  | returned => exact knows
  | embedded => exact knows
  | aborted => exact knows

/-- What a transaction holds it has inserted, deleted or filled in. -/
theorem Phase.Knows.cases_held {phase : Phase Coordinate}
    (knows : phase.Knows tokenizer changes answers sight) {id : Nat}
    (held : sight.held id = true) :
    id ∈ phase.own ∨
      (sight.view id = none ∧ ∃ generation ∈ added changes, id ∈ generation.ids) ∨
      ∃ before row, sight.committed id = some before ∧ sight.view id = some row ∧
        row.toMemoryChunk = before.toMemoryChunk ∧ row.embedding.isSome = true := by
  cases phase with
  | clearing =>
    obtain ⟨isGone, generation, isSeen, _, inside⟩ :=
      (Clears.held knows id held).resolve_left List.not_mem_nil
    exact Or.inr (Or.inl ⟨isGone, generation, Clears.added_of_seen knows generation isSeen, inside⟩)
  | inserting =>
    rcases knows.1.held id held with own | ⟨isGone, generation, isSeen, _, inside⟩
    · exact Or.inl own
    · exact Or.inr (Or.inl ⟨isGone, generation, knows.1.added_of_seen generation isSeen, inside⟩)
  | filling => exact Or.inr (Or.inr (Fills.held knows id held))
  | listed => cases (knows.1 id).symm.trans held
  | idle => cases (knows id).symm.trans held
  | returned => cases (knows id).symm.trans held
  | embedded => cases (knows id).symm.trans held
  | aborted => cases (knows id).symm.trans held

theorem Phase.Knows.held_of_own {phase : Phase Coordinate}
    (knows : phase.Knows tokenizer changes answers sight) :
    ∀ id ∈ phase.own, sight.held id = true := by
  intro id member
  cases phase with
  | inserting =>
    obtain ⟨index, isId⟩ := List.getElem?_of_mem member
    exact (knows.2.1.rows index id isId).1
  | clearing => cases member
  | filling => cases member
  | listed => cases member
  | idle => cases member
  | returned => cases member
  | embedded => cases member
  | aborted => cases member

end Mono

end LiteHorse.Agent.RecallIndex
