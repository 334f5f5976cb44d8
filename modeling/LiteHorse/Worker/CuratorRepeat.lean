/-
This file is about a second pass of the curator at the time of the first one, with nothing in
between. It finds every skill in the state that it is due for, so it moves none. It also finds the
same pairs where the embedding provider answers the same, and asks the reviewer about them again:
nothing tells it that they were proposed before.

So the second pass changes nothing exactly if the reviewer merges none of its pairs
(`repeatsNothing_iff`).
-/

import LiteHorse.Worker.Curator

namespace LiteHorse.Worker.Curator

open Python Sorting

/-! ### The states -/

section States

variable {now : Int} {skill : SkillRow}

theorem targetState_eq_pinned_iff :
    targetState now skill = .pinned ↔ skill.curatorState = .pinned := by
  constructor
  · intro isPinned
    by_contra notPinned
    unfold targetState at isPinned
    rw [if_neg notPinned] at isPinned
    split at isPinned
    · exact notPinned isPinned
    · dsimp only at isPinned
      split at isPinned
      · cases isPinned
      · split at isPinned <;> cases isPinned
  · exact fun pinned => if_pos pinned

/-- What becomes archived was idle for long and never succeeded. -/
theorem idle_of_archived (becomes : targetState now skill = .archived)
    (was : skill.curatorState ≠ .archived) :
    ∃ last, skill.lastUsedAt.or skill.createdAt = some last ∧
      days curatorArchiveAfterDays ≤ now - last ∧ skill.successCount = 0 := by
  unfold targetState at becomes
  split at becomes
  · cases becomes
  · split at becomes
    · exact absurd becomes was
    next last isLast =>
      dsimp only at becomes
      split at becomes
      next idle => exact ⟨last, isLast, idle⟩
      next => split at becomes <;> cases becomes

/-- A skill that is in the state it is due for stays in it. -/
theorem targetState_moved (now : Int) (skill : SkillRow) :
    targetState now (moved now skill) = targetState now skill := by
  by_cases pinned : skill.curatorState = .pinned
  · have isPinned : targetState now skill = .pinned := if_pos pinned
    rw [isPinned]
    exact if_pos isPinned
  · have notPinned : ¬ (moved now skill).curatorState = .pinned :=
      fun isPinned => pinned (targetState_eq_pinned_iff.mp isPinned)
    unfold targetState
    rw [if_neg notPinned, if_neg pinned]
    cases isLast : skill.lastUsedAt.or skill.createdAt with
    | none =>
      have noLast : (moved now skill).lastUsedAt.or (moved now skill).createdAt = none := isLast
      rw [noLast]
      show targetState now skill = skill.curatorState
      unfold targetState
      rw [if_neg pinned, isLast]
    | some last =>
      have sameLast : (moved now skill).lastUsedAt.or (moved now skill).createdAt = some last :=
        isLast
      rw [sameLast]
      rfl

theorem moved_moved (now : Int) (skill : SkillRow) :
    moved now (moved now skill) = moved now skill := by
  have target := targetState_moved now skill
  unfold moved at target ⊢
  rw [target]

/-- What the pass makes of a row. -/
def passed (now : Int) (row : SkillRow) : SkillRow :=
  if row.isCurrent = true then moved now row else row

theorem transitions_eq_map (now : Int) (table : SkillTable) :
    transitions now table.rows = table.rows.map (passed now) := transitions_eq now table

theorem isCurrent_passed (now : Int) (row : SkillRow) :
    (passed now row).isCurrent = row.isCurrent := by
  unfold passed
  split <;> rfl

theorem passed_passed (now : Int) (row : SkillRow) :
    passed now (passed now row) = passed now row := by
  by_cases current : row.isCurrent = true
  · have isMoved : passed now row = moved now row := if_pos current
    have stillCurrent : (moved now row).isCurrent = true := current
    rw [isMoved, passed, if_pos stillCurrent, moved_moved]
  · have same : passed now row = row := if_neg current
    rw [same, same]

theorem filter_current_passed (now : Int) (rows : List SkillRow) :
    (rows.map (passed now)).filter SkillRow.isCurrent =
      (rows.filter SkillRow.isCurrent).map (moved now) := by
  have sameCurrent : SkillRow.isCurrent ∘ passed now = SkillRow.isCurrent := by
    funext row
    exact isCurrent_passed now row
  rw [List.filter_map, sameCurrent]
  exact List.map_congr_left fun row member => if_pos (List.mem_filter.mp member).2

/-- The rows of the user after a pass. -/
def afterPass (now : Int) (table : SkillTable) : SkillTable where
  rows := transitions now table.rows
  oneCurrent := by
    rw [transitions_eq_map, filter_current_passed, List.map_map]
    exact table.oneCurrent

/-- A second pass moves no skill. -/
theorem transitions_again (now : Int) (table : SkillTable) :
    transitions now (transitions now table.rows) = transitions now table.rows := by
  have again := transitions_eq_map now (afterPass now table)
  have rows : (afterPass now table).rows = table.rows.map (passed now) :=
    transitions_eq_map now table
  rw [rows, List.map_map] at again
  rw [transitions_eq_map, again]
  exact List.map_congr_left fun row _ => passed_passed now row

theorem listUser_again (now : Int) (table : SkillTable) :
    listUser (transitions now table.rows) = (listUser table.rows).map (moved now) := by
  unfold listUser
  rw [transitions_eq_map, filter_current_passed,
    map_sortedBy SkillRow.slug SkillRow.slug (moved now) _ fun _ _ => rfl]

end States

/-! ### The proposals -/

section Proposals

variable {Component Score : Type}

/-- The curator with an embedding provider that may answer otherwise. -/
def Setup.embedding (setup : Setup Component Score)
    (embedBatch : List String → Option (List (List Component))) : Setup Component Score :=
  { setup with embedBatch }

theorem filterMap_proposeMerge_eq_nil_iff (setup : Setup Component Score) (agentId : UUID)
    (pairs : List (Pair Score)) :
    pairs.filterMap (proposeMerge setup agentId) = [] ↔
      ∀ pair ∈ pairs, merges setup pair = false := by
  rw [List.filterMap_eq_nil_iff]
  refine forall₂_congr fun pair _ => ?_
  rw [← proposeMerge_isSome setup agentId, Option.isSome_eq_false_iff, Option.isNone_iff_eq_none]

variable [LinearOrder Score]

/-- A second pass has the skills of the first one before it. -/
theorem reviewedPairs_again (setup : Setup Component Score) (now : Int) (table : SkillTable) :
    reviewedPairs setup now (transitions now table.rows) =
      reviewedPairs setup now table.rows := by
  unfold reviewedPairs
  rw [listUser_again, List.map_map]
  refine congrArg (fun skills => (findConsolidationPairs setup (List.filter _ skills)).take _) ?_
  exact List.map_congr_left fun skill _ => moved_moved now skill

/-- What is expected of a pass and of a second one behind it, at the same time and with nothing in
between. The reviewer answers by the pair; the embedding provider is asked `again`. -/
structure RepeatsNothing (setup : Setup Component Score)
    (again : List String → Option (List (List Component))) (now : Int) (agentId : UUID)
    (table : SkillTable) : Prop where
  states : (runForAgent (setup.embedding again) now agentId
      (runForAgent setup now agentId table.rows).1).1 =
    (runForAgent setup now agentId table.rows).1
  proposals : (runForAgent (setup.embedding again) now agentId
    (runForAgent setup now agentId table.rows).1).2.1 = []
  pinned : ∀ change ∈ table.rows.zip (runForAgent setup now agentId table.rows).1,
    change.1.curatorState = .pinned → change.2.curatorState = .pinned
  archived : ∀ change ∈ table.rows.zip (runForAgent setup now agentId table.rows).1,
    change.1.curatorState ≠ .archived → change.2.curatorState = .archived →
      ∃ last, change.1.lastUsedAt.or change.1.createdAt = some last ∧
        days 90 ≤ now - last ∧ change.1.successCount = 0

theorem forall_change_iff (now : Int) (table : SkillTable) (holds : SkillRow × SkillRow → Prop) :
    (∀ change ∈ table.rows.zip (transitions now table.rows), holds change) ↔
      ∀ row ∈ table.rows, holds (row, passed now row) := by
  rw [transitions_eq_map, ← List.map_prod_left_eq_zip, List.forall_mem_map]

/-- The second pass changes nothing exactly if the reviewer merges none of the pairs it is asked
about again. What a pass does to the states is as expected in any case. -/
theorem repeatsNothing_iff (setup : Setup Component Score)
    (again : List String → Option (List (List Component))) (now : Int) (agentId : UUID)
    (table : SkillTable) :
    RepeatsNothing setup again now agentId table ↔
      ∀ pair ∈ reviewedPairs (setup.embedding again) now table.rows, merges setup pair = false := by
  have proposed : (runForAgent (setup.embedding again) now agentId
      (runForAgent setup now agentId table.rows).1).2.1 = [] ↔
        ∀ pair ∈ reviewedPairs (setup.embedding again) now table.rows,
          merges setup pair = false := by
    rw [← reviewedPairs_again]
    exact filterMap_proposeMerge_eq_nil_iff (setup.embedding again) agentId _
  constructor
  · exact fun repeats => proposed.mp repeats.proposals
  · intro none
    refine ⟨transitions_again now table, proposed.mpr none, ?_, ?_⟩
    · refine (forall_change_iff now table _).mpr fun row _ pinned => ?_
      dsimp only at pinned ⊢
      unfold passed
      split
      · exact targetState_eq_pinned_iff.mpr pinned
      · exact pinned
    · refine (forall_change_iff now table _).mpr fun row _ was becomes => ?_
      dsimp only at was becomes ⊢
      unfold passed at becomes
      split at becomes
      · exact idle_of_archived becomes was
      · exact absurd becomes was

end Proposals

/-- Two skills of one agent with the same body. -/
def twins : SkillTable where
  rows := [idleSkill "brief" 1, idleSkill "short" 1]
  oneCurrent := by decide

/-- The merge is proposed by the first pass and once more by the second. -/
theorem not_repeatsNothing_twins :
    ¬ RepeatsNothing eagerSetup eagerSetup.embedBatch (days 40) 1 twins := by
  intro repeats
  have secondProposes : ((runForAgent (eagerSetup.embedding eagerSetup.embedBatch) (days 40) 1
      (runForAgent eagerSetup (days 40) 1 twins.rows).1).2.1.map SkillProposal.sourceSlugs) =
        [("brief", "short")] := by decide
  rw [repeats.proposals] at secondProposes
  cases secondProposes

end LiteHorse.Worker.Curator
