/-
This file is about an index whose rows say which source they come from, and in which a source is
indexed anew by deleting its rows and adding others. `mem_replaceAll` says what is in the index
after several sources were indexed anew: the rows of the other sources and the new rows.

Sources may be indexed at once. Each time a source is indexed its rows are a generation; a change
deletes the generations that were there when it began, and may miss one that came later.
-/

import Mathlib.Data.List.Basic
import Mathlib.Data.List.Induction
import Mathlib.Data.List.Nodup

namespace LiteHorse.Reindex

variable {Row Source : Type*} [DecidableEq Source] (source : Row → Source)

/-- The rows with those of one source replaced. -/
def replace (rows : List Row) (key : Source) (new : List Row) : List Row :=
  (rows.filter fun row => source row ≠ key) ++ new

def replaceAll (rows : List Row) : List (Source × List Row) → List Row
  | [] => rows
  | (key, new) :: rest => replaceAll (replace source rows key new) rest

variable {source} {rows new : List Row} {row : Row} {key : Source}

theorem mem_replace :
    row ∈ replace source rows key new ↔ (row ∈ rows ∧ source row ≠ key) ∨ row ∈ new := by
  unfold replace
  rw [List.mem_append, List.mem_filter, decide_eq_true_iff]

theorem mem_replaceAll {sources : List (Source × List Row)}
    (own : ∀ indexed ∈ sources, ∀ row ∈ indexed.2, source row = indexed.1)
    (distinct : (sources.map Prod.fst).Nodup) :
    row ∈ replaceAll source rows sources ↔
      (row ∈ rows ∧ source row ∉ sources.map Prod.fst) ∨
        ∃ indexed ∈ sources, row ∈ indexed.2 := by
  induction sources generalizing rows with
  | nil => simp [replaceAll]
  | cons first rest inductionHypothesis =>
    obtain ⟨key, new⟩ := first
    obtain ⟨elsewhere, distinct⟩ := List.nodup_cons.mp distinct
    have ownRest := fun indexed member => own indexed (List.mem_cons_of_mem _ member)
    have stays : row ∈ new → source row ∉ rest.map Prod.fst := by
      intro isNew
      rw [own _ List.mem_cons_self row isNew]
      exact elsewhere
    unfold replaceAll
    rw [inductionHypothesis ownRest distinct, mem_replace, List.map_cons, List.mem_cons, not_or,
      List.exists_mem_cons_iff]
    tauto

/-! ### Changes at once -/

/-- A change deletes the generations that it has seen and covers, and may add one. -/
structure Change (Generation : Type*) where
  seen : List Generation
  covers : Generation → Bool
  added : Option Generation

section Changes

variable {Generation : Type*} [DecidableEq Generation] {change : Change Generation}
  {changes : List (Change Generation)} {generation : Generation}

def Change.deletes (change : Change Generation) (generation : Generation) : Bool :=
  change.seen.contains generation && change.covers generation

def Change.apply (change : Change Generation) (live : List Generation) : List Generation :=
  (live.filter fun generation => !change.deletes generation) ++ change.added.toList

/-- The generations that are there after the changes. -/
def liveAfter (changes : List (Change Generation)) : List Generation :=
  changes.foldl (fun live change => change.apply live) []

omit [DecidableEq Generation] in
/-- The generations that were ever there. -/
def added (changes : List (Change Generation)) : List Generation := changes.filterMap Change.added

theorem deletes_iff :
    change.deletes generation = true ↔
      generation ∈ change.seen ∧ change.covers generation = true := by
  unfold Change.deletes
  rw [Bool.and_eq_true, List.contains_iff_mem]

theorem liveAfter_append (changes : List (Change Generation)) (change : Change Generation) :
    liveAfter (changes ++ [change]) = change.apply (liveAfter changes) := by
  unfold liveAfter
  rw [List.foldl_append]
  rfl

theorem mem_apply {live : List Generation} : generation ∈ change.apply live ↔
    (generation ∈ live ∧ ¬ (generation ∈ change.seen ∧ change.covers generation = true)) ∨
      change.added = some generation := by
  unfold Change.apply
  rw [List.mem_append, List.mem_filter, Option.mem_toList, Bool.not_eq_true',
    ← Bool.not_eq_true, deletes_iff]

omit [DecidableEq Generation] in
theorem added_append (changes : List (Change Generation)) (change : Change Generation) :
    added (changes ++ [change]) = added changes ++ change.added.toList := by
  unfold added
  rw [List.filterMap_append]
  refine congrArg (added changes ++ ·) ?_
  cases isAdded : change.added with
  | none => rw [List.filterMap_cons_none isAdded]; rfl
  | some generation => rw [List.filterMap_cons_some isAdded]; rfl

theorem added_of_liveAfter : ∀ generation ∈ liveAfter changes, generation ∈ added changes := by
  induction changes using List.reverseRecOn with
  | nil => exact fun _ member => member
  | append_singleton changes change inductionHypothesis =>
    intro generation member
    rw [liveAfter_append, mem_apply] at member
    rw [added_append, List.mem_append, Option.mem_toList]
    exact member.imp (fun old => inductionHypothesis generation old.1) id

/-- A change that has seen all there is, and covers one source, replaces the rows of that. -/
theorem apply_eq_replace {live : List Generation} (ofGeneration : Generation → Source)
    (seen : ∀ generation ∈ live, generation ∈ change.seen)
    (covers : ∀ generation, change.covers generation = decide (ofGeneration generation = key)) :
    change.apply live = replace ofGeneration live key change.added.toList := by
  unfold Change.apply replace
  refine congrArg (· ++ _) (List.filter_congr fun generation member => ?_)
  unfold Change.deletes
  rw [List.contains_iff_mem.mpr (seen generation member), covers, Bool.true_and, decide_not]

end Changes

end LiteHorse.Reindex
