/-
This file models the variants of a generation: how a generator is asked for mutations of a
`SKILL.md`, and how variants that are near to an earlier one are dropped.

The generator and the embedder are parameters. They may raise and may answer differently each time
they are asked, so they are functions of how often they were asked before. The first variant is
the text that was mutated, and stays the first one (`diversityPrune_generatePopulation`). What is
kept is the first of each cluster (`diversityPrune_clusters`): no two of it are alike, and what is
dropped is like one of it that precedes it.
-/

import LiteHorse.Library.GreedySelection
import LiteHorse.Library.Utf8
import Mathlib.Algebra.Ring.Int.Defs
import Mathlib.Data.Int.Order.Basic
import Mathlib.Order.Defs.LinearOrder

namespace LiteHorse.Evolve.Gepa

open GreedySelection JsonTexts

structure Variant where
  skillMd : Text
  mutation : String
deriving DecidableEq

def defaultMutationHints : List String := [
  "rephrase the Procedure section in clearer imperative voice",
  "add 1-3 concrete Pitfalls examples drawn from the description",
  "reorder steps so the verification step happens before any write",
  "tighten the description so every sentence carries a load-bearing fact",
  "add a 'When to use' block at the top if missing",
  "merge any duplicated guidance and remove dead links",
  "add an explicit failure-recovery branch to the Procedure",
  "split the longest paragraph into two shorter ones for readability"]

/-- The hint of a call: the hints are gone through again and again. -/
def mutationHint (index : Nat) : String :=
  defaultMutationHints.getD (index % defaultMutationHints.length) ""

/-- What the generator answers to a call, or `none` if it raises. -/
abbrev VariantGenerator := Nat → Text → String → Option Text

/-- The variant of an answer, unless it is empty or the text itself. -/
def mutated (baseline : Text) (hint : String) (body : Text) : Option Variant :=
  if body ≠ [] ∧ body ≠ baseline then some { skillMd := body, mutation := hint } else none

def generatePopulation (generator : VariantGenerator) (baseline : Text) (size : Int) :
    List Variant :=
  { skillMd := baseline, mutation := "baseline" } ::
    (List.range (size - 1).toNat).filterMap fun index =>
      (generator index baseline (mutationHint index)).bind (mutated baseline (mutationHint index))

section Pruning

variable {Component Score : Type} [LinearOrder Score] [Zero Score]

/-- What the embedder answers for a variant, or `none` if it raises. -/
abbrev Embedder (Component : Type) := Nat → Text → Option (List Component)

variable (similarity : List Component → List Component → Score) (threshold : Score)

/-- `_cosine`: what is empty or of another length is not similar. -/
def cosine (first second : List Component) : Score :=
  if first = [] ∨ second = [] ∨ first.length ≠ second.length then 0 else similarity first second

/-- One variant of the scan, after those that are kept: `kept` and `kept_embeds` as one list. -/
def pruneStep (kept : List (Variant × List Component)) (next : Variant × List Component) :
    List (Variant × List Component) :=
  let isDup := !next.2.isEmpty &&
    kept.any fun other => !other.2.isEmpty && threshold ≤ cosine similarity next.2 other.2
  if isDup then kept else kept ++ [next]

/-- A variant with its embedding, which is empty where the embedder raised. -/
def embedded (embedder : Embedder Component) (variants : List Variant) :
    List (Variant × List Component) :=
  variants.zipIdx.map fun (variant, index) =>
    (variant, (embedder index variant.skillMd).getD [])

def diversityPrune (embedder : Embedder Component) (variants : List Variant) : List Variant :=
  if variants.length ≤ 1 then variants
  else ((embedded embedder variants).foldl (pruneStep similarity threshold) []).map Prod.fst

/-! ### What is kept -/

/-- What the embedder answered for the variant at a position. -/
def embeddingOf (embedder : Embedder Component) (variants : List Variant)
    (position : Fin variants.length) : List Component :=
  (embedder position (variants.get position).skillMd).getD []

/-- Both embeddings are there and the similarity reaches the threshold. -/
def alike (next other : List Component) : Bool :=
  !next.isEmpty && (!other.isEmpty && threshold ≤ cosine similarity next other)

/-- The positions of the variants that are kept. -/
def keptPositions (embedder : Embedder Component) (variants : List Variant) :
    List (Fin variants.length) :=
  select (fun next other => alike similarity threshold (embeddingOf embedder variants next)
    (embeddingOf embedder variants other)) (List.finRange variants.length)

variable {similarity threshold} {embedder : Embedder Component} {variants : List Variant}

theorem pruneStep_eq : pruneStep similarity threshold =
    step fun next other => alike similarity threshold next.2 other.2 := by
  funext kept next
  unfold pruneStep step alike
  dsimp only
  rw [List.and_any_distrib_left]

theorem embedded_eq (embedder : Embedder Component) (variants : List Variant) :
    embedded embedder variants = (List.finRange variants.length).map fun position =>
      (variants.get position, embeddingOf embedder variants position) := by
  unfold embedded embeddingOf
  refine List.ext_getElem (by simp) fun index inBounds _ => ?_
  simp

theorem diversityPrune_eq (embedder : Embedder Component) (variants : List Variant) :
    diversityPrune similarity threshold embedder variants =
      (keptPositions similarity threshold embedder variants).map variants.get := by
  unfold diversityPrune
  split
  next isShort =>
    rcases variants with _ | ⟨first, _ | ⟨second, rest⟩⟩
    · rfl
    · rfl
    · cases Nat.le_of_succ_le_succ isShort
  next =>
    rw [pruneStep_eq, embedded_eq]
    show (select _ (List.map _ _)).map Prod.fst = _
    rw [select_map, List.map_map]
    rfl

theorem sublist_keptPositions (embedder : Embedder Component) (variants : List Variant) :
    (keptPositions similarity threshold embedder variants).Sublist
      (List.finRange variants.length) :=
  select_sublist _

/-- What is dropped is like one that was kept before it. -/
theorem alike_of_dropped {position : Fin variants.length}
    (dropped : position ∉ keptPositions similarity threshold embedder variants) :
    ∃ other ∈ keptPositions similarity threshold embedder variants, other < position ∧
      alike similarity threshold (embeddingOf embedder variants position)
        (embeddingOf embedder variants other) = true := by
  obtain ⟨front, back, split⟩ := List.append_of_mem (List.mem_finRange position)
  have ascending := List.pairwise_lt_finRange variants.length
  unfold keptPositions at dropped ⊢
  rw [split] at dropped ascending ⊢
  obtain ⟨other, isKept, isAlike⟩ := near_of_dropped dropped
  refine ⟨other, (select_append _ front (position :: back)).subset isKept, ?_, isAlike⟩
  exact (List.pairwise_append.mp ascending).2.2 other ((select_sublist front).subset isKept)
    position List.mem_cons_self

/-! ### The first variant -/

theorem diversityPrune_cons (embedder : Embedder Component) (first : Variant)
    (rest : List Variant) :
    ∃ others, diversityPrune similarity threshold embedder (first :: rest) = first :: others := by
  obtain ⟨others, isKept⟩ : ∃ others,
      keptPositions similarity threshold embedder (first :: rest) =
        ⟨0, Nat.succ_pos _⟩ :: others := by
    unfold keptPositions
    show ∃ others, select _ (List.finRange (rest.length + 1)) = _
    rw [List.finRange_succ]
    exact select_cons _ _
  refine ⟨others.map (first :: rest).get, ?_⟩
  rw [diversityPrune_eq, isKept]
  rfl

theorem diversityPrune_generatePopulation (generator : VariantGenerator)
    (embedder : Embedder Component) (baseline : Text) (size : Int) :
    ∃ others, diversityPrune similarity threshold embedder
      (generatePopulation generator baseline size) =
        { skillMd := baseline, mutation := "baseline" } :: others :=
  diversityPrune_cons embedder _ _

/-! ### The clusters -/

/-- The kept variants are one of each cluster, the first one. They are given by their positions,
since equal variants may stand in the list. -/
structure GreedyClusters (similarity : List Component → List Component → Score)
    (threshold : Score) (embedder : Embedder Component) (variants kept : List Variant)
    (positions : List (Fin variants.length)) : Prop where
  same : kept = positions.map variants.get
  ascending : positions.Pairwise (· < ·)
  sublist : kept.Sublist variants
  first : ∀ position : Fin variants.length, position.val = 0 → position ∈ positions
  /-- No two of them are alike. -/
  apart : ∀ first ∈ positions, ∀ second ∈ positions, first ≠ second →
    embeddingOf embedder variants first ≠ [] → embeddingOf embedder variants second ≠ [] →
    cosine similarity (embeddingOf embedder variants first)
      (embeddingOf embedder variants second) < threshold
  /-- What is dropped is like one of them that precedes it. -/
  dropped : ∀ position, position ∉ positions → ∃ other ∈ positions, other < position ∧
    threshold ≤ cosine similarity (embeddingOf embedder variants position)
      (embeddingOf embedder variants other)
  /-- Nothing is dropped without an embedding, as where the embedder raised. -/
  failed : ∀ position, embeddingOf embedder variants position = [] → position ∈ positions

omit [LinearOrder Score] in
theorem cosine_symmetric
    (symmetric : ∀ first second, similarity first second = similarity second first)
    (first second : List Component) :
    cosine similarity first second = cosine similarity second first := by
  unfold cosine
  rw [symmetric first second]
  refine if_congr ?_ rfl rfl
  rw [or_left_comm, ne_comm]

theorem alike_iff {next other : List Component} : alike similarity threshold next other = true ↔
    next ≠ [] ∧ other ≠ [] ∧ threshold ≤ cosine similarity next other := by
  unfold alike
  rw [Bool.and_eq_true, Bool.and_eq_true, decide_eq_true_iff, Bool.not_eq_true',
    Bool.not_eq_true', List.isEmpty_eq_false_iff, List.isEmpty_eq_false_iff]

theorem alike_symmetric
    (symmetric : ∀ first second, similarity first second = similarity second first)
    (first second : List Component) :
    alike similarity threshold first second = alike similarity threshold second first := by
  rw [Bool.eq_iff_iff, alike_iff, alike_iff, cosine_symmetric symmetric first second]
  exact and_left_comm

/-- The scan is a greedy clustering, whatever the embedder answers and for every threshold. -/
theorem diversityPrune_clusters
    (symmetric : ∀ first second, similarity first second = similarity second first)
    (threshold : Score) (embedder : Embedder Component) (variants : List Variant) :
    ∃ positions, GreedyClusters similarity threshold embedder variants
      (diversityPrune similarity threshold embedder variants) positions := by
  refine ⟨keptPositions similarity threshold embedder variants, ?_⟩
  constructor
  · exact diversityPrune_eq embedder variants
  · exact (List.pairwise_lt_finRange _).sublist (sublist_keptPositions embedder variants)
  · rw [diversityPrune_eq]
    conv_rhs => rw [← List.map_get_finRange variants]
    exact (sublist_keptPositions embedder variants).map variants.get
  · intro position isFirst
    by_contra dropped
    obtain ⟨other, _, before, _⟩ := alike_of_dropped dropped
    exact Nat.not_lt_zero other.val (isFirst ▸ before)
  · intro first isFirst second isSecond different someFirst someSecond
    have notAlike : alike similarity threshold (embeddingOf embedder variants first)
        (embeddingOf embedder variants second) = false :=
      select_apart (fun _ _ => alike_symmetric symmetric _ _) isFirst isSecond different
    by_contra reaches
    have isAlike := alike_iff.mpr ⟨someFirst, someSecond, not_lt.mp reaches⟩
    exact Bool.false_ne_true (notAlike.symm.trans isAlike)
  · intro position dropped
    obtain ⟨other, isKept, before, isAlike⟩ := alike_of_dropped dropped
    exact ⟨other, isKept, before, (alike_iff.mp isAlike).2.2⟩
  · intro position noEmbedding
    by_contra dropped
    obtain ⟨_, _, _, isAlike⟩ := alike_of_dropped dropped
    exact (alike_iff.mp isAlike).1 noEmbedding

end Pruning

/-! ### Two texts on one axis -/

/-- The similarity of vectors of length one. -/
def dot (first second : List Int) : Int :=
  (List.zipWith (· * ·) first second).foldl (· + ·) 0

theorem dot_symmetric (first second : List Int) : dot first second = dot second first := by
  unfold dot
  rw [List.zipWith_comm_of_comm Int.mul_comm]

/-- The second text is on the axis of the first, and the embedder raises for the third. -/
def axes : Embedder Int
  | 0, _ => some [1, 0]
  | 1, _ => some [1, 0]
  | 2, _ => none
  | _, _ => some [0, 1]

def axesVariants : List Variant :=
  [['a'], ['b'], ['c'], ['d']].map fun body =>
    { skillMd := body.map codePoint, mutation := "baseline" }

theorem diversityPrune_clusters_axes :
    diversityPrune dot 1 axes axesVariants = axesVariants.eraseIdx 1 ∧
      ∃ positions, GreedyClusters dot 1 axes axesVariants
        (diversityPrune dot 1 axes axesVariants) positions :=
  ⟨by decide, diversityPrune_clusters dot_symmetric 1 axes axesVariants⟩

end LiteHorse.Evolve.Gepa
