/-
This file models how the variants of a generation are scored against the recorded cases, and which
of them is the best. The mean and the variance of the ratings are exact here, so two means are
close only if they are equal.

A score dominates another exactly if it is above it in the product order, where a smaller size is
better (`dominates_iff`). So the frontier has the scores that are the best ones by rating and then
by size, and the best score is one of them (`scoreVariants_best`).
-/

import LiteHorse.Evolve.Population
import LiteHorse.Library.Pareto
import Mathlib.Algebra.Order.Ring.Rat
import Mathlib.Data.List.Enum

namespace LiteHorse.Evolve.Gepa

open JsonTexts

structure EvalCase where
  turnId : Text
  userRequest : Text
  rating : Int
  reason : Option Text
  sessionId : Text

structure VariantScore where
  variant : Variant
  meanRating : ℚ
  variance : ℚ
  bodyBytes : Nat
  perCase : List Int

/-- Pareto-dominance on the rating and the size. -/
def VariantScore.dominates (score other : VariantScore) : Bool :=
  let ratingBetter := other.meanRating < score.meanRating
  let sizeBetter := score.bodyBytes < other.bodyBytes
  let ratingEq := score.meanRating = other.meanRating
  let sizeEq := score.bodyBytes = other.bodyBytes
  (ratingBetter && (sizeBetter || sizeEq)) || (sizeBetter && (ratingBetter || ratingEq))

structure GepaFitness where
  scores : List VariantScore
  frontier : List VariantScore
  best : VariantScore

/-! ### Scoring -/

inductive GepaRaised where
  /-- The `ValueError` of a list without variants, or of a frontier without scores. -/
  | empty
  /-- The `UnicodeEncodeError` of a text with a lone surrogate. -/
  | unencodable
  /-- The `AssertionError` of a loop that never ran. -/
  | neverRan
  /-- The `OverflowError` of an integer that is too large for a float. -/
  | tooLarge
deriving DecidableEq

/-- What the agent answers to a case, given the places of the variant and of the case, or `none`
if it raises. -/
abbrev RunCase := Nat → Nat → Text → EvalCase → Option Text

/-- What `int` makes of the rating of an answer, or `none` if the classifier or `int` raises. -/
abbrev Classifier := Nat → Nat → Text → Text → Text → Option Int

/-- `sum(ratings) / len(ratings)` -/
def mean (values : List ℚ) : ℚ := values.foldl (· + ·) 0 / values.length

/-- `len(text.encode("utf-8"))` -/
def sizeOf (skillMd : Text) : Except GepaRaised Nat :=
  match Utf8.encode skillMd with
  | some bytes => .ok bytes.length
  | none => .error .unencodable

section Scoring

variable (runCase : RunCase) (classifier : Classifier)

def rate (index : Nat) (skillMd : Text) (position : Nat) (evalCase : EvalCase) : Int :=
  match runCase index position skillMd evalCase with
  | none => -1
  | some finalText =>
    let rating :=
      (classifier index position evalCase.userRequest finalText (evalCase.reason.getD [])).getD 0
    max (-1) (min 1 rating)

def scoreVariant (cases : List EvalCase) (index : Nat) (variant : Variant) :
    Except GepaRaised VariantScore :=
  let ratings := cases.zipIdx.map fun (evalCase, position) =>
    rate runCase classifier index variant.skillMd position evalCase
  let average := if ratings = [] then 0 else mean (ratings.map Int.cast)
  let variance :=
    if ratings = [] then 0 else mean (ratings.map fun rating => ((rating : ℚ) - average) ^ 2)
  (sizeOf variant.skillMd).map fun bodyBytes =>
    { variant, meanRating := average, variance, bodyBytes, perCase := ratings }

def scoreAll (cases : List EvalCase) : Nat → List Variant → Except GepaRaised (List VariantScore)
  | _, [] => .ok []
  | index, variant :: rest => do
    let score ← scoreVariant runCase classifier cases index variant
    let scores ← scoreAll cases (index + 1) rest
    return score :: scores

/-- The scores that no other score of the list dominates. -/
def paretoFrontier (scores : List VariantScore) : List VariantScore :=
  (scores.zipIdx.filter fun (score, index) =>
    !scores.zipIdx.any fun (other, position) => position != index && other.dominates score).map
      Prod.fst

/-- `max` by the rating and then by the smaller size: the first one that is greatest. -/
def maxByKey : List VariantScore → Option VariantScore
  | [] => none
  | score :: rest =>
    some (rest.foldl (fun best other =>
      if best.meanRating < other.meanRating ∨
        best.meanRating = other.meanRating ∧ other.bodyBytes < best.bodyBytes then other
      else best) score)

def scoreVariants (variants : List Variant) (cases : List EvalCase) :
    Except GepaRaised GepaFitness :=
  if variants = [] then .error .empty
  else do
    let scores ← scoreAll runCase classifier cases 0 variants
    let frontier := paretoFrontier scores
    match maxByKey frontier with
    | some best => return { scores, frontier, best }
    | none => .error .empty

end Scoring

/-! ### The two orders -/

/-- The two values of a score, each the greater the better. -/
def value (score : VariantScore) : ℚ × ℕᵒᵈ := (score.meanRating, OrderDual.toDual score.bodyBytes)

variable {score other : VariantScore} {scores : List VariantScore}

theorem dominates_iff : score.dominates other = true ↔ value other < value score := by
  unfold VariantScore.dominates value
  rw [Prod.lt_iff]
  simp only [Bool.or_eq_true, Bool.and_eq_true, decide_eq_true_eq, OrderDual.toDual_lt_toDual,
    OrderDual.toDual_le_toDual]
  constructor
  · rintro (⟨rating, size⟩ | ⟨size, rating⟩)
    · exact Or.inl ⟨rating, size.elim le_of_lt le_of_eq⟩
    · exact Or.inr ⟨rating.elim le_of_lt ge_of_eq, size⟩
  · rintro (⟨rating, size⟩ | ⟨rating, size⟩)
    · exact Or.inl ⟨rating, size.lt_or_eq⟩
    · exact Or.inr ⟨size, rating.lt_or_eq.imp_right Eq.symm⟩

/-- Dominance is a strict partial order. -/
theorem not_dominates_self (score : VariantScore) : score.dominates score = false :=
  Bool.eq_false_iff.mpr fun dominated => lt_irrefl _ (dominates_iff.mp dominated)

theorem dominates_trans {third : VariantScore} (first : score.dominates other = true)
    (second : other.dominates third = true) : score.dominates third = true :=
  dominates_iff.mpr ((dominates_iff.mp second).trans (dominates_iff.mp first))

/-- No score of the list has a greater rating, or the same one with a smaller size. -/
def IsBest (scores : List VariantScore) (score : VariantScore) : Prop :=
  ∀ other ∈ scores, other.meanRating ≤ score.meanRating ∧
    (other.meanRating = score.meanRating → score.bodyBytes ≤ other.bodyBytes)

theorem toLex_value_le_iff : toLex (value other) ≤ toLex (value score) ↔
    other.meanRating ≤ score.meanRating ∧
      (other.meanRating = score.meanRating → score.bodyBytes ≤ other.bodyBytes) :=
  Prod.Lex.le_iff'

theorem isBest_iff : IsBest scores score ↔ Pareto.Greatest value scores score :=
  forall₂_congr fun _ _ => toLex_value_le_iff.symm

theorem toLex_value_lt_iff : toLex (value score) < toLex (value other) ↔
    score.meanRating < other.meanRating ∨
      score.meanRating = other.meanRating ∧ other.bodyBytes < score.bodyBytes :=
  Prod.Lex.lt_iff

theorem maxByKey_eq (scores : List VariantScore) : maxByKey scores = Pareto.pick value scores := by
  cases scores with
  | nil => rfl
  | cons score rest =>
    unfold maxByKey Pareto.pick
    dsimp only
    congr 2
    funext best other
    exact if_congr toLex_value_lt_iff.symm rfl rfl

/-! ### The frontier -/

/-- A score that is compared with itself is not dominated, so it need not be left out. -/
theorem any_ne_dominates {index : Nat} (isAt : (score, index) ∈ scores.zipIdx) :
    (scores.zipIdx.any fun (other, position) => position != index && other.dominates score) =
      scores.any (·.dominates score) := by
  rw [Bool.eq_iff_iff, List.any_eq_true, List.any_eq_true]
  constructor
  · rintro ⟨⟨other, position⟩, isOther, dominates⟩
    exact ⟨other, List.fst_mem_of_mem_zipIdx isOther, (Bool.and_eq_true_iff.mp dominates).2⟩
  · rintro ⟨other, isOther, dominates⟩
    obtain ⟨position, isOtherAt⟩ := List.getElem?_of_mem isOther
    refine ⟨(other, position), List.mk_mem_zipIdx_iff_getElem?.mpr isOtherAt,
      Bool.and_eq_true_iff.mpr ⟨?_, dominates⟩⟩
    rw [bne_iff_ne]
    rintro rfl
    have same := (List.mk_mem_zipIdx_iff_getElem?.mp isAt).symm.trans isOtherAt
    cases same
    rw [not_dominates_self] at dominates
    cases dominates

theorem paretoFrontier_eq (scores : List VariantScore) :
    paretoFrontier scores = scores.filter fun score => !scores.any (·.dominates score) := by
  unfold paretoFrontier
  have sameTest : ∀ entry ∈ scores.zipIdx,
      (!scores.zipIdx.any fun (other, position) => position != entry.2 && other.dominates entry.1) =
        ((fun score => !scores.any (·.dominates score)) ∘ Prod.fst) entry :=
    fun entry isAt => congrArg (!·) (any_ne_dominates isAt)
  rw [List.filter_congr sameTest, ← List.filter_map, List.zipIdx_map_fst]

theorem mem_paretoFrontier :
    score ∈ paretoFrontier scores ↔
      score ∈ scores ∧ ∀ other ∈ scores, ¬ value score < value other := by
  rw [paretoFrontier_eq, List.mem_filter, Bool.not_eq_true', List.any_eq_false]
  exact and_congr_right fun _ => forall₂_congr fun _ _ => not_congr dominates_iff

theorem mem_paretoFrontier_of_isBest (member : score ∈ scores) (isBest : IsBest scores score) :
    score ∈ paretoFrontier scores :=
  mem_paretoFrontier.mpr
    ⟨member, fun _ isOther => Pareto.not_lt_of_greatest (isBest_iff.mp isBest) isOther⟩

theorem exists_maxByKey_frontier (nonempty : scores ≠ []) :
    ∃ best, maxByKey (paretoFrontier scores) = some best ∧ best ∈ paretoFrontier scores ∧
      IsBest scores best := by
  rw [maxByKey_eq]
  obtain ⟨best, picked, member, greatest⟩ := Pareto.exists_pick_front nonempty
    fun score isScore greatest => mem_paretoFrontier_of_isBest isScore (isBest_iff.mpr greatest)
  exact ⟨best, picked, member, isBest_iff.mpr greatest⟩

theorem exists_isBest (nonempty : scores ≠ []) : ∃ best ∈ scores, IsBest scores best := by
  obtain ⟨best, _, member, isBest⟩ := exists_maxByKey_frontier nonempty
  exact ⟨best, (mem_paretoFrontier.mp member).1, isBest⟩

/-! ### The result of scoring -/

section Result

variable {runCase : RunCase} {classifier : Classifier} {variants : List Variant}
  {cases : List EvalCase} {fitness : GepaFitness}

variable (runCase classifier cases) in
/-- Scoring a variant fails only on a text that cannot be encoded. -/
theorem scoreVariant_cases (index : Nat) (variant : Variant) :
    (∃ bytes, Utf8.encode variant.skillMd = some bytes ∧
        ∃ score, scoreVariant runCase classifier cases index variant = .ok score ∧
          score.variant = variant ∧ score.bodyBytes = bytes.length) ∨
      Utf8.encode variant.skillMd = none ∧
        scoreVariant runCase classifier cases index variant = .error .unencodable := by
  unfold scoreVariant sizeOf
  cases Utf8.encode variant.skillMd with
  | some bytes => exact Or.inl ⟨bytes, rfl, _, rfl, rfl, rfl⟩
  | none => exact Or.inr ⟨rfl, rfl⟩

theorem scoreAll_cons_ok {index : Nat} {variant : Variant}
    (scored : scoreAll runCase classifier cases index (variant :: variants) = .ok scores) :
    ∃ score rest, scoreVariant runCase classifier cases index variant = .ok score ∧
      scoreAll runCase classifier cases (index + 1) variants = .ok rest ∧
      scores = score :: rest := by
  rw [scoreAll] at scored
  cases first : scoreVariant runCase classifier cases index variant with
  | error raised =>
    rw [first] at scored
    cases scored
  | ok score =>
    cases others : scoreAll runCase classifier cases (index + 1) variants with
    | error raised =>
      rw [first, others] at scored
      cases scored
    | ok rest =>
      rw [first, others] at scored
      cases scored
      exact ⟨score, rest, rfl, rfl, rfl⟩

theorem variants_of_scoreAll {index : Nat}
    (scored : scoreAll runCase classifier cases index variants = .ok scores) :
    scores.map (·.variant) = variants := by
  induction variants generalizing index scores with
  | nil =>
    cases scored
    rfl
  | cons variant rest inductionHypothesis =>
    obtain ⟨score, others, first, later, rfl⟩ := scoreAll_cons_ok scored
    rw [List.map_cons, inductionHypothesis later]
    rcases scoreVariant_cases runCase classifier cases index variant with
      ⟨_, _, found, isScored, same, _⟩ | ⟨_, failed⟩
    · rw [first] at isScored
      cases isScored
      rw [same]
    · rw [first] at failed
      cases failed

/-- Every text of the variants can be encoded. -/
def Encodable (variants : List Variant) : Prop :=
  ∀ variant ∈ variants, (Utf8.encode variant.skillMd).isSome

variable (runCase classifier cases) in
theorem scoreAll_cases (index : Nat) (variants : List Variant) :
    (Encodable variants ∧ ∃ scores, scoreAll runCase classifier cases index variants = .ok scores) ∨
      ¬ Encodable variants ∧
        scoreAll runCase classifier cases index variants = .error .unencodable := by
  induction variants generalizing index with
  | nil => exact Or.inl ⟨List.forall_mem_nil _, [], rfl⟩
  | cons variant rest inductionHypothesis =>
    rw [scoreAll, Encodable, List.forall_mem_cons]
    rcases scoreVariant_cases runCase classifier cases index variant with
      ⟨bytes, encoded, score, isScored, _, _⟩ | ⟨encoded, failed⟩
    · rw [isScored]
      rcases inductionHypothesis (index + 1) with ⟨encodable, scores, areScored⟩ | ⟨not, failed⟩
      · refine Or.inl ⟨⟨Option.isSome_iff_exists.mpr ⟨bytes, encoded⟩, encodable⟩,
          score :: scores, ?_⟩
        rw [areScored]
        rfl
      · refine Or.inr ⟨fun both => not both.2, ?_⟩
        rw [failed]
        rfl
    · rw [failed, encoded]
      exact Or.inr ⟨fun both => Bool.false_ne_true both.1, rfl⟩

/-- What scoring gives: a score for each variant, the frontier and the best score. -/
structure Scored (variants : List Variant) (fitness : GepaFitness) : Prop where
  variants : fitness.scores.map (·.variant) = variants
  frontier : fitness.frontier = paretoFrontier fitness.scores
  best_mem : fitness.best ∈ fitness.frontier
  best : IsBest fitness.scores fitness.best

variable (runCase classifier cases) in
/-- Scoring succeeds exactly if there is a variant and each can be encoded. -/
theorem scoreVariants_cases (nonempty : variants ≠ []) :
    (Encodable variants ∧ ∃ fitness, scoreVariants runCase classifier variants cases = .ok fitness ∧
        Scored variants fitness) ∨
      ¬ Encodable variants ∧
        scoreVariants runCase classifier variants cases = .error .unencodable := by
  unfold scoreVariants
  rw [if_neg nonempty]
  rcases scoreAll_cases runCase classifier cases 0 variants with
    ⟨encodable, scores, areScored⟩ | ⟨notEncodable, failed⟩
  · have same := variants_of_scoreAll areScored
    have scoresNonempty : scores ≠ [] := by
      rintro rfl
      exact nonempty same.symm
    obtain ⟨best, picked, member, isBest⟩ := exists_maxByKey_frontier scoresNonempty
    refine Or.inl ⟨encodable, { scores, frontier := paretoFrontier scores, best }, ?_,
      { variants := same, frontier := rfl, best_mem := member, best := isBest }⟩
    rw [areScored]
    dsimp only [bind, Except.bind]
    rw [picked]
    rfl
  · refine Or.inr ⟨notEncodable, ?_⟩
    rw [failed]
    rfl

end Result

end LiteHorse.Evolve.Gepa
