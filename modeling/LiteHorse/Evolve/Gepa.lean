/-
This file models the loop that evolves a `SKILL.md` over generations. Each generation mutates a
seed, and its best score has the seed of the next one. The best score over all generations is
replaced only by one that dominates it, while the best of a generation is chosen by rating first.

So the loop does not fall below the first rating of the baseline (`keepsFloor`), but a better
rating that comes with a larger size is lost (`returnsBest_iff`).
-/

import LiteHorse.Evolve.Fitness

namespace LiteHorse.Evolve.Gepa

open JsonTexts

structure GenerationReport where
  generation : Nat
  populationSize : Nat
  frontierSize : Nat
  bestRating : ℚ
  bestSize : Nat
deriving DecidableEq

structure GepaResult (Cost : Type) where
  skillSlug : String
  accepted : Bool
  bestSkillMd : Option Text
  bestRating : ℚ
  bestSize : Nat
  generations : List GenerationReport
  abortedReason : Option String
  costEstimateUsd : Cost

/-- The floats of the cost gate. -/
structure Costs (Cost : Type) where
  zero : Cost
  /-- The cost of so many tokens, or `none` if they are too many for a float. -/
  usd : Int → Option Cost
  exceeds : Cost → Cost → Bool
  /-- A cost with two digits after the point. -/
  shown : Cost → String

/-- What the loop calls, by generation. -/
structure Callbacks (Component : Type) where
  generator : Nat → VariantGenerator
  embedder : Nat → Embedder Component
  runCase : Nat → RunCase
  classifier : Nat → Classifier

structure GepaInput (Component Cost : Type) extends Callbacks Component where
  skillSlug : String
  baseline : Text
  cases : List EvalCase
  populationSize : Int
  generations : Int
  costGateUsd : Cost
  minCases : Int

def avgTokensPerVariant : Int := 1500

def avgTokensPerCaseRun : Int := 2500

def avgTokensPerClassification : Int := 600

/-- The tokens of `cost_estimate_usd`. -/
def totalTokens (populationSize generations : Int) (caseCount : Nat) : Int :=
  let perGenTokens := populationSize * avgTokensPerVariant +
    populationSize * caseCount * avgTokensPerCaseRun +
    populationSize * caseCount * avgTokensPerClassification
  perGenTokens * generations

/-! ### The loop -/

/-- The best score so far, after the best one of another generation. -/
def updateBest (overallBest : Option VariantScore) (best : VariantScore) : VariantScore :=
  match overallBest with
  | none => best
  | some kept => if best.dominates kept then best else kept

structure LoopState where
  seed : Text
  overallBest : Option VariantScore
  gens : List GenerationReport

def startState (baseline : Text) : LoopState :=
  { seed := baseline, overallBest := none, gens := [] }

section Loop

variable {Component Score Cost : Type} [LinearOrder Score] [Zero Score]
  (similarity : List Component → List Component → Score) (threshold : Score)
  (input : GepaInput Component Cost)

/-- The variants of a generation that are scored. -/
def population (gen : Nat) (seed : Text) : List Variant :=
  diversityPrune similarity threshold (input.embedder gen)
    (generatePopulation (input.generator gen) seed input.populationSize)

def runGeneration (gen : Nat) (state : LoopState) : Except GepaRaised LoopState :=
  let variants := population similarity threshold input gen state.seed
  (scoreVariants (input.runCase gen) (input.classifier gen) variants input.cases).map fun fitness =>
    { seed := fitness.best.variant.skillMd
      overallBest := some (updateBest state.overallBest fitness.best)
      gens := state.gens ++ [{
        generation := gen
        populationSize := variants.length
        frontierSize := fitness.frontier.length
        bestRating := fitness.best.meanRating
        bestSize := fitness.best.bodyBytes }] }

def loop : (remaining gen : Nat) → LoopState → Except GepaRaised LoopState
  | 0, _, state => .ok state
  | remaining + 1, gen, state => do
    let next ← runGeneration similarity threshold input gen state
    loop remaining (gen + 1) next

variable (costs : Costs Cost)

/-- A run that is turned away before any call. -/
def abort (reason : String) (cost : Cost) : Except GepaRaised (GepaResult Cost) :=
  (sizeOf input.baseline).map fun size => {
    skillSlug := input.skillSlug
    accepted := false
    bestSkillMd := none
    bestRating := 0
    bestSize := size
    generations := []
    abortedReason := some reason
    costEstimateUsd := cost }

def runGepa : Except GepaRaised (GepaResult Cost) :=
  if (input.cases.length : Int) < input.minCases then
    abort input ("only " ++ toString input.cases.length ++ " eval cases (< " ++
      toString input.minCases ++ ")") costs.zero
  else
    match costs.usd (totalTokens input.populationSize input.generations input.cases.length) with
    | none => .error .tooLarge
    | some estimatedCost =>
      if costs.exceeds estimatedCost input.costGateUsd then
        abort input ("projected cost $" ++ costs.shown estimatedCost ++ " > gate $" ++
          costs.shown input.costGateUsd) estimatedCost
      else do
        let final ← loop similarity threshold input input.generations.toNat 0
          (startState input.baseline)
        match final.overallBest with
        | none => .error .neverRan
        | some overallBest => return {
            skillSlug := input.skillSlug
            accepted := true
            bestSkillMd := some overallBest.variant.skillMd
            bestRating := overallBest.meanRating
            bestSize := overallBest.bodyBytes
            generations := final.gens
            abortedReason := none
            costEstimateUsd := estimatedCost }

/-! ### The generations of a run -/

/-- A generation of a run. -/
structure Round where
  seed : Text
  variants : List Variant
  scored : Except GepaRaised GepaFitness

def round (gen : Nat) (seed : Text) : Round :=
  let variants := population similarity threshold input gen seed
  { seed, variants
    scored := scoreVariants (input.runCase gen) (input.classifier gen) variants input.cases }

/-- The generations that a run goes through, up to the one that raises. -/
def rounds : (remaining gen : Nat) → (seed : Text) → List Round
  | 0, _, _ => []
  | remaining + 1, gen, seed =>
    let first := round similarity threshold input gen seed
    first :: match first.scored with
      | .ok fitness => rounds remaining (gen + 1) fitness.best.variant.skillMd
      | .error _ => []

/-- The generations of a run that passes the gates. -/
def inputRounds : List Round :=
  rounds similarity threshold input input.generations.toNat 0 input.baseline

end Loop

/-- The best scores of generations. -/
def bests (history : List Round) : List VariantScore :=
  history.filterMap fun round => round.scored.toOption.map (·.best)

/-- What the loop has kept of the best scores of generations. -/
def overallBest (scores : List VariantScore) (overall : Option VariantScore) :
    Option VariantScore :=
  scores.foldl (fun overall best => some (updateBest overall best)) overall

/-- The rating and the size of a score. -/
def VariantScore.reported (score : VariantScore) : ℚ × Nat := (score.meanRating, score.bodyBytes)

/-- The rating and the size of the best score of a generation. -/
def GenerationReport.reported (report : GenerationReport) : ℚ × Nat :=
  (report.bestRating, report.bestSize)

/-! ### One generation -/

section Generations

variable {Component Score Cost : Type} [LinearOrder Score] [Zero Score]
  {similarity : List Component → List Component → Score} {threshold : Score}
  {input : GepaInput Component Cost}

/-- The seed is the first variant of a generation, and the variants have scores. -/
structure RoundScored (round : Round) : Prop where
  seed : ∃ others, round.variants = { skillMd := round.seed, mutation := "baseline" } :: others
  scored : ∃ fitness, round.scored = .ok fitness ∧ Scored round.variants fitness

/-- The seed is the first variant of a generation, and the variants have scores unless a text
cannot be encoded. -/
structure RoundSound (round : Round) : Prop where
  seed : ∃ others, round.variants = { skillMd := round.seed, mutation := "baseline" } :: others
  scored : Encodable round.variants → RoundScored round
  raises : ¬ Encodable round.variants → round.scored = .error .unencodable

variable (similarity threshold input)

theorem population_cons (gen : Nat) (seed : Text) :
    ∃ others, population similarity threshold input gen seed =
      { skillMd := seed, mutation := "baseline" } :: others :=
  diversityPrune_generatePopulation _ _ _ _

theorem round_cases (gen : Nat) (seed : Text) :
    (Encodable (round similarity threshold input gen seed).variants ∧
        ∃ fitness, (round similarity threshold input gen seed).scored = .ok fitness ∧
          Scored (round similarity threshold input gen seed).variants fitness) ∨
      ¬ Encodable (round similarity threshold input gen seed).variants ∧
        (round similarity threshold input gen seed).scored = .error .unencodable := by
  obtain ⟨others, isPopulation⟩ := population_cons similarity threshold input gen seed
  refine scoreVariants_cases _ _ _ ?_
  show population similarity threshold input gen seed ≠ []
  rw [isPopulation]
  exact List.cons_ne_nil _ _

theorem round_sound (gen : Nat) (seed : Text) :
    RoundSound (round similarity threshold input gen seed) := by
  have isSeed := population_cons similarity threshold input gen seed
  rcases round_cases similarity threshold input gen seed with
    ⟨encodable, isScored⟩ | ⟨notEncodable, failed⟩
  · exact ⟨isSeed, fun _ => ⟨isSeed, isScored⟩, fun notEncodable => absurd encodable notEncodable⟩
  · exact ⟨isSeed, fun encodable => absurd encodable notEncodable, fun _ => failed⟩

/-- Every generation of a run is sound. -/
theorem rounds_sound (remaining gen : Nat) (seed : Text) :
    ∀ round ∈ rounds similarity threshold input remaining gen seed, RoundSound round := by
  induction remaining generalizing gen seed with
  | zero => exact List.forall_mem_nil _
  | succ remaining inductionHypothesis =>
    rw [rounds, List.forall_mem_cons]
    refine ⟨round_sound similarity threshold input gen seed, ?_⟩
    split
    next => exact inductionHypothesis _ _
    next => exact List.forall_mem_nil _

theorem runGeneration_of_ok {gen : Nat} {state : LoopState} {fitness : GepaFitness}
    (isScored : (round similarity threshold input gen state.seed).scored = .ok fitness) :
    ∃ report, runGeneration similarity threshold input gen state = .ok {
        seed := fitness.best.variant.skillMd
        overallBest := some (updateBest state.overallBest fitness.best)
        gens := state.gens ++ [report] } ∧ report.reported = fitness.best.reported := by
  unfold runGeneration
  dsimp only
  rw [show scoreVariants _ _ _ _ = _ from isScored]
  exact ⟨_, rfl, rfl⟩

theorem runGeneration_of_error {gen : Nat} {state : LoopState} {raised : GepaRaised}
    (failed : (round similarity threshold input gen state.seed).scored = .error raised) :
    runGeneration similarity threshold input gen state = .error raised := by
  unfold runGeneration
  dsimp only
  rw [show scoreVariants _ _ _ _ = _ from failed]
  rfl

/-! ### A run -/

variable {similarity threshold input} in
theorem rounds_of_ok {gen : Nat} {seed : Text} {fitness : GepaFitness} (remaining : Nat)
    (isScored : (round similarity threshold input gen seed).scored = .ok fitness) :
    rounds similarity threshold input (remaining + 1) gen seed =
      round similarity threshold input gen seed ::
        rounds similarity threshold input remaining (gen + 1) fitness.best.variant.skillMd := by
  rw [rounds, isScored]

variable {similarity threshold input} in
theorem rounds_of_error {gen : Nat} {seed : Text} {raised : GepaRaised} (remaining : Nat)
    (failed : (round similarity threshold input gen seed).scored = .error raised) :
    rounds similarity threshold input (remaining + 1) gen seed =
      [round similarity threshold input gen seed] := by
  rw [rounds, failed]

theorem bests_cons {first : Round} {fitness : GepaFitness} (isScored : first.scored = .ok fitness)
    (rest : List Round) : bests (first :: rest) = fitness.best :: bests rest := by
  unfold bests
  rw [List.filterMap_cons, isScored]
  rfl

/-- A loop ends with what its generations give, unless a text cannot be encoded. -/
theorem loop_cases (remaining gen : Nat) (state : LoopState) :
    let history := rounds similarity threshold input remaining gen state.seed
    ((∀ round ∈ history, Encodable round.variants) ∧ (bests history).length = remaining ∧
        ∃ final, loop similarity threshold input remaining gen state = .ok final ∧
          final.overallBest = overallBest (bests history) state.overallBest ∧
          final.gens.map (·.reported) =
            state.gens.map (·.reported) ++ (bests history).map (·.reported)) ∨
      ¬ (∀ round ∈ history, Encodable round.variants) ∧
        loop similarity threshold input remaining gen state = .error .unencodable := by
  induction remaining generalizing gen state with
  | zero => exact Or.inl ⟨List.forall_mem_nil _, rfl, state, rfl, rfl, (List.append_nil _).symm⟩
  | succ remaining inductionHypothesis =>
    dsimp only
    rw [loop]
    rcases round_cases similarity threshold input gen state.seed with
      ⟨encodable, fitness, isScored, sound⟩ | ⟨notEncodable, failed⟩
    · obtain ⟨report, ran, same⟩ := runGeneration_of_ok similarity threshold input isScored
      rw [rounds_of_ok remaining isScored, List.forall_mem_cons, bests_cons isScored, ran]
      rcases inductionHypothesis (gen + 1) {
          seed := fitness.best.variant.skillMd
          overallBest := some (updateBest state.overallBest fitness.best)
          gens := state.gens ++ [report] } with
        ⟨allEncodable, count, final, ends, isOverall, reports⟩ | ⟨notAll, fails⟩
      · refine Or.inl ⟨⟨encodable, allEncodable⟩, congrArg (· + 1) count, final, ends, isOverall,
          ?_⟩
        rw [reports, List.map_append, List.append_assoc, List.map_cons, List.map_cons, same]
        rfl
      · exact Or.inr ⟨fun both => notAll both.2, fails⟩
    · rw [rounds_of_error remaining failed,
        runGeneration_of_error similarity threshold input failed]
      exact Or.inr ⟨fun all => notEncodable (all _ List.mem_cons_self), rfl⟩

theorem loop_startState_cases :
    ((∀ round ∈ inputRounds similarity threshold input, Encodable round.variants) ∧
        (bests (inputRounds similarity threshold input)).length = input.generations.toNat ∧
        ∃ final, loop similarity threshold input input.generations.toNat 0
            (startState input.baseline) = .ok final ∧
          final.overallBest = overallBest (bests (inputRounds similarity threshold input)) none ∧
          final.gens.map (·.reported) =
            (bests (inputRounds similarity threshold input)).map (·.reported)) ∨
      ¬ (∀ round ∈ inputRounds similarity threshold input, Encodable round.variants) ∧
        loop similarity threshold input input.generations.toNat 0
          (startState input.baseline) = .error .unencodable :=
  loop_cases similarity threshold input input.generations.toNat 0 (startState input.baseline)

/-! ### What the loop keeps -/

theorem updateBest_some (kept best : VariantScore) :
    updateBest (some kept) best = Pareto.keep value kept best := by
  unfold updateBest Pareto.keep
  dsimp only
  by_cases dominated : value kept < value best
  · rw [if_pos dominated, if_pos (dominates_iff.mpr dominated)]
  · rw [if_neg dominated, if_neg (mt dominates_iff.mp dominated)]

theorem overallBest_cons (first : VariantScore) (rest : List VariantScore) :
    overallBest (first :: rest) none = some (rest.foldl (Pareto.keep value) first) := by
  have fromSome : ∀ (rest : List VariantScore) (kept : VariantScore),
      overallBest rest (some kept) = some (rest.foldl (Pareto.keep value) kept) := by
    intro rest
    induction rest with
    | nil => exact fun kept => rfl
    | cons best rest inductionHypothesis =>
      intro kept
      rw [List.foldl_cons, ← updateBest_some]
      exact inductionHypothesis _
  exact fromSome rest first

theorem overallBest_mem {scores : List VariantScore} {kept : VariantScore}
    (isKept : overallBest scores none = some kept) : kept ∈ scores := by
  cases scores with
  | nil => cases isKept
  | cons first rest =>
    rw [overallBest_cons] at isKept
    cases isKept
    exact Pareto.foldl_keep_mem rest first

/-- What is kept is no worse than the first one. -/
theorem meanRating_le_overallBest {first kept : VariantScore} {rest : List VariantScore}
    (isKept : overallBest (first :: rest) none = some kept) :
    first.meanRating ≤ kept.meanRating := by
  rw [overallBest_cons] at isKept
  cases isKept
  have grows : value first ≤ value (rest.foldl (Pareto.keep value) first) :=
    Pareto.le_foldl_keep rest first
  exact grows.1

/-- The best of the scores is kept exactly if it comes while what is kept before it is not
smaller. -/
theorem isBest_overallBest_iff {scores : List VariantScore} {kept : VariantScore}
    (isKept : overallBest scores none = some kept) :
    IsBest scores kept ↔ ∀ front best back, scores = front ++ best :: back → IsBest scores best →
      ∀ before, overallBest front none = some before → best.bodyBytes ≤ before.bodyBytes := by
  cases scores with
  | nil => cases isKept
  | cons first rest =>
    rw [overallBest_cons] at isKept
    cases isKept
    constructor
    · intro isBest front best back split bestIsBest before isBefore
      cases front with
      | nil => cases isBefore
      | cons head front =>
        cases split
        rw [overallBest_cons] at isBefore
        cases isBefore
        exact (Pareto.greatest_keep_iff (isBest_iff.mp bestIsBest)).mp (isBest_iff.mp isBest)
    · intro notSmaller
      obtain ⟨best, bestMember, isBest⟩ := exists_isBest (List.cons_ne_nil first rest)
      have greatest := isBest_iff.mp isBest
      rcases List.mem_cons.mp bestMember with rfl | later
      · have greatestRest : Pareto.Greatest value rest best :=
          fun other member => greatest other (List.mem_cons_of_mem _ member)
        rw [Pareto.foldl_keep_of_greatest greatestRest]
        exact isBest_iff.mpr greatest
      · obtain ⟨front, back, rfl⟩ := List.append_of_mem later
        exact isBest_iff.mpr ((Pareto.greatest_keep_iff greatest).mpr
          (notSmaller (first :: front) best back rfl isBest _ (overallBest_cons first front)))

/-! ### The result of a run -/

/-- There are enough cases, and the projected cost is not above the gate. -/
def PassesGates (costs : Costs Cost) : Prop :=
  input.minCases ≤ input.cases.length ∧
    ∃ cost, costs.usd (totalTokens input.populationSize input.generations input.cases.length) =
      some cost ∧ costs.exceeds cost input.costGateUsd = false

/-- The result is accepted, with the score that the loop has kept. -/
structure ResultOf (history : List Round) (kept : VariantScore) (result : GepaResult Cost) :
    Prop where
  accepted : result.accepted = true
  isKept : overallBest (bests history) none = some kept
  bestSkillMd : result.bestSkillMd = some kept.variant.skillMd
  bestRating : result.bestRating = kept.meanRating
  bestSize : result.bestSize = kept.bodyBytes
  generations : result.generations.map (·.reported) = (bests history).map (·.reported)

/-- A run past the gates returns what its generations give, unless a text cannot be encoded. -/
theorem runGepa_cases {costs : Costs Cost} (passes : PassesGates input costs)
    (runs : 1 ≤ input.generations) :
    ((∀ round ∈ inputRounds similarity threshold input, Encodable round.variants) ∧
        ∃ result kept, runGepa similarity threshold input costs = .ok result ∧
          ResultOf (inputRounds similarity threshold input) kept result) ∨
      ¬ (∀ round ∈ inputRounds similarity threshold input, Encodable round.variants) ∧
        runGepa similarity threshold input costs = .error .unencodable := by
  obtain ⟨enough, cost, isCost, notExceeded⟩ := passes
  unfold runGepa
  rw [if_neg (not_lt.mpr enough), isCost]
  dsimp only
  rw [notExceeded, if_neg Bool.false_ne_true]
  rcases loop_startState_cases similarity threshold input with
    ⟨encodable, count, final, ends, isOverall, reports⟩ | ⟨notEncodable, failed⟩
  · have some : 0 < (bests (inputRounds similarity threshold input)).length := by omega
    obtain ⟨first, rest, isBests⟩ := List.exists_cons_of_length_pos some
    have isKept := overallBest_cons first rest
    rw [← isBests] at isKept
    rw [ends]
    dsimp only [bind, Except.bind]
    rw [isOverall, isKept]
    exact Or.inl ⟨encodable, _, _, rfl, rfl, isKept, rfl, rfl, rfl, reports⟩
  · rw [failed]
    exact Or.inr ⟨notEncodable, rfl⟩

/-- What an accepted run has kept. -/
theorem resultOf_of_accepted {costs : Costs Cost} {result : GepaResult Cost}
    (ran : runGepa similarity threshold input costs = .ok result)
    (accepted : result.accepted = true) :
    (∀ round ∈ inputRounds similarity threshold input, Encodable round.variants) ∧
      ∃ kept, ResultOf (inputRounds similarity threshold input) kept result := by
  have notAborted : ∀ reason cost, abort input reason cost ≠ .ok result := by
    intro reason cost aborted
    unfold abort at aborted
    cases isSize : sizeOf input.baseline with
    | error raised =>
      rw [isSize] at aborted
      cases aborted
    | ok size =>
      rw [isSize] at aborted
      cases aborted
      cases accepted
  unfold runGepa at ran
  split at ran
  next => exact absurd ran (notAborted _ _)
  next =>
    split at ran
    next => cases ran
    next =>
      split at ran
      next => exact absurd ran (notAborted _ _)
      next =>
        rcases loop_startState_cases similarity threshold input with
          ⟨encodable, _, final, ends, isOverall, reports⟩ | ⟨_, failed⟩
        · rw [ends] at ran
          dsimp only [bind, Except.bind] at ran
          split at ran
          next => cases ran
          next kept isKept =>
            rw [isOverall] at isKept
            cases ran
            exact ⟨encodable, kept, rfl, isKept, rfl, rfl, rfl, reports⟩
        · rw [failed] at ran
          cases ran

/-! ### The floor -/

/-- The first score of a run is the one of the baseline, and the rating of the result is not below
its rating. -/
def AboveBaseline (history : List Round) (result : GepaResult Cost) : Prop :=
  ∃ first rest fitness score others, history = first :: rest ∧ first.seed = input.baseline ∧
    first.scored = .ok fitness ∧ fitness.scores = score :: others ∧
    score.variant = { skillMd := input.baseline, mutation := "baseline" } ∧
    score.meanRating ≤ result.bestRating

/-- Dominance is a strict partial order, the seed of every generation is scored, and the result
is not below the baseline. -/
structure KeepsFloor (costs : Costs Cost) : Prop where
  order : IsStrictOrder VariantScore fun score other => score.dominates other = true
  rounds : ∀ round ∈ inputRounds similarity threshold input, RoundScored round
  result : ∀ result, runGepa similarity threshold input costs = .ok result →
    result.accepted = true →
      AboveBaseline input (inputRounds similarity threshold input) result

theorem isStrictOrder_dominates :
    IsStrictOrder VariantScore fun score other => score.dominates other = true where
  irrefl score dominated := by
    rw [not_dominates_self] at dominated
    cases dominated
  trans _ _ _ := dominates_trans

theorem aboveBaseline_of_resultOf {kept : VariantScore} {result : GepaResult Cost}
    (encodable : ∀ round ∈ inputRounds similarity threshold input, Encodable round.variants)
    (isResult : ResultOf (inputRounds similarity threshold input) kept result) :
    AboveBaseline input (inputRounds similarity threshold input) result := by
  obtain ⟨_, isKept, _, isRating, _, _⟩ := isResult
  unfold inputRounds at encodable isKept ⊢
  generalize input.generations.toNat = remaining at encodable isKept ⊢
  cases remaining with
  | zero => cases isKept
  | succ remaining =>
    rcases round_cases similarity threshold input 0 input.baseline with
      ⟨_, fitness, isScored, isFitness⟩ | ⟨notEncodable, failed⟩
    · rw [rounds_of_ok remaining isScored] at isKept ⊢
      rw [bests_cons isScored] at isKept
      obtain ⟨others, isPopulation⟩ := population_cons similarity threshold input 0 input.baseline
      obtain ⟨score, scores, areScores, isFirst, _⟩ :=
        List.map_eq_cons_iff.mp (isFitness.variants.trans isPopulation)
      have inScores : score ∈ fitness.scores := areScores ▸ List.mem_cons_self
      have floor : score.meanRating ≤ result.bestRating := calc
        score.meanRating ≤ fitness.best.meanRating := (isFitness.best score inScores).1
        _ ≤ kept.meanRating := meanRating_le_overallBest isKept
        _ = result.bestRating := isRating.symm
      exact ⟨_, _, fitness, score, scores, rfl, rfl, isScored, areScores, isFirst, floor⟩
    · rw [rounds_of_error remaining failed] at encodable
      exact absurd (encodable _ (List.mem_singleton_self _)) notEncodable

/-- The rating is the greatest that a generation reports, and the size is the smallest of a
generation with this rating. -/
structure ReportsBest (result : GepaResult Cost) : Prop where
  reported : ∃ report ∈ result.generations, report.bestRating = result.bestRating ∧
    report.bestSize = result.bestSize
  best : ∀ report ∈ result.generations, report.bestRating ≤ result.bestRating ∧
    (report.bestRating = result.bestRating → result.bestSize ≤ report.bestSize)

/-- The run returns the best of its generations. -/
def ReturnsBest (costs : Costs Cost) : Prop :=
  ∃ result, runGepa similarity threshold input costs = .ok result ∧ ReportsBest result

variable {input} in
/-- The reports have the ratings and the sizes of the best scores. -/
theorem forall_reported {history : List Round} {kept : VariantScore} {result : GepaResult Cost}
    (isResult : ResultOf history kept result) (holds : ℚ × Nat → Prop) :
    (∀ report ∈ result.generations, holds report.reported) ↔
      ∀ best ∈ bests history, holds best.reported := by
  have ofReports := List.forall_mem_map (f := GenerationReport.reported)
    (l := result.generations) (P := holds)
  have ofBests := List.forall_mem_map (f := VariantScore.reported) (l := bests history) (P := holds)
  rw [← ofReports, ← ofBests]
  exact iff_of_eq (congrArg (∀ entry ∈ ·, holds entry) isResult.generations)

variable {input} in
theorem reportsBest_iff {history : List Round} {kept : VariantScore} {result : GepaResult Cost}
    (isResult : ResultOf history kept result) :
    ReportsBest result ↔ IsBest (bests history) kept := by
  have all : (∀ report ∈ result.generations, report.bestRating ≤ result.bestRating ∧
        (report.bestRating = result.bestRating → result.bestSize ≤ report.bestSize)) ↔
      IsBest (bests history) kept := by
    rw [isResult.bestRating, isResult.bestSize]
    exact forall_reported isResult fun entry =>
      entry.1 ≤ kept.meanRating ∧ (entry.1 = kept.meanRating → kept.bodyBytes ≤ entry.2)
  obtain ⟨_, isKept, _, isRating, isSize, reports⟩ := isResult
  refine ⟨fun reportsBest => all.mp reportsBest.best, fun isBest => ⟨?_, all.mpr isBest⟩⟩
  have isReported : kept.reported ∈ result.generations.map (·.reported) := by
    rw [reports]
    exact List.mem_map_of_mem (overallBest_mem isKept)
  obtain ⟨report, member, same⟩ := List.mem_map.mp isReported
  rw [isRating, isSize]
  exact ⟨report, member, congrArg Prod.fst same, congrArg Prod.snd same⟩

/-- A run returns its best generation exactly if every text can be encoded and that generation
comes while what was kept before it is not smaller. -/
theorem returnsBest_iff {costs : Costs Cost} (passes : PassesGates input costs)
    (runs : 1 ≤ input.generations) :
    ReturnsBest similarity threshold input costs ↔
      (∀ round ∈ inputRounds similarity threshold input, Encodable round.variants) ∧
        ∀ front best back,
          bests (inputRounds similarity threshold input) = front ++ best :: back →
            IsBest (bests (inputRounds similarity threshold input)) best →
              ∀ before, overallBest front none = some before →
                best.bodyBytes ≤ before.bodyBytes := by
  rcases runGepa_cases similarity threshold input passes runs with
    ⟨encodable, result, kept, ran, isResult⟩ | ⟨notEncodable, failed⟩
  · rw [← isBest_overallBest_iff isResult.isKept, ← reportsBest_iff isResult]
    refine ⟨?_, fun both => ⟨result, ran, both.2⟩⟩
    rintro ⟨found, isFound, best⟩
    rw [ran] at isFound
    cases isFound
    exact ⟨encodable, best⟩
  · refine iff_of_false ?_ fun both => notEncodable both.1
    rintro ⟨found, isFound, _⟩
    rw [failed] at isFound
    cases isFound

end Generations

/-! ### Two runs -/

/-- The gate in exact dollars. -/
def exactCosts : Costs ℚ where
  zero := 0
  usd tokens := some (tokens / 1000 * (1 / 1000))
  exceeds cost gate := gate < cost
  shown cost := toString cost

def noSimilarity (_ _ : List Unit) : ℤ := 0

/-- A run of two generations with one case, whose generator gives each seed another line. The
case is rated by the text of the variant, and the embedder raises. -/
def twoGenerations (generator : Nat → VariantGenerator) : GepaInput Unit ℚ where
  generator
  embedder _ _ _ := none
  runCase _ _ _ skillMd _ := some skillMd
  classifier _ _ _ _ finalText _ := if finalText = text "a" then some 0 else some 1
  skillSlug := "greet"
  baseline := text "a"
  cases := [{
    turnId := text "1", userRequest := text "hi", rating := 1, reason := none,
    sessionId := text "1" }]
  populationSize := 2
  generations := 2
  costGateUsd := 20
  minCases := 1

/-- The generator raises in the first generation, and adds a line in the second. -/
def lateImprovement : GepaInput Unit ℚ :=
  twoGenerations fun gen _ baseline _ => if gen = 0 then none else some (baseline ++ text "b")

theorem passesGates_twoGenerations (generator : Nat → VariantGenerator) :
    PassesGates (twoGenerations generator) exactCosts := by
  refine ⟨le_rfl, _, rfl, ?_⟩
  show exactCosts.exceeds ((totalTokens 2 2 1 : ℤ) / 1000 * (1 / 1000)) 20 = false
  decide +kernel

/-- A better rating with one more line is not returned. -/
theorem not_returnsBest_lateImprovement :
    ¬ ReturnsBest noSimilarity 1 lateImprovement exactCosts := by
  rintro ⟨result, ran, reportsBest⟩
  have reports : (runGepa noSimilarity 1 lateImprovement exactCosts).toOption.map (fun result =>
      (result.bestRating, result.generations.map (·.reported))) = some (0, [(0, 1), (1, 2)]) := by
    decide +kernel
  rw [ran] at reports
  obtain ⟨isRating, areReports⟩ := Prod.mk.inj (Option.some.inj reports)
  have better : ((1, 2) : ℚ × Nat) ∈ result.generations.map (·.reported) := by
    rw [areReports]
    decide
  obtain ⟨report, member, same⟩ := List.mem_map.mp better
  have notAbove := (reportsBest.best report member).1
  rw [isRating, show report.bestRating = 1 from congrArg Prod.fst same] at notAbove
  exact absurd notAbove (by decide)

theorem returnsBest_iff_lateImprovement :
    ReturnsBest noSimilarity 1 lateImprovement exactCosts ↔
      (∀ round ∈ inputRounds noSimilarity 1 lateImprovement, Encodable round.variants) ∧
        ∀ front best back,
          bests (inputRounds noSimilarity 1 lateImprovement) = front ++ best :: back →
            IsBest (bests (inputRounds noSimilarity 1 lateImprovement)) best →
              ∀ before, overallBest front none = some before →
                best.bodyBytes ≤ before.bodyBytes :=
  returnsBest_iff noSimilarity 1 lateImprovement (passesGates_twoGenerations _) (by decide)

/-- The generator gives a text with a lone surrogate. -/
def loneSurrogate : GepaInput Unit ℚ :=
  twoGenerations fun _ _ baseline _ => some (baseline ++ [ofCode 0xd800])

end LiteHorse.Evolve.Gepa
