/-
This file shows what the readers see of the feedback log whose writers may die: the outcomes whose
lines are whole, in their order, and nothing of the others.

The invariant says of every line that has ended what it is read as, and of the text after the last
line end that it is a whole line, or a piece of one after which pieces of others may come. Such a
text is no JSON however it goes on.
-/

import LiteHorse.Agent.FeedbackLog
import LiteHorse.Worker.Runner

namespace LiteHorse.Agent.FeedbackLog

open JsonTexts
open Python (optionText)
open Worker.Queue (Interpreter PyError isSpace strip)

section Lines

variable {Finite : Type} {interpreter : Interpreter Finite} {outcome : Outcome} {whole : Text}

/-! ### Torn lines -/

/-- A piece of a whole line after the other, at most so many. -/
inductive Pieces (interpreter : Interpreter Finite) : Nat → Text → Prop
  | nil (most : Nat) : Pieces interpreter most []
  | cons {outcome : Outcome} {whole piece rest : Text} {most : Nat}
      (isLine : line interpreter outcome = some whole) (isPiece : piece <+: whole)
      (pieces : Pieces interpreter most rest) : Pieces interpreter (most + 1) (piece ++ rest)

variable {piece rest tail : Text} {most : Nat}

theorem prefix_append_cases {part first second : Text} (isPart : part <+: first ++ second) :
    part <+: first ∨ ∃ more, part = first ++ more ∧ more <+: second := by
  obtain ⟨after, same⟩ := isPart
  rcases List.append_eq_append_iff.mp same with ⟨more, isFirst, _⟩ | ⟨more, isPart, isSecond⟩
  · exact Or.inl ⟨more, isFirst.symm⟩
  · exact Or.inr ⟨more, isPart, after, isSecond.symm⟩

theorem Pieces.of_prefix (pieces : Pieces interpreter most tail) (isPart : piece <+: tail) :
    Pieces interpreter most piece := by
  induction pieces generalizing piece with
  | nil =>
    rw [List.prefix_nil.mp isPart]
    exact .nil _
  | cons isLine isPiece _ inductionHypothesis =>
    rcases prefix_append_cases isPart with inside | ⟨more, rfl, inRest⟩
    · rw [← List.append_nil piece]
      exact .cons isLine (inside.trans isPiece) (.nil _)
    · exact .cons isLine isPiece (inductionHypothesis inRest)

theorem Pieces.concat (pieces : Pieces interpreter most tail)
    (isLine : line interpreter outcome = some whole) (isPiece : piece <+: whole) :
    Pieces interpreter (most + 1) (tail ++ piece) := by
  induction pieces with
  | nil =>
    rw [List.nil_append, ← List.append_nil piece]
    exact .cons isLine isPiece (.nil _)
  | cons isOther isBefore _ inductionHypothesis =>
    rw [List.append_assoc]
    exact .cons isOther isBefore inductionHypothesis

theorem Pieces.strays (pieces : Pieces interpreter most tail) :
    Strays interpreter.format interpreter.maxStrDigits most tail := by
  induction pieces with
  | nil most => exact strays_nil most
  | cons isLine isPiece _ inductionHypothesis =>
    obtain ⟨rfl, few⟩ := line_eq isLine
    have strays := inductionHypothesis.append (readable_fields few) (floatless_fields _)
      (letterFirst_fields _) isPiece
    rw [depth_fields, Nat.add_comm] at strays
    exact strays

theorem Pieces.printable (pieces : Pieces interpreter most tail) :
    ∀ char ∈ tail, Printable char := by
  induction pieces with
  | nil => exact fun _ member => absurd member List.not_mem_nil
  | cons isLine isPiece _ inductionHypothesis =>
    obtain ⟨rfl, _⟩ := line_eq isLine
    intro char member
    rcases List.mem_append.mp member with inPiece | inRest
    · exact printable_dumps interpreter.format _ char (isPiece.subset inPiece)
    · exact inductionHypothesis char inRest

/-- A line that is cut off and may go on with pieces of others, or is whole and does. -/
def Torn (interpreter : Interpreter Finite) (most : Nat) (tail : Text) : Prop :=
  ∃ outcome whole piece rest, line interpreter outcome = some whole ∧ tail = piece ++ rest ∧
    piece ≠ [] ∧ piece <+: whole ∧ (piece ≠ whole ∨ rest ≠ []) ∧ Pieces interpreter most rest

theorem Torn.pieces (torn : Torn interpreter most tail) : Pieces interpreter (most + 1) tail := by
  obtain ⟨outcome, whole, piece, rest, isLine, rfl, _, isPiece, _, pieces⟩ := torn
  exact .cons isLine isPiece pieces

theorem Torn.concat (torn : Torn interpreter most tail)
    (isLine : line interpreter outcome = some whole) (isPiece : piece <+: whole) :
    Torn interpreter (most + 1) (tail ++ piece) := by
  obtain ⟨other, otherWhole, before, rest, isOther, rfl, nonempty, isBefore, isTorn, pieces⟩ := torn
  refine ⟨other, otherWhole, before, rest ++ piece, isOther, List.append_assoc _ _ _, nonempty,
    isBefore, isTorn.imp_right fun some none => some (List.append_eq_nil_iff.mp none).1,
    pieces.concat isLine isPiece⟩

theorem torn_of_piece (isLine : line interpreter outcome = some whole) (isPiece : piece <+: whole)
    (nonempty : piece ≠ []) (isCut : piece ≠ whole) : Torn interpreter most piece :=
  ⟨outcome, whole, piece, [], isLine, (List.append_nil piece).symm, nonempty, isPiece,
    Or.inl isCut, .nil most⟩

theorem torn_of_whole {before : Outcome} {beforeWhole : Text}
    (isBefore : line interpreter before = some beforeWhole)
    (isLine : line interpreter outcome = some whole) (isPiece : piece <+: whole)
    (nonempty : piece ≠ []) : Torn interpreter (most + 1) (beforeWhole ++ piece) := by
  have some : beforeWhole ≠ [] := by
    rw [(line_eq isBefore).1]
    exact List.cons_ne_nil _ _
  refine ⟨before, beforeWhole, beforeWhole, piece, isBefore, rfl, some, List.prefix_refl _,
    Or.inr nonempty, ?_⟩
  rw [← List.append_nil piece]
  exact .cons isLine isPiece (.nil most)

theorem Torn.head (torn : Torn interpreter most tail) : tail.head? = some openBrace := by
  obtain ⟨outcome, whole, piece, rest, isLine, rfl, nonempty, ⟨after, isPiece⟩, _⟩ := torn
  rw [(line_eq isLine).1] at isPiece
  cases piece with
  | nil => exact absurd rfl nonempty
  | cons char piece => exact congrArg some (List.cons.inj isPiece).1

theorem Pieces.head (pieces : Pieces interpreter most tail) (nonempty : tail ≠ []) :
    tail.head? = some openBrace := by
  cases tail with
  | nil => exact absurd rfl nonempty
  | cons char tail => exact congrArg some (pieces.strays.head char rfl)

/-- A torn line stays one when blanks at its end are stripped. -/
theorem Torn.strip (torn : Torn interpreter most tail) : Torn interpreter most (strip tail) := by
  obtain ⟨blanks, isTail, areBlank⟩ := strip_brace torn.head
  have noBrace : ∀ {text : Text}, text <:+ blanks → text.head? ≠ some openBrace := by
    intro text isEnd isBrace
    have isBlank := areBlank openBrace (isEnd.subset (List.mem_of_mem_head? isBrace))
    exact absurd isBlank (by decide)
  have some : Worker.Queue.strip tail ≠ [] := by
    intro isNil
    rw [isNil, List.nil_append] at isTail
    exact noBrace (List.suffix_refl _) (isTail ▸ torn.head)
  obtain ⟨outcome, whole, piece, rest, isLine, isParts, nonempty, isPiece, isTorn, pieces⟩ := torn
  rcases List.append_eq_append_iff.mp (isParts.symm.trans isTail) with
    ⟨more, isStripped, isRest⟩ | ⟨more, isPart, isEnd⟩
  · refine ⟨outcome, whole, piece, more, isLine, isStripped, nonempty, isPiece,
      isTorn.imp_right fun someRest none => ?_, pieces.of_prefix ⟨blanks, isRest.symm⟩⟩
    rw [none, List.nil_append] at isRest
    exact noBrace (List.suffix_refl _) (isRest ▸ pieces.head someRest)
  · have noRest : rest = [] := by
      by_contra someRest
      exact noBrace ⟨more, isEnd.symm⟩ (pieces.head someRest)
    have isCut : piece ≠ whole := isTorn.resolve_right fun someRest => someRest noRest
    have inside : Worker.Queue.strip tail <+: piece := ⟨more, isPart.symm⟩
    refine torn_of_piece isLine (inside.trans isPiece) some fun isWhole => ?_
    rw [isWhole] at inside
    exact isCut (isPiece.eq_of_length_le inside.length_le)

/-- A torn line is passed over. -/
theorem readLine_torn (torn : Torn interpreter most tail)
    (fits : most + 1 ≤ interpreter.scannerDepth) : readLine interpreter tail = .ok none := by
  have notBlank : strip tail ≠ [] := by
    intro isNil
    have isBrace := torn.strip.head
    rw [isNil] at isBrace
    cases isBrace
  obtain ⟨outcome, whole, piece, rest, isLine, isParts, nonempty, isPiece, isTorn, pieces⟩ :=
    torn.strip
  obtain ⟨rfl, few⟩ := line_eq isLine
  have deep : (Json.object (outcome.fields : List (Text × Json Finite))).depth + most ≤
      interpreter.scannerDepth := by
    rw [depth_fields]
    omega
  unfold readLine
  rw [if_neg notBlank, isParts, loads_torn deep (readable_fields few) (floatless_fields outcome)
    pieces.strays nonempty isPiece isTorn]

/-! ### The invariant -/

/-- The text after the last line end is as the log has it, after so many calls have died. -/
def TailIs (interpreter : Interpreter Finite) (deaths : Nat) (tail : Text) : Tail → Prop
  | .ended => tail = []
  | .unended outcome => line interpreter outcome = some tail ∧ 1 ≤ deaths
  | .torn => ∃ most, most + 1 ≤ deaths ∧ Torn interpreter most tail

/-- Every line that has ended is read as the outcome it stands for, if any. -/
def Ended (interpreter : Interpreter Finite) (entry : Text × Option Outcome) : Prop :=
  (∀ char ∈ entry.1, isLineEnd char = false) ∧
    readLine interpreter entry.1 = .ok (entry.2.map Outcome.record)

def Invariant (interpreter : Interpreter Finite) (deaths : Nat) (content : Text) (log : Log) :
    Prop :=
  ∃ (entries : List (Text × Option Outcome)) (tail : Text),
    content = entries.flatMap (fun entry => entry.1 ++ [lineEnd]) ++ tail ∧
      (∀ entry ∈ entries, Ended interpreter entry) ∧ entries.filterMap Prod.snd = log.whole ∧
        TailIs interpreter deaths tail log.tail

variable {deaths : Nat} {content : Text} {log : Log}

theorem noLineEnd_of_printable {text : Text} (printable : ∀ char ∈ text, Printable char) :
    ∀ char ∈ text, isLineEnd char = false := by
  intro char member
  have isPrintable := (printable char member).1
  have small : ∀ other : CodePoint, other.val < 0x20 → char ≠ other := by
    rintro other control rfl
    omega
  unfold isLineEnd
  rw [decide_eq_false (small lineEnd (by decide)), decide_eq_false (small _ (by decide))]
  rfl

theorem TailIs.noLineEnd {kind : Tail} (isTail : TailIs interpreter deaths tail kind) :
    ∀ char ∈ tail, isLineEnd char = false := by
  refine noLineEnd_of_printable ?_
  cases kind with
  | ended =>
    obtain rfl : tail = [] := isTail
    exact fun _ member => absurd member List.not_mem_nil
  | unended outcome =>
    rw [(line_eq isTail.1).1]
    exact printable_dumps interpreter.format _
  | torn =>
    obtain ⟨_, _, torn⟩ := isTail
    exact torn.pieces.printable

theorem TailIs.mono {kind : Tail} (isTail : TailIs interpreter deaths tail kind) {more : Nat}
    (fewer : deaths ≤ more) : TailIs interpreter more tail kind := by
  cases kind with
  | ended => exact isTail
  | unended outcome => exact ⟨isTail.1, isTail.2.trans fewer⟩
  | torn =>
    obtain ⟨most, enough, torn⟩ := isTail
    exact ⟨most, enough.trans fewer, torn⟩

/-- A piece after a text that is not an end tears it. -/
theorem TailIs.tear {kind : Tail} (isTail : TailIs interpreter deaths tail kind)
    (notEnded : kind ≠ .ended) (isLine : line interpreter outcome = some whole)
    (isPiece : piece <+: whole) (nonempty : piece ≠ []) :
    ∃ most, most ≤ deaths ∧ Torn interpreter most (tail ++ piece) := by
  cases kind with
  | ended => exact absurd rfl notEnded
  | unended before => exact ⟨1, isTail.2, torn_of_whole isTail.1 isLine isPiece nonempty⟩
  | torn =>
    obtain ⟨most, enough, torn⟩ := isTail
    exact ⟨most + 1, enough, torn.concat isLine isPiece⟩

/-- A line that has ended after a text that is not an end is passed over. -/
theorem Invariant.endLine (invariant : Invariant interpreter deaths content log)
    (few : deaths < interpreter.scannerDepth) (isLine : line interpreter outcome = some whole) :
    Invariant interpreter deaths (content ++ (whole ++ [lineEnd]))
      (match log.tail with
        | .ended => { log with whole := log.whole ++ [outcome] }
        | .unended _ | .torn => { log with tail := .ended }) := by
  obtain ⟨entries, tail, rfl, areEnded, areWhole, isTail⟩ := invariant
  have wholeEnds : ∀ char ∈ whole, isLineEnd char = false := by
    refine noLineEnd_of_printable ?_
    rw [(line_eq isLine).1]
    exact printable_dumps interpreter.format _
  have nonempty : whole ≠ [] := by
    rw [(line_eq isLine).1]
    exact List.cons_ne_nil _ _
  have added : ∀ found : Option Outcome,
      readLine interpreter (tail ++ whole) = .ok (found.map Outcome.record) →
        ∀ after : Log, after.tail = .ended → log.whole ++ found.toList = after.whole →
          Invariant interpreter deaths (entries.flatMap (fun entry => entry.1 ++ [lineEnd]) ++
            tail ++ (whole ++ [lineEnd])) after := by
    intro found isRead after afterEnded afterWhole
    refine ⟨entries ++ [(tail ++ whole, found)], [], ?_, ?_, ?_, ?_⟩
    · simp
    · intro entry member
      rcases List.mem_append.mp member with before | new
      · exact areEnded entry before
      · rw [List.mem_singleton.mp new]
        refine ⟨fun char inLine => ?_, isRead⟩
        exact (List.mem_append.mp inLine).elim (isTail.noLineEnd char) (wholeEnds char)
    · rw [List.filterMap_append, areWhole, ← afterWhole]
      cases found with
      | none => rfl
      | some found => rfl
    · rw [afterEnded]
      rfl
  cases isKind : log.tail with
  | ended =>
    rw [isKind] at isTail
    obtain rfl : tail = [] := isTail
    exact added (some outcome) (readLine_whole isLine) _ rfl rfl
  | unended before =>
    obtain ⟨most, enough, torn⟩ := isTail.tear (by rw [isKind]; exact Tail.noConfusion) isLine
      (List.prefix_refl whole) nonempty
    exact added none (readLine_torn torn (by omega)) _ rfl (List.append_nil _)
  | torn =>
    obtain ⟨most, enough, torn⟩ := isTail.tear (by rw [isKind]; exact Tail.noConfusion) isLine
      (List.prefix_refl whole) nonempty
    exact added none (readLine_torn torn (by omega)) _ rfl (List.append_nil _)

/-- A call that dies leaves the tail whole or torn. -/
theorem Invariant.die (invariant : Invariant interpreter deaths content log)
    (isLine : line interpreter outcome = some whole) (isPiece : piece <+: whole)
    (nonempty : piece ≠ []) :
    Invariant interpreter (deaths + 1) (content ++ piece)
      (match log.tail with
        | .ended =>
          if piece = whole then { log with tail := .unended outcome }
          else { log with tail := .torn }
        | .unended _ | .torn => { log with tail := .torn }) := by
  obtain ⟨entries, tail, rfl, areEnded, areWhole, isTail⟩ := invariant
  have goesOn : ∀ after : Log, log.whole = after.whole →
      TailIs interpreter (deaths + 1) (tail ++ piece) after.tail →
        Invariant interpreter (deaths + 1)
          (entries.flatMap (fun entry => entry.1 ++ [lineEnd]) ++ tail ++ piece) after := by
    intro after sameWhole afterTail
    exact ⟨entries, tail ++ piece, List.append_assoc _ _ _, areEnded, areWhole.trans sameWhole,
      afterTail⟩
  cases isKind : log.tail with
  | ended =>
    rw [isKind] at isTail
    obtain rfl : tail = [] := isTail
    by_cases isWhole : piece = whole
    · simp only [if_pos isWhole]
      exact goesOn _ rfl ⟨isWhole ▸ isLine, Nat.le_add_left 1 deaths⟩
    · simp only [if_neg isWhole]
      exact goesOn _ rfl ⟨0, Nat.le_add_left 1 deaths,
        torn_of_piece isLine isPiece nonempty isWhole⟩
  | unended before =>
    obtain ⟨most, enough, torn⟩ := isTail.tear (by rw [isKind]; exact Tail.noConfusion) isLine
      isPiece nonempty
    exact goesOn _ rfl ⟨most, Nat.succ_le_succ enough, torn⟩
  | torn =>
    obtain ⟨most, enough, torn⟩ := isTail.tear (by rw [isKind]; exact Tail.noConfusion) isLine
      isPiece nonempty
    exact goesOn _ rfl ⟨most, Nat.succ_le_succ enough, torn⟩

theorem Invariant.mono (invariant : Invariant interpreter deaths content log) {more : Nat}
    (fewer : deaths ≤ more) : Invariant interpreter more content log := by
  obtain ⟨entries, tail, isContent, areEnded, areWhole, isTail⟩ := invariant
  exact ⟨entries, tail, isContent, areEnded, areWhole, isTail.mono fewer⟩

/-- One call of `record`. -/
theorem append_kept (invariant : Invariant interpreter deaths content log)
    (few : deaths < interpreter.scannerDepth) (call : Call) :
    Invariant interpreter (deaths + if dies interpreter call then 1 else 0)
      (append interpreter content call.1 call.2)
      (match line interpreter call.1 with
        | some whole => log.append call.1 whole.length call.2
        | none => log) := by
  obtain ⟨outcome, written⟩ := call
  unfold append dies
  cases isLine : line interpreter outcome with
  | none => exact invariant.mono (Nat.le_add_right _ _)
  | some whole =>
    simp only
    by_cases short : written ≤ whole.length
    · rw [List.take_append_of_le_length short, if_pos (decide_eq_true short)]
      unfold Log.append
      by_cases isZero : written = 0
      · rw [if_pos isZero, isZero, List.take_zero, List.append_nil]
        exact invariant.mono (Nat.le_succ _)
      · have length : (whole.take written).length = written := List.length_take_of_le short
        have nonempty : whole.take written ≠ [] := by
          intro isNil
          rw [isNil] at length
          exact isZero length.symm
        have died := invariant.die isLine (List.take_prefix written whole) nonempty
        rw [if_neg isZero]
        cases isKind : log.tail with
        | ended =>
          rw [isKind] at died
          simp only at died ⊢
          by_cases isWhole : written = whole.length
          · rw [if_pos (by rw [isWhole, List.take_length])] at died
            rw [if_neg (by omega), if_pos isWhole]
            exact died
          · rw [if_neg fun same => isWhole (by rw [← length, same])] at died
            rw [if_pos (by omega)]
            exact died
        | unended before =>
          rw [isKind] at died
          simp only [if_pos short]
          exact died
        | torn =>
          rw [isKind] at died
          simp only [if_pos short]
          exact died
    · have all : (whole ++ [lineEnd]).take written = whole ++ [lineEnd] := by
        refine List.take_of_length_le ?_
        rw [List.length_append]
        exact Nat.lt_of_not_le short
      have ended := invariant.endLine few isLine
      rw [all, if_neg (by simpa using short), Nat.add_zero]
      unfold Log.append
      rw [if_neg (by omega)]
      cases isKind : log.tail with
      | ended =>
        rw [isKind] at ended
        simp only [if_neg (show ¬ written < whole.length by omega),
          if_neg (show ¬ written = whole.length by omega)]
        exact ended
      | unended before =>
        rw [isKind] at ended
        simp only [if_neg short]
        exact ended
      | torn =>
        rw [isKind] at ended
        simp only [if_neg short]
        exact ended

theorem calls_kept (calls : List Call) (invariant : Invariant interpreter deaths content log)
    (few : deaths + calls.countP (dies interpreter) < interpreter.scannerDepth) :
    Invariant interpreter (deaths + calls.countP (dies interpreter))
      (calls.foldl (fun content call => append interpreter content call.1 call.2) content)
      (calls.foldl
        (fun log call =>
          match line interpreter call.1 with
          | some whole => log.append call.1 whole.length call.2
          | none => log)
        log) := by
  induction calls generalizing deaths content log with
  | nil => exact invariant
  | cons call calls inductionHypothesis =>
    rw [List.countP_cons, Nat.add_comm (List.countP _ _), ← Nat.add_assoc] at few ⊢
    exact inductionHypothesis (append_kept invariant (by omega) call) few

theorem invariant_initial : Invariant interpreter 0 [] ⟨[], .ended⟩ :=
  ⟨[], [], rfl, fun _ member => absurd member List.not_mem_nil, rfl, rfl⟩

/-! ### What is read -/

theorem splitOnP_entries {entries : List (Text × Option Outcome)}
    (areEnded : ∀ entry ∈ entries, Ended interpreter entry)
    (noLineEnd : ∀ char ∈ tail, isLineEnd char = false) :
    (entries.flatMap (fun entry => entry.1 ++ [lineEnd]) ++ tail).splitOnP isLineEnd =
      entries.map Prod.fst ++ [tail] := by
  induction entries with
  | nil => exact List.splitOnP_eq_singleton noLineEnd
  | cons entry entries inductionHypothesis =>
    have rest := inductionHypothesis fun other member =>
      areEnded other (List.mem_cons_of_mem entry member)
    rw [List.flatMap_cons, List.append_assoc, List.append_assoc, List.singleton_append,
      List.splitOnP_append_cons_of_forall_mem (areEnded entry List.mem_cons_self).1 lineEnd rfl,
      rest]
    rfl

theorem readTail (few : deaths < interpreter.scannerDepth)
    (isTail : TailIs interpreter deaths tail log.tail) :
    ∃ found : Option Outcome, readLine interpreter tail = .ok (found.map Outcome.record) ∧
      log.outcomes = log.whole ++ found.toList := by
  unfold Log.outcomes
  cases isKind : log.tail with
  | ended =>
    rw [isKind] at isTail
    obtain rfl : tail = [] := isTail
    exact ⟨none, rfl, (List.append_nil _).symm⟩
  | unended outcome =>
    rw [isKind] at isTail
    exact ⟨some outcome, readLine_whole isTail.1, rfl⟩
  | torn =>
    rw [isKind] at isTail
    obtain ⟨most, enough, torn⟩ := isTail
    exact ⟨none, readLine_torn torn (by omega), (List.append_nil _).symm⟩

theorem Invariant.readRecords (invariant : Invariant interpreter deaths content log)
    (few : deaths < interpreter.scannerDepth) :
    readRecords interpreter content = .ok (log.outcomes.map Outcome.record) := by
  obtain ⟨entries, tail, rfl, areEnded, areWhole, isTail⟩ := invariant
  obtain ⟨found, isRead, areOutcomes⟩ := readTail few isTail
  have reads : ∀ entry ∈ entries ++ [(tail, found)],
      readLine interpreter entry.1 = .ok (entry.2.map Outcome.record) := by
    intro entry member
    rcases List.mem_append.mp member with before | last
    · exact (areEnded entry before).2
    · rw [List.mem_singleton.mp last]
      exact isRead
  have mapped := mapM_map_ok reads
  have lines : entries.map Prod.fst ++ [tail] = (entries ++ [(tail, found)]).map Prod.fst := by
    rw [List.map_append]
    rfl
  have outcomes : ((entries ++ [(tail, found)]).map fun entry =>
      entry.2.map (Outcome.record : Outcome → OutcomeRecord Finite)).filterMap id =
        log.outcomes.map Outcome.record := by
    rw [areOutcomes, ← areWhole, List.filterMap_map, List.map_append,
      List.map_filterMap, List.filterMap_append]
    cases found with
    | none => rfl
    | some found => rfl
  unfold FeedbackLog.readRecords
  rw [splitOnP_entries areEnded isTail.noLineEnd, lines, mapped]
  exact congrArg Except.ok outcomes

/-! ### The readers -/

theorem hasSlug_record (outcome : Outcome) (slug : String) :
    hasSlug (text slug) (outcome.record : OutcomeRecord Finite).skillSlug =
      decide (outcome.skillSlug = some slug) := by
  show hasSlug (text slug) (optionText outcome.skillSlug) = _
  cases outcome.skillSlug with
  | none => rfl
  | some other =>
    refine decide_eq_decide.mpr ⟨fun same => ?_, fun same => ?_⟩
    · rw [Python.text_injective same]
    · rw [Option.some.inj same]

/-- The loop counts what the query sums. -/
theorem foldl_countRating (outcomes : List Outcome) (slug : String) (stats : OutcomeStats) :
    (outcomes.map (Outcome.record : Outcome → OutcomeRecord Finite)).foldl
        (countRating (hasSlug (text slug))) stats =
      { useCount := stats.useCount + (tableStats outcomes slug).useCount
        successCount := stats.successCount + (tableStats outcomes slug).successCount
        errorCount := stats.errorCount + (tableStats outcomes slug).errorCount } := by
  induction outcomes generalizing stats with
  | nil => rfl
  | cons outcome outcomes inductionHypothesis =>
    have isRating : (outcome.record : OutcomeRecord Finite).rating = outcome.rating := rfl
    rw [List.map_cons, List.foldl_cons, inductionHypothesis]
    unfold countRating tableStats
    simp only [hasSlug_record, isRating, List.filter_cons]
    by_cases isSkill : outcome.skillSlug = some slug
    · simp only [isSkill, decide_true, if_true, List.length_cons, List.map_cons, List.sum_cons]
      by_cases good : outcome.rating = 1
      · simp [good]
        omega
      · by_cases bad : outcome.rating = -1
        · simp [bad]
          omega
        · simp [good, bad]
          omega
    · simp [isSkill]

theorem foldl_latest (outcomes : List Outcome) (turnId : String) :
    (outcomes.map (Outcome.record : Outcome → OutcomeRecord Finite)).foldl
        (fun latest record => if record.turnId = text turnId then some record else latest) none =
      (outcomes.reverse.find? fun outcome => outcome.turnId = turnId).map Outcome.record := by
  induction outcomes using List.reverseRecOn with
  | nil => rfl
  | append_singleton outcomes outcome inductionHypothesis =>
    have isTurn : (outcome.record : OutcomeRecord Finite).turnId = text outcome.turnId := rfl
    rw [List.map_append, List.foldl_append, inductionHypothesis, List.reverse_append]
    simp only [List.map_cons, List.map_nil, List.foldl_cons, List.foldl_nil, isTurn,
      List.reverse_singleton, List.singleton_append, List.find?_cons,
      Python.text_injective.eq_iff]
    by_cases same : outcome.turnId = turnId
    · simp [same]
    · simp [same]

end Lines

/-- Wherever the calls die, as long as fewer do than the reader follows brackets, the log is read as
the outcomes whose lines are whole and stand alone, the ratings of a skill are counted as the table
of the cloud counts the same outcomes, and the latest of a turn is the last. -/
theorem log_kept {Finite : Type} (interpreter : Interpreter Finite) (calls : List Call)
    (few : calls.countP (dies interpreter) < interpreter.scannerDepth) :
    readRecords interpreter (contentAfter interpreter calls) =
        .ok ((logAfter interpreter calls).outcomes.map Outcome.record) ∧
      (∀ slug, ratingStats interpreter (contentAfter interpreter calls) (text slug) =
        .ok (tableStats (logAfter interpreter calls).outcomes slug)) ∧
      ∀ turnId, latestForTurn interpreter (contentAfter interpreter calls) (text turnId) =
        .ok (((logAfter interpreter calls).outcomes.reverse.find? fun outcome =>
          outcome.turnId = turnId).map Outcome.record) := by
  have invariant : Invariant interpreter (0 + calls.countP (dies interpreter))
      (contentAfter interpreter calls) (logAfter interpreter calls) :=
    calls_kept calls invariant_initial (by rwa [Nat.zero_add])
  have isRead : readRecords interpreter (contentAfter interpreter calls) =
      .ok ((logAfter interpreter calls).outcomes.map Outcome.record) :=
    invariant.readRecords (by rwa [Nat.zero_add])
  refine ⟨isRead, fun slug => ?_, fun turnId => ?_⟩
  · unfold ratingStats
    rw [isRead]
    refine (congrArg Except.ok (foldl_countRating _ slug _)).trans ?_
    simp only [Nat.zero_add]
  · unfold latestForTurn
    rw [isRead]
    exact congrArg Except.ok (foldl_latest _ turnId)

def rated (rating : Int) (reason : String) : Outcome where
  sessionId := "s"
  turnId := "t"
  source := .userExplicit
  rating := rating
  reason := some reason
  skillSlug := some "notes"
  tsIso := "2026-06-01T09:00:00+00:00"

/-- The second call dies inside its reason. -/
def tornOnce : List Call :=
  [(rated 1 "kept", 1000), (rated (-1) "torn", 86), (rated (-1) "lost", 1000),
    (rated 1 "kept", 1000)]

theorem log_kept_tornOnce :
    tornOnce.countP (dies Worker.Queue.literalInterpreter) <
        Worker.Queue.literalInterpreter.scannerDepth ∧
      ratingStats Worker.Queue.literalInterpreter
          (contentAfter Worker.Queue.literalInterpreter tornOnce) (text "notes") =
        .ok (tableStats (logAfter Worker.Queue.literalInterpreter tornOnce).outcomes "notes") := by
  have few : tornOnce.countP (dies Worker.Queue.literalInterpreter) <
      Worker.Queue.literalInterpreter.scannerDepth :=
    List.countP_le_length.trans_lt (by decide)
  exact ⟨few, (log_kept _ tornOnce few).2.1 "notes"⟩

end LiteHorse.Agent.FeedbackLog
