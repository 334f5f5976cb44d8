/-
This file models the statistics of a skill under processes that run at the same time: views, the
outcomes of runs and approvals each read the file, truncate it and write it anew, between a lock
and its release.

A process may stop at any of these calls, by an error of the operating system or because it dies.
Only between truncating and writing does that cost anything: the file is empty then, and counts
anew. `counts_kept` says that apart from this nothing is ever lost or counted twice, that nobody
reads anything but the counts of a moment since it began, and that nothing is raised.
-/

import LiteHorse.Library.Runs
import LiteHorse.Skills.StatsCounts

namespace LiteHorse.Skills.StatsRuns

open JsonTexts Runs Stats StatsCounts StatsFile
open Worker.Queue (Interpreter PyError)

variable {Finite : Type} (interpreter : Interpreter Finite)

/-! ### The system -/

inductive Operation where
  | change (change : Change)
  /-- `read` -/
  | read

/-- How an operation ends: with what it returns or raises. -/
abbrev Result (Finite : Type) := Except PyError (Option (List (Text × Json Finite)))

/-- Where a process stands. From `locked` to `leaving` it has the lock. -/
inductive Phase (Finite : Type) where
  | idle
  | opened (operation : Operation)
  | locked (operation : Operation)
  | loaded (operation : Operation) (data : List (Text × Json Finite))
  | emptied (change : Change) (payload : ByteArray)
  | leaving (result : Result Finite)
  | returned (result : Result Finite)
  | stopped

inductive Event (Id : Type) where
  | start (id : Id) (operation : Operation)
  | lock (id : Id)
  | load (id : Id)
  | truncate (id : Id)
  | write (id : Id)
  | unlock (id : Id)
  /-- A call fails, which is passed over, or the process dies. -/
  | stop (id : Id)

structure State (Id Finite : Type) where
  file : Option ByteArray
  holder : Option Id
  phase : Id → Phase Finite
  /-- What was written, and `none` where a write was cut off after the truncation. -/
  history : List (Option Change)
  /-- How long the history was when an operation began. -/
  begun : Id → Nat

section System

variable {Id : Type}

/-- A new skill. -/
def State.initial : State Id Finite where
  file := none
  holder := none
  phase := fun _ => .idle
  history := []
  begun := fun _ => 0

/-- What is in the file; a missing one is created empty. -/
def State.content (state : State Id Finite) : ByteArray := state.file.getD ByteArray.empty

variable [DecidableEq Id]

def State.move (state : State Id Finite) (id : Id) (phase : Phase Finite) : State Id Finite :=
  { state with phase := Function.update state.phase id phase }

/-- `read` looks first whether there is a file. -/
def start (state : State Id Finite) (id : Id) (operation : Operation) :
    Option (State Id Finite) :=
  let begun := Function.update state.begun id state.history.length
  match state.phase id with
  | .idle =>
    match operation, state.file with
    | .read, none => some { state.move id (.returned (.ok none)) with begun }
    | _, _ => some { state.move id (.opened operation) with file := some state.content, begun }
  | _ => none

def lock (state : State Id Finite) (id : Id) : Option (State Id Finite) :=
  match state.phase id, state.holder with
  | .opened operation, none => some { state.move id (.locked operation) with holder := some id }
  | _, _ => none

def load (state : State Id Finite) (id : Id) : Option (State Id Finite) :=
  match state.phase id with
  | .locked operation =>
    match readFd interpreter state.content with
    | .ok data => some (state.move id (.loaded operation data))
    | .error raised => some (state.move id (.leaving (.error raised)))
  | _ => none

/-- The text is made before the file is truncated. -/
def truncate (state : State Id Finite) (id : Id) : Option (State Id Finite) :=
  match state.phase id with
  | .loaded (.change change) data =>
    match change.written interpreter data with
    | .ok payload =>
      some { state.move id (.emptied change payload) with file := some ByteArray.empty }
    | .error raised => some (state.move id (.leaving (.error raised)))
  | _ => none

def write (state : State Id Finite) (id : Id) : Option (State Id Finite) :=
  match state.phase id with
  | .emptied change payload =>
    some { state.move id (.leaving (.ok none)) with
      file := some payload
      history := state.history ++ [some change] }
  | _ => none

def unlock (state : State Id Finite) (id : Id) : Option (State Id Finite) :=
  match state.phase id with
  | .leaving result => some { state.move id (.returned result) with holder := none }
  | .loaded .read data => some { state.move id (.returned (.ok (some data))) with holder := none }
  | _ => none

/-- A process that stops loses its lock. -/
def stop (state : State Id Finite) (id : Id) : Option (State Id Finite) :=
  match state.phase id with
  | .idle | .returned _ | .stopped => none
  | .opened _ => some (state.move id .stopped)
  | .locked _ | .loaded _ _ | .leaving _ =>
    some { state.move id .stopped with holder := none }
  | .emptied _ _ =>
    some { state.move id .stopped with
      holder := none
      history := state.history ++ [none] }

def step (state : State Id Finite) : Event Id → Option (State Id Finite)
  | .start id operation => start state id operation
  | .lock id => lock state id
  | .load id => load interpreter state id
  | .truncate id => truncate interpreter state id
  | .write id => write state id
  | .unlock id => unlock state id
  | .stop id => stop state id

end System

/-! ### What is to be kept -/

/-- The changes since a write was cut off. -/
def sinceCut (history : List (Option Change)) : List Change :=
  history.foldl (fun kept entry => entry.elim [] fun change => kept ++ [change]) []

/-- What the file is read as. -/
def expected (history : List (Option Change)) : List (Text × Json Finite) :=
  (tally (sinceCut history)).rejoin.fields

/-- A result is of a moment since the history was so long, and nothing is raised. -/
def OfMoment (begun : Nat) (history : List (Option Change)) : Result Finite → Prop
  | .ok none => True
  | .ok (some data) =>
    ∃ before, begun ≤ before.length ∧ before <+: history ∧ data = expected before
  | .error _ => False

/-- Whenever nobody has the lock the file has the counts, and whoever reads gets those of a
moment since it began. -/
structure Counted {Id : Type} (state : State Id Finite) : Prop where
  settled : state.holder = none →
    readFd interpreter state.content = .ok (expected state.history)
  results : ∀ id result, state.phase id = .returned result →
    OfMoment (state.begun id) state.history result

variable {interpreter}

theorem sinceCut_concat (history : List (Option Change)) (change : Change) :
    sinceCut (history ++ [some change]) = sinceCut history ++ [change] := by
  simp [sinceCut]

theorem sinceCut_cut (history : List (Option Change)) : sinceCut (history ++ [none]) = [] := by
  simp [sinceCut]

theorem length_sinceCut (history : List (Option Change)) :
    (sinceCut history).length ≤ history.length := by
  induction history using List.reverseRecOn with
  | nil => exact le_rfl
  | append_singleton history entry inductionHypothesis =>
    cases entry with
    | none => simp [sinceCut_cut]
    | some change => simpa [sinceCut_concat] using inductionHypothesis

/-! ### One step -/

def Phase.holding : Phase Finite → Bool
  | .locked _ | .loaded _ _ | .emptied _ _ | .leaving _ => true
  | .idle | .opened _ | .returned _ | .stopped => false

section Steps

variable {Id : Type}

/-- The file is read as the history says. -/
def Reads (interpreter : Interpreter Finite) (content : ByteArray)
    (history : List (Option Change)) : Prop :=
  readFd interpreter content = .ok (expected history)

/-- What a process that has the lock knows. -/
def Knows (interpreter : Interpreter Finite) (content : ByteArray) (begun : Nat)
    (history : List (Option Change)) : Phase Finite → Prop
  | .locked _ => Reads interpreter content history
  | .leaving result => Reads interpreter content history ∧ OfMoment begun history result
  | .loaded _ data => Reads interpreter content history ∧ data = expected history
  | .emptied change payload =>
    content = ByteArray.empty ∧ Reads interpreter payload (history ++ [some change])
  | .idle | .opened _ | .returned _ | .stopped => True

structure Invariant (interpreter : Interpreter Finite) (state : State Id Finite) : Prop where
  held : ∀ id, state.holder = some id ↔ (state.phase id).holding = true
  free : state.holder = none → Reads interpreter state.content state.history
  knows : ∀ id, Knows interpreter state.content (state.begun id) state.history (state.phase id)
  begun : ∀ id, state.begun id ≤ state.history.length
  results : ∀ id result, state.phase id = .returned result →
    OfMoment (state.begun id) state.history result

theorem ofMoment_mono {begun : Nat} {history later : List (Option Change)}
    {result : Result Finite} (ofMoment : OfMoment begun history result)
    (isPrefix : history <+: later) : OfMoment begun later result := by
  rcases result with raised | _ | data
  · exact ofMoment.elim
  · trivial
  · obtain ⟨before, since, isBefore, isData⟩ := ofMoment
    exact ⟨before, since, isBefore.trans isPrefix, isData⟩

theorem invariant_initial : Invariant interpreter (State.initial : State Id Finite) where
  held id := by simp [State.initial, Phase.holding]
  free _ := rfl
  knows _ := trivial
  begun _ := le_rfl
  results id result isReturned := by simp [State.initial] at isReturned

/-- What a process without the lock knows is nothing about the file. -/
theorem knows_of_not_holding {phase : Phase Finite} (notHolding : phase.holding = false)
    (content : ByteArray) (begun : Nat) (history : List (Option Change)) :
    Knows interpreter content begun history phase := by
  cases phase with
  | idle | opened | returned | stopped => trivial
  | locked | loaded | emptied | leaving => cases notHolding

variable [DecidableEq Id] {state : State Id Finite} {id : Id} {phase : Phase Finite}
  {file : Option ByteArray} {holder : Option Id} {history : List (Option Change)}

omit [DecidableEq Id] in
/-- A process has no lock while another one has or gets it. -/
theorem Invariant.not_holding (invariant : Invariant interpreter state)
    (ofId : state.holder = none ∨ state.holder = some id) {other : Id} (different : other ≠ id) :
    (state.phase other).holding = false := by
  refine Bool.eq_false_iff.mpr fun holding => ?_
  have isHolder := (invariant.held other).mpr holding
  rcases ofId with isNone | isId
  · cases isHolder.symm.trans isNone
  · exact different (Option.some.inj (isHolder.symm.trans isId))

/-- A process that has or gets the lock may change the file. -/
theorem Invariant.goInside (invariant : Invariant interpreter state) (phase : Phase Finite)
    (file : Option ByteArray) (ofId : state.holder = none ∨ state.holder = some id)
    (isPrefix : state.history <+: history) (holding : phase.holding = true)
    (knows : Knows interpreter (file.getD ByteArray.empty) (state.begun id) history phase) :
    Invariant interpreter
      { state with
        file
        holder := some id
        phase := Function.update state.phase id phase
        history } where
  held other := by
    by_cases same : other = id
    · simp [same, holding]
    · simp [same, invariant.not_holding ofId same, Ne.symm same]
  free isNone := by cases isNone
  knows other := by
    by_cases same : other = id
    · simpa [same, State.content] using knows
    · simpa [same] using knows_of_not_holding (invariant.not_holding ofId same) _ _ _
  begun other := (invariant.begun other).trans isPrefix.length_le
  results other result isReturned := by
    by_cases same : other = id
    · simp only [same, Function.update_self] at isReturned
      rw [isReturned] at holding
      cases holding
    · simp only [Function.update_of_ne same] at isReturned
      exact ofMoment_mono (invariant.results other result isReturned) isPrefix

/-- A process that has the lock leaves it, and leaves a file that is read as the history says. -/
theorem Invariant.leave (invariant : Invariant interpreter state)
    (isHolder : state.holder = some id) (isPrefix : state.history <+: history)
    (notHolding : phase.holding = false)
    (reads : Reads interpreter (file.getD ByteArray.empty) history)
    (results : ∀ result, phase = .returned result → OfMoment (state.begun id) history result) :
    Invariant interpreter
      { state with
        file
        holder := none
        phase := Function.update state.phase id phase
        history } where
  held other := by
    by_cases same : other = id
    · simp [same, notHolding]
    · simp [same, invariant.not_holding (Or.inr isHolder) same]
  free _ := reads
  knows other := by
    by_cases same : other = id
    · simpa [same] using knows_of_not_holding notHolding _ _ _
    · simpa [same] using
        knows_of_not_holding (invariant.not_holding (Or.inr isHolder) same) _ _ _
  begun other := (invariant.begun other).trans isPrefix.length_le
  results other result isReturned := by
    by_cases same : other = id
    · simp only [same, Function.update_self] at isReturned
      exact same ▸ results result isReturned
    · simp only [Function.update_of_ne same] at isReturned
      exact ofMoment_mono (invariant.results other result isReturned) isPrefix

/-- A process without the lock goes on. -/
theorem Invariant.goOutside (invariant : Invariant interpreter state) {begun : Id → Nat}
    (notHolding : (state.phase id).holding = false) (stillNot : phase.holding = false)
    (sameContent : file.getD ByteArray.empty = state.content)
    (past : begun id ≤ state.history.length)
    (others : ∀ other, other ≠ id → begun other = state.begun other)
    (results : ∀ result, phase = .returned result → OfMoment (begun id) state.history result) :
    Invariant interpreter
      { state with
        file
        phase := Function.update state.phase id phase
        begun } where
  held other := by
    by_cases same : other = id
    · simp [same, stillNot, invariant.held, notHolding]
    · simp [same, invariant.held]
  free isNone := by
    show Reads interpreter (file.getD ByteArray.empty) state.history
    rw [sameContent]
    exact invariant.free isNone
  knows other := by
    by_cases same : other = id
    · simpa [same] using knows_of_not_holding stillNot _ _ _
    · simpa [same, State.content, sameContent, others] using invariant.knows other
  begun other := by
    by_cases same : other = id
    · exact same ▸ past
    · exact (others other same).trans_le (invariant.begun other)
  results other result isReturned := by
    by_cases same : other = id
    · simp only [same, Function.update_self] at isReturned
      exact same ▸ results result isReturned
    · simp only [Function.update_of_ne same] at isReturned
      show OfMoment (begun other) state.history result
      rw [others other same]
      exact invariant.results other result isReturned

omit [DecidableEq Id] in
theorem Invariant.isHolder (invariant : Invariant interpreter state)
    (isPhase : state.phase id = phase) (holding : phase.holding = true) :
    state.holder = some id :=
  (invariant.held id).mpr (isPhase ▸ holding)

theorem Invariant.start (invariant : Invariant interpreter state) {operation : Operation}
    {next : State Id Finite} (taken : start state id operation = some next) :
    Invariant interpreter next := by
  have past : Function.update state.begun id state.history.length id ≤ state.history.length := by
    rw [Function.update_self]
  have others : ∀ other, other ≠ id →
      Function.update state.begun id state.history.length other = state.begun other :=
    fun other different => Function.update_of_ne different _ _
  unfold StatsRuns.start at taken
  split at taken
  next isIdle =>
    have notHolding : (state.phase id).holding = false := by rw [isIdle]; rfl
    split at taken
    next =>
      cases taken
      refine invariant.goOutside notHolding rfl rfl past others fun result isReturned => ?_
      cases isReturned
      trivial
    next =>
      cases taken
      exact invariant.goOutside notHolding rfl rfl past others
        fun result isReturned => by cases isReturned
  next => cases taken

theorem Invariant.lock (invariant : Invariant interpreter state) {next : State Id Finite}
    (taken : lock state id = some next) : Invariant interpreter next := by
  unfold StatsRuns.lock at taken
  split at taken
  next operation isOpened isFree =>
    cases taken
    exact invariant.goInside _ _ (Or.inl isFree) (List.prefix_refl _) rfl (invariant.free isFree)
  next => cases taken

theorem Invariant.load (invariant : Invariant interpreter state) {next : State Id Finite}
    (taken : load interpreter state id = some next) : Invariant interpreter next := by
  unfold StatsRuns.load at taken
  split at taken
  next operation isLocked =>
    have reads : Reads interpreter state.content state.history := by
      have knows := invariant.knows id
      rwa [isLocked] at knows
    rw [show readFd interpreter state.content = _ from reads] at taken
    cases taken
    have isHolder := invariant.isHolder isLocked rfl
    have inside := invariant.goInside (.loaded operation (expected state.history)) state.file
      (Or.inr isHolder) (List.prefix_refl _) rfl ⟨reads, rfl⟩
    rwa [← isHolder] at inside
  next => cases taken

/-- What a change writes of what it has read is read as one more change. -/
theorem written_expected {history : List (Option Change)}
    (few : history.length + 1 < 10 ^ interpreter.maxStrDigits) (change : Change) :
    ∃ payload, change.written interpreter (expected history) = .ok payload ∧
      Reads interpreter payload (history ++ [some change]) := by
  have fewChanges : (sinceCut history ++ [change]).length < 10 ^ interpreter.maxStrDigits := by
    rw [List.length_append, List.length_singleton]
    exact lt_of_le_of_lt (Nat.add_le_add_right (length_sinceCut history) 1) few
  have small := tally_small fewChanges
  rw [tally_concat] at small
  have smallAfter : ((tally (sinceCut history)).rejoin.after change).rejoin.Small
      interpreter.maxStrDigits := by
    rw [rejoin_after]
    exact ⟨small.usage, small.success, small.errors⟩
  have smallRejoined : ((tally (sinceCut history)).rejoin.after change).Small
      interpreter.maxStrDigits := ⟨smallAfter.usage, smallAfter.success, smallAfter.errors⟩
  refine ⟨_, written_fields smallRejoined, ?_⟩
  unfold Reads expected
  rw [readFd_fields smallRejoined, rejoin_after, sinceCut_concat, tally_concat]

theorem Invariant.truncate (invariant : Invariant interpreter state)
    (few : state.history.length + 1 < 10 ^ interpreter.maxStrDigits) {next : State Id Finite}
    (taken : truncate interpreter state id = some next) : Invariant interpreter next := by
  unfold StatsRuns.truncate at taken
  split at taken
  next change data isLoaded =>
    have isExpected : data = expected state.history := by
      have knows := invariant.knows id
      rw [isLoaded] at knows
      exact knows.2
    obtain ⟨payload, isWritten, reads⟩ := written_expected few change
    rw [isExpected, isWritten] at taken
    cases taken
    have isHolder := invariant.isHolder isLoaded rfl
    have inside := invariant.goInside (.emptied change payload) (some ByteArray.empty)
      (Or.inr isHolder) (List.prefix_refl _) rfl ⟨rfl, reads⟩
    rwa [← isHolder] at inside
  next => cases taken

theorem Invariant.write (invariant : Invariant interpreter state) {next : State Id Finite}
    (taken : write state id = some next) : Invariant interpreter next := by
  unfold StatsRuns.write at taken
  split at taken
  next change payload isEmptied =>
    cases taken
    have knows := invariant.knows id
    rw [isEmptied] at knows
    have isHolder := invariant.isHolder isEmptied rfl
    have inside := invariant.goInside (.leaving (.ok none)) (some payload) (Or.inr isHolder)
      (List.prefix_append _ _) rfl ⟨knows.2, trivial⟩
    rwa [← isHolder] at inside
  next => cases taken

theorem Invariant.unlock (invariant : Invariant interpreter state) {next : State Id Finite}
    (taken : unlock state id = some next) : Invariant interpreter next := by
  have knows := invariant.knows id
  unfold StatsRuns.unlock at taken
  split at taken
  next result isLeaving =>
    cases taken
    rw [isLeaving] at knows
    refine invariant.leave (invariant.isHolder isLeaving rfl) (List.prefix_refl _) rfl knows.1 ?_
    rintro other ⟨⟩
    exact knows.2
  next data isLoaded =>
    cases taken
    rw [isLoaded] at knows
    refine invariant.leave (invariant.isHolder isLoaded rfl) (List.prefix_refl _) rfl knows.1 ?_
    rintro other ⟨⟩
    exact ⟨_, invariant.begun id, List.prefix_refl _, knows.2⟩
  next => cases taken

theorem Invariant.stop (invariant : Invariant interpreter state) {next : State Id Finite}
    (taken : stop state id = some next) : Invariant interpreter next := by
  have knows := invariant.knows id
  have noResult : ∀ result : Result Finite, (.stopped : Phase Finite) = .returned result →
      OfMoment (state.begun id) state.history result := by
    rintro result ⟨⟩
  unfold StatsRuns.stop at taken
  split at taken
  next => cases taken
  next => cases taken
  next => cases taken
  next operation isOpened =>
    cases taken
    exact invariant.goOutside (by rw [isOpened]; rfl) rfl rfl (invariant.begun id) (fun _ _ => rfl)
      noResult
  next operation isLocked =>
    cases taken
    rw [isLocked] at knows
    exact invariant.leave (invariant.isHolder isLocked rfl) (List.prefix_refl _) rfl knows noResult
  next operation data isLoaded =>
    cases taken
    rw [isLoaded] at knows
    exact invariant.leave (invariant.isHolder isLoaded rfl) (List.prefix_refl _) rfl knows.1
      noResult
  next result isLeaving =>
    cases taken
    rw [isLeaving] at knows
    exact invariant.leave (invariant.isHolder isLeaving rfl) (List.prefix_refl _) rfl knows.1
      noResult
  next change payload isEmptied =>
    cases taken
    rw [isEmptied] at knows
    have reads : Reads interpreter state.content (state.history ++ [none]) := by
      unfold Reads expected
      rw [knows.1, sinceCut_cut]
      rfl
    refine invariant.leave (invariant.isHolder isEmptied rfl) (List.prefix_append _ _) rfl reads ?_
    rintro result ⟨⟩

/-- The history of the skill only grows. -/
theorem history_step {event : Event Id} {next : State Id Finite}
    (taken : step interpreter state event = some next) :
    state.history.length ≤ next.history.length := by
  cases event with
  | start id operation =>
    change StatsRuns.start state id operation = some next at taken
    unfold StatsRuns.start at taken
    split at taken
    next => split at taken <;> cases taken <;> exact le_rfl
    next => cases taken
  | lock id | load id | truncate id | write id | unlock id | stop id =>
    grind [step, StatsRuns.lock, StatsRuns.load, StatsRuns.truncate, StatsRuns.write,
      StatsRuns.unlock, StatsRuns.stop, State.move]

end Steps

theorem Invariant.step {Id : Type} [DecidableEq Id] {state next : State Id Finite}
    (invariant : Invariant interpreter state) {event : Event Id}
    (few : state.history.length + 1 < 10 ^ interpreter.maxStrDigits)
    (taken : step interpreter state event = some next) : Invariant interpreter next := by
  cases event with
  | start id operation => exact invariant.start taken
  | lock id => exact invariant.lock taken
  | load id => exact invariant.load taken
  | truncate id => exact invariant.truncate few taken
  | write id => exact invariant.write taken
  | unlock id => exact invariant.unlock taken
  | stop id => exact invariant.stop taken

variable (interpreter)

/-- As long as a count can be written at all, nothing that was written is lost or counted twice,
whatever the processes do in whatever order and wherever they stop. -/
theorem counts_kept {Id : Type} [DecidableEq Id] (events : List (Event Id)) :
    Always (step interpreter)
      (fun state => state.history.length + 1 < 10 ^ interpreter.maxStrDigits →
        Counted interpreter state) State.initial events := by
  have always : Always (step interpreter)
      (fun state => state.history.length + 1 < 10 ^ interpreter.maxStrDigits →
        Invariant interpreter state) State.initial events := by
    refine always_invariant (step interpreter) (fun state event next holds taken few => ?_)
      fun _ => invariant_initial
    have grows := history_step taken
    exact (holds (by omega)).step (by omega) taken
  refine always.mono (step interpreter) fun state holds few => ?_
  have invariant := holds few
  exact ⟨invariant.free, invariant.results⟩

end LiteHorse.Skills.StatsRuns
