/-
This file is about the sessions of cloud turns. `run_turn_streaming_for_user` builds the
session of a turn from the request's `session_key` over the process-wide
`LocalSessionRepo`; the `user_id` of the request goes into the session row, but the rows of
a session are found by its id alone.

Isolation of two users is stated as a comparison of two runs: what the first user's turns
read in an interleaving with the second user's turns, and what they read in the run that
the second user's turns are erased from. The two agree whenever the users have no session
key in common, and for users that share a key some interleaving tells them apart.
-/

import LiteHorse.Library.Interleaving
import LiteHorse.Sessions.SdkSession
import Mathlib.Data.Set.Lattice
import Mathlib.Order.CompletePartialOrder

namespace LiteHorse.Web

open Interleaving Python Sessions

/-- What a cloud turn's session is built from. -/
structure TurnRequest where
  userId : String
  sessionKey : String

/-- One step of a turn: it builds its session, or it makes a call on it. -/
inductive TurnAction where
  | construct (modelName : Option String) (now : Timestamp)
  | call (call : SessionCall)

structure TurnStep where
  request : TurnRequest
  action : TurnAction

/-- A turn: the session is built once, and calls follow. -/
structure CloudTurn where
  request : TurnRequest
  modelName : Option String
  startedAt : Timestamp
  calls : List SessionCall

def CloudTurn.steps (turn : CloudTurn) : List TurnStep :=
  ⟨turn.request, .construct turn.modelName turn.startedAt⟩ ::
    turn.calls.map fun call => ⟨turn.request, .call call⟩

/-- The session `run_turn_streaming_for_user` builds for a request. -/
def cloudSession (request : TurnRequest) (db : LocalSessionRepo) (modelName : Option String)
    (now : Timestamp) : SDKSession × LocalSessionRepo :=
  SDKSession.new request.sessionKey db "web" (some request.userId) modelName now

section Runs

variable (isPrintable : Char → Bool)

/-- Take one step on the shared store. The session of a call is the one the turn has built:
its id is the request's `session_key`. -/
def takeStep (db : LocalSessionRepo) (step : TurnStep) : LocalSessionRepo × Option CallResult :=
  match step.action with
  | .construct modelName now => ((cloudSession step.request db modelName now).2, none)
  | .call call =>
    let result := callSession isPrintable ⟨step.request.sessionKey⟩ db call
    (result.1, some result.2)

/-- The store after a run. -/
def runSteps (db : LocalSessionRepo) (steps : List TurnStep) : LocalSessionRepo :=
  steps.foldl (fun db step => (takeStep isPrintable db step).1) db

/-- The list a step of the user returns from `get_items`. -/
def stepRead (userId : String) (step : TurnStep) : Option CallResult → List (List Item)
  | some (.items items) => if step.request.userId = userId then [items] else []
  | _ => []

/-- The lists `get_items` returns in the turns of the user, in the order of the run. -/
def readsOf (userId : String) (db : LocalSessionRepo) : List TurnStep → List (List Item)
  | [] => []
  | step :: rest =>
    let result := takeStep isPrintable db step
    stepRead userId step result.2 ++ readsOf userId result.1 rest

/-- The turns of the first user, with session keys of the first set, are isolated from the
turns of the second, with session keys of the second: from every state of the store and
for every interleaving, the first user's turns read what they read when the second user's
turns are erased, and no step of the second user changes a row of a session the first
user reads. -/
def Isolated (first second : String) (firstKeys secondKeys : Set String) : Prop :=
  ∀ (db : LocalSessionRepo) (firstTurns secondTurns : List CloudTurn)
    (firstRun secondRun run : List TurnStep),
    (∀ turn ∈ firstTurns, turn.request.userId = first ∧ turn.request.sessionKey ∈ firstKeys) →
    (∀ turn ∈ secondTurns,
      turn.request.userId = second ∧ turn.request.sessionKey ∈ secondKeys) →
    Interleaves (firstTurns.map CloudTurn.steps) firstRun →
    Interleaves (secondTurns.map CloudTurn.steps) secondRun →
    Shuffle firstRun secondRun run →
      readsOf isPrintable first db run = readsOf isPrintable first db firstRun ∧
        ∀ before step after, run = before ++ step :: after → step.request.userId = second →
          ∀ key ∈ firstKeys,
            (runSteps isPrintable db (before ++ [step])).rowsOf key =
              (runSteps isPrintable db before).rowsOf key

/-! ### What a step reads and changes -/

theorem rowsOf_takeStep_other (db : LocalSessionRepo) (step : TurnStep) (key : String)
    (different : key ≠ step.request.sessionKey) :
    (takeStep isPrintable db step).1.rowsOf key = db.rowsOf key := by
  obtain ⟨request, action⟩ := step
  cases action with
  | construct modelName now => exact db.rowsOf_createSession _ _ _ _ _ _
  | call call => exact rowsOf_callSession_other isPrintable _ db call key different

theorem log_takeStep_other (db : LocalSessionRepo) (step : TurnStep) (key : String)
    (different : key ≠ step.request.sessionKey) :
    (takeStep isPrintable db step).1.log key = db.log key :=
  LocalSessionRepo.log_congr _ _ _ (rowsOf_takeStep_other isPrintable db step key different)

/-- Two stores with the same log of the step's session give the step the same result and
leave it the same log. -/
theorem takeStep_congr (db other : LocalSessionRepo) (step : TurnStep)
    (same : db.log step.request.sessionKey = other.log step.request.sessionKey) :
    (takeStep isPrintable db step).2 = (takeStep isPrintable other step).2 ∧
      (takeStep isPrintable db step).1.log step.request.sessionKey =
        (takeStep isPrintable other step).1.log step.request.sessionKey := by
  obtain ⟨request, action⟩ := step
  cases action with
  | construct modelName now =>
    refine ⟨rfl, ?_⟩
    simp only [takeStep, cloudSession, SDKSession.new, LocalSessionRepo.log_createSession]
    exact same
  | call call =>
    have left := callSession_log isPrintable ⟨request.sessionKey⟩ db call
    have right := callSession_log isPrintable ⟨request.sessionKey⟩ other call
    simp only at same left right
    rw [same, ← right, Prod.mk.injEq] at left
    exact ⟨congrArg some left.2, left.1⟩

/-- Stores that agree on a set of logs still agree on it after a step on one of them. -/
theorem takeStep_agree (db other : LocalSessionRepo) (step : TurnStep) (keys : Set String)
    (inside : step.request.sessionKey ∈ keys)
    (agree : ∀ key ∈ keys, db.log key = other.log key) (key : String) (member : key ∈ keys) :
    (takeStep isPrintable db step).1.log key = (takeStep isPrintable other step).1.log key := by
  by_cases own : key = step.request.sessionKey
  · rw [own]
    exact (takeStep_congr isPrintable db other step (agree _ inside)).2
  · rw [log_takeStep_other isPrintable db step key own,
      log_takeStep_other isPrintable other step key own]
    exact agree key member

/-! ### Users without a common session key -/

/-- The simulation of the two runs. While the second user's steps stay outside the first
user's keys, the two stores agree on the first user's logs. -/
theorem readsOf_shuffle (first second : String) (distinct : first ≠ second)
    (firstKeys : Set String) {firstRun secondRun run : List TurnStep}
    (firstOwn : ∀ step ∈ firstRun,
      step.request.userId = first ∧ step.request.sessionKey ∈ firstKeys)
    (secondOwn : ∀ step ∈ secondRun,
      step.request.userId = second ∧ step.request.sessionKey ∉ firstKeys)
    (shuffle : Shuffle firstRun secondRun run) (db erased : LocalSessionRepo)
    (agree : ∀ key ∈ firstKeys, db.log key = erased.log key) :
    readsOf isPrintable first db run = readsOf isPrintable first erased firstRun := by
  induction shuffle generalizing db erased with
  | nil => rfl
  | left step _ inductionHypothesis =>
    have own := (firstOwn step List.mem_cons_self).2
    have sameResult := (takeStep_congr isPrintable db erased step (agree _ own)).1
    have rest := inductionHypothesis
      (fun step member => firstOwn step (List.mem_cons_of_mem _ member)) secondOwn
      (takeStep isPrintable db step).1 (takeStep isPrintable erased step).1
      (takeStep_agree isPrintable db erased step firstKeys own agree)
    unfold readsOf
    simp only [sameResult, rest]
  | right step _ inductionHypothesis =>
    obtain ⟨user, outside⟩ := secondOwn step List.mem_cons_self
    have silent : stepRead first step (takeStep isPrintable db step).2 = [] := by
      unfold stepRead
      split
      · rw [if_neg (by rw [user]; exact Ne.symm distinct)]
      · rfl
    have rest := inductionHypothesis firstOwn
      (fun step member => secondOwn step (List.mem_cons_of_mem _ member))
      (takeStep isPrintable db step).1 erased fun key member => by
        rw [log_takeStep_other isPrintable db step key fun same => outside (same ▸ member)]
        exact agree key member
    conv_lhs => unfold readsOf
    simp only [silent, rest, List.nil_append]

theorem mem_steps (turn : CloudTurn) (step : TurnStep) (member : step ∈ turn.steps) :
    step.request = turn.request := by
  unfold CloudTurn.steps at member
  rcases List.mem_cons.mp member with rfl | later
  · rfl
  · obtain ⟨call, _, rfl⟩ := List.mem_map.mp later
    rfl

/-- Every step of an interleaving of turns carries the request of one of the turns. -/
theorem request_of_mem_run {turns : List CloudTurn} {run : List TurnStep}
    (interleaving : Interleaves (turns.map CloudTurn.steps) run) (step : TurnStep)
    (member : step ∈ run) : ∃ turn ∈ turns, step.request = turn.request := by
  obtain ⟨thread, isThread, inThread⟩ := interleaving.mem step member
  obtain ⟨turn, isTurn, rfl⟩ := List.mem_map.mp isThread
  exact ⟨turn, isTurn, mem_steps turn step inThread⟩

theorem isolated_of_disjoint (first second : String) (distinct : first ≠ second)
    (firstKeys secondKeys : Set String) (disjoint : Disjoint firstKeys secondKeys) :
    Isolated isPrintable first second firstKeys secondKeys := by
  intro db firstTurns secondTurns firstRun secondRun run firstOwn secondOwn firstInterleaving
    secondInterleaving shuffle
  have firstSteps : ∀ step ∈ firstRun,
      step.request.userId = first ∧ step.request.sessionKey ∈ firstKeys := by
    intro step member
    obtain ⟨turn, isTurn, same⟩ := request_of_mem_run firstInterleaving step member
    rw [same]
    exact firstOwn turn isTurn
  have secondSteps : ∀ step ∈ secondRun,
      step.request.userId = second ∧ step.request.sessionKey ∉ firstKeys := by
    intro step member
    obtain ⟨turn, isTurn, same⟩ := request_of_mem_run secondInterleaving step member
    rw [same]
    exact ⟨(secondOwn turn isTurn).1,
      disjoint.notMem_of_mem_right (secondOwn turn isTurn).2⟩
  refine ⟨readsOf_shuffle isPrintable first second distinct firstKeys firstSteps secondSteps
    shuffle db db fun _ _ => rfl, ?_⟩
  intro before step after split user key member
  have inRun : step ∈ run := by
    rw [split]
    exact List.mem_append_right _ List.mem_cons_self
  have outside : step.request.sessionKey ∉ firstKeys := by
    rcases shuffle.mem step inRun with ofFirst | ofSecond
    · exact absurd ((firstSteps step ofFirst).1.symm.trans user) distinct
    · exact (secondSteps step ofSecond).2
  unfold runSteps
  rw [List.foldl_append]
  exact rowsOf_takeStep_other isPrintable _ step key fun same => outside (same ▸ member)

/-! ### Users with a common session key -/

/-- A message a turn adds to its session. -/
def helloItem : Item := [("role", .str "user"), ("content", .str "hello")]

/-- A turn that adds one message under the key. -/
def writingTurn (userId sessionKey : String) : CloudTurn where
  request := ⟨userId, sessionKey⟩
  modelName := none
  startedAt := 0
  calls := [.addItems [(helloItem, 0)]]

/-- A turn that reads its session. -/
def readingTurn (userId sessionKey : String) : CloudTurn where
  request := ⟨userId, sessionKey⟩
  modelName := none
  startedAt := 1
  calls := [.getItems none]

theorem readsOf_readingTurn (userId key : String) (db : LocalSessionRepo) :
    readsOf isPrintable userId db (readingTurn userId key).steps =
      [(db.log key).map LocalSessionRepo.messageRowToMsg] := by
  simp [readingTurn, CloudTurn.steps, readsOf, takeStep, cloudSession, SDKSession.new,
    callSession, stepRead, LocalSessionRepo.getMessages_eq, LocalSessionRepo.newest]

theorem itemBody_helloItem :
    itemBody isPrintable helloItem 0 =
      some (LocalSessionRepo.appendedBody "user" (some "hello") none none none 0) := rfl

theorem log_writingTurn (userId key : String) :
    (runSteps isPrintable .empty (writingTurn userId key).steps).log key =
      [LocalSessionRepo.appendedBody "user" (some "hello") none none none 0] := by
  have added := addItems_log isPrintable ⟨key⟩
    (cloudSession ⟨userId, key⟩ .empty none 0).2 [(helloItem, 0)]
  have fresh : (cloudSession ⟨userId, key⟩ .empty none 0).2.log key = [] :=
    LocalSessionRepo.log_createSession _ _ _ _ _ _ _
  simp only [fresh, addToLog, itemBody_helloItem] at added
  exact congrArg Prod.fst added

/-- A reader with a key of its own choice sees what another user wrote under that key. -/
theorem readsOf_writing_reading (first second key : String) :
    readsOf isPrintable first .empty
        ((writingTurn second key).steps ++ (readingTurn first key).steps) =
      [[helloItem]] := by
  have read := readsOf_readingTurn isPrintable first key
    (runSteps isPrintable .empty (writingTurn second key).steps)
  rw [log_writingTurn] at read
  exact read

theorem shuffle_append (first second : List TurnStep) : Shuffle second first (first ++ second) := by
  induction first with
  | nil => exact Shuffle.nil_right second
  | cons step _ inductionHypothesis => exact inductionHypothesis.right step

/-- Two users who share a session key are not isolated. -/
theorem not_isolated_of_shared (first second key : String) (firstKeys secondKeys : Set String)
    (firstMember : key ∈ firstKeys) (secondMember : key ∈ secondKeys) :
    ¬ Isolated isPrintable first second firstKeys secondKeys := by
  intro isolated
  have same := (isolated .empty [readingTurn first key] [writingTurn second key] _ _ _
    (fun turn member => by rw [List.mem_singleton.mp member]; exact ⟨rfl, firstMember⟩)
    (fun turn member => by rw [List.mem_singleton.mp member]; exact ⟨rfl, secondMember⟩)
    (Interleaves.single _) (Interleaves.single _) (shuffle_append _ _)).1
  rw [readsOf_writing_reading, readsOf_readingTurn, LocalSessionRepo.log_empty] at same
  exact absurd same (by simp)

/-- Cloud turns of two users are isolated, in every interleaving and from every state of
the store, exactly when no session key is used by both. -/
theorem isolated_iff_disjoint (first second : String) (distinct : first ≠ second)
    (firstKeys secondKeys : Set String) :
    Isolated isPrintable first second firstKeys secondKeys ↔ Disjoint firstKeys secondKeys := by
  constructor
  · intro isolated
    refine Set.disjoint_left.mpr fun key firstMember secondMember => ?_
    exact not_isolated_of_shared isPrintable first second key firstKeys secondKeys firstMember
      secondMember isolated
  · exact isolated_of_disjoint isPrintable first second distinct firstKeys secondKeys

/-- Two users with a key of their own each. -/
theorem isolated_own_keys :
    Isolated (fun _ => true) "alice" "bob" {"alice-main"} {"bob-main"} := by
  refine (isolated_iff_disjoint (fun _ => true) "alice" "bob" (by decide) {"alice-main"}
    {"bob-main"}).mpr ?_
  exact Set.disjoint_singleton.mpr (by decide)

/-- Two users who both call their session `main`: the second user's message reaches the
first user's turn. -/
theorem isolation_fails_for_shared_main :
    ¬ Isolated (fun _ => true) "alice" "bob" {"main"} {"main"} :=
  not_isolated_of_shared (fun _ => true) "alice" "bob" "main" {"main"} {"main"} rfl rfl

end Runs

end LiteHorse.Web
