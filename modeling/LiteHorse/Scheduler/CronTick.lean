/-
This file models the cron tick: it scans the enabled rows of `cron_jobs`, fans out the ones
that are due and stamps them with the time of the tick.

Whether a row is due is asked of its trigger with the time it last fired. A row that has
fired asks for a boundary since then. A row that has not asks from the time of the tick on,
so it is due only when the tick falls on a boundary to the microsecond, although the
docstring of `is_due` counts every boundary on or before that time. The main result says for
which boundaries of a job exactly one fan-out follows: those that come with or after a tick
that fell on a boundary, and are not themselves the time of two ticks.

CronTrigger's parser of five-field expressions is a parameter. Times are in microseconds.
-/

import LiteHorse.Library.CronTrigger
import LiteHorse.Library.Layers
import LiteHorse.Library.Runs
import LiteHorse.Library.Sorting
import LiteHorse.Python

namespace LiteHorse.Scheduler

open Cron Python Runs Sorting

/-! ### The rows and the messages -/

inductive CronScope where
  | official
  | user
  deriving DecidableEq

def CronScope.text : CronScope → String
  | .official => "official"
  | .user => "user"

structure CronJob where
  id : UUID
  scope : CronScope
  userId : Option UUID
  slug : String
  cronExpr : String
  prompt : String
  webhookUrl : Option String
  enabled : Bool
  lastFiredAt : Option Int
  strikes : Int

structure CronMessage where
  cronJobId : UUID
  scope : CronScope
  slug : String
  userId : UUID
  prompt : String
  webhookUrl : Option String
  scheduledFor : Int

/-- The messages one job gets in one tick. -/
structure FanOut where
  jobId : UUID
  messages : List CronMessage

/-- One message for each active user. -/
def expandOfficialToUserMessages (row : CronJob) (activeUserIds : List UUID) (moment : Int) :
    List CronMessage :=
  activeUserIds.map fun userId =>
    { cronJobId := row.id
      scope := .official
      slug := row.slug
      userId := userId
      prompt := row.prompt
      webhookUrl := row.webhookUrl
      scheduledFor := moment }

def buildUserMessage (row : CronJob) (userId : UUID) (moment : Int) : CronMessage where
  cronJobId := row.id
  scope := .user
  slug := row.slug
  userId := userId
  prompt := row.prompt
  webhookUrl := row.webhookUrl
  scheduledFor := moment

/-- `list_enabled_admin`: the enabled rows by scope and slug. -/
def listEnabledAdmin (rows : List CronJob) : List CronJob :=
  sortedBy (fun row => toLex (row.scope.text, row.slug)) (rows.filter CronJob.enabled)

/-- `mark_fired_admin`: stamp the row of an id and forget its strikes. -/
def markFiredAdmin (rows : List CronJob) (id : UUID) (moment : Int) : List CronJob :=
  rows.map fun row =>
    if row.id = id then { row with lastFiredAt := some moment, strikes := 0 } else row

/-! ### The tick -/

section Tick

variable (fromCrontab : String → Option CronTrigger)

def aliases : List (String × String) :=
  [("@minutely", "* * * * *"), ("@hourly", "0 * * * *"), ("@daily", "0 0 * * *"),
    ("@weekly", "0 0 * * 0")]

/-- `none` where the source raises `ValueError`. -/
def parseSchedule (schedule : String) : Option CronTrigger :=
  let stripped := strip schedule
  if stripped.toList.head? = some '@' then (aliases.lookup stripped).bind fromCrontab
  else fromCrontab stripped

/-- `none` where the source raises `ValueError`. -/
def isDue (cronExpr : String) (lastFiredAt : Option Int) (now : Int) : Option Bool := do
  let trigger ← parseSchedule fromCrontab cronExpr
  let nextFire ← trigger.getNextFireTime lastFiredAt now
  return decide (nextFire ≤ now)

/-- The messages the tick sends for a row; `none` when it passes the row over. -/
def messagesOf (activeUserIds : List UUID) (moment : Int) (row : CronJob) :
    Option (List CronMessage) :=
  match isDue fromCrontab row.cronExpr row.lastFiredAt moment with
  | some true =>
    match row.scope with
    | .user => row.userId.map fun userId => [buildUserMessage row userId moment]
    | .official => some (expandOfficialToUserMessages row activeUserIds moment)
  | _ => none

/-- One pass over the enabled rows: the rows after it and the fan-outs it made. -/
def tick (activeUserIds : List UUID) (moment : Int) (rows : List CronJob) :
    List CronJob × List FanOut :=
  (listEnabledAdmin rows).foldl
    (fun state row =>
      match messagesOf fromCrontab activeUserIds moment row with
      | none => state
      | some messages => (markFiredAdmin state.1 row.id moment, state.2 ++ [⟨row.id, messages⟩]))
    (rows, [])

/-- The fan-outs of one tick. -/
structure TickRecord where
  moment : Int
  fanOuts : List FanOut

structure CronService where
  rows : List CronJob
  log : List TickRecord

inductive CronEvent where
  | tick (moment : Int) (activeUserIds : List UUID)
  /-- Somebody creates a job; its id is new. -/
  | create (row : CronJob)

def cronStep (service : CronService) : CronEvent → Option CronService
  | .tick moment activeUserIds =>
    let result := tick fromCrontab activeUserIds moment service.rows
    some ⟨result.1, service.log ++ [⟨moment, result.2⟩]⟩
  | .create row =>
    if row.id ∈ service.rows.map CronJob.id then none
    else some { service with rows := service.rows ++ [row] }

/-! ### What is asked of a boundary -/

/-- For each tick its time and the number of fan-outs of the job. -/
def fanOutHistory (id : UUID) (log : List TickRecord) : List (Int × Nat) :=
  log.map fun record =>
    (record.moment, (record.fanOuts.filter fun fanOut => fanOut.jobId = id).length)

end Tick

section Boundary

variable (trigger : CronTrigger)

/-- No boundary after the given one has been reached yet. -/
def BeforeNext (boundary time : Int) : Prop :=
  ∀ next, trigger.Boundary next → boundary < next → time < next

/-- The boundary leads to exactly one fan-out, by the first tick at or after it: that tick
fans the job out once, and no later tick before the next boundary does. -/
def FiredOnce (boundary : Int) (history : List (Int × Nat)) : Prop :=
  match history.dropWhile fun entry => entry.1 < boundary with
  | [] => False
  | first :: after =>
    first.2 = 1 ∧ ∀ entry ∈ after, BeforeNext trigger boundary entry.1 → entry.2 = 0

/-- Up to the first tick at or after the boundary, some tick falls on a boundary to the
microsecond, and no further tick falls on this one. -/
def HitOnce (boundary : Int) (moments : List Int) : Prop :=
  match moments.dropWhile fun moment => moment < boundary with
  | [] => False
  | first :: after =>
    (∃ moment ∈ moments.takeWhile (fun moment => moment < boundary) ++ [first],
      trigger.Boundary moment) ∧ boundary ∉ after

/-! ### One job over a sequence of ticks -/

/-- The due test of a trigger that has a next fire time. -/
def due (lastFiredAt : Option Int) (now : Int) : Bool :=
  (trigger.getNextFireTime lastFiredAt now).any fun nextFire => nextFire ≤ now

theorem due_iff (lastFiredAt : Option Int) (now : Int) :
    due trigger lastFiredAt now = true ↔
      ∃ next, trigger.getNextFireTime lastFiredAt now = some next ∧ next ≤ now := by
  unfold due
  rw [Option.any_eq_true]
  simp only [decide_eq_true_eq]

/-- The history of a job that was last fired at the given time. -/
def dueHistory (lastFiredAt : Option Int) : List Int → List (Int × Nat)
  | [] => []
  | now :: rest =>
    if due trigger lastFiredAt now then (now, 1) :: dueHistory (some now) rest
    else (now, 0) :: dueHistory lastFiredAt rest

/-- Where a history has a fan-out, the job was due with a stamp that is an earlier tick's or
the one it began with. -/
theorem due_of_mem_dueHistory (last : Int) (moments : List Int)
    (sorted : (last :: moments).Pairwise (· ≤ ·)) (entry : Int × Nat)
    (member : entry ∈ dueHistory trigger (some last) moments) (fired : entry.2 ≠ 0) :
    entry.1 ∈ moments ∧ ∃ stamp, last ≤ stamp ∧ stamp ≤ entry.1 ∧
      due trigger (some stamp) entry.1 = true := by
  induction moments generalizing last with
  | nil => cases member
  | cons now rest inductionHypothesis =>
    obtain ⟨lastLe, restSorted⟩ := List.pairwise_cons.mp sorted
    have nowLe := lastLe now List.mem_cons_self
    unfold dueHistory at member
    split at member
    · next isDue =>
      rcases List.mem_cons.mp member with rfl | later
      · exact ⟨List.mem_cons_self, last, le_refl last, nowLe, isDue⟩
      · obtain ⟨inRest, stamp, after, before, stampDue⟩ :=
          inductionHypothesis now restSorted later
        exact ⟨List.mem_cons_of_mem now inRest, stamp, nowLe.trans after, before, stampDue⟩
    · rcases List.mem_cons.mp member with rfl | later
      · exact absurd rfl fired
      · have withoutNow : (last :: rest).Pairwise (· ≤ ·) :=
          List.pairwise_cons.mpr
            ⟨fun moment inRest => lastLe moment (List.mem_cons_of_mem now inRest),
              (List.pairwise_cons.mp restSorted).2⟩
        obtain ⟨inRest, found⟩ := inductionHypothesis last withoutNow later
        exact ⟨List.mem_cons_of_mem now inRest, found⟩

/-- After the tick that fired a boundary, the job stays quiet until the next one exactly when
no further tick falls on the boundary. -/
theorem quiet_iff (boundary : Int) (isBoundary : trigger.Boundary boundary) (last : Int)
    (atLeast : boundary ≤ last) (moments : List Int)
    (sorted : (last :: moments).Pairwise (· ≤ ·)) :
    (∀ entry ∈ dueHistory trigger (some last) moments,
        BeforeNext trigger boundary entry.1 → entry.2 = 0) ↔ boundary ∉ moments := by
  constructor
  · intro quiet again
    obtain ⟨lastLe, _⟩ := List.pairwise_cons.mp sorted
    have isLast : last = boundary := le_antisymm (lastLe boundary again) atLeast
    cases moments with
    | nil => cases again
    | cons now rest =>
      have isNow : now = boundary := by
        have nowLe : now ≤ boundary := by
          rcases List.mem_cons.mp again with rfl | inRest
          · exact le_refl _
          · exact (List.pairwise_cons.mp (List.pairwise_cons.mp sorted).2).1 boundary inRest
        exact le_antisymm nowLe (isLast ▸ lastLe now List.mem_cons_self)
      have isDue : due trigger (some last) now = true := by
        rw [isLast, isNow, due_iff]
        exact (nextFireTime_le_of_same trigger boundary).mpr isBoundary
      have fired := quiet (now, 1)
        (by unfold dueHistory; rw [if_pos isDue]; exact List.mem_cons_self)
        (fun next _ after => isNow ▸ after)
      exact absurd fired Nat.one_ne_zero
  · intro once entry member before
    by_contra fired
    obtain ⟨inMoments, stamp, after, le, isDue⟩ :=
      due_of_mem_dueHistory trigger last moments sorted entry member fired
    rw [due_iff] at isDue
    rcases le.lt_or_eq with earlier | same
    · obtain ⟨other, isOther, afterStamp, upTo⟩ :=
        (nextFireTime_le_of_previous trigger stamp entry.1 earlier).mp isDue
      exact absurd (before other isOther (by omega)) (not_lt.mpr upTo)
    · rw [same] at isDue
      have isOther := (nextFireTime_le_of_same trigger entry.1).mp isDue
      have notLater : ¬ boundary < entry.1 := fun later =>
        absurd (before entry.1 isOther later) (lt_irrefl _)
      have isSame : entry.1 = boundary := by omega
      exact once (isSame ▸ inMoments)

theorem due_none_iff (now : Int) : due trigger none now = true ↔ trigger.Boundary now := by
  rw [due_iff]
  exact nextFireTime_le_of_none trigger now

/-- A job that has fired is due once a boundary has passed since. -/
theorem due_of_passed (boundary last now : Int) (isBoundary : trigger.Boundary boundary)
    (after : last < boundary) (upTo : boundary ≤ now) : due trigger (some last) now = true := by
  rw [due_iff]
  exact (nextFireTime_le_of_previous trigger last now (by omega)).mpr
    ⟨boundary, isBoundary, after, upTo⟩

/-- `HitOnce` of a job that may have fired before the ticks. -/
def HitOnceAfter (fired : Prop) (boundary : Int) (moments : List Int) : Prop :=
  match moments.dropWhile fun moment => moment < boundary with
  | [] => False
  | first :: after =>
    (fired ∨ ∃ moment ∈ moments.takeWhile (fun moment => moment < boundary) ++ [first],
      trigger.Boundary moment) ∧ boundary ∉ after

theorem hitOnceAfter_false (boundary : Int) (moments : List Int) :
    HitOnceAfter trigger False boundary moments ↔ HitOnce trigger boundary moments := by
  unfold HitOnceAfter HitOnce
  cases moments.dropWhile fun moment => moment < boundary with
  | nil => exact Iff.rfl
  | cons first after => simp only [false_or]

theorem hitOnceAfter_cons_of_lt (fired : Prop) (boundary now : Int) (rest : List Int)
    (before : now < boundary) :
    HitOnceAfter trigger fired boundary (now :: rest) ↔
      HitOnceAfter trigger (fired ∨ trigger.Boundary now) boundary rest := by
  unfold HitOnceAfter
  simp only [List.dropWhile_cons, List.takeWhile_cons, decide_eq_true before, if_true]
  cases rest.dropWhile fun moment => moment < boundary with
  | nil => exact Iff.rfl
  | cons first after => simp only [List.cons_append, List.exists_mem_cons_iff, or_assoc]

theorem hitOnceAfter_cons_of_le (fired : Prop) (boundary now : Int) (rest : List Int)
    (atLeast : boundary ≤ now) :
    HitOnceAfter trigger fired boundary (now :: rest) ↔
      (fired ∨ trigger.Boundary now) ∧ boundary ∉ rest := by
  unfold HitOnceAfter
  simp only [List.dropWhile_cons, List.takeWhile_cons, decide_eq_false (not_lt.mpr atLeast),
    Bool.false_eq_true, if_false, List.nil_append, List.mem_singleton, exists_eq_left]

theorem firedOnce_cons_of_lt (boundary : Int) (entry : Int × Nat) (rest : List (Int × Nat))
    (before : entry.1 < boundary) :
    FiredOnce trigger boundary (entry :: rest) ↔ FiredOnce trigger boundary rest := by
  unfold FiredOnce
  simp only [List.dropWhile_cons, decide_eq_true before, if_true]

theorem firedOnce_cons_of_le (boundary : Int) (entry : Int × Nat) (rest : List (Int × Nat))
    (atLeast : boundary ≤ entry.1) :
    FiredOnce trigger boundary (entry :: rest) ↔
      entry.2 = 1 ∧ ∀ later ∈ rest, BeforeNext trigger boundary later.1 → later.2 = 0 := by
  unfold FiredOnce
  simp only [List.dropWhile_cons, decide_eq_false (not_lt.mpr atLeast), Bool.false_eq_true,
    if_false]

/-- The history from a stamp before the boundary. Where the job was never fired, a tick on a
boundary has to come first. -/
theorem firedOnce_dueHistory_iff (boundary : Int) (isBoundary : trigger.Boundary boundary)
    (moments : List Int) (sorted : moments.Pairwise (· ≤ ·)) (lastFiredAt : Option Int)
    (earlier : ∀ last, lastFiredAt = some last → last < boundary) :
    FiredOnce trigger boundary (dueHistory trigger lastFiredAt moments) ↔
      HitOnceAfter trigger (lastFiredAt.isSome = true) boundary moments := by
  induction moments generalizing lastFiredAt with
  | nil => exact Iff.rfl
  | cons now rest inductionHypothesis =>
    have restSorted := (List.pairwise_cons.mp sorted).2
    have dueNow : due trigger lastFiredAt now = true → lastFiredAt.isSome = true ∨
        trigger.Boundary now := by
      intro isDue
      cases lastFiredAt with
      | none => exact Or.inr ((due_none_iff trigger now).mp isDue)
      | some last => exact Or.inl rfl
    unfold dueHistory
    rcases lt_or_ge now boundary with before | atLeast
    · rw [hitOnceAfter_cons_of_lt trigger _ boundary now rest before]
      split
      · next isDue =>
        rw [firedOnce_cons_of_lt trigger boundary _ _ before,
          inductionHypothesis restSorted (some now) (fun last same => by cases same; exact before)]
        simp only [Option.isSome_some, dueNow isDue]
      · next notDue =>
        rw [firedOnce_cons_of_lt trigger boundary _ _ before,
          inductionHypothesis restSorted lastFiredAt earlier]
        cases lastFiredAt with
        | none =>
          rw [due_none_iff] at notDue
          simp only [notDue, or_false]
        | some last => simp only [Option.isSome_some, true_or]
    · rw [hitOnceAfter_cons_of_le trigger _ boundary now rest atLeast]
      split
      · next isDue =>
        rw [firedOnce_cons_of_le trigger boundary _ _ atLeast,
          quiet_iff trigger boundary isBoundary now atLeast rest sorted]
        exact and_congr_left fun _ => iff_of_true rfl (dueNow isDue)
      · next notDue =>
        rw [firedOnce_cons_of_le trigger boundary _ _ atLeast]
        refine iff_of_false (fun fired => absurd fired.1 Nat.zero_ne_one) ?_
        rintro ⟨hit, _⟩
        cases lastFiredAt with
        | none =>
          rw [due_none_iff] at notDue
          exact notDue (hit.resolve_left Bool.false_ne_true)
        | some last =>
          exact notDue
            (due_of_passed trigger boundary last now isBoundary (earlier last rfl) atLeast)

/-- The first tick at or after a boundary comes before the next boundary, where the ticks are
at most a minute apart and one came before: every boundary has a tick of its own. -/
theorem first_before_next (boundary next : Int) (isBoundary : trigger.Boundary boundary)
    (isNext : trigger.Boundary next) (order : boundary < next) (start : Int) (moments : List Int)
    (before : start < boundary)
    (close : (start :: moments).IsChain fun earlier later => later ≤ earlier + minute)
    (first : Int) (after : List Int)
    (split : moments.dropWhile (fun moment => moment < boundary) = first :: after) :
    first < next := by
  have apart := boundaries_apart trigger boundary next isBoundary isNext order
  induction moments generalizing start with
  | nil => cases split
  | cons now rest inductionHypothesis =>
    rw [List.isChain_cons_cons] at close
    rw [List.dropWhile_cons] at split
    by_cases early : now < boundary
    · rw [if_pos (decide_eq_true early)] at split
      exact inductionHypothesis now early close.2 split
    · rw [if_neg (by simpa using early)] at split
      cases split
      have step := close.1
      omega

end Boundary

/-! ### One tick over the table -/

section Table

variable (fromCrontab : String → Option CronTrigger) (activeUserIds : List UUID) (moment : Int)

/-- The row after its fan-out. -/
def CronJob.stamped (row : CronJob) (moment : Int) : CronJob :=
  { row with lastFiredAt := some moment, strikes := 0 }

/-- What the loop of a tick does to the rows and the fan-outs it starts from. -/
theorem foldl_tick (pending rows : List CronJob) (fanOuts : List FanOut) :
    pending.foldl
        (fun state row =>
          match messagesOf fromCrontab activeUserIds moment row with
          | none => state
          | some messages =>
            (markFiredAdmin state.1 row.id moment, state.2 ++ [⟨row.id, messages⟩]))
        (rows, fanOuts) =
      (rows.map fun row =>
          if pending.any fun other => other.id = row.id &&
            (messagesOf fromCrontab activeUserIds moment other).isSome then row.stamped moment
          else row,
        fanOuts ++ pending.filterMap fun row =>
          (messagesOf fromCrontab activeUserIds moment row).map (FanOut.mk row.id)) := by
  induction pending generalizing rows fanOuts with
  | nil => simp
  | cons head rest inductionHypothesis =>
    rw [List.foldl_cons]
    cases sent : messagesOf fromCrontab activeUserIds moment head with
    | none =>
      simp only [inductionHypothesis, List.any_cons, sent, Option.isSome_none, Bool.and_false,
        Bool.false_or]
      rw [List.filterMap_cons_none (by rw [sent]; rfl)]
    | some messages =>
      simp only [inductionHypothesis]
      rw [List.filterMap_cons_some (by rw [sent]; rfl), List.append_assoc, List.singleton_append]
      refine congrArg₂ Prod.mk ?_ rfl
      unfold markFiredAdmin
      rw [List.map_map]
      refine List.map_congr_left fun row _ => ?_
      simp only [Function.comp_apply, List.any_cons, sent, Option.isSome_some, Bool.and_true]
      by_cases own : row.id = head.id
      · simp only [own, if_true, decide_true, Bool.true_or]
        split <;> simp only [CronJob.stamped, own]
      · simp only [own, Ne.symm own, if_false, decide_false, Bool.false_or]

theorem tick_eq (rows : List CronJob) :
    tick fromCrontab activeUserIds moment rows =
      (rows.map fun row =>
          if (listEnabledAdmin rows).any fun other => other.id = row.id &&
            (messagesOf fromCrontab activeUserIds moment other).isSome then row.stamped moment
          else row,
        (listEnabledAdmin rows).filterMap fun row =>
          (messagesOf fromCrontab activeUserIds moment row).map (FanOut.mk row.id)) := by
  unfold tick
  rw [foldl_tick, List.nil_append]

theorem ids_tick (rows : List CronJob) :
    (tick fromCrontab activeUserIds moment rows).1.map CronJob.id = rows.map CronJob.id := by
  rw [tick_eq, List.map_map]
  refine List.map_congr_left fun row _ => ?_
  show (if _ then row.stamped moment else row).id = row.id
  split <;> rfl

/-- The scan has the row of an id when that is enabled. -/
theorem filter_listEnabledAdmin (rows : List CronJob) (distinct : (rows.map CronJob.id).Nodup)
    (job : CronJob) (member : job ∈ rows) (enabled : job.enabled = true) :
    (listEnabledAdmin rows).filter (fun row => row.id = job.id) = [job] := by
  have only : rows.filter (fun row => row.id = job.id) = [job] := by
    refine Layers.filter_eq_toList CronJob.id rows distinct job.id (some job) fun row => ?_
    constructor
    · rintro ⟨inRows, own⟩
      exact congrArg some (List.inj_on_of_nodup_map distinct member inRows own.symm)
    · intro same
      cases same
      exact ⟨member, rfl⟩
  unfold listEnabledAdmin
  rw [filter_sortedBy, List.filter_comm, only]
  simp [enabled, sortedBy]

/-- What a tick does for an enabled job: one fan-out and a new stamp if it sends messages, and
neither otherwise. -/
theorem tick_job (rows : List CronJob) (distinct : (rows.map CronJob.id).Nodup) (job : CronJob)
    (member : job ∈ rows) (enabled : job.enabled = true) :
    ((tick fromCrontab activeUserIds moment rows).2.filter fun fanOut => fanOut.jobId = job.id) =
        ((messagesOf fromCrontab activeUserIds moment job).map (FanOut.mk job.id)).toList ∧
      (if (messagesOf fromCrontab activeUserIds moment job).isSome then job.stamped moment
        else job) ∈ (tick fromCrontab activeUserIds moment rows).1 := by
  have only := filter_listEnabledAdmin rows distinct job member enabled
  rw [tick_eq]
  constructor
  · have ownOnly : ∀ row : CronJob,
        ((messagesOf fromCrontab activeUserIds moment row).map (FanOut.mk row.id)).filter
            (fun fanOut => fanOut.jobId = job.id) =
          if decide (row.id = job.id) = true then
            (messagesOf fromCrontab activeUserIds moment row).map (FanOut.mk row.id)
          else none := by
      intro row
      cases messagesOf fromCrontab activeUserIds moment row with
      | none => simp
      | some messages => simp [Option.filter_some]
    rw [List.filter_filterMap, funext ownOnly, ← List.filterMap_filter, only,
      List.filterMap_cons]
    cases messagesOf fromCrontab activeUserIds moment job <;> rfl
  · refine List.mem_map.mpr ⟨job, member, ?_⟩
    have any := congrArg
      (List.any · fun other => (messagesOf fromCrontab activeUserIds moment other).isSome) only
    simp only [List.any_filter, List.any_cons, List.any_nil, Bool.or_false] at any
    rw [any]

end Table

/-! ### Runs -/

section Service

variable (fromCrontab : String → Option CronTrigger)

/-- The times of the ticks of a run. -/
def tickMoments (events : List CronEvent) : List Int :=
  events.filterMap fun event =>
    match event with
    | .tick moment _ => some moment
    | .create _ => none

/-- An enabled job of the table with a valid expression, last fired at the given time. -/
structure Scheduled (job : CronJob) (trigger : CronTrigger) (lastFiredAt : Option Int)
    (service : CronService) : Prop where
  distinct : (service.rows.map CronJob.id).Nodup
  member : ∃ strikes, { job with lastFiredAt := lastFiredAt, strikes := strikes } ∈ service.rows
  enabled : job.enabled = true
  parses : parseSchedule fromCrontab job.cronExpr = some trigger
  addressed : job.scope = .user → job.userId.isSome = true

/-- A valid job sends messages exactly when its trigger is due. -/
theorem isSome_messagesOf (activeUserIds : List UUID) (moment : Int) (job : CronJob)
    (trigger : CronTrigger) (parses : parseSchedule fromCrontab job.cronExpr = some trigger)
    (addressed : job.scope = .user → job.userId.isSome = true) :
    (messagesOf fromCrontab activeUserIds moment job).isSome =
      due trigger job.lastFiredAt moment := by
  have test : isDue fromCrontab job.cronExpr job.lastFiredAt moment =
      (trigger.getNextFireTime job.lastFiredAt moment).map fun next => decide (next ≤ moment) := by
    simp only [isDue, parses, bind, Option.bind]
    cases trigger.getNextFireTime job.lastFiredAt moment <;> rfl
  unfold messagesOf due
  rw [test]
  cases trigger.getNextFireTime job.lastFiredAt moment with
  | none => rfl
  | some next =>
    simp only [Option.map_some, Option.any_some]
    cases isLate : decide (next ≤ moment) with
    | false => rfl
    | true =>
      cases scope : job.scope with
      | official => rfl
      | user => simpa using addressed scope

/-- The step lemma for a tick: it adds the job's entry to its history and stamps the job if it
was due. -/
theorem scheduled_tick {job : CronJob} {trigger : CronTrigger} {lastFiredAt : Option Int}
    {service : CronService} (scheduled : Scheduled fromCrontab job trigger lastFiredAt service)
    (moment : Int) (activeUserIds : List UUID) :
    let result := tick fromCrontab activeUserIds moment service.rows
    Scheduled fromCrontab job trigger
        (if due trigger lastFiredAt moment then some moment else lastFiredAt)
        ⟨result.1, service.log ++ [⟨moment, result.2⟩]⟩ ∧
      (result.2.filter fun fanOut => fanOut.jobId = job.id).length =
        if due trigger lastFiredAt moment then 1 else 0 := by
  obtain ⟨strikes, member⟩ := scheduled.member
  obtain ⟨sent, stays⟩ := tick_job fromCrontab activeUserIds moment service.rows
    scheduled.distinct _ member scheduled.enabled
  have some := isSome_messagesOf fromCrontab activeUserIds moment
    { job with lastFiredAt := lastFiredAt, strikes := strikes } trigger scheduled.parses
    scheduled.addressed
  simp only at sent stays some
  refine ⟨⟨?_, ?_, scheduled.enabled, scheduled.parses, scheduled.addressed⟩, ?_⟩
  · show ((tick fromCrontab activeUserIds moment service.rows).1.map CronJob.id).Nodup
    rw [ids_tick]
    exact scheduled.distinct
  · rw [some] at stays
    cases isDue : due trigger lastFiredAt moment with
    | true =>
      rw [isDue] at stays
      exact ⟨0, stays⟩
    | false =>
      rw [isDue] at stays
      exact ⟨strikes, stays⟩
  · rw [sent, ← some]
    cases messagesOf fromCrontab activeUserIds moment
      { job with lastFiredAt := lastFiredAt, strikes := strikes } <;> rfl

theorem scheduled_create {job : CronJob} {trigger : CronTrigger} {lastFiredAt : Option Int}
    {service next : CronService}
    (scheduled : Scheduled fromCrontab job trigger lastFiredAt service) (row : CronJob)
    (taken : cronStep fromCrontab service (.create row) = some next) :
    Scheduled fromCrontab job trigger lastFiredAt next ∧ next.log = service.log := by
  simp only [cronStep] at taken
  split at taken
  · cases taken
  · next fresh =>
    cases taken
    obtain ⟨strikes, member⟩ := scheduled.member
    refine ⟨⟨?_, ⟨strikes, List.mem_append_left _ member⟩, scheduled.enabled, scheduled.parses,
      scheduled.addressed⟩, rfl⟩
    rw [List.map_append, List.nodup_append]
    refine ⟨scheduled.distinct, List.nodup_singleton _, ?_⟩
    intro id inRows other isOther same
    rw [List.map_singleton, List.mem_singleton] at isOther
    exact fresh (isOther ▸ same ▸ inRows)

/-- The run lemma: a run adds the job's history of due ticks to its log. -/
theorem fanOutHistory_run {job : CronJob} {trigger : CronTrigger} (events : List CronEvent)
    {lastFiredAt : Option Int} {service reached : CronService}
    (scheduled : Scheduled fromCrontab job trigger lastFiredAt service)
    (run : exec (cronStep fromCrontab) service events = some reached) :
    fanOutHistory job.id reached.log =
      fanOutHistory job.id service.log ++ dueHistory trigger lastFiredAt (tickMoments events) := by
  induction events generalizing service lastFiredAt with
  | nil =>
    cases run
    exact (List.append_nil _).symm
  | cons event rest inductionHypothesis =>
    rw [exec_cons, Option.bind_eq_some_iff] at run
    obtain ⟨next, taken, run⟩ := run
    cases event with
    | create row =>
      obtain ⟨stays, sameLog⟩ := scheduled_create fromCrontab scheduled row taken
      rw [inductionHypothesis stays run, sameLog]
      rfl
    | tick moment activeUserIds =>
      cases taken
      obtain ⟨stays, sent⟩ := scheduled_tick fromCrontab scheduled moment activeUserIds
      rw [inductionHypothesis stays run]
      unfold fanOutHistory
      rw [List.map_append, List.append_assoc, List.map_singleton, List.singleton_append, sent]
      show _ ++ _ :: _ = _ ++ dueHistory trigger lastFiredAt (moment :: tickMoments rest)
      rw [dueHistory]
      cases isDue : due trigger lastFiredAt moment <;> rfl

/-- Each boundary of a new job leads to exactly one fan-out, by the first tick at or after it,
exactly when some tick up to that one falls on a boundary to the microsecond and no further
tick falls on this boundary. The log begins when the job is created; other jobs come and fire
in between. -/
theorem firedOnce_iff_hitOnce (job : CronJob) (trigger : CronTrigger) (service : CronService)
    (scheduled : Scheduled fromCrontab job trigger none service) (empty : service.log = [])
    (events : List CronEvent) (reached : CronService)
    (run : exec (cronStep fromCrontab) service events = some reached)
    (sorted : (tickMoments events).Pairwise (· ≤ ·)) (boundary : Int)
    (isBoundary : trigger.Boundary boundary) :
    FiredOnce trigger boundary (fanOutHistory job.id reached.log) ↔
      HitOnce trigger boundary (tickMoments events) := by
  rw [fanOutHistory_run fromCrontab events scheduled run, empty]
  show FiredOnce trigger boundary (dueHistory trigger none (tickMoments events)) ↔ _
  rw [firedOnce_dueHistory_iff trigger boundary isBoundary _ sorted none nofun,
    ← hitOnceAfter_false]
  simp only [Option.isSome_none, Bool.false_eq_true]

end Service

/-! ### A job that fires every minute -/

/-- A parser that knows one expression. -/
def minutelyCrontab (expression : String) : Option CronTrigger :=
  if expression = "* * * * *" then some everyMinute else none

def minutelyJob : CronJob where
  id := 1
  scope := .user
  userId := some 7
  slug := "standup"
  cronExpr := "* * * * *"
  prompt := "Summarise."
  webhookUrl := none
  enabled := true
  lastFiredAt := none
  strikes := 0

theorem parseSchedule_minutely : parseSchedule minutelyCrontab "* * * * *" = some everyMinute := by
  have stripped : strip "* * * * *" = "* * * * *" := by decide
  have plain : ¬ ("* * * * *" : String).toList.head? = some '@' := by decide
  simp only [parseSchedule, stripped, plain, if_false, minutelyCrontab, if_true]

theorem scheduled_minutelyJob :
    Scheduled minutelyCrontab minutelyJob everyMinute none ⟨[minutelyJob], []⟩ where
  distinct := List.nodup_singleton _
  member := ⟨0, List.mem_singleton_self _⟩
  enabled := rfl
  parses := parseSchedule_minutely
  addressed _ := rfl

/-- One tick on the minute, and from then on every minute is fired once. -/
theorem minutelyJob_fires_after_hit :
    ∃ reached, exec (cronStep minutelyCrontab) ⟨[minutelyJob], []⟩
        [.tick 60000000 [], .tick 120500000 []] = some reached ∧
      FiredOnce everyMinute 120000000 (fanOutHistory 1 reached.log) := by
  refine ⟨_, rfl, (firedOnce_iff_hitOnce minutelyCrontab minutelyJob everyMinute _
    scheduled_minutelyJob rfl [.tick 60000000 [], .tick 120500000 []] _ rfl ?_ 120000000 ?_).mpr ?_⟩
  · decide
  · exact ⟨2, by decide⟩
  · exact ⟨⟨60000000, List.mem_cons_self, ⟨1, by decide⟩⟩, List.not_mem_nil⟩

/-- Ticks a minute apart that start half a second past the minute: the job is never fired. -/
theorem minutelyJob_missed_off_the_minute :
    ∃ reached, exec (cronStep minutelyCrontab) ⟨[minutelyJob], []⟩
        [.tick 500000 [], .tick 60500000 [], .tick 120500000 []] = some reached ∧
      ¬ FiredOnce everyMinute 60000000 (fanOutHistory 1 reached.log) := by
  refine ⟨_, rfl, ?_⟩
  have history := fanOutHistory_run minutelyCrontab
    [.tick 500000 [], .tick 60500000 [], .tick 120500000 []] scheduled_minutelyJob rfl
  have quiet : dueHistory everyMinute none [500000, 60500000, 120500000] =
      [(500000, 0), (60500000, 0), (120500000, 0)] := by decide
  rw [show (1 : UUID) = minutelyJob.id from rfl, history]
  show ¬ FiredOnce everyMinute 60000000 (dueHistory everyMinute none [500000, 60500000, 120500000])
  rw [quiet]
  exact fun fired => absurd fired.1 Nat.zero_ne_one

end LiteHorse.Scheduler
