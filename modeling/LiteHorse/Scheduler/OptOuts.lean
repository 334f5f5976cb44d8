/-
This file models the tables a cron tick works on together with the opt-outs of the users, and
says to whom the messages of a tick go.

A mandatory official job reaches every active user once, and a user job its owner only. An
official job that is not mandatory reaches every active user as well: the tick reads neither
`mandatory` nor the opt-outs, which the opt-out route takes for cron jobs too. The main result
says when no message goes to a user who has opted out: when no active user has opted out of an
official job that the tick fans out.
-/

import LiteHorse.Repositories.CronRepo

namespace LiteHorse.Scheduler

open Cron Python Repositories.CronRepo Sorting

/-! ### The tables -/

/-- A row of `users`. -/
structure User where
  id : UUID
  role : String
  createdAt : Int

/-- `list_active_user_ids` -/
def listActiveUserIds (users : List User) : List UUID :=
  (sortedBy User.createdAt (users.filter fun user => user.role = "user")).map User.id

/-- A row of `user_official_opt_outs`. -/
structure OptOut where
  userId : UUID
  entity : String
  slug : String
  deriving DecidableEq

/-- The tables with their primary keys. -/
structure Tables where
  jobs : List StoredCron
  jobIds : (jobs.map StoredCron.id).Nodup
  users : List User
  userIds : (users.map User.id).Nodup
  optOuts : List OptOut

namespace Tables

variable (tables : Tables)

def activeUserIds : List UUID := listActiveUserIds tables.users

/-- What the tick reads of the jobs. -/
def cronJobs : List CronJob := tables.jobs.map fun row => row.val.job

/-- The user has opted out of a cron job. -/
def OptedOut (userId : UUID) (slug : String) : Prop :=
  ⟨userId, "cron_job", slug⟩ ∈ tables.optOuts

end Tables

/-! ### The messages of a tick -/

section Messages

variable (fromCrontab : String → Option CronTrigger) (tables : Tables) (moment : Int)

/-- The messages that a tick enqueues. -/
def enqueued : List CronMessage :=
  (tick fromCrontab tables.activeUserIds moment tables.cronJobs).2.flatMap FanOut.messages

/-- The messages of one job. -/
def enqueuedFor (row : StoredCron) : List CronMessage :=
  (enqueued fromCrontab tables moment).filter fun message => message.cronJobId = row.id

/-- The tick takes the row for one to fan out. -/
def FansOut (row : StoredCron) : Prop :=
  row.val.job.enabled = true ∧
    isDue fromCrontab row.val.job.cronExpr row.val.job.lastFiredAt moment = some true

structure OptOutsRespected : Prop where
  optional : ∀ row ∈ tables.jobs, row.val.job.scope = .official → row.val.mandatory = false →
    ∀ message ∈ enqueuedFor fromCrontab tables moment row,
      ¬ tables.OptedOut message.userId row.val.job.slug
  mandatory : ∀ row ∈ tables.jobs, row.val.job.scope = .official → row.val.mandatory = true →
    FansOut fromCrontab moment row → ∀ userId ∈ tables.activeUserIds,
      ((enqueuedFor fromCrontab tables moment row).filter
        fun message => message.userId = userId).length = 1
  owned : ∀ row ∈ tables.jobs, row.val.job.scope = .user →
    ∀ message ∈ enqueuedFor fromCrontab tables moment row,
      row.val.job.userId = some message.userId

variable {fromCrontab tables moment}

theorem nodup_activeUserIds : tables.activeUserIds.Nodup := by
  have isPerm := (sortedBy_perm User.createdAt
    (tables.users.filter fun user => user.role = "user")).map User.id
  exact isPerm.nodup_iff.mpr (tables.userIds.sublist (List.filter_sublist.map User.id))

theorem nodup_cronJobs : (tables.cronJobs.map CronJob.id).Nodup := by
  rw [Tables.cronJobs, List.map_map]
  exact tables.jobIds

theorem mem_cronJobs {row : StoredCron} (member : row ∈ tables.jobs) :
    row.val.job ∈ tables.cronJobs := List.mem_map_of_mem member

/-- All messages of a fan-out carry the id of its job. -/
theorem cronJobId_of_messagesOf {activeUserIds : List UUID} {job : CronJob}
    {messages : List CronMessage}
    (isMessages : messagesOf fromCrontab activeUserIds moment job = some messages) :
    ∀ message ∈ messages, message.cronJobId = job.id := by
  unfold messagesOf at isMessages
  split at isMessages
  · split at isMessages
    · obtain ⟨userId, _, rfl⟩ := Option.map_eq_some_iff.mp isMessages
      intro message member
      rw [List.mem_singleton.mp member]
      rfl
    · cases isMessages
      intro message member
      obtain ⟨userId, _, rfl⟩ := List.mem_map.mp member
      rfl
  · cases isMessages

theorem cronJobId_of_fanOut {fanOut : FanOut}
    (member : fanOut ∈ (tick fromCrontab tables.activeUserIds moment tables.cronJobs).2) :
    ∀ message ∈ fanOut.messages, message.cronJobId = fanOut.jobId := by
  rw [tick_eq] at member
  obtain ⟨job, _, isFanOut⟩ := List.mem_filterMap.mp member
  obtain ⟨messages, isMessages, rfl⟩ := Option.map_eq_some_iff.mp isFanOut
  exact cronJobId_of_messagesOf isMessages

theorem filter_flatMap_messages {fanOuts : List FanOut}
    (own : ∀ fanOut ∈ fanOuts, ∀ message ∈ fanOut.messages, message.cronJobId = fanOut.jobId)
    (id : UUID) :
    (fanOuts.flatMap FanOut.messages).filter (fun message => message.cronJobId = id) =
      (fanOuts.filter fun fanOut => fanOut.jobId = id).flatMap FanOut.messages := by
  induction fanOuts with
  | nil => rfl
  | cons fanOut fanOuts inductionHypothesis =>
    obtain ⟨ofFirst, ofRest⟩ := List.forall_mem_cons.mp own
    rw [List.flatMap_cons, List.filter_append, inductionHypothesis ofRest]
    by_cases same : fanOut.jobId = id
    · have all : fanOut.messages.filter (fun message => message.cronJobId = id) =
          fanOut.messages := by
        refine List.filter_eq_self.mpr fun message member => ?_
        exact decide_eq_true ((ofFirst message member).trans same)
      rw [all, List.filter_cons_of_pos (by simpa using same), List.flatMap_cons]
    · have nothing : fanOut.messages.filter (fun message => message.cronJobId = id) = [] := by
        refine List.filter_eq_nil_iff.mpr fun message member => ?_
        rw [ofFirst message member]
        simpa using same
      rw [nothing, List.filter_cons_of_neg (by simpa using same), List.nil_append]

/-- The messages of a job that is enabled. -/
theorem enqueuedFor_of_enabled {row : StoredCron} (member : row ∈ tables.jobs)
    (enabled : row.val.job.enabled = true) :
    enqueuedFor fromCrontab tables moment row =
      (messagesOf fromCrontab tables.activeUserIds moment row.val.job).getD [] := by
  have fanOuts := (tick_job fromCrontab tables.activeUserIds moment tables.cronJobs
    nodup_cronJobs row.val.job (mem_cronJobs member) enabled).1
  rw [enqueuedFor, enqueued,
    filter_flatMap_messages (fun fanOut isFanOut => cronJobId_of_fanOut isFanOut)]
  show List.flatMap FanOut.messages (List.filter (fun fanOut => fanOut.jobId = row.val.job.id) _) =
    _
  rw [fanOuts]
  cases messagesOf fromCrontab tables.activeUserIds moment row.val.job with
  | none => rfl
  | some messages => exact List.append_nil messages

/-- A job that is not enabled has no messages. -/
theorem enqueuedFor_of_disabled {row : StoredCron} (member : row ∈ tables.jobs)
    (disabled : row.val.job.enabled = false) : enqueuedFor fromCrontab tables moment row = [] := by
  refine List.filter_eq_nil_iff.mpr fun message isMessage same => ?_
  obtain ⟨fanOut, isFanOut, inFanOut⟩ := List.mem_flatMap.mp isMessage
  have sameId := cronJobId_of_fanOut isFanOut message inFanOut
  rw [tick_eq] at isFanOut
  obtain ⟨job, isListed, isFanOut⟩ := List.mem_filterMap.mp isFanOut
  obtain ⟨messages, _, rfl⟩ := Option.map_eq_some_iff.mp isFanOut
  obtain ⟨isJob, enabled⟩ := List.mem_filter.mp ((mem_sortedBy _ _ job).mp isListed)
  have sameJob : job = row.val.job := List.inj_on_of_nodup_map nodup_cronJobs isJob
    (mem_cronJobs member) (sameId.symm.trans (of_decide_eq_true same))
  rw [sameJob, disabled] at enabled
  exact Bool.false_ne_true enabled

theorem isDue_of_messagesOf {activeUserIds : List UUID} {job : CronJob}
    {messages : List CronMessage}
    (isMessages : messagesOf fromCrontab activeUserIds moment job = some messages) :
    isDue fromCrontab job.cronExpr job.lastFiredAt moment = some true := by
  unfold messagesOf at isMessages
  split at isMessages
  · next due => exact due
  · cases isMessages

theorem fansOut_of_mem {row : StoredCron} (member : row ∈ tables.jobs) {message : CronMessage}
    (isMessage : message ∈ enqueuedFor fromCrontab tables moment row) :
    FansOut fromCrontab moment row := by
  cases enabled : row.val.job.enabled with
  | false =>
    rw [enqueuedFor_of_disabled member enabled] at isMessage
    exact absurd isMessage List.not_mem_nil
  | true =>
    refine ⟨enabled, ?_⟩
    rw [enqueuedFor_of_enabled member enabled] at isMessage
    cases found : messagesOf fromCrontab tables.activeUserIds moment row.val.job with
    | none =>
      rw [found] at isMessage
      exact absurd isMessage List.not_mem_nil
    | some messages => exact isDue_of_messagesOf found

/-- An official job that is fanned out has one message for each active user. -/
theorem enqueuedFor_official {row : StoredCron} (member : row ∈ tables.jobs)
    (official : row.val.job.scope = .official) (fansOut : FansOut fromCrontab moment row) :
    enqueuedFor fromCrontab tables moment row =
      expandOfficialToUserMessages row.val.job tables.activeUserIds moment := by
  rw [enqueuedFor_of_enabled member fansOut.1, messagesOf, fansOut.2, official]
  rfl

theorem userId_of_mem_official {row : StoredCron} (member : row ∈ tables.jobs)
    (official : row.val.job.scope = .official) {message : CronMessage}
    (isMessage : message ∈ enqueuedFor fromCrontab tables moment row) :
    message.userId ∈ tables.activeUserIds := by
  rw [enqueuedFor_official member official (fansOut_of_mem member isMessage)] at isMessage
  obtain ⟨userId, isActive, rfl⟩ := List.mem_map.mp isMessage
  exact isActive

/-- The users of a fan-out are the active ones, each once. -/
theorem length_messages_official {row : StoredCron} (member : row ∈ tables.jobs)
    (official : row.val.job.scope = .official) (fansOut : FansOut fromCrontab moment row)
    {userId : UUID} (isActive : userId ∈ tables.activeUserIds) :
    ((enqueuedFor fromCrontab tables moment row).filter
      fun message => message.userId = userId).length = 1 := by
  have once := List.count_eq_one_of_mem nodup_activeUserIds isActive
  rw [enqueuedFor_official member official fansOut, expandOfficialToUserMessages,
    List.filter_map, List.length_map, ← List.countP_eq_length_filter]
  rw [List.count_eq_countP] at once
  refine Eq.trans (List.countP_congr fun other _ => ?_) once
  rw [Function.comp_apply, decide_eq_true_iff, beq_iff_eq]

theorem userId_of_mem_user {row : StoredCron} (member : row ∈ tables.jobs)
    (user : row.val.job.scope = .user) {message : CronMessage}
    (isMessage : message ∈ enqueuedFor fromCrontab tables moment row) :
    row.val.job.userId = some message.userId := by
  have fansOut := fansOut_of_mem member isMessage
  rw [enqueuedFor_of_enabled member fansOut.1, messagesOf, fansOut.2, user] at isMessage
  cases owner : row.val.job.userId with
  | none =>
    rw [owner] at isMessage
    exact absurd isMessage List.not_mem_nil
  | some userId =>
    rw [owner] at isMessage
    rw [List.mem_singleton.mp isMessage]
    rfl

end Messages

/-- No active user has opted out of an official job that is not mandatory and that the tick
fans out. -/
def NobodyOptedOut (fromCrontab : String → Option CronTrigger) (tables : Tables) (moment : Int) :
    Prop :=
  ∀ row ∈ tables.jobs, row.val.job.scope = .official → row.val.mandatory = false →
    FansOut fromCrontab moment row →
    ∀ userId ∈ tables.activeUserIds, ¬ tables.OptedOut userId row.val.job.slug

theorem nobodyOptedOut_of_respected {fromCrontab : String → Option CronTrigger}
    {tables : Tables} {moment : Int} (respected : OptOutsRespected fromCrontab tables moment) :
    NobodyOptedOut fromCrontab tables moment := by
  intro row member official optional fansOut userId isActive
  have one := length_messages_official member official fansOut isActive
  obtain ⟨message, isMessage⟩ := List.exists_mem_of_length_pos (one.symm ▸ Nat.one_pos)
  obtain ⟨isMessage, sameUser⟩ := List.mem_filter.mp isMessage
  rw [← of_decide_eq_true sameUser]
  exact respected.optional row member official optional message isMessage

/-- A tick respects the opt-outs exactly when there are none that concern its official jobs. -/
theorem optOutsRespected_iff (fromCrontab : String → Option CronTrigger) (tables : Tables)
    (moment : Int) :
    OptOutsRespected fromCrontab tables moment ↔ NobodyOptedOut fromCrontab tables moment := by
  refine ⟨nobodyOptedOut_of_respected, fun nobody => ?_⟩
  exact {
    optional := fun row member official optional message isMessage =>
      nobody row member official optional (fansOut_of_mem member isMessage) message.userId
        (userId_of_mem_official member official isMessage)
    mandatory := fun row member official _ fansOut userId isActive =>
      length_messages_official member official fansOut isActive
    owned := fun row member user message isMessage => userId_of_mem_user member user isMessage }

/-! ### A user who has opted out -/

/-- An official job of every minute. -/
def newsJob : StoredCron where
  val :=
    { job := { minutelyJob with scope := .official, userId := none, slug := "news" }
      agentId := none
      mandatory := false }
  property := ⟨Or.inr ⟨rfl, rfl⟩, Or.inr ⟨rfl, rfl⟩⟩

def newsTables : Tables where
  jobs := [newsJob]
  jobIds := List.nodup_singleton _
  users := [⟨7, "user", 0⟩]
  userIds := List.nodup_singleton _
  optOuts := [⟨7, "cron_job", "news"⟩]

/-- The user has opted out of the news and gets them all the same. -/
theorem news_sent_after_opt_out : ¬ OptOutsRespected minutelyCrontab newsTables 60000000 := by
  intro respected
  have isDue : isDue minutelyCrontab "* * * * *" none 60000000 = some true := by
    simp only [isDue, parseSchedule_minutely]
    rfl
  exact nobodyOptedOut_of_respected respected newsJob (List.mem_singleton_self _) rfl rfl
    ⟨rfl, isDue⟩ 7 (List.mem_singleton_self _) (List.mem_singleton_self _)

end LiteHorse.Scheduler
