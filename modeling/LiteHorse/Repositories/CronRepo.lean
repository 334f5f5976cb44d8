/-
This file models `cron_jobs`: its check constraints, the rows `CronRepo` creates and what its
statements select and change. The two scopes share their statements, which take an owner.

A user row must have an agent since the agents migration, and `create_user` gives it none, so
the insert of a user row is always refused (`createUser_not_allowed`). No index makes scope,
user and slug unique, as the partial indexes of the versioned tables do, so nothing refuses a
second official row of a slug (`createOfficial_allowed`).
-/

import LiteHorse.Library.TableWrites
import LiteHorse.Library.Versions
import LiteHorse.Scheduler.CronTick

namespace LiteHorse.Repositories.CronRepo

open Python Scheduler Versions TableWrites

/-! ### Rows -/

/-- A row. The two columns that the ticks do not read are beside the job. -/
structure CronRow where
  job : CronJob
  agentId : Option UUID
  mandatory : Bool

/-- The check constraints of `cron_jobs`. -/
def CronRow.Allowed (row : CronRow) : Prop :=
  ((row.job.scope = .user ∧ row.job.userId.isSome) ∨
    (row.job.scope = .official ∧ row.job.userId.isNone)) ∧
  ((row.job.scope = .user ∧ row.agentId.isSome) ∨
    (row.job.scope = .official ∧ row.agentId.isNone))

instance (row : CronRow) : Decidable row.Allowed := inferInstanceAs (Decidable (_ ∧ _))

abbrev StoredCron := { row : CronRow // row.Allowed }

/-- Whose rows a statement is about. -/
inductive CronOwner where
  | official
  | user (userId : UUID)
  deriving DecidableEq

namespace CronOwner

def scope : CronOwner → CronScope
  | .official => .official
  | .user _ => .user

def userId : CronOwner → Option UUID
  | .official => none
  | .user userId => some userId

end CronOwner

namespace StoredCron

def id (row : StoredCron) : UUID := row.val.job.id

/-- Scope, user and slug. -/
def key (row : StoredCron) : CronScope × Option UUID × String :=
  (row.val.job.scope, row.val.job.userId, row.val.job.slug)

/-- The condition of `get_user` and `get_official`, and of the updates and deletions. -/
def isOf (owner : CronOwner) (slug : String) (row : StoredCron) : Bool :=
  match owner with
  | .official => decide (row.val.job.scope = .official ∧ row.val.job.slug = slug)
  | .user userId =>
    decide (row.val.job.scope = .user ∧ row.val.job.userId = some userId ∧
      row.val.job.slug = slug)

end StoredCron

def CronOwner.key (owner : CronOwner) (slug : String) : CronScope × Option UUID × String :=
  (owner.scope, owner.userId, slug)

theorem userId_of_official (row : StoredCron) (official : row.val.job.scope = .official) :
    row.val.job.userId = none := by
  rcases row.property.1 with ⟨user, _⟩ | ⟨_, noUser⟩
  · rw [official] at user
    cases user
  · exact Option.isNone_iff_eq_none.mp noUser

theorem isOf_iff (owner : CronOwner) (slug : String) (row : StoredCron) :
    row.isOf owner slug = true ↔ row.key = owner.key slug := by
  cases owner with
  | official =>
    simp only [StoredCron.isOf, StoredCron.key, CronOwner.key, CronOwner.scope,
      CronOwner.userId, decide_eq_true_eq, Prod.mk.injEq]
    constructor
    · rintro ⟨official, slug⟩
      exact ⟨official, userId_of_official row official, slug⟩
    · rintro ⟨official, _, slug⟩
      exact ⟨official, slug⟩
  | user userId =>
    simp only [StoredCron.isOf, StoredCron.key, CronOwner.key, CronOwner.scope,
      CronOwner.userId, decide_eq_true_eq, Prod.mk.injEq]

/-! ### Creating -/

structure CronJobCreateIn where
  slug : String
  cronExpr : String
  prompt : String
  webhookUrl : Option String := none
  enabled : Bool := true

structure AdminCronJobCreateIn extends CronJobCreateIn where
  mandatory : Bool := false

/-- The job of a new row. -/
def newJob (owner : CronOwner) (id : UUID) (body : CronJobCreateIn) : CronJob where
  id := id
  scope := owner.scope
  userId := owner.userId
  slug := body.slug
  cronExpr := body.cronExpr
  prompt := body.prompt
  webhookUrl := body.webhookUrl
  enabled := body.enabled
  lastFiredAt := none
  strikes := 0

/-- `create_user` -/
def createUser (userId id : UUID) (body : CronJobCreateIn) : CronRow where
  job := newJob (.user userId) id body
  agentId := none
  mandatory := false

/-- `create_official` -/
def createOfficial (id : UUID) (body : AdminCronJobCreateIn) : CronRow where
  job := newJob .official id body.toCronJobCreateIn
  agentId := none
  mandatory := body.mandatory

theorem createUser_not_allowed (userId id : UUID) (body : CronJobCreateIn) :
    ¬ (createUser userId id body).Allowed := by
  rintro ⟨_, ⟨_, agent⟩ | ⟨official, _⟩⟩
  · cases agent
  · cases official

theorem createOfficial_allowed (id : UUID) (body : AdminCronJobCreateIn) :
    (createOfficial id body).Allowed :=
  ⟨Or.inr ⟨rfl, rfl⟩, Or.inr ⟨rfl, rfl⟩⟩

/-! ### Updating -/

structure CronJobUpdateIn where
  cronExpr : Option String := none
  prompt : Option String := none
  webhookUrl : Option String := none
  clearWebhookUrl : Bool := false
  enabled : Option Bool := none

structure AdminCronJobUpdateIn extends CronJobUpdateIn where
  mandatory : Option Bool := none

/-- The columns an update sets, and to what. -/
structure CronValues where
  cronExpr : Option String
  prompt : Option String
  webhookUrl : Option (Option String)
  enabled : Option Bool
  mandatory : Option Bool

/-- The `values` of `update_user`. -/
def valuesUser (body : CronJobUpdateIn) : CronValues where
  cronExpr := body.cronExpr
  prompt := body.prompt
  webhookUrl :=
    match body.webhookUrl with
    | some url => some (some url)
    | none => if body.clearWebhookUrl then some none else none
  enabled := body.enabled
  mandatory := none

/-- The `values` of `update_official`. -/
def valuesOfficial (body : AdminCronJobUpdateIn) : CronValues :=
  { valuesUser body.toCronJobUpdateIn with mandatory := body.mandatory }

namespace CronValues

def isEmpty (values : CronValues) : Bool :=
  values.cronExpr.isNone && values.prompt.isNone && values.webhookUrl.isNone &&
    values.enabled.isNone && values.mandatory.isNone

/-- The row with the columns set. Scope, user and agent stay. -/
def set (values : CronValues) (row : StoredCron) : StoredCron where
  val :=
    { row.val with
      mandatory := values.mandatory.getD row.val.mandatory
      job :=
        { row.val.job with
          cronExpr := values.cronExpr.getD row.val.job.cronExpr
          prompt := values.prompt.getD row.val.job.prompt
          webhookUrl := values.webhookUrl.getD row.val.job.webhookUrl
          enabled := values.enabled.getD row.val.job.enabled } }
  property := row.property

theorem key_set (values : CronValues) (row : StoredCron) : (values.set row).key = row.key := rfl

end CronValues

/-! ### Selecting -/

/-- The rows that a statement about an owner and a slug finds. -/
def matching (rows : List StoredCron) (owner : CronOwner) (slug : String) : List StoredCron :=
  rows.filter (StoredCron.isOf owner slug)

/-- `get_user` and `get_official` -/
def get (rows : List StoredCron) (owner : CronOwner) (slug : String) :
    Except Error (Option StoredCron) := scalarOneOrNone (matching rows owner slug)

/-- Scope, user and slug are those of one row only. -/
def Unique (rows : List StoredCron) : Prop := (rows.map StoredCron.key).Nodup

theorem length_matching {rows : List StoredCron} (unique : Unique rows) (owner : CronOwner)
    (slug : String) : (matching rows owner slug).length ≤ 1 := by
  have byKey : StoredCron.isOf owner slug = fun row => decide (row.key = owner.key slug) := by
    funext row
    rw [Bool.eq_iff_iff, isOf_iff, decide_eq_true_iff]
  rw [matching, byKey]
  exact length_filter_key unique (owner.key slug)

/-- Among unique rows `get_user` and `get_official` do not fail. -/
theorem get_ne_error {rows : List StoredCron} (unique : Unique rows) (owner : CronOwner)
    (slug : String) (error : Error) : get rows owner slug ≠ .error error := by
  have few := length_matching unique owner slug
  unfold get
  generalize matching rows owner slug = found at few
  match found with
  | [] => simp [scalarOneOrNone]
  | [row] => simp [scalarOneOrNone]
  | first :: second :: rest =>
    rw [List.length_cons, List.length_cons] at few
    omega

end LiteHorse.Repositories.CronRepo
