/-
This file models the local store of cron jobs: the list of jobs in `jobs.json` and what
`JobStore` makes of it. A change looks for the first job of an id, and leaves all others as
they are.
-/

import LiteHorse.Python
import Mathlib.Tactic.Common

namespace LiteHorse.Cron.Jobs

open Python

structure Job where
  id : String
  schedule : String
  prompt : String
  delivery : List (String × Json)
  enabled : Bool := true
  disabledReason : Option String := none

/-- The jobs in the file. -/
abbrev JobStore := List Job

namespace JobStore

def get (jobs : JobStore) (jobId : String) : Option Job := jobs.find? fun job => job.id = jobId

def add (jobs : JobStore) (job : Job) : JobStore := jobs ++ [job]

def remove (jobs : JobStore) (jobId : String) : JobStore := jobs.filter fun job => job.id ≠ jobId

/-- The loop of the two changes below. -/
def change (jobId : String) (update : Job → Job) : JobStore → JobStore
  | [] => []
  | job :: rest => if job.id = jobId then update job :: rest else job :: change jobId update rest

/-- What `set_enabled` makes of its job. An empty reason counts as none. -/
def withEnabled (enabled : Bool) (job : Job) : Job :=
  if job.enabled ≠ enabled ∨ (enabled = true ∧ job.disabledReason.getD "" ≠ "") then
    { job with
      enabled := enabled
      disabledReason := if enabled then none else job.disabledReason }
  else job

def setEnabled (jobs : JobStore) (jobId : String) (enabled : Bool) : JobStore :=
  change jobId (withEnabled enabled) jobs

def withReason (reason : String) (job : Job) : Job :=
  { job with enabled := false, disabledReason := some reason }

def disableWithReason (jobs : JobStore) (jobId reason : String) : JobStore :=
  change jobId (withReason reason) jobs

/-- There is a job of the id, and it is not enabled. -/
def isDisabled (jobs : JobStore) (jobId : String) : Bool :=
  (jobs.get jobId).any fun job => !job.enabled

theorem get_change_self {update : Job → Job} (keeps : ∀ job, (update job).id = job.id)
    (jobs : JobStore) (jobId : String) :
    (change jobId update jobs).get jobId = (jobs.get jobId).map update := by
  induction jobs with
  | nil => rfl
  | cons job rest inductionHypothesis =>
    unfold change get
    by_cases own : job.id = jobId
    · rw [if_pos own, List.find?_cons_of_pos (by simpa [keeps] using own),
        List.find?_cons_of_pos (by simpa using own)]
      rfl
    · rw [if_neg own, List.find?_cons_of_neg (by simpa using own),
        List.find?_cons_of_neg (by simpa using own)]
      exact inductionHypothesis

theorem get_change_other {update : Job → Job} (keeps : ∀ job, (update job).id = job.id)
    (jobs : JobStore) {jobId other : String} (differs : other ≠ jobId) :
    (change jobId update jobs).get other = jobs.get other := by
  induction jobs with
  | nil => rfl
  | cons job rest inductionHypothesis =>
    unfold change get
    by_cases own : job.id = jobId
    · have notOther : job.id ≠ other := fun same => differs (same.symm.trans own)
      rw [if_pos own, List.find?_cons_of_neg (by simpa [keeps] using notOther),
        List.find?_cons_of_neg (by simpa using notOther)]
    · rw [if_neg own]
      by_cases isOther : job.id = other
      · rw [List.find?_cons_of_pos (by simpa using isOther),
          List.find?_cons_of_pos (by simpa using isOther)]
      · rw [List.find?_cons_of_neg (by simpa using isOther),
          List.find?_cons_of_neg (by simpa using isOther)]
        exact inductionHypothesis

/-- The job is disabled with the reason, and no other one changes. -/
def DisablesOnly (jobId reason : String) (jobs after : JobStore) : Prop :=
  after.get jobId = (jobs.get jobId).map (withReason reason) ∧
    ∀ other, other ≠ jobId → after.get other = jobs.get other

theorem disablesOnly_disableWithReason (jobs : JobStore) (jobId reason : String) :
    DisablesOnly jobId reason jobs (jobs.disableWithReason jobId reason) := by
  have keeps : ∀ job, (withReason reason job).id = job.id := fun _ => rfl
  exact ⟨get_change_self keeps jobs jobId, fun other differs => get_change_other keeps jobs differs⟩

end JobStore

end LiteHorse.Cron.Jobs
