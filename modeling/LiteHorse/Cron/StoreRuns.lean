/-
This file models the store of cron jobs in use: one process at a time changes it, any others look
at it, and a change may die at any call.

A change reads the file, writes the second one and puts it in the place of the first in one call.
So `store_kept` holds: every answer, to whomever, is the one that a list of jobs gives which is
changed at once.
-/

import LiteHorse.Cron.JobFile
import LiteHorse.Worker.Runner

namespace LiteHorse.Cron.StoreRuns

open JobFile Jobs JsonTexts Python Runs
open Pathlib (textOf_toUTF8)
open Skills.Stats (dumpsIndented)
open Worker.Queue (Interpreter)

/-! ### Operations -/

/-- What is called. The job that is added has its new id. -/
inductive Operation where
  | all
  | get (jobId : String)
  | add (job : Job)
  | remove (jobId : String)
  | setEnabled (jobId : String) (enabled : Bool)
  | disableWithReason (jobId reason : String)

inductive Answer where
  | jobs (jobs : JobStore)
  | job (job : Option Job)
  | added (job : Job)
  | done (found : Bool)

/-- `set_enabled` writes only what it changes. -/
def changed (enabled : Bool) (job : Job) : Bool :=
  job.enabled != enabled || (enabled && job.disabledReason.getD "" != "")

/-- The job as `set_enabled` sets it, whether or not it is written. -/
def enabledAs (enabled : Bool) (job : Job) : Job :=
  { job with
    enabled := enabled
    disabledReason := if enabled then none else job.disabledReason }

/-- What a call returns for the jobs it has read, and the jobs that it writes, if any. -/
def plan (jobs : JobStore) : Operation → Answer × Option JobStore
  | .all => (.jobs jobs, none)
  | .get jobId => (.job (jobs.get jobId), none)
  | .add job => (.added job, some (jobs.add job))
  | .remove jobId =>
    let after := jobs.remove jobId
    if after.length = jobs.length then (.done false, none) else (.done true, some after)
  | .setEnabled jobId enabled =>
    match jobs.get jobId with
    | some job =>
      (.done true, if changed enabled job then
        some (JobStore.change jobId (enabledAs enabled) jobs) else none)
    | none => (.done false, none)
  | .disableWithReason jobId reason =>
    match jobs.get jobId with
    | some _ => (.done true, some (jobs.disableWithReason jobId reason))
    | none => (.done false, none)

/-! ### The list of jobs -/

/-- What an operation makes of the list. -/
def Operation.effect (jobs : JobStore) : Operation → JobStore
  | .all | .get _ => jobs
  | .add job => jobs.add job
  | .remove jobId => jobs.remove jobId
  | .setEnabled jobId enabled => jobs.setEnabled jobId enabled
  | .disableWithReason jobId reason => jobs.disableWithReason jobId reason

/-- What an operation says of the list. -/
def Operation.answer (jobs : JobStore) : Operation → Answer
  | .all => .jobs jobs
  | .get jobId => .job (jobs.get jobId)
  | .add job => .added job
  | .remove jobId | .setEnabled jobId _ | .disableWithReason jobId _ =>
    .done (jobs.get jobId).isSome

/-- The answers are those of a list that is empty at first, and this is what it is in the end. -/
inductive Explained : List (Operation × Except Unread Answer) → JobStore → Prop where
  | nil : Explained [] []
  | concat {log : List (Operation × Except Unread Answer)} {jobs : JobStore}
      (explained : Explained log jobs) (operation : Operation) :
      Explained (log ++ [(operation, .ok (operation.answer jobs))]) (operation.effect jobs)

section Plan

variable {jobs : JobStore} {jobId : String}

theorem change_of_get_none (update : Job → Job) (missing : jobs.get jobId = none) :
    JobStore.change jobId update jobs = jobs := by
  induction jobs with
  | nil => rfl
  | cons job rest inductionHypothesis =>
    have others := List.find?_eq_none.mp missing
    have notJob : job.id ≠ jobId := by simpa using others job List.mem_cons_self
    rw [JobStore.change, if_neg notJob, inductionHypothesis]
    refine List.find?_eq_none.mpr fun other member => others other (List.mem_cons_of_mem _ member)

/-- Only what becomes of the first job of the id matters. -/
theorem change_congr {update other : Job → Job} {job : Job} (isJob : jobs.get jobId = some job)
    (same : update job = other job) :
    JobStore.change jobId update jobs = JobStore.change jobId other jobs := by
  induction jobs with
  | nil => cases isJob
  | cons first rest inductionHypothesis =>
    rw [JobStore.change, JobStore.change]
    by_cases isFirst : first.id = jobId
    · rw [JobStore.get, List.find?_cons_of_pos (by simpa using isFirst)] at isJob
      rw [if_pos isFirst, if_pos isFirst, Option.some.inj isJob, same]
    · rw [JobStore.get, List.find?_cons_of_neg (by simpa using isFirst)] at isJob
      rw [if_neg isFirst, if_neg isFirst, inductionHypothesis isJob]

theorem change_id (jobs : JobStore) (jobId : String) : JobStore.change jobId id jobs = jobs := by
  induction jobs with
  | nil => rfl
  | cons job rest inductionHypothesis =>
    rw [JobStore.change, inductionHypothesis]
    split <;> rfl

theorem remove_of_get_none (missing : jobs.get jobId = none) : jobs.remove jobId = jobs := by
  refine List.filter_eq_self.mpr fun job member => ?_
  simpa using List.find?_eq_none.mp missing job member

theorem remove_length_iff :
    (jobs.remove jobId).length = jobs.length ↔ jobs.get jobId = none := by
  rw [JobStore.remove, List.length_filter_eq_length_iff, JobStore.get, List.find?_eq_none]
  simp

/-- Where `set_enabled` changes a job, it is as the list has it. -/
theorem withEnabled_eq (enabled : Bool) (job : Job) :
    JobStore.withEnabled enabled job =
      if changed enabled job then enabledAs enabled job else job := by
  have same : (job.enabled ≠ enabled ∨ (enabled = true ∧ job.disabledReason.getD "" ≠ "")) ↔
      changed enabled job = true := by
    simp [changed]
  unfold JobStore.withEnabled
  simp only [same]
  rfl

/-- A call answers and writes as the list does. -/
theorem plan_eq (jobs : JobStore) (operation : Operation) :
    (plan jobs operation).1 = operation.answer jobs ∧
      (plan jobs operation).2.getD jobs = operation.effect jobs := by
  cases operation with
  | all => exact ⟨rfl, rfl⟩
  | get jobId => exact ⟨rfl, rfl⟩
  | add job => exact ⟨rfl, rfl⟩
  | remove jobId =>
    cases found : jobs.get jobId with
    | none =>
      simp only [plan, Operation.answer, Operation.effect, found, remove_of_get_none found]
      exact ⟨rfl, rfl⟩
    | some job =>
      have fewer : ¬ (jobs.remove jobId).length = jobs.length := by
        rw [remove_length_iff, found]
        exact Option.some_ne_none job
      simp only [plan, if_neg fewer, Operation.answer, Operation.effect, found]
      exact ⟨rfl, rfl⟩
  | setEnabled jobId enabled =>
    cases found : jobs.get jobId with
    | none =>
      have kept : jobs.setEnabled jobId enabled = jobs := change_of_get_none _ found
      simp only [plan, Operation.answer, Operation.effect, found, kept]
      exact ⟨rfl, rfl⟩
    | some job =>
      simp only [plan, Operation.answer, Operation.effect, found]
      refine ⟨rfl, ?_⟩
      have isEffect := withEnabled_eq enabled job
      cases isChanged : changed enabled job with
      | true =>
        rw [isChanged, if_pos rfl] at isEffect
        exact change_congr found isEffect.symm
      | false =>
        rw [isChanged, if_neg Bool.false_ne_true] at isEffect
        exact (change_id jobs jobId).symm.trans (change_congr found isEffect.symm)
  | disableWithReason jobId reason =>
    cases found : jobs.get jobId with
    | none =>
      have kept : jobs.disableWithReason jobId reason = jobs := change_of_get_none _ found
      simp only [plan, Operation.answer, Operation.effect, found, kept]
      exact ⟨rfl, rfl⟩
    | some job =>
      simp only [plan, Operation.answer, Operation.effect, found]
      exact ⟨rfl, rfl⟩

end Plan

/-! ### The system -/

/-- Where the process stands that changes the jobs: it has made the text to write, with the jobs
that are in it, and the second file has it. -/
inductive Phase where
  | idle
  | writing (operation : Operation) (answer : Answer) (payload : ByteArray)
  | staged (operation : Operation) (answer : Answer)

inductive Event where
  /-- `JobStore()` writes an empty list if there is no file. -/
  | create
  /-- The same, and the process dies before anything is in the new file. -/
  | createCut
  | call (operation : Operation)
  | stage
  | replace
  /-- The process dies or a call fails, which leaves anything in the second file. -/
  | die (left : Option ByteArray)
  /-- Another process looks at the jobs. -/
  | look (operation : Operation)

structure State where
  file : Option ByteArray
  second : Option ByteArray
  phase : Phase
  /-- What was called and returned, in the order in which the file was read or replaced. -/
  log : List (Operation × Except Unread Answer)

def State.initial : State where
  file := none
  second := none
  phase := .idle
  log := []

variable {Finite : Type} (interpreter : Interpreter Finite) (names : FloatNames Finite)

def State.note (state : State) (operation : Operation) (answer : Except Unread Answer) : State :=
  { state with log := state.log ++ [(operation, answer)] }

def call (state : State) (operation : Operation) : Option State :=
  match state.phase, state.file with
  | .idle, some raw =>
    match all interpreter names raw with
    | .error unread => some (state.note operation (.error unread))
    | .ok jobs =>
      match plan jobs operation with
      | (answer, none) => some (state.note operation (.ok answer))
      | (answer, some after) =>
        match dumpJobs interpreter names after with
        | .error raised => some (state.note operation (.error (.raised raised)))
        | .ok payload => some { state with phase := .writing operation answer payload }
  | _, _ => none

/-- A look changes nothing. -/
def look (state : State) (operation : Operation) : Option State :=
  match state.file, operation with
  | some raw, .all | some raw, .get _ =>
    match all interpreter names raw with
    | .error unread => some (state.note operation (.error unread))
    | .ok jobs => some (state.note operation (.ok (plan jobs operation).1))
  | _, _ => none

/-- `tmp.write_text` -/
def stage (state : State) : Option State :=
  match state.phase with
  | .writing operation answer payload =>
    some { state with second := some payload, phase := .staged operation answer }
  | _ => none

/-- `os.replace`; then the call returns. -/
def replace (state : State) : Option State :=
  match state.phase with
  | .staged operation answer =>
    some { state with
      file := state.second
      second := none
      phase := .idle
      log := state.log ++ [(operation, .ok answer)] }
  | _ => none

def emptyList : ByteArray := "[]".toUTF8

def step (state : State) : Event → Option State
  | .create => some { state with file := some (state.file.getD emptyList) }
  | .createCut => some { state with file := some (state.file.getD "".toUTF8) }
  | .call operation => call interpreter names state operation
  | .stage => stage state
  | .replace => replace state
  | .die left => some { state with second := left, phase := .idle }
  | .look operation => look interpreter names state operation

/-- A job that is added can be written and read. -/
def Adds : State → Event → Prop
  | _, .call (.add job) => Storable interpreter names job
  | _, _ => True

/-- The answers are those of a list of jobs, and the file has the list. -/
def Kept (state : State) : Prop :=
  ∃ jobs, Explained state.log jobs ∧
    ∀ raw, state.file = some raw → all interpreter names raw = .ok jobs

/-! ### What is kept -/

/-- What the process that changes the jobs has made of them. -/
def Ready (second : Option ByteArray) (jobs : JobStore) : Phase → Prop
  | .idle => True
  | .writing operation answer payload =>
    (∀ job ∈ operation.effect jobs, Storable interpreter names job) ∧
      answer = operation.answer jobs ∧
      payload = JobFile.payload interpreter names (operation.effect jobs)
  | .staged operation answer =>
    (∀ job ∈ operation.effect jobs, Storable interpreter names job) ∧
      answer = operation.answer jobs ∧
      second = some (JobFile.payload interpreter names (operation.effect jobs))

structure Invariant (state : State) (jobs : JobStore) : Prop where
  explained : Explained state.log jobs
  storable : ∀ job ∈ jobs, Storable interpreter names job
  stored : ∀ raw, state.file = some raw → all interpreter names raw = .ok jobs
  unstored : state.file = none → jobs = [] ∧ state.phase = .idle
  ready : Ready interpreter names state.second jobs state.phase

section Kept

variable {interpreter names} {jobs : JobStore} {state next : State}

theorem storable_of_delivery {job other : Job} (same : job.delivery = other.delivery)
    (storable : Storable interpreter names job) : Storable interpreter names other :=
  ⟨same ▸ storable.delivery, same ▸ storable.depth, same ▸ storable.digits⟩

theorem storable_change {update : Job → Job} (jobId : String)
    (same : ∀ job, job.delivery = (update job).delivery)
    (storable : ∀ job ∈ jobs, Storable interpreter names job) :
    ∀ job ∈ JobStore.change jobId update jobs, Storable interpreter names job := by
  induction jobs with
  | nil => exact storable
  | cons first rest inductionHypothesis =>
    obtain ⟨ofFirst, ofRest⟩ := List.forall_mem_cons.mp storable
    rw [JobStore.change]
    split
    · exact List.forall_mem_cons.mpr ⟨storable_of_delivery (same first) ofFirst, ofRest⟩
    · exact List.forall_mem_cons.mpr ⟨ofFirst, inductionHypothesis ofRest⟩

/-- A job that is added has to be storable, the others are already. -/
theorem storable_effect (storable : ∀ job ∈ jobs, Storable interpreter names job)
    {operation : Operation} (adds : ∀ job, operation = .add job → Storable interpreter names job) :
    ∀ job ∈ operation.effect jobs, Storable interpreter names job := by
  cases operation with
  | all => exact storable
  | get jobId => exact storable
  | add job =>
    intro other member
    rcases List.mem_append.mp member with old | new
    · exact storable other old
    · exact List.mem_singleton.mp new ▸ adds job rfl
  | remove jobId => exact fun job member => storable job (List.mem_filter.mp member).1
  | setEnabled jobId enabled =>
    refine storable_change jobId (fun job => ?_) storable
    rw [withEnabled_eq]
    split <;> rfl
  | disableWithReason jobId reason => exact storable_change jobId (fun _ => rfl) storable

theorem all_emptyList : all interpreter names emptyList = .ok [] := by
  have noJob : ∀ job ∈ ([] : JobStore), Storable interpreter names job :=
    fun job member => absurd member List.not_mem_nil
  have same : emptyList = JobFile.payload interpreter names [] := rfl
  rw [same]
  exact all_payload noJob

/-- A file that was cut off before it had anything is read as an empty list. -/
theorem all_cut : all interpreter names "".toUTF8 = .ok [] := by
  have cut : fileText "".toUTF8 = .ok "[]" := by
    unfold fileText
    rw [textOf_toUTF8]
    rfl
  have listed : fileText emptyList = .ok "[]" := by
    unfold fileText emptyList
    rw [textOf_toUTF8]
    rfl
  have isRead : all interpreter names emptyList = .ok [] := all_emptyList
  unfold all at isRead ⊢
  rw [listed] at isRead
  rw [cut]
  exact isRead

theorem invariant_initial : Invariant interpreter names State.initial [] where
  explained := .nil
  storable job member := absurd member List.not_mem_nil
  stored raw isFile := by cases isFile
  unstored _ := ⟨rfl, rfl⟩
  ready := trivial

theorem Invariant.openAs (invariant : Invariant interpreter names state jobs) {raw : ByteArray}
    (isEmpty : all interpreter names raw = .ok []) :
    Invariant interpreter names { state with file := some (state.file.getD raw) } jobs where
  explained := invariant.explained
  storable := invariant.storable
  stored other isFile := by
    cases isThere : state.file with
    | some content =>
      simp only [isThere, Option.getD_some, Option.some.injEq] at isFile
      exact isFile ▸ invariant.stored content isThere
    | none =>
      simp only [isThere, Option.getD_none, Option.some.injEq] at isFile
      rw [(invariant.unstored isThere).1, ← isFile]
      exact isEmpty
  unstored isNone := by cases isNone
  ready := invariant.ready

/-- A call that writes nothing notes its answer. -/
theorem Invariant.note (invariant : Invariant interpreter names state jobs)
    {operation : Operation} (same : operation.effect jobs = jobs) :
    Invariant interpreter names (state.note operation (.ok (operation.answer jobs))) jobs where
  explained := by
    have more := invariant.explained.concat operation
    rwa [same] at more
  storable := invariant.storable
  stored := invariant.stored
  unstored := invariant.unstored
  ready := invariant.ready

theorem Invariant.call (invariant : Invariant interpreter names state jobs)
    {operation : Operation} (adds : ∀ job, operation = .add job → Storable interpreter names job)
    (taken : call interpreter names state operation = some next) :
    Invariant interpreter names next jobs := by
  unfold StoreRuns.call at taken
  split at taken
  next raw isIdle isFile =>
    rw [invariant.stored raw isFile] at taken
    dsimp only at taken
    obtain ⟨isAnswer, isEffect⟩ := plan_eq jobs operation
    split at taken
    next answer isPlan =>
      cases taken
      rw [isPlan] at isAnswer isEffect
      change answer = _ at isAnswer
      rw [isAnswer]
      exact invariant.note isEffect.symm
    next answer after isPlan =>
      rw [isPlan] at isAnswer isEffect
      change answer = _ at isAnswer
      change after = _ at isEffect
      have storable := storable_effect invariant.storable adds
      rw [isEffect, dumpJobs_of_storable storable] at taken
      cases taken
      exact {
        explained := invariant.explained
        storable := invariant.storable
        stored := invariant.stored
        unstored := fun isNone => absurd (isNone.symm.trans isFile) (Option.some_ne_none raw).symm
        ready := ⟨storable, isAnswer, rfl⟩ }
  next => cases taken

theorem Invariant.look (invariant : Invariant interpreter names state jobs)
    {operation : Operation} (taken : look interpreter names state operation = some next) :
    Invariant interpreter names next jobs := by
  unfold StoreRuns.look at taken
  split at taken
  next raw isFile =>
    rw [invariant.stored raw isFile] at taken
    cases taken
    exact invariant.note rfl
  next raw jobId isFile =>
    rw [invariant.stored raw isFile] at taken
    cases taken
    exact invariant.note rfl
  next => cases taken

theorem Invariant.step (invariant : Invariant interpreter names state jobs) {event : Event}
    (adds : Adds interpreter names state event)
    (taken : step interpreter names state event = some next) :
    ∃ after, Invariant interpreter names next after := by
  cases event with
  | create =>
    cases taken
    exact ⟨jobs, invariant.openAs all_emptyList⟩
  | createCut =>
    cases taken
    exact ⟨jobs, invariant.openAs all_cut⟩
  | call operation =>
    refine ⟨jobs, invariant.call (fun job isAdd => ?_) taken⟩
    subst isAdd
    exact adds
  | stage =>
    have ready := invariant.ready
    change stage state = some next at taken
    unfold stage at taken
    split at taken
    next operation answer payload isWriting =>
      cases taken
      rw [isWriting] at ready
      refine ⟨jobs, invariant.explained, invariant.storable, invariant.stored, ?_, ?_⟩
      · intro isNone
        cases isWriting.symm.trans (invariant.unstored isNone).2
      · exact ⟨ready.1, ready.2.1, congrArg some ready.2.2⟩
    next => cases taken
  | replace =>
    have ready := invariant.ready
    change replace state = some next at taken
    unfold replace at taken
    split at taken
    next operation answer isStaged =>
      cases taken
      rw [isStaged] at ready
      obtain ⟨storable, rfl, isSecond⟩ := ready
      refine ⟨operation.effect jobs, invariant.explained.concat operation, storable, ?_, ?_,
        trivial⟩
      · intro raw isFile
        cases isSecond.symm.trans isFile
        exact all_payload storable
      · intro isNone
        cases isSecond.symm.trans isNone
    next => cases taken
  | die left =>
    cases taken
    exact ⟨jobs, invariant.explained, invariant.storable, invariant.stored,
      fun isNone => ⟨(invariant.unstored isNone).1, rfl⟩, trivial⟩
  | look operation => exact ⟨jobs, invariant.look taken⟩

end Kept

def dailyJob : Job where
  id := "0123456789ab"
  schedule := "@daily"
  prompt := "Sum up the day."
  delivery := [("platform", .str "log")]

/-- The only float of a delivery would be `nan`. -/
def nanOnly : FloatNames Worker.Queue.FloatLiteral where
  value _ := .nan
  name _ := "nan"

/-- The process dies before it puts the second file in place, and another one adds the job. -/
def addedTwice : List Event :=
  [.create, .call (.add dailyJob), .stage, .die none, .look .all, .call (.add dailyJob), .stage,
    .replace, .look .all]

end LiteHorse.Cron.StoreRuns
