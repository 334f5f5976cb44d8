/-
This file models the routes that create, read, update and delete the cron jobs of a user and
the official ones. A request runs its statements in a transaction at read committed: a
statement sees what is committed, a write waits for the rows it has found until no other
transaction holds them, and takes effect for others when the transaction commits.

The create routes answer with a conflict where the insert breaks a constraint, and no
constraint is about the slug. The main result says in which runs the rows stay unique by scope,
user and slug, no query fails for several rows and an existing slug is answered with a
conflict: those in which every official job is created with a slug that no official job has.
-/

import LiteHorse.Library.Runs
import LiteHorse.Repositories.CronRepo

namespace LiteHorse.Web.CronRoutes

open Python Repositories.CronRepo Runs TableWrites Versions

/-! ### Calls -/

inductive Call where
  | createCron (userId : UUID) (body : CronJobCreateIn)
  | getCron (userId : UUID) (slug : String)
  | updateCron (userId : UUID) (slug : String) (body : CronJobUpdateIn)
  | deleteCron (userId : UUID) (slug : String)
  | createAdminCron (body : AdminCronJobCreateIn)
  | getAdminCron (slug : String)
  | updateAdminCron (slug : String) (body : AdminCronJobUpdateIn)
  | deleteAdminCron (slug : String)

/-- What a call does, for either scope. -/
inductive Plan where
  | create (owner : CronOwner) (slug : String) (newRow : UUID → CronRow)
  | get (owner : CronOwner) (slug : String)
  | update (owner : CronOwner) (slug : String) (values : CronValues)
  | delete (owner : CronOwner) (slug : String)

def Call.plan : Call → Plan
  | .createCron userId body => .create (.user userId) body.slug fun id => createUser userId id body
  | .getCron userId slug => .get (.user userId) slug
  | .updateCron userId slug body => .update (.user userId) slug (valuesUser body)
  | .deleteCron userId slug => .delete (.user userId) slug
  | .createAdminCron body => .create .official body.slug fun id => createOfficial id body
  | .getAdminCron slug => .get .official slug
  | .updateAdminCron slug body => .update .official slug (valuesOfficial body)
  | .deleteAdminCron slug => .delete .official slug

inductive Answer where
  | created (row : StoredCron)
  | found (row : StoredCron)
  | updated (row : StoredCron)
  | deleted
  | conflict
  | notFound
  | multipleResultsFound
  | assertionError
  /-- Another error, or the client went away: the transaction is rolled back. -/
  | failed

inductive Phase where
  | called
  /-- The row `before` of an official update or deletion is there. -/
  | checked
  /-- A write has found its rows and waits for them. -/
  | matched (ids : List UUID)
  | written (write : Write StoredCron UUID) (answer : Answer)
  | answered (answer : Answer)

structure Request where
  call : Call
  phase : Phase

/-! ### Statements -/

/-- A `SELECT` by owner and slug, and how its request goes on. -/
structure Query where
  owner : CronOwner
  slug : String
  found : StoredCron → Phase
  missing : Answer

def Query.next (query : Query) : Except Error (Option StoredCron) → Phase
  | .error _ => .answered .multipleResultsFound
  | .ok none => .answered query.missing
  | .ok (some row) => query.found row

/-- The `SELECT` that is next. An update without values is one. -/
def Plan.select : Plan → Phase → Option Query
  | .get owner slug, .called => some ⟨owner, slug, fun row => .answered (.found row), .notFound⟩
  | .update (.user userId) slug values, .called =>
    if values.isEmpty then
      some ⟨.user userId, slug, fun row => .answered (.updated row), .notFound⟩
    else none
  | .update .official slug _, .called => some ⟨.official, slug, fun _ => .checked, .notFound⟩
  | .update .official slug values, .checked =>
    if values.isEmpty then
      some ⟨.official, slug, fun row => .answered (.updated row), .assertionError⟩
    else none
  | .delete .official slug, .called => some ⟨.official, slug, fun _ => .checked, .notFound⟩
  | _, _ => none

/-- The owner and the slug of the `UPDATE` or `DELETE` that is next. -/
def Plan.writes : Plan → Phase → Option (CronOwner × String)
  | .update (.user userId) slug values, .called =>
    if values.isEmpty then none else some (.user userId, slug)
  | .update .official slug values, .checked =>
    if values.isEmpty then none else some (.official, slug)
  | .delete (.user userId) slug, .called => some (.user userId, slug)
  | .delete .official slug, .checked => some (.official, slug)
  | _, _ => none

/-- The write gets its rows. -/
def Plan.write : Plan → List StoredCron → Option Phase
  | .update (.user _) _ _, [] => some (.answered .notFound)
  | .update .official _ _, [] => some (.answered .assertionError)
  | .update _ _ values, [row] =>
    some (.written (.update [row.id] values.set) (.updated (values.set row)))
  | .update _ _ _, _ :: _ :: _ => some (.answered .multipleResultsFound)
  | .delete _ _, [] => some (.answered .notFound)
  | .delete _ _, row :: rows =>
    some (.written (.delete ((row :: rows).map StoredCron.id)) .deleted)
  | _, _ => none

def Phase.locked : Phase → List UUID
  | .written write _ => write.locked
  | _ => []

/-! ### Runs -/

structure State where
  rows : List StoredCron
  /-- The ids that were given so far. -/
  given : List UUID
  requests : List Request

inductive Event where
  | call (call : Call)
  /-- `session.flush()` of a new row with the id `uuid4()`. -/
  | insert (number : Nat) (id : UUID)
  | select (number : Nat)
  /-- An `UPDATE` or `DELETE` begins. -/
  | find (number : Nat)
  /-- Its rows are free. -/
  | write (number : Nat)
  | commit (number : Nat)
  | abandon (number : Nat)

namespace State

def advance (state : State) (number : Nat) (call : Call) (phase : Phase) : State :=
  { state with requests := state.requests.set number ⟨call, phase⟩ }

/-- The rows of these ids that are there. -/
def rowsOf (state : State) (ids : List UUID) : List StoredCron :=
  ids.filterMap fun id => state.rows.find? fun row => decide (row.id = id)

end State

def step (state : State) : Event → Option State
  | .call call => some { state with requests := state.requests ++ [⟨call, .called⟩] }
  | .insert number id =>
    match state.requests[number]? with
    | some ⟨call, .called⟩ =>
      match call.plan with
      | .create _ _ newRow =>
        if id ∈ state.given then none
        else if allowed : (newRow id).Allowed then
          some { state.advance number call
              (.written (.insert ⟨newRow id, allowed⟩) (.created ⟨newRow id, allowed⟩)) with
            given := id :: state.given }
        else some (state.advance number call (.answered .conflict))
      | _ => none
    | _ => none
  | .select number =>
    match state.requests[number]? with
    | some ⟨call, phase⟩ =>
      (call.plan.select phase).map fun query =>
        state.advance number call (query.next (get state.rows query.owner query.slug))
    | none => none
  | .find number =>
    match state.requests[number]? with
    | some ⟨call, phase⟩ =>
      (call.plan.writes phase).map fun (owner, slug) =>
        state.advance number call
          (.matched ((matching state.rows owner slug).map StoredCron.id))
    | none => none
  | .write number =>
    match state.requests[number]? with
    | some ⟨call, .matched ids⟩ =>
      if state.requests.any fun other => other.phase.locked.any (· ∈ ids) then none
      else (call.plan.write (state.rowsOf ids)).map (state.advance number call)
    | _ => none
  | .commit number =>
    match state.requests[number]? with
    | some ⟨call, .written write answer⟩ =>
      some { state.advance number call (.answered answer) with
        rows := write.apply StoredCron.id state.rows }
    | _ => none
  | .abandon number =>
    match state.requests[number]? with
    | some ⟨_, .answered _⟩ => none
    | some ⟨call, _⟩ => some (state.advance number call (.answered .failed))
    | none => none

/-! ### Unique jobs -/

/-- The rows are unique by scope, user and slug, and no query has failed for several rows. -/
structure State.Fine (state : State) : Prop where
  unique : Unique state.rows
  single : ∀ request ∈ state.requests, request.phase ≠ .answered .multipleResultsFound

/-- A create of an existing slug is answered with a conflict and changes nothing. -/
def AnswersConflict (state : State) (event : Event) : Prop :=
  ∀ number id call owner slug newRow next, event = .insert number id →
    state.requests[number]? = some ⟨call, .called⟩ → call.plan = .create owner slug newRow →
    matching state.rows owner slug ≠ [] → step state event = some next →
    next.rows = state.rows ∧ next.requests[number]? = some ⟨call, .answered .conflict⟩

/-- When an official job is inserted, no official job has its slug. -/
def InsertsNewSlug (state : State) (event : Event) : Prop :=
  ∀ number id body, event = .insert number id → id ∉ state.given →
    state.requests[number]? = some ⟨.createAdminCron body, .called⟩ →
    matching state.rows .official body.slug = []

/-- When an insert is committed, no row has its scope, user and slug. -/
def CommitsNewSlug (state : State) (event : Event) : Prop :=
  ∀ number call row answer, event = .commit number →
    state.requests[number]? = some ⟨call, .written (.insert row) answer⟩ →
    row.key ∉ state.rows.map StoredCron.key

def TakesNewSlug (state : State) (event : Event) : Prop :=
  InsertsNewSlug state event ∧ CommitsNewSlug state event

/-- No request was made so far. -/
def State.initial (rows : List StoredCron) : State := ⟨rows, rows.map StoredCron.id, []⟩

def JobsUnique (rows : List StoredCron) (events : List Event) : Prop :=
  Always step State.Fine (.initial rows) events ∧
    StepsMeet step AnswersConflict (.initial rows) events

/-- What the invariant says of a request: it waits for one row at most, its update leaves the
keys as they are, and no query of it has failed for several rows. -/
def Phase.Sound : Phase → Prop
  | .called | .checked => True
  | .matched ids => ids.length ≤ 1
  | .written (.insert _) answer | .written (.delete _) answer => answer ≠ .multipleResultsFound
  | .written (.update _ patch) answer =>
    (∀ row, (patch row).key = row.key) ∧ answer ≠ .multipleResultsFound
  | .answered answer => answer ≠ .multipleResultsFound

structure State.Sound (state : State) : Prop where
  unique : Unique state.rows
  requests : ∀ request ∈ state.requests, request.phase.Sound

section Steps

variable {state next : State} {number : Nat}

theorem State.Sound.fine (sound : state.Sound) : state.Fine where
  unique := sound.unique
  single request member same := by
    have isSound := sound.requests request member
    rw [same] at isSound
    exact isSound rfl

theorem State.Sound.advance (sound : state.Sound) (call : Call) {phase : Phase}
    (isSound : phase.Sound) : (state.advance number call phase).Sound where
  unique := sound.unique
  requests := by
    intro request member
    rcases List.mem_or_eq_of_mem_set member with before | rfl
    · exact sound.requests request before
    · exact isSound

theorem select_sound {plan : Plan} {phase : Phase} {query : Query}
    (isNext : plan.select phase = some query) :
    query.missing ≠ .multipleResultsFound ∧ ∀ row, (query.found row).Sound := by
  have found : ∀ row, Answer.found row ≠ .multipleResultsFound := by simp
  have updated : ∀ row, Answer.updated row ≠ .multipleResultsFound := by simp
  have notFound : Answer.notFound ≠ .multipleResultsFound := by simp
  have assertion : Answer.assertionError ≠ .multipleResultsFound := by simp
  unfold Plan.select at isNext
  split at isNext
  · cases isNext
    exact ⟨notFound, found⟩
  · split at isNext
    · cases isNext
      exact ⟨notFound, updated⟩
    · cases isNext
  · cases isNext
    exact ⟨notFound, fun _ => trivial⟩
  · split at isNext
    · cases isNext
      exact ⟨assertion, updated⟩
    · cases isNext
  · cases isNext
    exact ⟨notFound, fun _ => trivial⟩
  · cases isNext

/-- Among unique rows a query goes on with its row, or without one. -/
theorem sound_next {plan : Plan} {phase : Phase} {query : Query}
    (isNext : plan.select phase = some query) {rows : List StoredCron} (unique : Unique rows) :
    (query.next (get rows query.owner query.slug)).Sound := by
  obtain ⟨missing, found⟩ := select_sound isNext
  cases result : get rows query.owner query.slug with
  | error error => exact absurd result (get_ne_error unique query.owner query.slug error)
  | ok row =>
    cases row with
    | none => exact missing
    | some row => exact found row

theorem sound_write {plan : Plan} {rows : List StoredCron} {phase : Phase}
    (few : rows.length ≤ 1) (isNext : plan.write rows = some phase) : phase.Sound := by
  unfold Plan.write at isNext
  split at isNext
  · cases isNext
    simp [Phase.Sound]
  · cases isNext
    simp [Phase.Sound]
  · next values row =>
    cases isNext
    exact ⟨values.key_set, by simp⟩
  · rw [List.length_cons, List.length_cons] at few
    omega
  · cases isNext
    simp [Phase.Sound]
  · cases isNext
    simp [Phase.Sound]
  · cases isNext

theorem length_rowsOf (state : State) (ids : List UUID) :
    (state.rowsOf ids).length ≤ ids.length := List.length_filterMap_le _ ids

/-- What an insert does: it writes the new row, or is answered with a conflict. -/
theorem insert_cases {id : UUID} (taken : step state (.insert number id) = some next) :
    ∃ call owner slug newRow, state.requests[number]? = some ⟨call, .called⟩ ∧
      call.plan = .create owner slug newRow ∧ id ∉ state.given ∧
      ((∃ allowed : (newRow id).Allowed,
          next = { state.advance number call
              (.written (.insert ⟨newRow id, allowed⟩) (.created ⟨newRow id, allowed⟩)) with
            given := id :: state.given }) ∨
        (¬ (newRow id).Allowed ∧ next = state.advance number call (.answered .conflict))) := by
  unfold step at taken
  dsimp only at taken
  split at taken
  · next call isRequest =>
    split at taken
    · next owner slug newRow isCreate =>
      split at taken
      · cases taken
      · next fresh =>
        refine ⟨call, owner, slug, newRow, isRequest, isCreate, fresh, ?_⟩
        split at taken
        · next allowed =>
          cases taken
          exact Or.inl ⟨allowed, rfl⟩
        · next refused =>
          cases taken
          exact Or.inr ⟨refused, rfl⟩
    · cases taken
  · cases taken

theorem commit_cases (taken : step state (.commit number) = some next) :
    ∃ call write answer, state.requests[number]? = some ⟨call, .written write answer⟩ ∧
      next = { state.advance number call (.answered answer) with
        rows := write.apply StoredCron.id state.rows } := by
  unfold step at taken
  dsimp only at taken
  split at taken
  · next call write answer isRequest =>
    cases taken
    exact ⟨call, write, answer, isRequest, rfl⟩
  · cases taken

theorem State.Sound.of_insert {id : UUID} (sound : state.Sound)
    (taken : step state (.insert number id) = some next) : next.Sound := by
  obtain ⟨call, owner, slug, newRow, _, _, _, ⟨allowed, rfl⟩ | ⟨_, rfl⟩⟩ := insert_cases taken
  · have isSound : (Phase.written (.insert ⟨newRow id, allowed⟩)
        (.created ⟨newRow id, allowed⟩)).Sound := by simp [Phase.Sound]
    have advanced : (state.advance number call _).Sound := sound.advance call isSound
    exact ⟨advanced.unique, advanced.requests⟩
  · exact sound.advance call (by simp [Phase.Sound])

/-- The write that is committed keeps the keys distinct. -/
theorem State.Sound.of_commit (sound : state.Sound)
    (commits : CommitsNewSlug state (.commit number))
    (taken : step state (.commit number) = some next) : next.Sound := by
  obtain ⟨call, write, answer, isRequest, rfl⟩ := commit_cases taken
  have isSound := sound.requests _ (List.mem_of_getElem? isRequest)
  have fits : write.Fits StoredCron.key state.rows ∧ answer ≠ .multipleResultsFound := by
    cases write with
    | insert row => exact ⟨commits number call row answer rfl isRequest, isSound⟩
    | update ids patch => exact isSound
    | delete ids => exact ⟨trivial, isSound⟩
  have answered : (Phase.answered answer).Sound := fits.2
  exact ⟨Write.keys_nodup_apply sound.unique fits.1, (sound.advance call answered).requests⟩

theorem State.Sound.of_step {event : Event} (sound : state.Sound)
    (commits : CommitsNewSlug state event) (taken : step state event = some next) :
    next.Sound := by
  cases event with
  | call call =>
    cases taken
    refine ⟨sound.unique, fun request member => ?_⟩
    rcases List.mem_append.mp member with before | isNew
    · exact sound.requests request before
    · rw [List.mem_singleton.mp isNew]
      trivial
  | insert number id => exact sound.of_insert taken
  | select number =>
    unfold step at taken
    dsimp only at taken
    split at taken
    · obtain ⟨query, isNext, rfl⟩ := Option.map_eq_some_iff.mp taken
      exact sound.advance _ (sound_next isNext sound.unique)
    · cases taken
  | find number =>
    unfold step at taken
    dsimp only at taken
    split at taken
    · obtain ⟨⟨owner, slug⟩, _, rfl⟩ := Option.map_eq_some_iff.mp taken
      refine sound.advance _ ?_
      rw [Phase.Sound, List.length_map]
      exact length_matching sound.unique owner slug
    · cases taken
  | write number =>
    unfold step at taken
    dsimp only at taken
    split at taken
    · next call ids isRequest =>
      split at taken
      · cases taken
      · obtain ⟨phase, isNext, rfl⟩ := Option.map_eq_some_iff.mp taken
        have few := sound.requests _ (List.mem_of_getElem? isRequest)
        exact sound.advance _ (sound_write ((length_rowsOf state ids).trans few) isNext)
    · cases taken
  | commit number => exact sound.of_commit commits taken
  | abandon number =>
    unfold step at taken
    dsimp only at taken
    split at taken
    · cases taken
    · cases taken
      exact sound.advance _ (by simp [Phase.Sound])
    · cases taken

theorem insert_official {id : UUID} {body : AdminCronJobCreateIn} (fresh : id ∉ state.given)
    (isRequest : state.requests[number]? = some ⟨.createAdminCron body, .called⟩) :
    step state (.insert number id) =
      some { state.advance number (.createAdminCron body)
          (.written (.insert ⟨createOfficial id body, createOfficial_allowed id body⟩)
            (.created ⟨createOfficial id body, createOfficial_allowed id body⟩)) with
        given := id :: state.given } := by
  have allowed := createOfficial_allowed id body
  simp only [step, isRequest, Call.plan, if_neg fresh, dif_pos allowed]

theorem getElem?_advance {request : Request} (isRequest : state.requests[number]? = some request)
    (call : Call) (phase : Phase) :
    (state.advance number call phase).requests[number]? = some ⟨call, phase⟩ :=
  List.getElem?_set_self (List.getElem?_eq_some_iff.mp isRequest).1

/-- The insert of a user row is always refused, that of an official row never. -/
theorem answersConflict_iff (state : State) (event : Event) :
    AnswersConflict state event ↔ InsertsNewSlug state event := by
  constructor
  · rintro answers number id body rfl fresh isRequest
    by_contra exists_
    obtain ⟨_, conflict⟩ := answers number id _ _ _ _ _ rfl isRequest rfl exists_
      (insert_official fresh isRequest)
    have written := getElem?_advance isRequest (.createAdminCron body)
      (.written (.insert ⟨createOfficial id body, createOfficial_allowed id body⟩)
        (.created ⟨createOfficial id body, createOfficial_allowed id body⟩))
    cases written.symm.trans conflict
  · rintro inserts number id call owner slug newRow next rfl isRequest isCreate found taken
    obtain ⟨other, _, _, otherRow, isOther, isPlan, fresh, created⟩ := insert_cases taken
    cases isRequest.symm.trans isOther
    cases isCreate.symm.trans isPlan
    rcases created with ⟨allowed, rfl⟩ | ⟨_, rfl⟩
    · cases call with
      | createAdminCron body =>
        cases isCreate
        exact absurd (inserts number id body rfl fresh isRequest) found
      | createCron userId body =>
        cases isCreate
        exact absurd allowed (createUser_not_allowed userId id body)
      | getCron userId slug => cases isCreate
      | updateCron userId slug body => cases isCreate
      | deleteCron userId slug => cases isCreate
      | getAdminCron slug => cases isCreate
      | updateAdminCron slug body => cases isCreate
      | deleteAdminCron slug => cases isCreate
    · exact ⟨rfl, getElem?_advance isRequest call (.answered .conflict)⟩

end Steps

theorem sound_initial {rows : List StoredCron} (unique : Unique rows) :
    (State.initial rows).Sound where
  unique := unique
  requests _ member := absurd member List.not_mem_nil

/-- A commit of a row whose key another row has breaks uniqueness at once. -/
theorem not_fine_of_repeated {state : State} {event : Event} (sound : state.Sound)
    (repeats : ¬ CommitsNewSlug state event) :
    ∃ next, step state event = some next ∧ ¬ next.Fine := by
  unfold CommitsNewSlug at repeats
  push Not at repeats
  obtain ⟨number, call, row, answer, rfl, isRequest, isKey⟩ := repeats
  refine ⟨{ state.advance number call (.answered answer) with
      rows := (Write.insert row).apply StoredCron.id state.rows }, ?_, fun fine => ?_⟩
  · simp only [step, isRequest]
  · exact (Write.keys_nodup_insert_iff StoredCron.id sound.unique row).mp fine.unique isKey

/-- The jobs are unique in exactly the runs in which every official job is created with a slug
that no official job has. -/
theorem jobsUnique_iff (start : { rows : List StoredCron // Unique rows })
    (events : List Event) :
    JobsUnique start.val events ↔ StepsMeet step TakesNewSlug (.initial start.val) events := by
  have initial := sound_initial start.property
  have preserved : ∀ state event next, state.Sound → CommitsNewSlug state event →
      step state event = some next → next.Sound :=
    fun state event next sound commits taken => sound.of_step commits taken
  have fine_iff : Always step State.Fine (.initial start.val) events ↔
      StepsMeet step CommitsNewSlug (.initial start.val) events :=
    always_iff_of_invariant step preserved (fun state sound => sound.fine)
      (fun state event sound repeats => not_fine_of_repeated sound repeats) initial
  constructor
  · rintro ⟨fine, answers⟩
    have inserts := answers.mono step fun state event => (answersConflict_iff state event).mp
    exact inserts.and step (fine_iff.mp fine)
  · intro takes
    have commits := takes.mono step fun state event => And.right
    have inserts := takes.mono step fun state event => And.left
    refine ⟨fine_iff.mpr commits, ?_⟩
    exact inserts.mono step fun state event => (answersConflict_iff state event).mpr

/-- Two requests create the official job 'digest', and a third one reads it. -/
def digestTwice : List Event :=
  let digest : Call := .createAdminCron { slug := "digest", cronExpr := "@daily", prompt := "news" }
  [.call digest, .insert 0 1, .commit 0, .call digest, .insert 1 2, .commit 1,
    .call (.getAdminCron "digest"), .select 2]

theorem second_digest_is_created :
    ¬ JobsUnique [] digestTwice ∧
      ∃ last, exec step (.initial []) digestTwice = some last ∧ last.rows.length = 2 ∧
        last.requests[2]? = some ⟨.getAdminCron "digest", .answered .multipleResultsFound⟩ := by
  have reached : ∃ last, exec step (.initial []) digestTwice = some last ∧ last.rows.length = 2 ∧
      last.requests[2]? = some ⟨.getAdminCron "digest", .answered .multipleResultsFound⟩ :=
    ⟨_, rfl, rfl, rfl⟩
  refine ⟨fun jobsUnique => ?_, reached⟩
  obtain ⟨last, run, _, isRequest⟩ := reached
  have fine := jobsUnique.1.last step run
  exact fine.single _ (List.mem_of_getElem? isRequest) rfl

end LiteHorse.Web.CronRoutes
