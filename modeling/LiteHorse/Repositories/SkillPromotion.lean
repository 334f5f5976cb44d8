/-
This file models the promotion of skills: the daily tick that inserts and refreshes the candidates,
and the requests of administrators that promote or reject one, each in a transaction of its own and
all at the same time.

A request reads the candidate without a lock. What decides is its UPDATE, which finds the candidate
only while it is pending; where it finds none the request fails and takes back what it has written.
`DecidedOnce` says that a candidate is decided once at most, with one row of the audit and one
official skill for a promotion, and that no name is pending twice.
-/

import LiteHorse.Library.RowVersions
import LiteHorse.Library.Runs
import LiteHorse.Python
import Mathlib.Data.Rat.Defs

namespace LiteHorse.Repositories.SkillPromotion

open Python RowVersions Runs

/-! ### Candidates -/

inductive Status where
  | pending
  | promoted
  | rejected
  deriving DecidableEq

def Status.value : Status → String
  | .pending => "pending"
  | .promoted => "promoted"
  | .rejected => "rejected"

structure Stats where
  uniqueUserCount : Int
  useCount : Int
  successRate : ℚ

/-- `SkillPromotionCandidate` -/
structure Candidate where
  frontmatterName : String
  sourceSkillId : UUID
  stats : Stats
  status : Status
  reason : Option String := none
  decidedBy : Option UUID := none
  promotedSkillId : Option UUID := none

structure CandidateAggregate where
  frontmatterName : String
  sourceSkillId : UUID
  stats : Stats

/-- The row that `upsert_pending` inserts. -/
def CandidateAggregate.inserted (agg : CandidateAggregate) : Candidate where
  frontmatterName := agg.frontmatterName
  sourceSkillId := agg.sourceSkillId
  stats := agg.stats
  status := .pending

/-- The row that `upsert_pending` updates where the name is pending. -/
def CandidateAggregate.refreshed (agg : CandidateAggregate) (candidate : Candidate) : Candidate :=
  { candidate with sourceSkillId := agg.sourceSkillId, stats := agg.stats }

/-! ### Decisions -/

inductive Decision where
  | promote
  | reject (reason : Option String)

structure Request where
  decision : Decision
  candidateId : UUID
  adminId : UUID

/-- What a request reads of the skill that a candidate comes from. -/
structure SourceSkill where
  slug : String
  frontmatter : List (String × Json)
  body : String

/-- The row of the official skill that a promotion inserts. -/
structure OfficialSkill where
  id : UUID
  slug : String
  version : Int
  frontmatter : List (String × Json)
  body : String
  createdBy : UUID

def SourceSkill.official (source : SourceSkill) (id : UUID) (version : Int) (adminId : UUID) :
    OfficialSkill where
  id := id
  slug := source.slug
  version := version
  frontmatter := source.frontmatter
  body := source.body
  createdBy := adminId

/-- The values of `mark_promoted` and `mark_rejected`. -/
def Request.decided (request : Request) (official : Option OfficialSkill) (candidate : Candidate) :
    Candidate :=
  match request.decision with
  | .promote =>
    { candidate with
      status := .promoted
      decidedBy := some request.adminId
      promotedSkillId := official.map OfficialSkill.id }
  | .reject reason =>
    { candidate with
      status := .rejected
      decidedBy := some request.adminId
      reason := reason }

inductive Diff where
  | promoted (version : Option Int) (stats : Stats)
  | rejected (reason : Option String)

structure AuditRow where
  actorId : UUID
  action : String
  candidateId : UUID
  frontmatterName : String
  /-- Slug and id of the official skill. -/
  official : Option (String × UUID)
  diff : Diff

/-- The row that `_audit` inserts, of the candidate as it was read. -/
def Request.auditRow (request : Request) (candidate : Candidate)
    (official : Option OfficialSkill) : AuditRow where
  actorId := request.adminId
  action :=
    match request.decision with
    | .promote => "skill_candidate.promote"
    | .reject _ => "skill_candidate.reject"
  candidateId := request.candidateId
  frontmatterName := candidate.frontmatterName
  official := official.map fun skill => (skill.slug, skill.id)
  diff :=
    match request.decision with
    | .promote => .promoted (official.map OfficialSkill.version) candidate.stats
    | .reject reason => .rejected reason

inductive HttpError where
  | notFound (message : String)
  | conflict (message : String)

/-! ### Transactions -/

/-- Where a transaction stands. A request has read its candidate, then the source, then it has
inserted the official skill, updated the candidate to a row and inserted the row of the audit. The
tick has written the rows it lists. -/
inductive Phase where
  | idle
  | readPending (request : Request) (candidate : Candidate)
  | sourced (request : Request) (candidate : Candidate) (source : SourceSkill)
  | published (request : Request) (candidate : Candidate) (official : OfficialSkill)
  | marked (request : Request) (candidate : Candidate) (official : Option OfficialSkill)
      (row : Candidate)
  | audited (request : Request) (candidate : Candidate) (official : Option OfficialSkill)
      (row : Candidate)
  | ticking (rows : List (UUID × Candidate))
  | refused (error : HttpError)
  | returned (row : Candidate)
  | ticked
  | aborted

inductive Event (Tx : Type) where
  | begin (tx : Tx) (request : Request)
  /-- The row of the skill may be gone. -/
  | readSource (tx : Tx) (present : Bool)
  | publish (tx : Tx) (officialId : UUID) (version : Int)
  | mark (tx : Tx)
  | audit (tx : Tx)
  | commit (tx : Tx)
  | startTick (tx : Tx)
  | refresh (tx : Tx) (candidateId : UUID) (agg : CandidateAggregate)
  | insert (tx : Tx) (candidateId : UUID) (agg : CandidateAggregate)
  | commitTick (tx : Tx)
  | abort (tx : Tx)

/-- The rows that a transaction has inserted, or all have. -/
structure Inserted where
  officials : List OfficialSkill := []
  audit : List AuditRow := []

def Inserted.append (before more : Inserted) : Inserted where
  officials := before.officials ++ more.officials
  audit := before.audit ++ more.audit

/-- A request that has succeeded, with the candidate as it was read and as it was written. -/
structure Served where
  request : Request
  candidate : Candidate
  official : Option OfficialSkill
  row : Candidate

structure State (Tx : Type) where
  candidates : Table Tx UUID (Option Candidate)
  /-- The ids that were ever inserted. -/
  ids : List UUID
  phase : Tx → Phase
  inserting : Tx → Inserted
  inserted : Inserted
  served : List Served

section System

variable {Tx : Type}

def State.initial : State Tx where
  candidates := .still fun _ => none
  ids := []
  phase := fun _ => .idle
  inserting := fun _ => {}
  inserted := {}
  served := []

variable [DecidableEq Tx]

def State.move (state : State Tx) (tx : Tx) (phase : Phase) : State Tx :=
  { state with phase := Function.update state.phase tx phase }

/-- The transaction inserts rows and goes on. -/
def State.insertRows (state : State Tx) (tx : Tx) (rows : Inserted) (phase : Phase) : State Tx :=
  { state.move tx phase with
    inserting := Function.update state.inserting tx ((state.inserting tx).append rows) }

/-- The transaction writes a candidate and goes on. -/
def State.writeRow (state : State Tx) (tx : Tx) (candidateId : UUID) (row : Candidate)
    (phase : Phase) : State Tx :=
  { state.move tx phase with candidates := state.candidates.write tx candidateId (some row) }

def State.finish (state : State Tx) (tx : Tx) (phase : Phase) (served : List Served) : State Tx :=
  { state.move tx phase with
    candidates := state.candidates.commit tx
    inserting := Function.update state.inserting tx {}
    inserted := state.inserted.append (state.inserting tx)
    served := state.served ++ served }

def State.rollback (state : State Tx) (tx : Tx) : State Tx :=
  { state.move tx .aborted with
    candidates := state.candidates.rollback tx
    inserting := Function.update state.inserting tx {} }

/-- `get` and the checks after it. -/
def begin (state : State Tx) (tx : Tx) (request : Request) : Option (State Tx) :=
  match state.phase tx with
  | .idle =>
    match state.candidates.view tx request.candidateId with
    | none => some (state.move tx (.refused (.notFound "candidate not found")))
    | some candidate =>
      if candidate.status = .pending then some (state.move tx (.readPending request candidate))
      else
        some (state.move tx
          (.refused (.conflict ("candidate already " ++ candidate.status.value))))
  | _ => none

/-- `get_source_skill`. What a row of the skills has never changes. -/
def readSource (content : UUID → SourceSkill) (state : State Tx) (tx : Tx) (present : Bool) :
    Option (State Tx) :=
  match state.phase tx with
  | .readPending request candidate =>
    match request.decision with
    | .promote =>
      if present then
        some (state.move tx (.sourced request candidate (content candidate.sourceSkillId)))
      else some (state.move tx (.refused (.notFound "source skill no longer exists")))
    | .reject _ => none
  | _ => none

/-- `create_official` or `update_official`, which give the row its id and version. -/
def publish (state : State Tx) (tx : Tx) (officialId : UUID) (version : Int) :
    Option (State Tx) :=
  match state.phase tx with
  | .sourced request candidate source =>
    let official := source.official officialId version request.adminId
    some (state.insertRows tx { officials := [official] } (.published request candidate official))
  | _ => none

/-- What a request is about to write. -/
def Phase.deciding : Phase → Option (Request × Candidate × Option OfficialSkill)
  | .readPending request candidate =>
    match request.decision with
    | .promote => none
    | .reject _ => some (request, candidate, none)
  | .published request candidate official => some (request, candidate, some official)
  | _ => none

/-- `mark_promoted` or `mark_rejected`, which wait for the lock of the row and then look at its
status; where it is not pending the assertion after it fails. -/
def mark (state : State Tx) (tx : Tx) : Option (State Tx) :=
  match (state.phase tx).deciding with
  | some (request, candidate, official) =>
    if (state.candidates request.candidateId).freeFor tx then
      match state.candidates.view tx request.candidateId with
      | some current =>
        if current.status = .pending then
          let row := request.decided official current
          some (state.writeRow tx request.candidateId row
            (.marked request candidate official row))
        else some (state.rollback tx)
      | none => some (state.rollback tx)
    else none
  | none => none

def audit (state : State Tx) (tx : Tx) : Option (State Tx) :=
  match state.phase tx with
  | .marked request candidate official row =>
    some (state.insertRows tx { audit := [request.auditRow candidate official] }
      (.audited request candidate official row))
  | _ => none

def commit (state : State Tx) (tx : Tx) : Option (State Tx) :=
  match state.phase tx with
  | .audited request candidate official row =>
    some (state.finish tx (.returned row) [{ request, candidate, official, row }])
  | _ => none

/-- A version of a row is pending under the name. -/
def pendingAs (name : String) : Option Candidate → Bool
  | some candidate => candidate.status = .pending && candidate.frontmatterName = name
  | none => false

theorem pendingAs_iff {name : String} {candidate : Candidate} :
    pendingAs name (some candidate) = true ↔
      candidate.status = .pending ∧ candidate.frontmatterName = name := by
  simp [pendingAs]

/-- The partial unique index has the name, for a row that is committed or is not yet. -/
def indexed (cell : Cell Tx (Option Candidate)) (name : String) : Bool :=
  pendingAs name cell.committed || cell.draft.any fun draft => pendingAs name draft.2

def startTick (state : State Tx) (tx : Tx) : Option (State Tx) :=
  match state.phase tx with
  | .idle => some (state.move tx (.ticking []))
  | _ => none

/-- `upsert_pending` of a name that is pending. It waits for the lock of the row. -/
def refresh (state : State Tx) (tx : Tx) (candidateId : UUID) (agg : CandidateAggregate) :
    Option (State Tx) :=
  match state.phase tx, state.candidates.view tx candidateId with
  | .ticking rows, some candidate =>
    if (state.candidates candidateId).freeFor tx ∧
        pendingAs agg.frontmatterName (some candidate) then
      let row := agg.refreshed candidate
      some (state.writeRow tx candidateId row (.ticking ((candidateId, row) :: rows)))
    else none
  | _, _ => none

/-- `upsert_pending` of a name that is not pending, with a new id. -/
def insert (state : State Tx) (tx : Tx) (candidateId : UUID) (agg : CandidateAggregate) :
    Option (State Tx) :=
  match state.phase tx with
  | .ticking rows =>
    if candidateId ∉ state.ids ∧
        state.ids.all fun id => !indexed (state.candidates id) agg.frontmatterName then
      some { state.writeRow tx candidateId agg.inserted
          (.ticking ((candidateId, agg.inserted) :: rows)) with
        ids := candidateId :: state.ids }
    else none
  | _ => none

def commitTick (state : State Tx) (tx : Tx) : Option (State Tx) :=
  match state.phase tx with
  | .ticking _ => some (state.finish tx .ticked [])
  | _ => none

/-- A statement raises, or the connection goes away. -/
def abort (state : State Tx) (tx : Tx) : Option (State Tx) :=
  match state.phase tx with
  | .idle | .refused _ | .returned _ | .ticked | .aborted => none
  | _ => some (state.rollback tx)

def step (content : UUID → SourceSkill) (state : State Tx) : Event Tx → Option (State Tx)
  | .begin tx request => begin state tx request
  | .readSource tx present => readSource content state tx present
  | .publish tx officialId version => publish state tx officialId version
  | .mark tx => mark state tx
  | .audit tx => audit state tx
  | .commit tx => commit state tx
  | .startTick tx => startTick state tx
  | .refresh tx candidateId agg => refresh state tx candidateId agg
  | .insert tx candidateId agg => insert state tx candidateId agg
  | .commitTick tx => commitTick state tx
  | .abort tx => abort state tx

end System

/-! ### What is to be kept -/

section Decided

variable {Tx : Type}

/-- A promotion publishes the content of the skill that the candidate came from when it was read. -/
def Publishes (content : UUID → SourceSkill) (request : Request) (candidate : Candidate)
    (official : Option OfficialSkill) : Prop :=
  match request.decision with
  | .promote => ∃ id version, official =
    some ((content candidate.sourceSkillId).official id version request.adminId)
  | .reject _ => official = none

/-- A request has written what it decides to a row that was pending, and published what it has to
of the candidate as it was read. -/
structure Served.Right (content : UUID → SourceSkill) (served : Served) : Prop where
  row : ∃ before : Candidate, before.status = .pending ∧
    before.frontmatterName = served.candidate.frontmatterName ∧
      served.row = served.request.decided served.official before
  official : Publishes content served.request served.candidate served.official

structure DecidedOnce (content : UUID → SourceSkill) (state : State Tx) : Prop where
  /-- A candidate that is not pending is what the one request to decide it has written. -/
  rows : ∀ id, (state.served.filter fun served => served.request.candidateId = id).map Served.row =
    (state.candidates.committed id).toList.filter fun candidate => candidate.status ≠ .pending
  right : ∀ served ∈ state.served, served.Right content
  audited : state.inserted.audit = state.served.map fun served =>
    served.request.auditRow served.candidate served.official
  published : state.inserted.officials = state.served.filterMap Served.official
  onePending : ∀ first second name, pendingAs name (state.candidates.committed first) = true →
    pendingAs name (state.candidates.committed second) = true → first = second

end Decided

end LiteHorse.Repositories.SkillPromotion
