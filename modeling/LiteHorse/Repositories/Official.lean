/-
This file models the official tier of the versioned tables: skills, instructions, commands
and mcp_servers. An administrator creates, updates, deletes and rolls back their rows;
every update writes a new version, and the versions are what a rollback is asked for.

The four repositories write the same statements and differ in the columns they carry over,
so a repository is given by the columns of a created row and by what an update makes of
the current row's. The statements themselves are those of `Library/Versions.lean`.

The next version is the current row's plus one, not the largest one plus one. A slug that is
deleted and created again, or rolled back and then updated, gets a version it already has,
and a rollback to it raises. The main result says that these are the only ways.
-/

import LiteHorse.Python
import LiteHorse.Library.Versions

namespace LiteHorse.Repositories

open Python Runs Versions

/-! ### The columns a version carries -/

structure Skill where
  mandatory : Bool
  enabledDefault : Bool
  frontmatter : List (String × Json)
  body : String
  createdBy : Option UUID

structure Instruction where
  mandatory : Bool
  priority : Int
  body : String
  createdBy : Option UUID

structure Command where
  mandatory : Bool
  description : Option String
  promptTpl : String
  argSchema : Option (List (String × Json))
  bindSkills : Option (List String)
  createdBy : Option UUID

structure McpServer where
  url : String
  authHeader : Option String
  authValueCt : Option ByteArray
  cacheToolsList : Bool
  enabled : Bool
  mandatory : Bool

/-- A repository of a versioned table: the arguments of its two writes, the columns of a
created row, and the columns an update makes of the current ones. -/
structure VersionedRepo where
  Content : Type
  CreateArgs : Type
  UpdateArgs : Type
  created : CreateArgs → Content
  updated : UpdateArgs → Content → Content

/-! ### The four repositories -/

structure SkillCreate where
  frontmatter : List (String × Json)
  body : String
  mandatory : Bool := false
  enabledDefault : Bool := true
  createdBy : Option UUID := none

structure SkillUpdate where
  frontmatter : Option (List (String × Json)) := none
  body : Option String := none
  mandatory : Option Bool := none
  enabledDefault : Option Bool := none
  createdBy : Option UUID := none

def skillRepo : VersionedRepo where
  Content := Skill
  CreateArgs := SkillCreate
  UpdateArgs := SkillUpdate
  created args :=
    { mandatory := args.mandatory
      enabledDefault := args.enabledDefault
      frontmatter := args.frontmatter
      body := args.body
      createdBy := args.createdBy }
  updated args current :=
    { mandatory := args.mandatory.getD current.mandatory
      enabledDefault := args.enabledDefault.getD current.enabledDefault
      frontmatter := args.frontmatter.getD current.frontmatter
      body := args.body.getD current.body
      createdBy := args.createdBy }

structure InstructionCreate where
  body : String
  priority : Int := 100
  mandatory : Bool := false
  createdBy : Option UUID := none

structure InstructionUpdate where
  body : Option String := none
  priority : Option Int := none
  mandatory : Option Bool := none
  createdBy : Option UUID := none

def instructionRepo : VersionedRepo where
  Content := Instruction
  CreateArgs := InstructionCreate
  UpdateArgs := InstructionUpdate
  created args :=
    { mandatory := args.mandatory
      priority := args.priority
      body := args.body
      createdBy := args.createdBy }
  updated args current :=
    { mandatory := args.mandatory.getD current.mandatory
      priority := args.priority.getD current.priority
      body := args.body.getD current.body
      createdBy := args.createdBy }

structure CommandCreate where
  promptTpl : String
  description : Option String := none
  argSchema : Option (List (String × Json)) := none
  bindSkills : Option (List String) := none
  mandatory : Bool := false
  createdBy : Option UUID := none

structure CommandUpdate where
  promptTpl : Option String := none
  description : Option String := none
  argSchema : Option (List (String × Json)) := none
  bindSkills : Option (List String) := none
  mandatory : Option Bool := none
  createdBy : Option UUID := none

/-- An update keeps the bound skills only when there are some: an empty list becomes NULL. -/
def commandRepo : VersionedRepo where
  Content := Command
  CreateArgs := CommandCreate
  UpdateArgs := CommandUpdate
  created args :=
    { mandatory := args.mandatory
      description := args.description
      promptTpl := args.promptTpl
      argSchema := args.argSchema
      bindSkills := args.bindSkills
      createdBy := args.createdBy }
  updated args current :=
    { mandatory := args.mandatory.getD current.mandatory
      description := args.description.or current.description
      promptTpl := args.promptTpl.getD current.promptTpl
      argSchema := args.argSchema.or current.argSchema
      bindSkills := args.bindSkills.or (current.bindSkills.filter fun skills => !skills.isEmpty)
      createdBy := args.createdBy }

/-- The key service a write is given: the plaintext and the encryption context to the
ciphertext. -/
structure Kms where
  encrypt : ByteArray → List (String × String) → ByteArray

/-- The ciphertext of an official row's auth value. -/
def Kms.encryptOfficial (kms : Kms) (authValue : String) : ByteArray :=
  kms.encrypt authValue.toUTF8 [("user_id", "official")]

structure McpCreate where
  url : String
  kms : Kms
  authHeader : Option String := none
  authValue : Option String := none
  cacheToolsList : Bool := true
  enabled : Bool := true
  mandatory : Bool := false

structure McpUpdate where
  kms : Kms
  url : Option String := none
  authHeader : Option String := none
  authValue : Option String := none
  clearAuthValue : Bool := false
  cacheToolsList : Option Bool := none
  enabled : Option Bool := none
  mandatory : Option Bool := none

def mcpRepo : VersionedRepo where
  Content := McpServer
  CreateArgs := McpCreate
  UpdateArgs := McpUpdate
  created args :=
    { url := args.url
      authHeader := args.authHeader
      authValueCt := args.authValue.map args.kms.encryptOfficial
      cacheToolsList := args.cacheToolsList
      enabled := args.enabled
      mandatory := args.mandatory }
  updated args current :=
    { url := args.url.getD current.url
      authHeader := args.authHeader.or current.authHeader
      authValueCt :=
        match args.authValue with
        | some authValue => some (args.kms.encryptOfficial authValue)
        | none =>
          if args.clearAuthValue then none
          else current.authValueCt.filter fun ciphertext => !ciphertext.isEmpty
      cacheToolsList := args.cacheToolsList.getD current.cacheToolsList
      enabled := args.enabled.getD current.enabled
      mandatory := args.mandatory.getD current.mandatory }

/-- The keys of `_VERSIONED_REPOS`. -/
inductive Entity where
  | skills
  | instructions
  | commands
  | mcpServers

def versionedRepo : Entity → VersionedRepo
  | .skills => skillRepo
  | .instructions => instructionRepo
  | .commands => commandRepo
  | .mcpServers => mcpRepo

/-! ### The writes of the official tier -/

section Writes

variable (repo : VersionedRepo)

/-- The official rows of a table. -/
abbrev OfficialRows := List (Row String repo.Content)

/-- A new row is version 1 and current; the partial unique index on the slugs of the current
official rows may refuse it. -/
def createOfficial (rows : OfficialRows repo) (slug : String) (args : repo.CreateArgs) :
    Except Error (OfficialRows repo × Row String repo.Content) :=
  create rows slug (repo.created args)

/-- Bump the version: flip the current row, insert a row with its version plus one. -/
def updateOfficial (rows : OfficialRows repo) (slug : String) (args : repo.UpdateArgs) :
    Except Error (Option (OfficialRows repo × Row String repo.Content)) :=
  update rows slug (repo.updated args)

/-- Soft delete: flip the current row. -/
def deleteOfficial (rows : OfficialRows repo) (slug : String) :
    Except Error (Option (OfficialRows repo)) :=
  delete rows slug

/-- Flip the current row and make the one row of the version current. -/
def rollbackOfficial (rows : OfficialRows repo) (slug : String) (version : Int) :
    Except Error (Option (OfficialRows repo × Row String repo.Content)) :=
  rollback rows slug version

/-- A call of the admin layer, with arbitrary arguments. -/
inductive OfficialCall where
  | createOfficial (slug : String) (args : repo.CreateArgs)
  | updateOfficial (slug : String) (args : repo.UpdateArgs)
  | deleteOfficial (slug : String)
  | rollbackOfficial (slug : String) (version : Int)

/-- The official rows after a call. A call that raises or finds no row changes nothing. -/
def callOfficial (rows : OfficialRows repo) : OfficialCall repo → OfficialRows repo
  | .createOfficial slug args =>
    match createOfficial repo rows slug args with
    | .ok (next, _) => next
    | .error _ => rows
  | .updateOfficial slug args =>
    match updateOfficial repo rows slug args with
    | .ok (some (next, _)) => next
    | _ => rows
  | .deleteOfficial slug =>
    match deleteOfficial repo rows slug with
    | .ok (some next) => next
    | _ => rows
  | .rollbackOfficial slug version =>
    match rollbackOfficial repo rows slug version with
    | .ok (some (next, _)) => next
    | _ => rows

/-- The table together with the rows the calls so far have inserted. -/
abbrev OfficialHistory := History String repo.Content

/-- One call, logged. Rows are inserted at the end and never removed. -/
def stepOfficial (history : OfficialHistory repo) (call : OfficialCall repo) :
    Option (OfficialHistory repo) :=
  let next := callOfficial repo history.rows call
  some ⟨next, history.written ++ next.drop history.rows.length⟩

/-- What a version promises: no two rows of a slug carry the same one, and a rollback finds
at most one row, never raises, and makes current exactly the content the version named when
it was first written. -/
def VersionsHold (history : OfficialHistory repo) : Prop :=
  (history.rows.Pairwise fun first second =>
    ¬ (first.name = second.name ∧ first.version = second.version)) ∧
  ∀ slug version,
    match rollbackOfficial repo history.rows slug version with
    | .error _ => False
    | .ok none => history.firstWritten slug version = none
    | .ok (some (next, target)) =>
      history.firstWritten slug version = some target.content ∧
        target.version = version ∧ next.filter (Row.currentOf slug) = [target]

/-- The call is not about to write a version its slug already has: a slug without a current
row is only created when it has no version 1, and only updated when the current row's
successor is not there. -/
def WritesNewVersion (history : OfficialHistory repo) : OfficialCall repo → Prop
  | .createOfficial slug _ =>
    (∀ row ∈ history.rows, row.name = slug → row.isCurrent = false) →
      ∀ row ∈ history.rows, row.name = slug → row.version ≠ 1
  | .updateOfficial slug _ =>
    ∀ current ∈ history.rows, current.name = slug → current.isCurrent = true →
      ∀ row ∈ history.rows, row.name = slug → row.version ≠ current.version + 1
  | .deleteOfficial _ | .rollbackOfficial _ _ => True

/-! ### The calls are steps of a versioned table -/

/-- The step of the versioned table a call performs. -/
def OfficialCall.toStep : OfficialCall repo → Step String repo.Content
  | .createOfficial slug args => .create slug (repo.created args)
  | .updateOfficial slug args => .update slug (repo.updated args)
  | .deleteOfficial slug => .delete slug
  | .rollbackOfficial slug version => .rollback slug version

theorem callOfficial_eq_apply (rows : OfficialRows repo) (call : OfficialCall repo) :
    callOfficial repo rows call = apply rows (call.toStep repo) := by
  cases call with
  | createOfficial slug args =>
    simp only [callOfficial, OfficialCall.toStep, apply, createOfficial]
    rcases create rows slug (repo.created args) with _ | _ <;> rfl
  | updateOfficial slug args =>
    simp only [callOfficial, OfficialCall.toStep, apply, updateOfficial]
    rcases update rows slug (repo.updated args) with _ | _ | _ <;> rfl
  | deleteOfficial slug =>
    simp only [callOfficial, OfficialCall.toStep, apply, deleteOfficial]
    rcases delete rows slug with _ | _ | _ <;> rfl
  | rollbackOfficial slug version =>
    simp only [callOfficial, OfficialCall.toStep, apply, rollbackOfficial]
    rcases rollback rows slug version with _ | _ | _ <;> rfl

theorem stepOfficial_eq_step (history : OfficialHistory repo) (call : OfficialCall repo) :
    stepOfficial repo history call = history.step (call.toStep repo) := by
  unfold stepOfficial History.step
  rw [callOfficial_eq_apply]

theorem versionsHold_iff (history : OfficialHistory repo) :
    VersionsHold repo history ↔ VersionsNameContent history := by
  refine and_congr Iff.rfl (forall_congr' fun slug => forall_congr' fun version => ?_)
  unfold rollbackOfficial
  rcases rollback history.rows slug version with _ | _ | _ <;> rfl

theorem writesNewVersion_iff (history : OfficialHistory repo) (call : OfficialCall repo) :
    WritesNewVersion repo history call ↔ FreshVersion history (call.toStep repo) := by
  cases call with
  | createOfficial slug args =>
    simp [WritesNewVersion, OfficialCall.toStep, FreshVersion, Row.currentOf, Row.versionOf]
  | updateOfficial slug args =>
    simp [WritesNewVersion, OfficialCall.toStep, FreshVersion, Row.currentOf, Row.versionOf]
  | deleteOfficial slug => exact Iff.rfl
  | rollbackOfficial slug version => exact Iff.rfl

/-- After any admin calls a slug has at most one current row. -/
theorem oneCurrent_calls (calls : List (OfficialCall repo)) (reached : OfficialHistory repo)
    (run : exec (stepOfficial repo) History.empty calls = some reached) :
    OneCurrent reached.rows := by
  rw [exec_map (OfficialCall.toStep repo) (stepOfficial_eq_step repo)] at run
  exact oneCurrent_run _ reached run

end Writes

/-! ### The main result -/

/-- For each of the four tables and every sequence of admin calls from the empty table, every
state keeps what its versions promise exactly when no call writes a version its slug already
has. -/
theorem versionsHold_iff_writesNewVersion (entity : Entity)
    (calls : List (OfficialCall (versionedRepo entity))) :
    Always (stepOfficial (versionedRepo entity)) (VersionsHold (versionedRepo entity))
        History.empty calls ↔
      StepsMeet (stepOfficial (versionedRepo entity)) (WritesNewVersion (versionedRepo entity))
        History.empty calls := by
  rw [always_map (OfficialCall.toStep (versionedRepo entity))
      (stepOfficial_eq_step (versionedRepo entity)),
    stepsMeet_map (OfficialCall.toStep (versionedRepo entity))
      (stepOfficial_eq_step (versionedRepo entity))
      (writesNewVersion_iff (versionedRepo entity)),
    ← always_versionsNameContent_iff]
  exact ⟨Always.mono _ fun history => (versionsHold_iff (versionedRepo entity) history).mp,
    Always.mono _ fun history => (versionsHold_iff (versionedRepo entity) history).mpr⟩

/-- A skill that is created, deleted and created again has two rows of version 1, and a
rollback to version 1 raises. -/
theorem recreated_slug_repeats_version :
    ¬ Always (stepOfficial (versionedRepo .skills)) (VersionsHold (versionedRepo .skills))
        History.empty
        [.createOfficial "deploy" { frontmatter := [], body := "first" },
          .deleteOfficial "deploy",
          .createOfficial "deploy" { frontmatter := [], body := "second" }] := by
  intro always
  have last := always.last _ rfl
  have raises := last.2 "deploy" 1
  exact raises

end LiteHorse.Repositories
