/-
This file models the user tier of the layered tables: the rows of a user in skills,
instructions, commands and mcp_servers, and the user's opt-outs of official entities. User
rows are changed in place, without a new version.

As in the official tier the four repositories write the same statements, and a repository is
given by the columns of a created row and by what an update makes of a row's. No repository
gives a created row an agent, and the tables demand one of every user row, so the only user
rows are those the agents migration has filled in (`createUser_refused`).
-/

import LiteHorse.Repositories.Official

namespace LiteHorse.Repositories

open Python Versions

/-- A user-scope row of a layered table. -/
structure UserRow (Content : Type) where
  row : Row String Content
  agentId : Option UUID

/-- The arguments of the two writes of a repository, the columns of a row that the user
creates, and the columns an update makes of a row's. -/
structure UserRepo (Content : Type) where
  CreateArgs : Type
  UpdateArgs : Type
  created : String → CreateArgs → Content
  /-- The update sets some column. -/
  changes : UpdateArgs → Bool
  updated : String → UpdateArgs → Content → Content

/-! ### The four repositories -/

structure SkillCreateUser where
  frontmatter : List (String × Json) := []
  body : String
  enabledDefault : Bool := true

structure SkillUpdateUser where
  frontmatter : Option (List (String × Json)) := none
  body : Option String := none
  enabledDefault : Option Bool := none

def skillUserRepo : UserRepo Skill where
  CreateArgs := SkillCreateUser
  UpdateArgs := SkillUpdateUser
  created userId args :=
    { mandatory := false
      enabledDefault := args.enabledDefault
      frontmatter := args.frontmatter
      body := args.body
      createdBy := some (uuidOf userId) }
  changes args := args.frontmatter.isSome || args.body.isSome || args.enabledDefault.isSome
  updated _ args current :=
    { current with
      frontmatter := args.frontmatter.getD current.frontmatter
      body := args.body.getD current.body
      enabledDefault := args.enabledDefault.getD current.enabledDefault }

structure InstructionCreateUser where
  body : String
  priority : Int := 100

structure InstructionUpdateUser where
  body : Option String := none
  priority : Option Int := none

def instructionUserRepo : UserRepo Instruction where
  CreateArgs := InstructionCreateUser
  UpdateArgs := InstructionUpdateUser
  created userId args :=
    { mandatory := false
      priority := args.priority
      body := args.body
      createdBy := some (uuidOf userId) }
  changes args := args.body.isSome || args.priority.isSome
  updated _ args current :=
    { current with
      body := args.body.getD current.body
      priority := args.priority.getD current.priority }

structure CommandCreateUser where
  promptTpl : String
  description : Option String := none
  argSchema : Option (List (String × Json)) := none
  bindSkills : Option (List String) := none

structure CommandUpdateUser where
  promptTpl : Option String := none
  description : Option String := none
  argSchema : Option (List (String × Json)) := none
  bindSkills : Option (List String) := none

def commandUserRepo : UserRepo Command where
  CreateArgs := CommandCreateUser
  UpdateArgs := CommandUpdateUser
  created userId args :=
    { mandatory := false
      description := args.description
      promptTpl := args.promptTpl
      argSchema := args.argSchema
      bindSkills := args.bindSkills
      createdBy := some (uuidOf userId) }
  changes args :=
    args.promptTpl.isSome || args.description.isSome || args.argSchema.isSome ||
      args.bindSkills.isSome
  updated _ args current :=
    { current with
      promptTpl := args.promptTpl.getD current.promptTpl
      description := args.description.or current.description
      argSchema := args.argSchema.or current.argSchema
      bindSkills := args.bindSkills.or current.bindSkills }

/-- The ciphertext of a user row's auth value. -/
def Kms.encryptUser (kms : Kms) (userId authValue : String) : ByteArray :=
  kms.encrypt authValue.toUTF8 [("user_id", userId)]

structure McpCreateUser where
  url : String
  kms : Kms
  authHeader : Option String := none
  authValue : Option String := none
  cacheToolsList : Bool := true
  enabled : Bool := true

structure McpUpdateUser where
  kms : Kms
  url : Option String := none
  authHeader : Option String := none
  authValue : Option String := none
  clearAuthValue : Bool := false
  cacheToolsList : Option Bool := none
  enabled : Option Bool := none

def mcpUserRepo : UserRepo McpServer where
  CreateArgs := McpCreateUser
  UpdateArgs := McpUpdateUser
  created userId args :=
    { url := args.url
      authHeader := args.authHeader
      authValueCt := args.authValue.map (args.kms.encryptUser userId)
      cacheToolsList := args.cacheToolsList
      enabled := args.enabled
      mandatory := false }
  changes args :=
    args.url.isSome || args.authHeader.isSome || args.authValue.isSome || args.clearAuthValue ||
      args.cacheToolsList.isSome || args.enabled.isSome
  updated userId args current :=
    { current with
      url := args.url.getD current.url
      authHeader := args.authHeader.or current.authHeader
      authValueCt :=
        match args.authValue with
        | some authValue => some (args.kms.encryptUser userId authValue)
        | none => if args.clearAuthValue then none else current.authValueCt
      cacheToolsList := args.cacheToolsList.getD current.cacheToolsList
      enabled := args.enabled.getD current.enabled }

def userRepo : (entity : Entity) → UserRepo (versionedRepo entity).Content
  | .skills => skillUserRepo
  | .instructions => instructionUserRepo
  | .commands => commandUserRepo
  | .mcpServers => mcpUserRepo

/-! ### The writes of the user tier -/

section Writes

variable {Content : Type} (repo : UserRepo Content) (userId : String)

/-- Insert a current row. The check constraint wants an agent of a user row, and the partial
unique index refuses a second current row of a slug. -/
def insertUser (rows : List (UserRow Content)) (row : UserRow Content) :
    Except Error (List (UserRow Content)) :=
  if row.agentId.isNone || rows.any (fun other => other.row.currentOf row.row.name) then
    .error .integrityError
  else .ok (rows ++ [row])

def createUser (rows : List (UserRow Content)) (slug : String) (args : repo.CreateArgs) :
    Except Error (List (UserRow Content)) :=
  insertUser rows
    { row := { name := slug, version := 1, isCurrent := true, content := repo.created userId args }
      agentId := none }

/-- `get_user` -/
def getUser (rows : List (UserRow Content)) (slug : String) :
    Except Error (Option (UserRow Content)) :=
  scalarOneOrNone (rows.filter fun row => row.row.currentOf slug)

/-- The rows after the update; `none` when there is no current row of the slug. -/
def updateUser (rows : List (UserRow Content)) (slug : String) (args : repo.UpdateArgs) :
    Except Error (Option (List (UserRow Content))) := do
  match ← getUser rows slug with
  | none => return none
  | some _ =>
    if repo.changes args then
      return some (rows.map fun row =>
        if row.row.currentOf slug then
          { row with row.content := repo.updated userId args row.row.content }
        else row)
    else return some rows

/-- Delete every row of the slug; `none` when there is none. -/
def deleteUser (rows : List (UserRow Content)) (slug : String) : Option (List (UserRow Content)) :=
  if rows.any (fun row => row.row.name = slug) then
    some (rows.filter fun row => row.row.name ≠ slug)
  else none

/-- A row is never created: the insert breaks the check constraint. -/
theorem createUser_refused (rows : List (UserRow Content)) (slug : String)
    (args : repo.CreateArgs) : createUser repo userId rows slug args = .error .integrityError := by
  unfold createUser insertUser
  rw [if_pos]
  rfl

/-! ### What a write leaves of the current rows -/

variable {rows next : List (UserRow Content)} {slug other : String} {row : UserRow Content}

theorem getUser_eq_some :
    getUser rows slug = .ok (some row) ↔
      (rows.filter fun row => row.row.currentOf slug) = [row] := scalarOneOrNone_eq_some

theorem getUser_eq_none :
    getUser rows slug = .ok none ↔ (rows.filter fun row => row.row.currentOf slug) = [] :=
  scalarOneOrNone_eq_none

theorem getUser_append_own (absent : getUser rows slug = .ok none)
    (isOwn : row.row.currentOf slug) : getUser (rows ++ [row]) slug = .ok (some row) := by
  rw [getUser_eq_none] at absent
  rw [getUser_eq_some, List.filter_append, absent]
  simp [isOwn]

theorem getUser_append_other (isOther : row.row.name ≠ other) :
    getUser (rows ++ [row]) other = getUser rows other := by
  unfold getUser
  rw [List.filter_append]
  simp [Row.currentOf, isOther]

/-- What an update of the slug makes of a row. -/
def UserRow.update (slug : String) (args : repo.UpdateArgs) (row : UserRow Content) :
    UserRow Content :=
  if row.row.currentOf slug then
    { row with row.content := repo.updated userId args row.row.content }
  else row

theorem currentOf_update (args : repo.UpdateArgs) :
    (row.update repo userId slug args).row.currentOf other = row.row.currentOf other := by
  unfold UserRow.update
  split <;> rfl

theorem filter_map_update (args : repo.UpdateArgs) :
    ((rows.map fun row => row.update repo userId slug args).filter
        fun row => row.row.currentOf other) =
      (rows.filter fun row => row.row.currentOf other).map
        fun row => row.update repo userId slug args := by
  rw [List.filter_map]
  exact congrArg _ (List.filter_congr fun row _ => currentOf_update repo userId args)

theorem updateUser_of_found {args : repo.UpdateArgs} (found : getUser rows slug = .ok (some row))
    (changes : repo.changes args) :
    updateUser repo userId rows slug args =
      .ok (some (rows.map fun row => row.update repo userId slug args)) := by
  unfold updateUser
  rw [found]
  change (if repo.changes args then _ else _) = _
  rw [if_pos changes]
  rfl

/-- An update changes the columns of the current row of the slug. -/
theorem getUser_map_update_own (args : repo.UpdateArgs)
    (found : getUser rows slug = .ok (some row)) :
    getUser (rows.map fun row => row.update repo userId slug args) slug =
      .ok (some { row with row.content := repo.updated userId args row.row.content }) := by
  rw [getUser_eq_some] at found ⊢
  have member : row ∈ rows.filter fun row => row.row.currentOf slug := by simp [found]
  rw [filter_map_update, found]
  exact congrArg (fun row => [row]) (if_pos (List.mem_filter.mp member).2)

theorem getUser_map_update_other (args : repo.UpdateArgs) (isOther : other ≠ slug) :
    getUser (rows.map fun row => row.update repo userId slug args) other =
      getUser rows other := by
  unfold getUser
  rw [filter_map_update]
  have unchanged : ∀ row ∈ rows.filter fun row => row.row.currentOf other,
      row.update repo userId slug args = row := by
    intro row member
    refine if_neg fun isOwn => isOther ?_
    have named := (List.mem_filter.mp member).2
    simp only [Row.currentOf, Bool.and_eq_true, decide_eq_true_eq] at isOwn named
    exact named.1.symm.trans isOwn.1
  rw [List.map_congr_left unchanged, List.map_id']

/-- A delete leaves no current row of the slug, and the rows of the other slugs. -/
theorem deleteUser_some (deleted : deleteUser rows slug = some next) :
    getUser next slug = .ok none ∧
      ∀ other, other ≠ slug → getUser next other = getUser rows other := by
  unfold deleteUser at deleted
  split at deleted
  · cases deleted
    refine ⟨?_, fun other isOther => ?_⟩
    · rw [getUser_eq_none, List.filter_filter, List.filter_eq_nil_iff]
      intro row _
      simp only [Row.currentOf, Bool.and_eq_true, decide_eq_true_eq]
      rintro ⟨⟨isOwn, _⟩, isOther⟩
      exact isOther isOwn
    · unfold getUser
      rw [List.filter_filter]
      congr 1
      refine List.filter_congr fun row _ => ?_
      by_cases isOwn : row.row.name = slug
      · simp [Row.currentOf, isOwn, isOther.symm]
      · simp [isOwn]
  · cases deleted

end Writes

/-! ### Opt-outs -/

def validEntities : List String := ["skill", "instruction", "command", "mcp_server", "cron_job"]

/-- `OptOutRepo.add`: the primary key makes it idempotent. -/
def OptOutRepo.add (optOuts : List (String × String)) (entity slug : String) :
    List (String × String) :=
  if (entity, slug) ∈ optOuts then optOuts else optOuts ++ [(entity, slug)]

/-- `OptOutRepo.remove`; `none` when there is nothing to remove. -/
def OptOutRepo.remove (optOuts : List (String × String)) (entity slug : String) :
    Option (List (String × String)) :=
  if (entity, slug) ∈ optOuts then some (optOuts.filter (· ≠ (entity, slug))) else none

end LiteHorse.Repositories
