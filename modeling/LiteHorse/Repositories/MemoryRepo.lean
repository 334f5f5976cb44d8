/-
This file models the documents of a user, memory.md and user.md, and their repository. The
table has one row for a user and a kind, which names the agent it belongs to.

Row security shows a transaction the rows of its user, and of these only the ones of its agent
if it has one. An insert that meets a row changes the row's text and leaves it to the agent it
belongs to, so a write in a transaction without an agent reaches whatever row there is
(`MemoryRepo.put_user`).
-/

import LiteHorse.Security.Validators
import LiteHorse.Storage.Db

namespace LiteHorse.Repositories

open Python Security Storage

/-! ### The rows -/

/-- The columns beside the key. -/
structure UserDocument where
  agentId : UUID
  content : String
  version : Nat

/-- The rows, by their primary key (user_id, kind). -/
abbrev UserDocuments := UUID → String → Option UserDocument

/-- The text of a document, `""` if it was never written. -/
def documentText (documents : UserDocuments) (userId : UUID) (kind : String) : String :=
  ((documents userId kind).map UserDocument.content).getD ""

def writeRow (documents : UserDocuments) (userId : UUID) (kind : String) (row : UserDocument) :
    UserDocuments :=
  Function.update documents userId (Function.update (documents userId) kind (some row))

/-- The row after the insert of one with the same key. -/
def upserted (documents : UserDocuments) (userId : UUID) (kind : String)
    (proposed : UserDocument) : UserDocument :=
  match documents userId kind with
  | none => proposed
  | some row => { row with content := proposed.content, version := row.version + 1 }

/-! ### The repository -/

inductive MemoryRepoError where
  | valueError (message : String)
  | runtimeError (message : String)
  | memoryFull (kind : String) (attempted limit : Nat)
  | unsafeMemoryContent (message : String)
  /-- The statement fails. -/
  | dbapiError

def memoryMdCharLimit : Nat := 2400

def userMdCharLimit : Nat := 1500

/-- `_LIMITS`, whose keys are the valid kinds. -/
def limits : List (String × Nat) :=
  [("memory.md", memoryMdCharLimit), ("user.md", userMdCharLimit)]

/-- `_LIMITS[kind]`, of a valid kind. -/
def limitOf (isPrintable : Char → Bool) (kind : String) : Except MemoryRepoError Nat :=
  match limits.lookup kind with
  | some limit => .ok limit
  | none => .error (.valueError ("unknown memory kind: " ++ reprString isPrintable kind))

/-- `current_user_id` -/
def currentUserId (session : DbSession) : Except MemoryRepoError UUID :=
  match session.userId with
  | some userId => .ok userId
  | none =>
    .error (.runtimeError ("app.user_id GUC is unset — repositories must be used inside " ++
      "`db_session(user_id)`"))

/-- `MemoryRepo.get` -/
def MemoryRepo.get (isPrintable : Char → Bool) (documents : UserDocuments) (session : DbSession)
    (kind : String) : Except MemoryRepoError String := do
  let _ ← limitOf isPrintable kind
  let userId ← currentUserId session
  let row := (documents userId kind).filter fun row => tenantIsolation session userId row.agentId
  return (row.map UserDocument.content).getD ""

/-- What `put` asks of a text before it writes. -/
def checkContent (kind content : String) (limit : Nat) : Except MemoryRepoError Unit :=
  if content.length > limit then .error (.memoryFull kind content.length limit)
  else if content ≠ "" then (checkUntrusted content).mapError .unsafeMemoryContent
  else .ok ()

/-- The column is a text of PostgreSQL, which has no NUL. -/
def textColumn (content : String) : Except MemoryRepoError Unit :=
  if '\x00' ∈ content.toList then .error .dbapiError else .ok ()

/-- `MemoryRepo.put`. The statement names no agent: `owner` is the one a first row gets. -/
def MemoryRepo.put (isPrintable : Char → Bool) (documents : UserDocuments) (session : DbSession)
    (owner : UUID) (kind content : String) : Except MemoryRepoError UserDocuments := do
  let limit ← limitOf isPrintable kind
  checkContent kind content limit
  let userId ← currentUserId session
  textColumn content
  let proposed : UserDocument := { agentId := owner, content, version := 1 }
  let row := upserted documents userId kind proposed
  if tenantIsolation session userId proposed.agentId &&
      tenantIsolation session userId row.agentId then
    return writeRow documents userId kind row
  else throw .dbapiError

/-! ### Transactions without an agent -/

section User

variable (isPrintable : Char → Bool) (documents : UserDocuments) (userId owner : UUID)
  (kind content : String)

/-- A read sees the document, whatever agent it belongs to. -/
theorem MemoryRepo.get_user :
    MemoryRepo.get isPrintable documents (dbSession (some userId)) kind =
      (limitOf isPrintable kind).map fun _ => documentText documents userId kind := by
  unfold MemoryRepo.get documentText
  cases limitOf isPrintable kind with
  | error error => rfl
  | ok limit =>
    have visible : ((documents userId kind).filter fun row =>
        tenantIsolation (dbSession (some userId)) userId row.agentId) = documents userId kind := by
      cases documents userId kind with
      | none => rfl
      | some row => exact Option.filter_some_pos (tenantIsolation_user userId row.agentId)
    show Except.ok _ = Except.ok _
    rw [visible]

/-- A write reaches the document, whatever agent it belongs to. -/
theorem MemoryRepo.put_user :
    MemoryRepo.put isPrintable documents (dbSession (some userId)) owner kind content =
      (do
        let limit ← limitOf isPrintable kind
        checkContent kind content limit
        textColumn content
        return writeRow documents userId kind
          (upserted documents userId kind { agentId := owner, content, version := 1 })) := by
  unfold MemoryRepo.put
  refine congrArg _ (funext fun limit => congrArg _ (funext fun _ => ?_))
  show (textColumn content >>= fun _ => _) = textColumn content >>= fun _ => _
  refine congrArg _ (funext fun _ => ?_)
  rw [if_pos]
  rw [tenantIsolation_user, tenantIsolation_user, Bool.and_true]

end User

section Rows

variable {documents : UserDocuments} {userId : UUID} {kind : String} {row : UserDocument}

theorem writeRow_self : writeRow documents userId kind row userId kind = some row := by
  unfold writeRow
  rw [Function.update_self, Function.update_self]

theorem writeRow_other {other : String} (different : other ≠ kind) :
    writeRow documents userId kind row userId other = documents userId other := by
  unfold writeRow
  rw [Function.update_self, Function.update_of_ne different]

theorem upserted_content (proposed : UserDocument) :
    (upserted documents userId kind proposed).content = proposed.content := by
  unfold upserted
  split
  · rfl
  · rfl

theorem documentText_writeRow (proposed : UserDocument) :
    documentText (writeRow documents userId kind (upserted documents userId kind proposed))
      userId kind = proposed.content := by
  unfold documentText
  rw [writeRow_self]
  exact upserted_content proposed

/-- Whoever writes, the document's text is what was written. -/
theorem MemoryRepo.documentText_put {isPrintable : Char → Bool} {session : DbSession}
    {owner : UUID} {content : String} {next : UserDocuments} (isUser : session.userId = some userId)
    (stored : MemoryRepo.put isPrintable documents session owner kind content = .ok next) :
    documentText next userId kind = content := by
  obtain ⟨limit, _, stored⟩ := bind_eq_ok_iff.mp stored
  obtain ⟨_, _, stored⟩ := bind_eq_ok_iff.mp stored
  obtain ⟨user, currentUser, stored⟩ := bind_eq_ok_iff.mp stored
  obtain ⟨_, _, stored⟩ := bind_eq_ok_iff.mp stored
  unfold currentUserId at currentUser
  rw [isUser] at currentUser
  cases currentUser
  dsimp only at stored
  split at stored
  next =>
    cases stored
    exact documentText_writeRow _
  next => cases stored

end Rows

end LiteHorse.Repositories
