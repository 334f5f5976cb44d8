/-
This file is about the archive of a user's rows that the worker writes before the purge. It
selects nothing itself: it reads a fixed list of tables in a session with `app.user_id` set,
and what it gets is what the row-level-security policies admit. The purge, on the other
side, follows the foreign keys.

The two differ on both sides. `agents` and `usage_events` are on the list and have no policy,
so every user's rows of them are in the archive; six tables whose rows go with a user are not
on the list. `exportExact_iff` says when the archive is exact all the same.
-/

import LiteHorse.Storage.Db
import LiteHorse.Worker.GdprPurge

namespace LiteHorse.Worker

open ForeignKeys Models Python

/-! ### The row-level-security policies -/

/-- The settings a database session has: `current_setting('app.user_id', true)` is null
without a user. -/
structure TenantSettings where
  appUserId : Option String
  appAgentId : String

/-- `db_session`. -/
def dbSession (userId : Option String) (agentId : Option String := none) : TenantSettings where
  appUserId := userId
  appAgentId := agentId.getD ""

/-- The tables whose policy compares `agent_id` as well. -/
def agentPolicyTables : List Table :=
  [.userDocuments, .sessions, .skillProposals, .memoryChunks, .sessionSummaries, .turnOutcomes]

/-- The policy `tenant_isolation` of the row's table admits the row. A comparison with null
admits nothing; a table without a policy shows every row. -/
def admits {Data : Type*} (settings : TenantSettings) (row : Row Table Column String Data) : Bool :=
  let ownUser := settings.appUserId.isSome && row.refs .userId = settings.appUserId
  if row.table = .messages then ownUser
  else if row.table ∈ agentPolicyTables then
    ownUser && (settings.appAgentId = "" || row.refs .agentId = some settings.appAgentId)
  else true

/-- The policy compares texts. As the text of an id is its own and not empty, this is the policy
on the ids. -/
theorem admits_eq_tenantIsolation {text : UUID → String} (injective : Function.Injective text)
    (nonempty : ∀ id, text id ≠ "") (session : Storage.DbSession) {userId agentId : UUID}
    {Data : Type*} {row : Row Table Column String Data} (hasPolicy : row.table ∈ agentPolicyTables)
    (rowUser : row.refs .userId = some (text userId))
    (rowAgent : row.refs .agentId = some (text agentId)) :
    admits (dbSession (session.userId.map text) (session.agentId.map text)) row =
      Storage.tenantIsolation session userId agentId := by
  have notMessages : row.table ≠ .messages := by
    intro isMessages
    rw [isMessages] at hasPolicy
    revert hasPolicy
    decide
  have sameText : ∀ id other, some (text id) = some (text other) ↔ some other = some id := by
    intro id other
    rw [Option.some_inj, Option.some_inj, injective.eq_iff, eq_comm]
  have ownUser : ((session.userId.map text).isSome &&
      decide (some (text userId) = session.userId.map text)) =
        decide (session.userId = some userId) := by
    cases session.userId with
    | none => rfl
    | some id => exact decide_eq_decide.mpr (sameText userId id)
  have ownAgent : (decide ((session.agentId.map text).getD "" = "") ||
      decide (some (text agentId) = some ((session.agentId.map text).getD ""))) =
        (session.agentId.isNone || decide (session.agentId = some agentId)) := by
    cases session.agentId with
    | none => rfl
    | some id =>
      show (decide (text id = "") || decide (some (text agentId) = some (text id))) =
        (false || decide (some id = some agentId))
      rw [decide_eq_false (nonempty id)]
      exact congrArg (false || ·) (decide_eq_decide.mpr (sameText agentId id))
  unfold admits Storage.tenantIsolation
  rw [if_neg notMessages, if_pos hasPolicy, rowUser, rowAgent]
  exact congrArg₂ (· && ·) ownUser ownAgent

/-! ### The archive -/

/-- A column's value as the driver returns it. -/
inductive Value where
  | uuid (text : String)
  | time (isoformat : String)
  | bytes (content : List UInt8)
  | json (value : Json)

/-- `_stringify`. -/
def stringify : Value → Json
  | .uuid text => .str text
  | .time isoformat => .str isoformat
  | .bytes content => .str (String.join (content.map fun byte => hexDigits 2 byte.toNat))
  | .json value => value

/-- A row with its other columns by name. -/
abbrev StoredRow := Row Table Column String (List (String × Value))

/-- A row of the archive. The keys of a row are texts already. -/
abbrev DumpedRow := Row Table Column String (List (String × Json))

def dumpRow (row : StoredRow) : DumpedRow :=
  { row with data := row.data.map fun (name, value) => (name, stringify value) }

/-- `GDPR_TENANT_TABLES`. -/
def gdprTenantTables : List Table :=
  [.memoryChunks, .turnOutcomes, .sessionSummaries, .messages, .sessions, .userDocuments,
    .skillProposals, .agents, .usageEvents]

/-- `GdprDeleteRepo.dump_tenant_rows`. -/
def dumpTenantRows (settings : TenantSettings) (rows : List StoredRow) :
    List (Table × List DumpedRow) :=
  gdprTenantTables.map fun table =>
    (table, (rows.filter fun row => row.table = table && admits settings row).map dumpRow)

/-- `_collect_export`. -/
def collectExport (user : String) (database : Database foreignKeys String (List (String × Value))) :
    List (Table × List DumpedRow) :=
  dumpTenantRows (dbSession (some user)) database.rows

/-- The archive has the row. -/
def Archived (archive : List (Table × List DumpedRow)) (row : StoredRow) : Prop :=
  ∃ entries, (row.table, entries) ∈ archive ∧ dumpRow row ∈ entries

/-- Every row of the archive that names a user names this one. -/
def NoOtherUser (user : String) (archive : List (Table × List DumpedRow)) : Prop :=
  ∀ table entries, (table, entries) ∈ archive → ∀ entry ∈ entries, ∀ owner,
    entry.refs .userId = some owner → owner = user

/-- The archive has every row the purge removes and no row of another user. -/
def ExportExact (user : String)
    (database : Database foreignKeys String (List (String × Value))) : Prop :=
  (∀ row, Removed user database row → Archived (collectExport user database) row) ∧
    NoOtherUser user (collectExport user database)

/-- The same, with the user's own row in `users` left out of account. -/
def ExportExactBesidesAccount (user : String)
    (database : Database foreignKeys String (List (String × Value))) : Prop :=
  (∀ row, Removed user database row → row.table ≠ .users →
    Archived (collectExport user database) row) ∧
    NoOtherUser user (collectExport user database)

/-- Only the user has agents and usage events. -/
def OnlyUser (user : String)
    (database : Database foreignKeys String (List (String × Value))) : Prop :=
  ∀ row ∈ database.rows, row.table ∈ [.agents, .usageEvents] →
    ∀ owner, row.refs .userId = some owner → owner = user

/-- Everything that goes with the user is in a table of the archive and carries the user's
id: the user has no row in the other tables, what hangs on its agents is in those tables and
its own, and what hangs on its sessions is its own. -/
structure WithinArchive (user : String)
    (database : Database foreignKeys String (List (String × Value))) : Prop where
  byUser : ∀ row ∈ database.rows, row.table ∈ userIdTables → row.refs .userId = some user →
    row.table ∈ gdprTenantTables
  byAgent : ∀ row ∈ database.rows, row.table ∈ agentIdTables →
    (∃ agent ∈ database.rows, agent.table = .agents ∧ agent.refs .userId = some user ∧
      row.refs .agentId = some agent.key) →
    row.table ∈ gdprTenantTables ∧ row.refs .userId = some user
  bySession : ∀ row ∈ database.rows, row.table ∈ sessionIdTables →
    (∃ session ∈ database.rows, session.table = .sessions ∧ session.refs .userId = some user ∧
      row.refs .sessionId = some session.key) →
    row.refs .userId = some user

section Exact

variable {user : String} {database : Database foreignKeys String (List (String × Value))}
  {row : StoredRow}

/-! ### What is in the archive -/

theorem admits_iff :
    admits (dbSession (some user)) row = true ↔
      (row.table ∈ Table.messages :: agentPolicyTables → row.refs .userId = some user) := by
  unfold admits dbSession
  split
  · simp [*]
  · split <;> simp [*]

/-- Every entry of the archive is the dump of an admitted row. -/
theorem source_of_entry {table : Table} {entries : List DumpedRow} {entry : DumpedRow}
    (inArchive : (table, entries) ∈ collectExport user database) (member : entry ∈ entries) :
    ∃ source ∈ database.rows, source.table = table ∧ dumpRow source = entry ∧
      table ∈ gdprTenantTables ∧
      (table ∈ Table.messages :: agentPolicyTables → source.refs .userId = some user) := by
  obtain ⟨_, inTables, same⟩ := List.mem_map.mp inArchive
  cases same
  obtain ⟨source, sourceMember, sameDump⟩ := List.mem_map.mp member
  rw [List.mem_filter, Bool.and_eq_true, decide_eq_true_iff, admits_iff] at sourceMember
  obtain ⟨inRows, rfl, admitted⟩ := sourceMember
  exact ⟨source, inRows, rfl, sameDump, inTables, admitted⟩

/-- The archive has exactly the rows of its tables that the policies admit. -/
theorem archived_iff (member : row ∈ database.rows) :
    Archived (collectExport user database) row ↔
      row.table ∈ gdprTenantTables ∧
        (row.table ∈ Table.messages :: agentPolicyTables → row.refs .userId = some user) := by
  constructor
  · rintro ⟨entries, inArchive, entry⟩
    obtain ⟨source, inRows, sameTable, sameDump, inTables, admitted⟩ :=
      source_of_entry inArchive entry
    have sameKey : source.key = row.key := congrArg (fun dumped : DumpedRow => dumped.key) sameDump
    rw [database.row_unique inRows member sameTable sameKey] at admitted
    exact ⟨inTables, admitted⟩
  · rintro ⟨inTables, admitted⟩
    refine ⟨_, List.mem_map.mpr ⟨row.table, inTables, rfl⟩, List.mem_map_of_mem ?_⟩
    rw [List.mem_filter, Bool.and_eq_true, decide_eq_true_iff, admits_iff]
    exact ⟨member, rfl, admitted⟩

/-- Two tables of the archive have no policy. -/
theorem tables_without_policy {table : Table} (inTables : table ∈ gdprTenantTables) :
    table ∈ Table.messages :: agentPolicyTables ∨ table ∈ [.agents, .usageEvents] := by
  revert inTables
  cases table <;> decide

/-- Another user is in the archive through a table without a policy or not at all. -/
theorem noOtherUser_iff :
    NoOtherUser user (collectExport user database) ↔ OnlyUser user database := by
  constructor
  · intro noOther row member inTables owner refers
    have inArchive : Archived (collectExport user database) row := by
      refine (archived_iff member).mpr ?_
      rcases List.mem_pair.mp inTables with inTable | inTable <;>
      · rw [inTable]
        exact ⟨by decide, fun hasPolicy => absurd hasPolicy (by decide)⟩
    obtain ⟨entries, tableMember, entry⟩ := inArchive
    exact noOther row.table entries tableMember (dumpRow row) entry owner refers
  · intro onlyUser table entries inArchive entry member owner refers
    obtain ⟨source, inRows, rfl, rfl, inTables, admitted⟩ := source_of_entry inArchive member
    rcases tables_without_policy inTables with hasPolicy | noPolicy
    · exact Option.some.inj (refers.symm.trans (admitted hasPolicy))
    · exact onlyUser source inRows noPolicy owner refers

/-! ### What goes and is not in the archive -/

theorem agentIdTables_facts {table : Table} (inTables : table ∈ agentIdTables) :
    table ≠ .users ∧ (table ∈ gdprTenantTables → table ∈ Table.messages :: agentPolicyTables) := by
  revert inTables
  cases table <;> decide

theorem sessionIdTables_facts {table : Table} (inTables : table ∈ sessionIdTables) :
    table ≠ .users ∧ table ∈ gdprTenantTables ∧ table ∈ Table.messages :: agentPolicyTables := by
  revert inTables
  cases table <;> decide

/-- In a state within the archive, the sessions that go are the user's. -/
theorem WithinArchive.session (within : WithinArchive user database)
    (goes : GoesWith user database row) (inSessions : row.table = .sessions) :
    row.refs .userId = some user := by
  have reached := (goesWith_iff.mp goes).2
  rw [exists_agent_goesWith] at reached
  rcases reached with ⟨inUsers, _⟩ | ⟨_, refers⟩ | ⟨inTables, hangs⟩ | ⟨inTables, _⟩ | ⟨other, _⟩
  · exact absurd (inSessions.symm.trans inUsers) (by decide)
  · exact refers
  · exact (within.byAgent row goes.mem inTables hangs).2
  · rw [inSessions] at inTables
    exact absurd inTables (by decide)
  · exact absurd (inSessions.symm.trans other) (by decide)

/-- In a state within the archive, no skill goes. -/
theorem WithinArchive.skill (within : WithinArchive user database)
    (goes : GoesWith user database row) : row.table ≠ .skills := by
  intro inSkills
  have owned := ((goesWith_createdByTables (by rw [inSkills]; decide)).mp goes).2
  have inTables : row.table ∈ gdprTenantTables := by
    rcases owned with refers | hangs
    · exact within.byUser row goes.mem (by rw [inSkills]; decide) refers
    · exact (within.byAgent row goes.mem (by rw [inSkills]; decide) hangs).1
  rw [inSkills] at inTables
  exact absurd inTables (by decide)

/-- The archive has all that goes with the user, its own row apart, exactly in the states that
are `WithinArchive`. -/
theorem goesWith_archived_iff :
    (∀ row, GoesWith user database row → row.table ≠ .users →
        Archived (collectExport user database) row) ↔ WithinArchive user database := by
  constructor
  · intro archived
    have inArchive (row : StoredRow) (goes : GoesWith user database row)
        (notUser : row.table ≠ .users) := (archived_iff goes.mem).mp (archived row goes notUser)
    refine ⟨fun row member inTables refers => ?_, fun row member inTables hangs => ?_,
      fun row member inTables hangs => ?_⟩
    · refine (inArchive row (goesWith_iff.mpr ⟨member, Or.inr (Or.inl ⟨inTables, refers⟩)⟩) ?_).1
      intro inUsers
      rw [inUsers] at inTables
      exact absurd inTables (by decide)
    · obtain ⟨notUser, policy⟩ := agentIdTables_facts inTables
      obtain ⟨archivedTable, admitted⟩ := inArchive row (goesWith_iff.mpr ⟨member,
        Or.inr (Or.inr (Or.inl ⟨inTables, exists_agent_goesWith.mpr hangs⟩))⟩) notUser
      exact ⟨archivedTable, admitted (policy archivedTable)⟩
    · obtain ⟨session, sessionMember, inSessions, owner, refers⟩ := hangs
      have sessionGoes : GoesWith user database session := by
        refine goesWith_iff.mpr ⟨sessionMember, Or.inr (Or.inl ⟨?_, owner⟩)⟩
        rw [inSessions]
        decide
      obtain ⟨notUser, _, policy⟩ := sessionIdTables_facts inTables
      exact (inArchive row (goesWith_iff.mpr ⟨member, Or.inr (Or.inr (Or.inr (Or.inl
        ⟨inTables, session, sessionGoes, inSessions, refers⟩)))⟩) notUser).2 policy
  · intro within row goes notUser
    refine (archived_iff goes.mem).mpr ?_
    have reached := (goesWith_iff.mp goes).2
    rw [exists_agent_goesWith] at reached
    rcases reached with ⟨inUsers, _⟩ | ⟨inTables, refers⟩ | ⟨inTables, hangs⟩ |
      ⟨inTables, session, sessionGoes, inSessions, refers⟩ | ⟨_, skill, skillGoes, inSkills, _⟩
    · exact absurd inUsers notUser
    · exact ⟨within.byUser row goes.mem inTables refers, fun _ => refers⟩
    · obtain ⟨archivedTable, refers⟩ := within.byAgent row goes.mem inTables hangs
      exact ⟨archivedTable, fun _ => refers⟩
    · refine ⟨(sessionIdTables_facts inTables).2.1, fun _ => ?_⟩
      exact within.bySession row goes.mem inTables
        ⟨session, sessionGoes.mem, inSessions, within.session sessionGoes inSessions, refers⟩
    · exact absurd inSkills (within.skill skillGoes)

/-! ### When the archive is exact -/

theorem exportExactBesidesAccount_iff :
    ExportExactBesidesAccount user database ↔
      (Purgeable user database → WithinArchive user database) ∧ OnlyUser user database := by
  rw [ExportExactBesidesAccount, noOtherUser_iff, ← goesWith_archived_iff]
  simp only [removed_iff, and_imp]
  exact and_congr_left fun _ =>
    ⟨fun archived purgeable row => archived row purgeable,
      fun archived row purgeable => archived purgeable row⟩

/-- The archive of a user is exact only when the purge removes nothing and no other user has
agents or usage events, since the user's own row is never in it. With that row left out of
account, it is exact when what the purge removes is within the archive. -/
theorem exportExact_iff (user : String)
    (database : Database foreignKeys String (List (String × Value)))
    (isUser : ∃ row ∈ database.rows, row.table = .users ∧ row.key = user) :
    (ExportExact user database ↔ ¬ Purgeable user database ∧ OnlyUser user database) ∧
      (ExportExactBesidesAccount user database ↔
        (Purgeable user database → WithinArchive user database) ∧ OnlyUser user database) := by
  refine ⟨?_, exportExactBesidesAccount_iff⟩
  rw [ExportExact, noOtherUser_iff]
  refine and_congr_left fun _ => ?_
  constructor
  · intro archived purgeable
    obtain ⟨account, member, inUsers, sameKey⟩ := isUser
    have goes := goesWith_isUser member inUsers sameKey
    have inTables := ((archived_iff member).mp (archived account
      (removed_iff.mpr ⟨purgeable, goes⟩))).1
    rw [inUsers] at inTables
    exact absurd inTables (by decide)
  · intro notPurgeable row removed
    exact absurd (removed_iff.mp removed).1 notPurgeable

end Exact

/-- A user with a default agent and one session of it. -/
def soleUser : Database foreignKeys String (List (String × Value)) where
  rows :=
    [⟨.users, "10000000-0000-0000-0000-000000000001", fun column =>
        if column = .defaultAgentId then some "a0000000-0000-0000-0000-000000000001" else none, []⟩,
      ⟨.agents, "a0000000-0000-0000-0000-000000000001", fun column =>
        if column = .userId then some "10000000-0000-0000-0000-000000000001" else none,
        [("slug", .json (.str "default"))]⟩,
      ⟨.sessions, "s1", fun column =>
        if column = .userId then some "10000000-0000-0000-0000-000000000001"
        else if column = .agentId then some "a0000000-0000-0000-0000-000000000001" else none, []⟩]
  keysDistinct := by decide
  refsValid := by decide

/-- Its archive has all that its purge removes except the account. -/
theorem soleUser_exportExactBesidesAccount :
    ExportExactBesidesAccount "10000000-0000-0000-0000-000000000001" soleUser := by
  refine (exportExact_iff "10000000-0000-0000-0000-000000000001" soleUser ?_).2.mpr
    ⟨fun _ => ⟨?_, ?_, ?_⟩, ?_⟩
  · exact ⟨_, List.mem_cons_self, rfl, rfl⟩
  · decide
  · decide
  · decide
  · show ∀ row ∈ soleUser.rows, row.table ∈ [.agents, .usageEvents] →
      ∀ owner ∈ row.refs .userId, owner = "10000000-0000-0000-0000-000000000001"
    decide

/-- Two users with an agent each. -/
def twoUsers : Database foreignKeys String (List (String × Value)) where
  rows :=
    [⟨.users, "10000000-0000-0000-0000-000000000001", fun _ => none, []⟩,
      ⟨.users, "20000000-0000-0000-0000-000000000002", fun _ => none, []⟩,
      ⟨.agents, "a0000000-0000-0000-0000-000000000001", fun column =>
        if column = .userId then some "10000000-0000-0000-0000-000000000001" else none, []⟩,
      ⟨.agents, "b0000000-0000-0000-0000-000000000002", fun column =>
        if column = .userId then some "20000000-0000-0000-0000-000000000002" else none, []⟩]
  keysDistinct := by decide
  refsValid := by decide

/-- The archive of one user has the agent of the other. -/
theorem archive_has_other_agent :
    ¬ ∀ (user : String) (database : Database foreignKeys String (List (String × Value))),
      (∃ row ∈ database.rows, row.table = .users ∧ row.key = user) → ExportExact user database := by
  intro exact
  have onlyUser := noOtherUser_iff.mp (exact "10000000-0000-0000-0000-000000000001" twoUsers
    ⟨_, List.mem_cons_self, rfl, rfl⟩).2
  have same := onlyUser _ (List.mem_cons_of_mem _ (List.mem_cons_of_mem _
    (List.mem_cons_of_mem _ List.mem_cons_self))) (by decide)
      "20000000-0000-0000-0000-000000000002" rfl
  exact absurd same (by decide)

end LiteHorse.Worker
