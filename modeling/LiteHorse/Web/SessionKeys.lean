/-
This file models how a session is found by the start of its id, in the SQLite store and in the
Postgres store, and the routes that delete and fork the session they find. Both stores search with
`LIKE` and escape nothing in the start they are given.

So a start is resolved as it is written only if the search finds the ids that begin with it, or
finds several ids where several begin with it (`literalKeys_iff`). It does in Postgres for a start
without wildcards and backslashes (`cloudFinds_of_plain`); SQLite finds more, for it ignores the
case of ASCII letters.
-/

import LiteHorse.Library.SqlLike
import LiteHorse.Repositories.SessionMessages
import LiteHorse.Strings
import LiteHorse.Web.UserConfig

namespace LiteHorse.Web.SessionKeys

open Python Repositories Repositories.SessionMessages Sessions Sorting SqlLike Storage

/-! ### Searching -/

/-- SQLite takes the two noncharacters at the end of the basic plane for a replacement
character. -/
def readSqlite (char : Char) : Char :=
  if char.toNat = 0xfffe ∨ char.toNat = 0xffff then '\uFFFD' else char

def sqliteDialect : Dialect Char where
  anyRun := '%'
  anyOne := '_'
  escape := none
  same first second := (readSqlite first).toLower = (readSqlite second).toLower

/-- The text up to the first NUL. -/
def cString (text : String) : List Char := text.toList.takeWhile (· ≠ '\x00')

/-- `id LIKE pattern`, in SQLite. -/
def likeLocal (pattern id : String) : Bool := like sqliteDialect (cString pattern) (cString id)

def postgresDialect : Dialect Char where
  anyRun := '%'
  anyOne := '_'
  escape := some '\x5c'
  same first second := first = second

/-- `id LIKE pattern`, in Postgres. -/
def likeCloud (pattern id : String) : Bool := like postgresDialect pattern.toList id.toList

def patternOf (start : String) : String := start ++ "%"

/-- `SQLITE_MAX_LIKE_PATTERN_LENGTH` -/
def maxLikePatternLength : Nat := 50000

inductive LocalRaised where
  | valueError (message : String)
  | unicodeEncodeError
  /-- The `OperationalError` of a pattern that is too long. -/
  | operationalError

section Find

variable (isPrintable : Char → Bool)

def ambiguousMessage (start : Str) : String :=
  "ambiguous session prefix: " ++ start.repr isPrintable

/-- The one id that is found. -/
def resolveRows {Raised : Type} (ambiguous : Raised) : List String → Except Raised (Option String)
  | [] => .ok none
  | [id] => .ok (some id)
  | _ => .error ambiguous

/-- `LocalSessionRepo.find_session_by_prefix` -/
def findLocal (repo : LocalSessionRepo) (start : Str) : Except LocalRaised (Option String) :=
  if start = [] then .ok none
  else match start.encode with
    | none => .error .unicodeEncodeError
    | some startText =>
      let pattern := patternOf startText
      -- The pattern is looked at with the first row only.
      if repo.sessions ≠ [] ∧ maxLikePatternLength < pattern.utf8ByteSize then
        .error .operationalError
      else
        let rows := sortedBy (fun row : Sessions.SessionRow => OrderDual.toDual row.startedAt)
          (repo.sessions.filter fun row => likeLocal pattern row.id)
        resolveRows (.valueError (ambiguousMessage isPrintable start)) ((rows.take 2).map (·.id))

/-- A parameter of a statement for Postgres. -/
def bindText (value : Str) : Except MemoryRepoError String :=
  match value.encode with
  | none => .error .dbapiError
  | some text => if '\x00' ∈ text.toList then .error .dbapiError else .ok text

variable (store : Store) (transaction : DbSession)

/-- The sessions that a statement of the user reaches. -/
def rowsOfUser (userId : UUID) : List SessionMessages.SessionRow :=
  store.sessions.filter fun row => row.userId = userId ∧ Store.Visible transaction row

/-- `SessionRepo.find_session_by_prefix` -/
def findCloud (start : Str) : Except MemoryRepoError (Option String) :=
  if start = [] then .ok none
  else do
    let userId ← currentUserId transaction
    let startText ← bindText start
    let rows := sortedBy
      (fun row : SessionMessages.SessionRow => OrderDual.toDual row.startedAt)
      ((rowsOfUser store transaction userId).filter
        fun row => likeCloud (patternOf startText) row.id)
    resolveRows (.valueError (ambiguousMessage isPrintable start)) ((rows.take 2).map (·.id))

/-! ### The routes -/

/-- `SessionRepo.get_session_meta` -/
def getSessionMeta (sessionId : Str) :
    Except MemoryRepoError (Option SessionMessages.SessionRow) := do
  let userId ← currentUserId transaction
  let sessionText ← bindText sessionId
  return (rowsOfUser store transaction userId).find? fun row => row.id = sessionText

/-- What a route raises: an `http_error`, or an exception that it does not catch. -/
inductive KeyError where
  | http (kind : ErrorKind) (message : String)
  | uncaught (error : MemoryRepoError)

def uncaught {Value : Type} : Except MemoryRepoError Value → Except KeyError Value :=
  Except.mapError .uncaught

def notFoundError (key : Str) : KeyError :=
  .http .notFound ("session " ++ key.repr isPrintable ++ " not found")

/-- `_resolve_key`. The id of a session that is found at once is the key itself. -/
def resolveKey (key : Str) : Except KeyError String := do
  match ← uncaught (getSessionMeta store transaction key) with
  | some row => return row.id
  | none =>
    match findCloud isPrintable store transaction key with
    | .error (.valueError message) => .error (.http .conflict message)
    | .error raised => .error (.uncaught raised)
    | .ok none => .error (notFoundError isPrintable key)
    | .ok (some resolved) => .ok resolved

/-- The row that `DELETE FROM sessions WHERE user_id = .. AND id = ..` reaches. -/
def Deletes (userId : UUID) (sessionId : String) (row : SessionMessages.SessionRow) : Prop :=
  row.id = sessionId ∧ row.userId = userId ∧ Store.Visible transaction row

instance (userId : UUID) (sessionId : String) :
    DecidablePred (Deletes transaction userId sessionId) :=
  fun _ => inferInstanceAs (Decidable (_ ∧ _ ∧ _))

/-- The rows without the session, whose messages go with it. -/
def dropSession (userId : UUID) (sessionId : String) : Store :=
  { store with
    sessions := store.sessions.filter fun row => ¬ Deletes transaction userId sessionId row
    messages := store.messages.filter fun message =>
      ∀ row ∈ store.sessions, Deletes transaction userId sessionId row → row.id ≠ message.sessionId
    sessionIds := store.sessionIds.sublist (List.filter_sublist.map _)
    ascending := store.ascending.filter _
    bounded := fun row member => store.bounded row (List.mem_filter.mp member).1
    references := by
      intro message member
      obtain ⟨isMessage, kept⟩ := List.mem_filter.mp member
      obtain ⟨row, isRow, same⟩ := List.mem_map.mp (store.references message isMessage)
      refine List.mem_map.mpr ⟨row, List.mem_filter.mpr ⟨isRow, decide_eq_true ?_⟩, same⟩
      exact fun deletes => of_decide_eq_true kept row isRow deletes same }

/-- `SessionRepo.delete_session` -/
def deleteSession (sessionId : String) : Except MemoryRepoError (Store × Bool) := do
  let userId ← currentUserId transaction
  let deleted := store.deleteMessages fun row =>
    !(row.userId = userId && row.sessionId = sessionId)
  let hit := deleted.sessions.any fun row => Deletes transaction userId sessionId row
  return (dropSession deleted transaction userId sessionId, hit)

/-- `DELETE /v1/sessions/{key}` -/
def deleteRoute (key : Str) : Except KeyError Store := do
  let resolved ← resolveKey isPrintable store transaction key
  let (next, hit) ← uncaught (deleteSession store transaction resolved)
  if hit then return next else throw (notFoundError isPrintable key)

structure SessionForkOut where
  srcKey : String
  newKey : String
  copied : Nat

/-- `POST /v1/sessions/{key}:fork`. `owner` is the agent that a new row gets. -/
def forkRoute (isUser : UUID → Bool) (owner : UUID) (key : Str) (newKey : String)
    (now : Timestamp) : Except KeyError (Store × SessionForkOut) := do
  let src ← resolveKey isPrintable store transaction key
  match ← uncaught (getSessionMeta store transaction (Str.ofString src)) with
  | none => throw (notFoundError isPrintable key)
  | some srcMeta =>
    if newKey = src then throw (.http .conflict "new_key must differ from source")
    else
      match ← uncaught (getSessionMeta store transaction (Str.ofString newKey)) with
      | some _ =>
        throw (.http .conflict
          ("session " ++ (Str.ofString newKey).repr isPrintable ++ " already exists"))
      | none =>
        let created ← uncaught
          (store.createSession isUser transaction owner newKey srcMeta.source srcMeta.model now)
        let (next, copied) ← uncaught (created.copyMessages isUser transaction src newKey)
        return (next, { srcKey := src, newKey, copied })

end Find

/-! ### Literal keys -/

/-- The ids that begin with the start, character for character. -/
def starting (ids : List String) (start : Str) : List String :=
  ids.filter fun id => start.isPrefixOf (Str.ofString id)

/-- The outcome is the only id that begins with the start, nothing where none does, and an error
where several do. -/
structure Literal {Raised : Type} (ids : List String) (start : Str) (ambiguous : Raised)
    (outcome : Except Raised (Option String)) : Prop where
  returns : ∀ id, outcome = .ok (some id) ↔ starting ids start = [id]
  returnsNone : outcome = .ok none ↔ starting ids start = []
  raises : outcome = .error ambiguous ↔ 2 ≤ (starting ids start).length

/-- The ids that are found are those that begin with the start, or there are several of both. -/
def Finds (found starting : List String) : Prop :=
  found = starting ∨ 2 ≤ found.length ∧ 2 ≤ starting.length

def localIds (repo : LocalSessionRepo) : List String := repo.sessions.map (·.id)

/-- The ids that row security shows to the user. -/
def userIds (store : Store) (transaction : DbSession) (userId : UUID) : List String :=
  (rowsOfUser store transaction userId).map (·.id)

/-- The start can be sent to SQLite, and the search finds what begins with it. -/
def LocalFinds (repo : LocalSessionRepo) (start : Str) : Prop :=
  ∃ startText, start.encode = some startText ∧
    (repo.sessions = [] ∨ (patternOf startText).utf8ByteSize ≤ maxLikePatternLength) ∧
    Finds ((localIds repo).filter (likeLocal (patternOf startText)))
      (starting (localIds repo) start)

/-- The start can be sent to Postgres, and the search finds what begins with it. -/
def CloudFinds (store : Store) (transaction : DbSession) (userId : UUID) (start : Str) : Prop :=
  ∃ startText, start.encode = some startText ∧ '\x00' ∉ startText.toList ∧
    Finds ((userIds store transaction userId).filter (likeCloud (patternOf startText)))
      (starting (userIds store transaction userId) start)

/-! ### One search -/

section Search

variable {Raised : Type} (ambiguous : Raised) {ids found : List String} {start : Str}

theorem finds_iff {first second : List String} :
    Finds first second ↔ (∀ id, first = [id] ↔ second = [id]) ∧ (first = [] ↔ second = []) ∧
      (2 ≤ first.length ↔ 2 ≤ second.length) := by
  unfold Finds
  constructor
  · rintro (rfl | ⟨several, others⟩)
    · exact ⟨fun _ => Iff.rfl, Iff.rfl, Iff.rfl⟩
    · refine ⟨fun id => iff_of_false ?_ ?_, iff_of_false ?_ ?_, iff_of_true several others⟩
      all_goals
        rintro rfl
        simp at several others
  · rintro ⟨one, none, _⟩
    match first, second with
    | [], second => exact Or.inl (none.mp rfl).symm
    | [id], second => exact Or.inl ((one id).mp rfl).symm
    | first :: next :: rest, [] => exact absurd (none.mpr rfl) (List.cons_ne_nil _ _)
    | first :: next :: rest, [id] => exact Or.inl ((one id).mpr rfl)
    | first :: next :: rest, id :: other :: others =>
      exact Or.inr ⟨Nat.le_add_left 2 _, Nat.le_add_left 2 _⟩

/-- What the search gives for the ids that it finds, of which it takes two. -/
theorem resolveRows_take (found : List String) :
    (∀ id, resolveRows ambiguous (found.take 2) = .ok (some id) ↔ found = [id]) ∧
      (resolveRows ambiguous (found.take 2) = .ok none ↔ found = []) ∧
      (resolveRows ambiguous (found.take 2) = .error ambiguous ↔ 2 ≤ found.length) := by
  match found with
  | [] => simp [resolveRows]
  | [id] => simp [resolveRows]
  | first :: second :: rest => simp [resolveRows]

/-- The search is literal exactly if it finds what begins with the start. -/
theorem literal_resolveRows_iff {matched : List String} (perm : matched.Perm found) :
    Literal ids start ambiguous (resolveRows ambiguous (matched.take 2)) ↔
      Finds found (starting ids start) := by
  obtain ⟨one, none, several⟩ := resolveRows_take ambiguous matched
  have sameOne : ∀ id, matched = [id] ↔ found = [id] := fun id =>
    ⟨fun isOne => List.singleton_perm.mp (isOne ▸ perm) |>.symm,
      fun isOne => List.perm_singleton.mp (isOne ▸ perm)⟩
  have sameNone : matched = [] ↔ found = [] :=
    ⟨fun isNone => (isNone ▸ perm).nil_eq.symm, fun isNone => (isNone ▸ perm).eq_nil⟩
  rw [finds_iff]
  constructor
  · rintro ⟨returns, returnsNone, raises⟩
    refine ⟨fun id => ?_, ?_, ?_⟩
    · rw [← sameOne, ← one, returns]
    · rw [← sameNone, ← none, returnsNone]
    · rw [← perm.length_eq, ← several, raises]
  · rintro ⟨returns, returnsNone, raises⟩
    refine ⟨fun id => ?_, ?_, ?_⟩
    · rw [one, sameOne, returns]
    · rw [none, sameNone, returnsNone]
    · rw [several, perm.length_eq, raises]

/-- The two youngest rows that are found tell how many there are. -/
theorem literal_search_iff {Row : Type} (idOf : Row → String) (startedAt : Row → Timestampᵒᵈ)
    (test : String → Bool) (rows : List Row) :
    Literal (rows.map idOf) start ambiguous (resolveRows ambiguous
        (((sortedBy startedAt (rows.filter fun row => test (idOf row))).take 2).map idOf)) ↔
      Finds ((rows.map idOf).filter test) (starting (rows.map idOf) start) := by
  rw [List.map_take]
  refine literal_resolveRows_iff ambiguous ?_
  rw [List.filter_map]
  exact (sortedBy_perm _ _).map idOf

theorem not_literal {outcome : Except Raised (Option String)} (notOk : ∀ found, outcome ≠ .ok found)
    (notAmbiguous : outcome ≠ .error ambiguous) : ¬ Literal ids start ambiguous outcome := by
  rintro ⟨returns, returnsNone, raises⟩
  match found : starting ids start with
  | [] => exact notOk _ (returnsNone.mpr found)
  | [id] => exact notOk _ ((returns id).mpr found)
  | first :: second :: rest =>
    refine notAmbiguous (raises.mpr ?_)
    rw [found]
    exact Nat.le_add_left 2 _

end Search

section Finds

variable {isPrintable : Char → Bool} {start : Str}

variable (isPrintable) in
theorem literal_findLocal_iff (repo : LocalSessionRepo) (nonempty : start ≠ []) :
    Literal (localIds repo) start (.valueError (ambiguousMessage isPrintable start))
        (findLocal isPrintable repo start) ↔ LocalFinds repo start := by
  unfold findLocal LocalFinds
  rw [if_neg nonempty]
  cases start.encode with
  | none =>
    refine iff_of_false (not_literal _ (fun _ => nofun) nofun) ?_
    rintro ⟨_, encoded, _⟩
    cases encoded
  | some startText =>
    dsimp only
    split
    next tooLong =>
      refine iff_of_false (not_literal _ (fun _ => nofun) nofun) ?_
      rintro ⟨_, encoded, noRows | short, _⟩
      · exact tooLong.1 noRows
      · cases encoded
        exact absurd tooLong.2 (not_lt.mpr short)
    next fits =>
      have isShort : repo.sessions = [] ∨
          (patternOf startText).utf8ByteSize ≤ maxLikePatternLength := by
        by_contra neither
        obtain ⟨someRows, long⟩ := not_or.mp neither
        exact fits ⟨someRows, not_le.mp long⟩
      refine (literal_search_iff _ _ _ (likeLocal (patternOf startText)) _).trans ?_
      refine ⟨fun finds => ⟨startText, rfl, isShort, finds⟩, ?_⟩
      rintro ⟨_, encoded, _, finds⟩
      cases encoded
      exact finds

variable (isPrintable) in
theorem literal_findCloud_iff (store : Store) {transaction : DbSession} {userId : UUID}
    (isUserOf : transaction.userId = some userId) (nonempty : start ≠ []) :
    Literal (userIds store transaction userId) start
        (.valueError (ambiguousMessage isPrintable start))
        (findCloud isPrintable store transaction start) ↔
      CloudFinds store transaction userId start := by
  unfold findCloud CloudFinds bindText
  rw [if_neg nonempty, Store.currentUserId_some isUserOf]
  cases start.encode with
  | none =>
    refine iff_of_false (not_literal _ (fun _ => nofun) nofun) ?_
    rintro ⟨_, encoded, _⟩
    cases encoded
  | some startText =>
    dsimp only [bind, Except.bind]
    split
    next raised isError =>
      split at isError
      next hasNul =>
        cases isError
        refine iff_of_false (not_literal _ (fun _ => nofun) nofun) ?_
        rintro ⟨_, encoded, noNul, _⟩
        cases encoded
        exact noNul hasNul
      next => cases isError
    next bound isBound =>
      split at isBound
      next => cases isBound
      next noNul =>
        cases isBound
        refine (literal_search_iff _ _ _ (likeCloud (patternOf startText)) _).trans ?_
        refine ⟨fun finds => ⟨startText, rfl, noNul, finds⟩, ?_⟩
        rintro ⟨_, encoded, _, finds⟩
        cases encoded
        exact finds

end Finds

/-! ### The routes act on what they are asked for -/

section Routes

variable {isPrintable : Char → Bool} {store : Store} {transaction : DbSession} {userId : UUID}
  {key : Str} {resolved : String}

theorem encode_of_bindText {value : Str} {bound : String} (isBound : bindText value = .ok bound) :
    value.encode = some bound := by
  unfold bindText at isBound
  split at isBound
  next => cases isBound
  next text encoded =>
    split at isBound
    next => cases isBound
    next =>
      cases isBound
      exact encoded

theorem id_of_getSessionMeta {row : SessionMessages.SessionRow}
    (found : getSessionMeta store transaction key = .ok (some row)) :
    key = Str.ofString row.id := by
  obtain ⟨userId, _, found⟩ := bind_eq_ok_iff.mp found
  obtain ⟨keyText, bound, found⟩ := bind_eq_ok_iff.mp found
  have isFound : (rowsOfUser store transaction userId).find? (fun row => row.id = keyText) =
    some row := Except.ok.inj found
  have isRow : row.id = keyText := by
    have passes := List.find?_some isFound
    exact of_decide_eq_true passes
  rw [isRow]
  exact ofString_of_encode (encode_of_bindText bound)

theorem uncaught_eq_ok_iff {Value : Type} {outcome : Except MemoryRepoError Value} {value : Value} :
    uncaught outcome = .ok value ↔ outcome = .ok value := by
  cases outcome with
  | error raised => exact iff_of_false nofun nofun
  | ok found => exact ⟨fun same => by cases same; rfl, fun same => by cases same; rfl⟩

/-- Where the search is literal, a key resolves to an id that begins with it. -/
theorem starts_of_resolveKey
    (literal : Literal (userIds store transaction userId) key
      (.valueError (ambiguousMessage isPrintable key))
      (findCloud isPrintable store transaction key))
    (isResolved : resolveKey isPrintable store transaction key = .ok resolved) :
    key.isPrefixOf (Str.ofString resolved) = true := by
  obtain ⟨found, isMeta, isResolved⟩ := bind_eq_ok_iff.mp isResolved
  rw [uncaught_eq_ok_iff] at isMeta
  cases found with
  | some row =>
    cases isResolved
    rw [← id_of_getSessionMeta isMeta, List.isPrefixOf_iff_prefix]
  | none =>
    dsimp only at isResolved
    split at isResolved
    next => cases isResolved
    next => cases isResolved
    next => cases isResolved
    next id isFound =>
      cases isResolved
      have only := (literal.returns resolved).mp isFound
      have member : resolved ∈ starting (userIds store transaction userId) key := by
        rw [only]
        exact List.mem_singleton_self resolved
      exact (List.mem_filter.mp member).2

/-- The session and the messages that the route deletes have ids that begin with the key. -/
structure DeletesLiterally (store next : Store) (key : Str) : Prop where
  sessions : ∀ row ∈ store.sessions, key.isPrefixOf (Str.ofString row.id) = false →
    row ∈ next.sessions
  messages : ∀ message ∈ store.messages,
    key.isPrefixOf (Str.ofString message.sessionId) = false → message ∈ next.messages

theorem deletesLiterally_deleteSession {next : Store} {hit : Bool}
    (starts : key.isPrefixOf (Str.ofString resolved) = true)
    (deleted : deleteSession store transaction resolved = .ok (next, hit)) :
    DeletesLiterally store next key := by
  have other : ∀ id, key.isPrefixOf (Str.ofString id) = false → id ≠ resolved := by
    rintro id notStarts rfl
    rw [starts] at notStarts
    cases notStarts
  obtain ⟨userId, _, deleted⟩ := bind_eq_ok_iff.mp deleted
  cases deleted
  constructor
  · intro row isRow notStarts
    refine List.mem_filter.mpr ⟨isRow, decide_eq_true fun deletes => ?_⟩
    exact other row.id notStarts deletes.1
  · intro message isMessage notStarts
    have isOther := other message.sessionId notStarts
    refine List.mem_filter.mpr ⟨List.mem_filter.mpr ⟨isMessage, ?_⟩, decide_eq_true ?_⟩
    · rw [decide_eq_false isOther, Bool.and_false]
      rfl
    · intro row _ deletes same
      exact isOther (same.symm.trans deletes.1)

theorem deletesLiterally_deleteRoute {next : Store}
    (literal : Literal (userIds store transaction userId) key
      (.valueError (ambiguousMessage isPrintable key))
      (findCloud isPrintable store transaction key))
    (ran : deleteRoute isPrintable store transaction key = .ok next) :
    DeletesLiterally store next key := by
  obtain ⟨resolved, isResolved, ran⟩ := bind_eq_ok_iff.mp ran
  obtain ⟨⟨deleted, hit⟩, isDeleted, ran⟩ := bind_eq_ok_iff.mp ran
  rw [uncaught_eq_ok_iff] at isDeleted
  dsimp only at ran
  split at ran
  next =>
    cases ran
    exact deletesLiterally_deleteSession (starts_of_resolveKey literal isResolved) isDeleted
  next => cases ran

theorem starts_of_forkRoute {isUser : UUID → Bool} {owner : UUID} {newKey : String}
    {now : Timestamp} {next : Store} {out : SessionForkOut}
    (literal : Literal (userIds store transaction userId) key
      (.valueError (ambiguousMessage isPrintable key))
      (findCloud isPrintable store transaction key))
    (ran : forkRoute isPrintable store transaction isUser owner key newKey now = .ok (next, out)) :
    key.isPrefixOf (Str.ofString out.srcKey) = true := by
  obtain ⟨src, isResolved, ran⟩ := bind_eq_ok_iff.mp ran
  obtain ⟨found, _, ran⟩ := bind_eq_ok_iff.mp ran
  have isSrc : out.srcKey = src := by
    cases found with
    | none => cases ran
    | some srcMeta =>
      dsimp only at ran
      split at ran
      next => cases ran
      next =>
        obtain ⟨existing, _, ran⟩ := bind_eq_ok_iff.mp ran
        cases existing with
        | some other => cases ran
        | none =>
          obtain ⟨created, _, ran⟩ := bind_eq_ok_iff.mp ran
          obtain ⟨copied, _, ran⟩ := bind_eq_ok_iff.mp ran
          cases ran
          rfl
  rw [isSrc]
  exact starts_of_resolveKey literal isResolved

end Routes

/-! ### Both stores and the routes -/

section Keys

variable (isPrintable : Char → Bool) (repo : LocalSessionRepo) (store : Store)
  (transaction : DbSession) (userId : UUID)

/-- Both stores resolve a start as it is written, and the routes act on sessions whose ids begin
with it. -/
structure LiteralKeys (start : Str) : Prop where
  inLocal : Literal (localIds repo) start (.valueError (ambiguousMessage isPrintable start))
    (findLocal isPrintable repo start)
  inCloud : Literal (userIds store transaction userId) start
    (.valueError (ambiguousMessage isPrintable start))
    (findCloud isPrintable store transaction start)
  deletes : ∀ next, deleteRoute isPrintable store transaction start = .ok next →
    DeletesLiterally store next start
  forks : ∀ isUser owner newKey now next out,
    forkRoute isPrintable store transaction isUser owner start newKey now = .ok (next, out) →
      start.isPrefixOf (Str.ofString out.srcKey) = true

variable {transaction userId} {start : Str}

/-- A start is resolved as it is written exactly if each search finds the ids that begin with it,
or finds several ids where several begin with it. -/
theorem literalKeys_iff (isUserOf : transaction.userId = some userId) (nonempty : start ≠ []) :
    LiteralKeys isPrintable repo store transaction userId start ↔
      LocalFinds repo start ∧ CloudFinds store transaction userId start := by
  rw [← literal_findLocal_iff isPrintable repo nonempty,
    ← literal_findCloud_iff isPrintable store isUserOf nonempty]
  constructor
  · exact fun literal => ⟨literal.inLocal, literal.inCloud⟩
  · rintro ⟨inLocal, inCloud⟩
    exact {
      inLocal
      inCloud
      deletes := fun next ran => deletesLiterally_deleteRoute inCloud ran
      forks := fun isUser owner newKey now next out ran => starts_of_forkRoute inCloud ran }

end Keys

/-! ### What the searches find -/

theorem toList_patternOf (start : String) : (patternOf start).toList = start.toList ++ ['%'] := by
  unfold patternOf
  rw [String.toList_append]
  rfl

theorem isPrefixOf_ofString (start id : String) :
    (Str.ofString start).isPrefixOf (Str.ofString id) = true ↔ start.toList <+: id.toList := by
  have injective : Function.Injective StrChar.char := fun _ _ same => StrChar.char.inj same
  unfold Str.ofString
  rw [List.isPrefixOf_iff_prefix, List.prefix_map_iff_of_injective injective]

/-- Postgres finds what begins with a start that has no wildcard and no backslash. -/
theorem likeCloud_of_plain {start : String}
    (plain : ∀ char ∈ start.toList, IsPlain postgresDialect char) (id : String) :
    likeCloud (patternOf start) id = (Str.ofString start).isPrefixOf (Str.ofString id) := by
  have areSame : (fun first second => postgresDialect.same first second = true) = Eq := by
    funext first second
    exact propext decide_eq_true_iff
  have found : like postgresDialect (start.toList ++ [postgresDialect.anyRun]) id.toList = true ↔
    _ := like_plain_iff plain
  rw [areSame, List.forall₂_eq_eq_eq] at found
  rw [Bool.eq_iff_iff, isPrefixOf_ofString]
  unfold likeCloud
  rw [toList_patternOf]
  refine found.trans ⟨?_, ?_⟩
  · rintro ⟨_, rest, whole, rfl⟩
    exact ⟨rest, whole.symm⟩
  · rintro ⟨rest, whole⟩
    exact ⟨start.toList, rest, whole.symm, rfl⟩

theorem cloudFinds_of_plain (store : Store) (transaction : DbSession) (userId : UUID)
    {start : String} (plain : ∀ char ∈ start.toList, IsPlain postgresDialect char)
    (noNul : '\x00' ∉ start.toList) :
    CloudFinds store transaction userId (Str.ofString start) := by
  refine ⟨start, encode_ofString start, noNul, Or.inl ?_⟩
  exact List.filter_congr fun id _ => likeCloud_of_plain plain id

/-- SQLite misses nothing that begins with a start without NUL. -/
theorem likeLocal_of_prefix {start id : String} (noNul : '\x00' ∉ start.toList)
    (isPrefix : (Str.ofString start).isPrefixOf (Str.ofString id) = true) :
    likeLocal (patternOf start) id = true := by
  have noStop : ∀ char ∈ start.toList, decide (char ≠ '\x00') = true :=
    fun char member => decide_eq_true fun isNul => noNul (isNul ▸ member)
  obtain ⟨rest, whole⟩ := (isPrefixOf_ofString start id).mp isPrefix
  unfold likeLocal cString
  rw [toList_patternOf, ← whole, List.takeWhile_append_of_pos noStop,
    List.takeWhile_append_of_pos noStop]
  exact like_of_prefix rfl (fun _ => decide_eq_true rfl) (List.prefix_append _ _)

/-! ### The only session -/

/-- A store with one session, of the user 1. -/
def oneSession : Store where
  sessions := [{
    id := "abc", userId := 1, agentId := 1, source := "web", model := none, startedAt := 0,
    messageCount := 0 }]
  messages := []
  lastId := 0
  sessionIds := List.nodup_singleton _
  ascending := Store.empty.ascending
  bounded := Store.empty.bounded
  references := List.forall_mem_nil _

/-- A key of one wildcard finds the only session. -/
theorem not_literalKeys_wildcard :
    ¬ LiteralKeys (fun _ => true) LocalSessionRepo.empty oneSession (dbSession (some 1)) 1
      (Str.ofString "%") := by
  intro literal
  have found : findCloud (fun _ => true) oneSession (dbSession (some 1)) (Str.ofString "%") =
      .ok (some "abc") := rfl
  have only := (literal.inCloud.returns "abc").mp found
  have none : starting (userIds oneSession (dbSession (some 1)) 1) (Str.ofString "%") = [] := by
    decide
  rw [none] at only
  cases only

theorem literalKeys_iff_wildcard :
    LiteralKeys (fun _ => true) LocalSessionRepo.empty oneSession (dbSession (some 1)) 1
        (Str.ofString "%") ↔
      LocalFinds LocalSessionRepo.empty (Str.ofString "%") ∧
        CloudFinds oneSession (dbSession (some 1)) 1 (Str.ofString "%") :=
  literalKeys_iff _ _ _ rfl (by decide)

end LiteHorse.Web.SessionKeys
