/-
This file models the settings of a transaction as texts and the row-security policies of the
migrations as SQL conditions over them. A setting that was never set on the connection is NULL,
and one that an earlier transaction set is the empty text once that transaction is over.

The policies differ in what an empty setting does: an empty agent admits every row of the user,
while a user that is unset or empty admits no row at all (`admits_scheduler`).
-/

import LiteHorse.Library.SqlTables
import LiteHorse.Python

namespace LiteHorse.Storage.RowSecurity

open Python SqlTables

/-! ### Settings -/

/-- `value::text` of a UUID. -/
def uuidText (value : UUID) : String :=
  let digits := (hexDigits 32 value).toList
  String.ofList (digits.take 8 ++ '-' :: (digits.drop 8).take 4 ++ '-' :: (digits.drop 12).take 4 ++
    '-' :: (digits.drop 16).take 4 ++ '-' :: digits.drop 20)

/-- `current_setting('app.user_id', true)` and `current_setting('app.agent_id', true)`. -/
structure Settings where
  userId : Option String
  agentId : Option String

/-- `db_session`, on a connection whose user setting is NULL or, after another transaction, empty:
without a user it leaves the user setting, without an agent it sets an empty one. -/
def dbSettings (usedBefore : Bool) (userId agentId : Option UUID) : Settings where
  userId :=
    match userId with
    | some userId => some (uuidText userId)
    | none => if usedBefore then some "" else none
  agentId :=
    match agentId with
    | some agentId => some (uuidText agentId)
    | none => some ""

/-! ### Policies -/

/-- `user_id::text = current_setting('app.user_id', true)`, the policy of the messages. -/
def userIsolation (settings : Settings) (userId : UUID) : Truth :=
  equals (some (uuidText userId)) settings.userId

/-- The policy of the tables with an agent. -/
def agentIsolation (settings : Settings) (userId agentId : UUID) : Truth :=
  (userIsolation settings userId).and
    ((equals settings.agentId (some "")).or (equals (some (uuidText agentId)) settings.agentId))

theorem uuidText_ne_empty (value : UUID) : uuidText value ≠ "" := by
  intro isEmpty
  have chars := congrArg String.toList isEmpty
  rw [uuidText, String.toList_ofList] at chars
  simp at chars

/-- Without a user no policy shows a row. -/
theorem admits_scheduler (usedBefore : Bool) (agent : Option UUID) (userId agentId : UUID) :
    admits (userIsolation (dbSettings usedBefore none agent) userId) = false ∧
      admits (agentIsolation (dbSettings usedBefore none agent) userId agentId) = false := by
  have hidden : userIsolation (dbSettings usedBefore none agent) userId ≠ some true := by
    intro isTrue
    obtain ⟨value, isText, isSetting⟩ := equals_eq_true_iff.mp isTrue
    cases usedBefore with
    | false => cases isSetting
    | true =>
      cases isSetting
      exact uuidText_ne_empty userId (Option.some.inj isText)
  refine ⟨decide_eq_false hidden, decide_eq_false fun isTrue => hidden ?_⟩
  exact (Truth.and_eq_true_iff.mp isTrue).1

/-- With the user set, a transaction without an agent sees the user's rows of every agent. -/
theorem admits_user (usedBefore : Bool) (userId agentId : UUID) :
    admits (agentIsolation (dbSettings usedBefore (some userId) none) userId agentId) = true := by
  have shown : userIsolation (dbSettings usedBefore (some userId) none) userId = some true :=
    equals_eq_true_iff.mpr ⟨uuidText userId, rfl, rfl⟩
  exact decide_eq_true (Truth.and_eq_true_iff.mpr ⟨shown, Truth.or_eq_true_iff.mpr (Or.inl rfl)⟩)

end LiteHorse.Storage.RowSecurity
