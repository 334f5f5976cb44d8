/-
This file is about locks that a server keeps as entries with an owner's token: an entry is
written only where there is none, it goes away by itself when its lease ends, and a release
deletes it only when it still holds the releaser's token.

`Backed` relates the leases that are thought to be running to the entries. Each operation keeps
it, and `Backed.unique` derives mutual exclusion from it.
-/

import Mathlib.Logic.Function.Basic
import Mathlib.Tactic.Common

namespace LiteHorse.Leases

variable {Key Token : Type*}

/-- The entries of the server. -/
abbrev Entries (Key Token : Type*) := Key → Option Token

/-- Every running lease is backed by an entry. -/
def Backed (running : Token → Key → Prop) (entries : Entries Key Token) : Prop :=
  ∀ token key, running token key → entries key = some token

variable {running left : Token → Key → Prop} {entries : Entries Key Token} {key : Key}
  {token : Token}

/-- A key has one running lease at most. -/
theorem Backed.unique (backed : Backed running entries) {first second : Token}
    (isFirst : running first key) (isSecond : running second key) : first = second :=
  Option.some.inj ((backed first key isFirst).symm.trans (backed second key isSecond))

theorem Backed.mono (backed : Backed running entries)
    (fewer : ∀ token key, left token key → running token key) : Backed left entries :=
  fun token key isLeft => backed token key (fewer token key isLeft)

/-! ### Granting a lease -/

variable [DecidableEq Key]

/-- `SET key token NX`. -/
def setNx (entries : Entries Key Token) (key : Key) (token : Token) : Entries Key Token :=
  if entries key = none then Function.update entries key (some token) else entries

theorem setNx_of_some {other : Token} (held : entries key = some other) :
    setNx entries key token = entries := by
  unfold setNx
  rw [held, if_neg (Option.some_ne_none other)]

theorem setNx_of_none (free : entries key = none) :
    setNx entries key token = Function.update entries key (some token) := by
  unfold setNx
  rw [if_pos free]

/-- A lease that is granted is backed. -/
theorem Backed.setNx (backed : Backed running entries) (free : entries key = none)
    (granted : ∀ other otherKey, left other otherKey →
      (other = token ∧ otherKey = key) ∨ running other otherKey) :
    Backed left (setNx entries key token) := by
  rw [setNx_of_none free]
  intro other otherKey isLeft
  rcases granted other otherKey isLeft with ⟨rfl, rfl⟩ | runs
  · exact Function.update_self _ _ _
  · have held := backed other otherKey runs
    rw [Function.update_of_ne, held]
    rintro rfl
    rw [free] at held
    cases held

/-! ### Ending a lease -/

variable [DecidableEq Token]

/-- Delete the entry of a key if it holds this token: a release, or the end of a lease. -/
def deleteIfHeld (entries : Entries Key Token) (key : Key) (token : Token) : Entries Key Token :=
  if entries key = some token then Function.update entries key none else entries

/-- What one owner deletes is backed by no one else's lease. -/
theorem Backed.deleteIfHeld (backed : Backed running entries)
    (others : ∀ other otherKey, left other otherKey → running other otherKey ∧ other ≠ token) :
    Backed left (deleteIfHeld entries key token) := by
  intro other otherKey isLeft
  obtain ⟨runs, notToken⟩ := others other otherKey isLeft
  have held := backed other otherKey runs
  unfold Leases.deleteIfHeld
  split
  · next isHeld =>
    rw [Function.update_of_ne, held]
    rintro rfl
    exact notToken (Option.some.inj (held.symm.trans isHeld))
  · exact held

/-- A deletion leaves the entries that hold other tokens. -/
theorem deleteIfHeld_of_ne {other : Token} {otherKey : Key}
    (held : entries otherKey = some other) (notToken : other ≠ token) :
    deleteIfHeld entries key token otherKey = some other := by
  unfold deleteIfHeld
  split
  · next isHeld =>
    rw [Function.update_of_ne, held]
    rintro rfl
    exact notToken (Option.some.inj (held.symm.trans isHeld))
  · exact held

end LiteHorse.Leases
