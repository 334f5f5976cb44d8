/-
This file is about a cache in front of a value that is computed from a source. A reader returns
what is cached; on a miss it computes the value and stores it. Nothing ties the cache to the
source, so the file says when a read agrees with computing (`View.getOrCompute_eq_iff`) and what
keeps it so.

The second part is about emptying the cache key by key while others store: an eviction that has
begun is sure to delete a key only if the key has been there all the time. `Covered` says that
a stale entry is one that some eviction is still sure to delete, which is what every step of the
evictions keeps.
-/

import Mathlib.Data.List.AList

namespace LiteHorse.ViewCaches

abbrev Cache (Key Blob : Type*) := AList fun _ : Key => Blob

/-- A value that each user has of a source, and its cached form. -/
structure View (User Key Source Value Blob : Type*) where
  key : User → Key
  compute : User → Source → Value
  encode : Value → Blob
  decode : Blob → Option Value
  key_injective : Function.Injective key
  decode_encode : ∀ user source, decode (encode (compute user source)) = some (compute user source)

variable {User Key Source Value Blob : Type*} [DecidableEq Key]
  (view : View User Key Source Value Blob) {cache : Cache Key Blob} {source : Source}
  {user other : User} {key : Key} {blob : Blob} {value : Value}

/-- The value of a reader that has the source to itself, and the cache after it. -/
def View.getOrCompute (cache : Cache Key Blob) (source : Source) (user : User) :
    Option Value × Cache Key Blob :=
  match cache.lookup (view.key user) with
  | some blob => (view.decode blob, cache)
  | none =>
    (some (view.compute user source),
      cache.insert (view.key user) (view.encode (view.compute user source)))

/-- What is cached for the user, if anything, is the value. -/
def Fresh (cache : Cache Key Blob) (user : User) (value : Value) : Prop :=
  ∀ blob, cache.lookup (view.key user) = some blob → view.decode blob = some value

variable {view}

theorem fresh_of_uncached (uncached : cache.lookup (view.key user) = none) :
    Fresh view cache user value := by
  intro blob cached
  rw [uncached] at cached
  cases cached

/-- A read agrees with computing exactly when what is cached does. -/
theorem View.getOrCompute_eq_iff :
    (view.getOrCompute cache source user).1 = some (view.compute user source) ↔
      Fresh view cache user (view.compute user source) := by
  unfold View.getOrCompute
  cases cached : cache.lookup (view.key user) with
  | none => exact iff_of_true rfl (fresh_of_uncached cached)
  | some blob =>
    constructor
    · intro same other otherCached
      rw [cached, Option.some.injEq] at otherCached
      exact otherCached ▸ same
    · intro fresh
      exact fresh blob cached

theorem lookup_insert_key (cache : Cache Key Blob) (notSame : user ≠ other) (blob : Blob) :
    (cache.insert (view.key other) blob).lookup (view.key user) = cache.lookup (view.key user) :=
  AList.lookup_insert_ne fun same => notSame (view.key_injective same)

theorem Fresh.insert_self (decoded : view.decode blob = some value) :
    Fresh view (cache.insert (view.key user) blob) user value := by
  intro stored cached
  rw [AList.lookup_insert, Option.some.injEq] at cached
  exact cached ▸ decoded

theorem Fresh.insert_other (fresh : Fresh view cache user value) (notSame : user ≠ other) :
    Fresh view (cache.insert (view.key other) blob) user value := by
  intro stored cached
  rw [lookup_insert_key cache notSame] at cached
  exact fresh stored cached

theorem Fresh.erase (fresh : Fresh view cache user value) (key : Key) :
    Fresh view (cache.erase key) user value := by
  intro blob cached
  by_cases same : view.key user = key
  · rw [same, AList.lookup_erase] at cached
    cases cached
  · rw [AList.lookup_erase_ne same] at cached
    exact fresh blob cached

/-- A read leaves a right value behind. -/
theorem Fresh.getOrCompute (fresh : Fresh view cache user (view.compute user source)) :
    Fresh view (view.getOrCompute cache source user).2 user (view.compute user source) := by
  unfold View.getOrCompute
  split
  · exact fresh
  · exact Fresh.insert_self (view.decode_encode user source)

/-- A new source keeps a user's reads right exactly if the value is uncached or the same. -/
theorem fresh_of_source_iff (view : View User Key Source Value Blob) (next : Source)
    (fresh : Fresh view cache user (view.compute user source)) :
    Fresh view cache user (view.compute user next) ↔
      (cache.lookup (view.key user) ≠ none →
        view.compute user next = view.compute user source) := by
  constructor
  · intro nextFresh isCached
    obtain ⟨blob, cached⟩ := Option.ne_none_iff_exists'.mp isCached
    exact Option.some.inj ((nextFresh blob cached).symm.trans (fresh blob cached))
  · intro same blob cached
    rw [same (by rw [cached]; exact Option.some_ne_none blob)]
    exact fresh blob cached

/-! ### Emptying the cache -/

/-- An eviction of every key: the keys it is still sure to delete. -/
inductive Eviction (Key : Type*) where
  | waits
  | scanning (pending : List Key)
  | done
  deriving DecidableEq

namespace Eviction

/-- The eviction is sure to delete the key, if it stays in the cache. -/
def Awaits (key : Key) : Eviction Key → Prop
  | .waits => True
  | .scanning pending => key ∈ pending
  | .done => False

/-- The key has left the cache. -/
def gone (key : Key) : Eviction Key → Eviction Key
  | .scanning pending => .scanning (pending.filter (· ≠ key))
  | eviction => eviction

theorem Awaits.gone {eviction : Eviction Key} {other : Key} (awaits : eviction.Awaits key)
    (notSame : key ≠ other) : (eviction.gone other).Awaits key := by
  cases eviction with
  | waits => trivial
  | scanning pending => exact List.mem_filter.mpr ⟨awaits, decide_eq_true notSame⟩
  | done => exact awaits

end Eviction

section Evictions

variable {Index : Type*} {evictions : Index → Eviction Key} {index : Index}
  {values : User → Value}

/-- Some eviction is sure to delete the key. -/
def Covered (evictions : Index → Eviction Key) (key : Key) : Prop :=
  ∃ index, (evictions index).Awaits key

/-- What is cached for a user is right, or some eviction is sure to delete it. -/
def StaleCovered (view : View User Key Source Value Blob) (cache : Cache Key Blob)
    (evictions : Index → Eviction Key) (values : User → Value) : Prop :=
  ∀ user, Fresh view cache user (values user) ∨ Covered evictions (view.key user)

theorem staleCovered_of_waits (waits : evictions index = .waits) :
    StaleCovered view cache evictions values := by
  intro user
  refine Or.inr ⟨index, ?_⟩
  rw [waits]
  trivial

/-- A key leaves the cache. -/
theorem StaleCovered.erase (covered : StaleCovered view cache evictions values) (key : Key) :
    StaleCovered view (cache.erase key) (fun index => (evictions index).gone key) values := by
  intro user
  by_cases same : view.key user = key
  · refine Or.inl (fresh_of_uncached ?_)
    rw [same, AList.lookup_erase]
  · rcases covered user with fresh | ⟨index, awaits⟩
    · exact Or.inl (fresh.erase key)
    · exact Or.inr ⟨index, awaits.gone same⟩

/-- A value is stored that is right, or that some eviction is sure to delete. -/
theorem StaleCovered.insert (covered : StaleCovered view cache evictions values)
    (stored : view.decode blob = some (values other) ∨ Covered evictions (view.key other)) :
    StaleCovered view (cache.insert (view.key other) blob) evictions values := by
  intro user
  by_cases same : user = other
  · rw [same]
    exact stored.imp Fresh.insert_self id
  · exact (covered user).imp (fun fresh => fresh.insert_other same) id

/-- When every eviction has ended, what is cached is right. -/
theorem StaleCovered.fresh (covered : StaleCovered view cache evictions values)
    (ended : ∀ index, evictions index = .done) (user : User) :
    Fresh view cache user (values user) := by
  rcases covered user with fresh | ⟨index, awaits⟩
  · exact fresh
  · rw [ended index] at awaits
    exact awaits.elim

variable [DecidableEq Index]

/-- An eviction begins: whatever is in the cache is what it will delete. -/
theorem staleCovered_start (index : Index) :
    StaleCovered view cache (Function.update evictions index (.scanning cache.keys)) values := by
  intro user
  cases cached : cache.lookup (view.key user) with
  | none => exact Or.inl (fresh_of_uncached cached)
  | some blob =>
    refine Or.inr ⟨index, ?_⟩
    rw [Function.update_self]
    refine AList.mem_keys.mp (AList.lookup_isSome.mp ?_)
    rw [cached]
    rfl

/-- An eviction ends that has nothing left to delete. -/
theorem StaleCovered.finish (covered : StaleCovered view cache evictions values)
    (deleted : evictions index = .scanning []) :
    StaleCovered view cache (Function.update evictions index .done) values := by
  intro user
  rcases covered user with fresh | ⟨other, awaits⟩
  · exact Or.inl fresh
  · refine Or.inr ⟨other, ?_⟩
    rw [Function.update_of_ne]
    · exact awaits
    · rintro rfl
      rw [deleted] at awaits
      cases awaits

end Evictions

end LiteHorse.ViewCaches
