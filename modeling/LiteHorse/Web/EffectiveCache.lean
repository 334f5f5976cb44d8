/-
This file is about the Redis cache of the resolved config and the changes a user makes. No
route of the user's config touches the cache entry: a change shows once the entry is gone.

`reads_plain_iff` says that the cached resolver is the plain one exactly as long as no write
that changes one of the four lists is made while the user's entry is cached.
-/

import LiteHorse.Library.Runs
import LiteHorse.Library.ViewCache
import LiteHorse.Web.UserConfig

namespace LiteHorse.Web

open Repositories Runs Versions ViewCaches

/-- `_cache_key` -/
def cacheKey (userId : String) : String := "effective:" ++ userId

theorem cacheKey_injective : Function.Injective cacheKey := by
  intro first second same
  have chars := congrArg String.toList same
  rw [cacheKey, cacheKey, String.toList_append, String.toList_append] at chars
  exact String.toList_injective (List.append_cancel_left chars)

/-- Redis' `effective:*` entries. A cached text is given by its JSON value. -/
abbrev ConfigCache := Cache String Python.Json

section Cache

variable (isPrintable : Char → Bool) (digest : Python.Json → String) (bundled : BundledTiers)

/-- The config of a user as a view of the tables. -/
def configView : View String String ConfigTables EffectiveConfig Python.Json where
  key := cacheKey
  compute := computeEffectiveConfig isPrintable digest bundled
  encode := EffectiveConfig.toJson
  decode := EffectiveConfig.fromJson
  key_injective := cacheKey_injective
  decode_encode := fromJson_toJson_compute

/-- The config that is returned, if the cached one can be read, and the cache. -/
def getOrComputeEffectiveConfig (cache : ConfigCache) (tables : ConfigTables) (userId : String) :
    Option EffectiveConfig × ConfigCache :=
  (configView isPrintable digest bundled).getOrCompute cache tables userId

/-! ### The runs of one user -/

structure ConfigState where
  tables : ConfigTables
  cache : ConfigCache

inductive ConfigEvent where
  | read
  | write (write : UserWrite)
  /-- Redis drops an entry whose time is over. -/
  | expire (key : String)

variable (userId : String)

def configStep (state : ConfigState) : ConfigEvent → Option ConfigState
  | .read =>
    some { state with
      cache := (getOrComputeEffectiveConfig isPrintable digest bundled state.cache state.tables
        userId).2 }
  | .write write =>
    some { state with tables := tablesAfter isPrintable userId state.tables write }
  | .expire key => some { state with cache := state.cache.erase key }

/-- A read returns what the plain resolver computes from the tables at that moment. -/
def ReadsPlain (state : ConfigState) : Prop :=
  (getOrComputeEffectiveConfig isPrintable digest bundled state.cache state.tables userId).1 =
    some (computeEffectiveConfig isPrintable digest bundled userId state.tables)

/-- A write changes one of the user's four lists while the user's config is cached. -/
def ChangesCached (state : ConfigState) : ConfigEvent → Prop
  | .write write => state.cache.lookup (cacheKey userId) ≠ none ∧
      effectiveLists isPrintable bundled userId
          (tablesAfter isPrintable userId state.tables write) ≠
        effectiveLists isPrintable bundled userId state.tables
  | .read | .expire _ => False

variable {isPrintable digest bundled userId} {state next : ConfigState}

theorem readsPlain_iff_fresh :
    ReadsPlain isPrintable digest bundled userId state ↔
      Fresh (configView isPrintable digest bundled) state.cache userId
        (computeEffectiveConfig isPrintable digest bundled userId state.tables) :=
  View.getOrCompute_eq_iff

/-- A write keeps reads right unless it changes what is cached. -/
theorem readsPlain_write_iff (write : UserWrite)
    (plain : ReadsPlain isPrintable digest bundled userId state) :
    ReadsPlain isPrintable digest bundled userId
        { state with tables := tablesAfter isPrintable userId state.tables write } ↔
      ¬ ChangesCached isPrintable bundled userId state (.write write) := by
  have kept := fresh_of_source_iff (configView isPrintable digest bundled)
    (tablesAfter isPrintable userId state.tables write) (readsPlain_iff_fresh.mp plain)
  refine readsPlain_iff_fresh.trans (kept.trans ?_)
  unfold ChangesCached
  rw [not_and, not_not]
  exact imp_congr Iff.rfl (computeEffectiveConfig_eq_iff userId _ _)

/-- The step lemma. -/
theorem readsPlain_step (event : ConfigEvent)
    (plain : ReadsPlain isPrintable digest bundled userId state)
    (unchanged : ¬ ChangesCached isPrintable bundled userId state event)
    (taken : configStep isPrintable digest bundled userId state event = some next) :
    ReadsPlain isPrintable digest bundled userId next := by
  cases event with
  | read =>
    cases taken
    exact readsPlain_iff_fresh.mpr (readsPlain_iff_fresh.mp plain).getOrCompute
  | write write =>
    cases taken
    exact (readsPlain_write_iff write plain).mpr unchanged
  | expire key =>
    cases taken
    exact readsPlain_iff_fresh.mpr ((readsPlain_iff_fresh.mp plain).erase key)

theorem changesCached_breaks (event : ConfigEvent)
    (plain : ReadsPlain isPrintable digest bundled userId state)
    (changes : ChangesCached isPrintable bundled userId state event) :
    ∃ next, configStep isPrintable digest bundled userId state event = some next ∧
      ¬ ReadsPlain isPrintable digest bundled userId next := by
  cases event with
  | write write =>
    exact ⟨_, rfl, fun nextPlain => (readsPlain_write_iff write plain).mp nextPlain changes⟩
  | read => exact changes.elim
  | expire key => exact changes.elim

end Cache

/-- The cached resolver is the plain one in every state of a run exactly if it is so in the
first and no write changes the user's lists while the user's config is cached. -/
theorem reads_plain_iff (isPrintable : Char → Bool) (digest : Python.Json → String)
    (bundled : BundledTiers) (userId : String) (initial : ConfigState)
    (events : List ConfigEvent) :
    Always (configStep isPrintable digest bundled userId)
        (ReadsPlain isPrintable digest bundled userId) initial events ↔
      ReadsPlain isPrintable digest bundled userId initial ∧
        StepsMeet (configStep isPrintable digest bundled userId)
          (fun state event => ¬ ChangesCached isPrintable bundled userId state event) initial
          events := by
  have preserved : ∀ state event next, ReadsPlain isPrintable digest bundled userId state →
      ¬ ChangesCached isPrintable bundled userId state event →
        configStep isPrintable digest bundled userId state event = some next →
          ReadsPlain isPrintable digest bundled userId next :=
    fun state event next => readsPlain_step event
  constructor
  · intro always
    refine ⟨always.head, stepsMeet_of_always _ preserved (fun state event plain changes => ?_)
      always.head always⟩
    exact changesCached_breaks event plain (not_not.mp changes)
  · rintro ⟨plain, meet⟩
    exact always_of_invariant _ preserved plain meet

/-- One official skill, and a user without rows. -/
def deployTables : ConfigTables where
  officials
    | .skills => [⟨"deploy", 1, true, ⟨false, true, [], "Deploy.", none⟩⟩]
    | .instructions => []
    | .commands => []
    | .mcpServers => []
  users _ _ := []
  cronOfficials := []
  optOuts _ := []

/-- An opt-out does not show in a config that is cached. -/
theorem cached_config_misses_opt_out :
    ¬ ∀ (isPrintable : Char → Bool) (digest : Python.Json → String) (bundled : BundledTiers)
      (userId : String) (tables : ConfigTables) (events : List ConfigEvent),
        Always (configStep isPrintable digest bundled userId)
          (ReadsPlain isPrintable digest bundled userId) ⟨tables, ∅⟩ events := by
  intro assumed
  have always := assumed (fun _ => true) (fun _ => "") ⟨[], [], []⟩ "alice" deployTables
    [.read, .write (.addOptOut "skill" "deploy")]
  have plain := (always.2 _ rfl).head
  have nextPlain := ((always.2 _ rfl).2 _ rfl).head
  refine (readsPlain_write_iff (.addOptOut "skill" "deploy") plain).mp nextPlain ⟨?_, ?_⟩
  · intro uncached
    cases uncached
  · intro same
    have length := congrArg (fun lists => lists.1.length) same
    revert length
    decide

end LiteHorse.Web
