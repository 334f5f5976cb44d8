/-
This file is about the invalidation of cached configs by an admin request. The request writes
its rows, evicts every cached config, publishes the invalidation, and commits when its session
ends; each subscriber evicts on the message. Readers get, compute from the committed rows and
store, each in a step of its own: the request writes to one table, and a computation reads that
table with one statement.

Between the eviction and the commit a reader still finds the old rows, and a reader may store
long after it has computed. `admin_write_visible` says that nothing else goes wrong: the write
is visible as long as no config from before the commit is stored once no eviction is sure to
delete it any more.
-/

import LiteHorse.Web.EffectiveCache

namespace LiteHorse.Web

open Repositories Runs Versions ViewCaches

/-! ### The admin request -/

/-- A write of the admin routes to one of the layered tables. -/
structure AdminWrite where
  entity : Entity
  call : OfficialCall (versionedRepo entity)

/-- The official rows after a call that succeeds. -/
def officialsAfter (repo : VersionedRepo) (rows : OfficialRows repo) :
    OfficialCall repo → Option (OfficialRows repo)
  | .createOfficial slug args => (createOfficial repo rows slug args).toOption.map Prod.fst
  | .updateOfficial slug args => (updateOfficial repo rows slug args).toOption.join.map Prod.fst
  | .deleteOfficial slug => (deleteOfficial repo rows slug).toOption.join
  | .rollbackOfficial slug version =>
    (rollbackOfficial repo rows slug version).toOption.join.map Prod.fst

/-- The tables as the request's transaction sees them after its write. -/
def adminWrite (tables : ConfigTables) (write : AdminWrite) : Option ConfigTables :=
  (officialsAfter (versionedRepo write.entity) (tables.officials write.entity) write.call).map
    fun rows => { tables with officials := Function.update tables.officials write.entity rows }

inductive AdminPhase where
  | idle
  /-- In the transaction, with its rows. -/
  | wrote (tables : ConfigTables)
  | published (tables : ConfigTables)
  | committed

def AdminPhase.isCommitted : AdminPhase → Bool
  | .committed => true
  | .idle | .wrote _ | .published _ => false

/-- The request evicts after its write, a subscriber once the message is published. -/
def AdminPhase.mayEvict : AdminPhase → Option Nat → Bool
  | .wrote _, none | .published _, some _ | .committed, some _ => true
  | _, _ => false

/-! ### The readers and the runs -/

inductive ReaderPhase where
  | idle
  | missed
  /-- It has the config, from the rows after the commit or from those before. -/
  | computed (config : EffectiveConfig) (afterCommit : Bool)
  | returned (config : Option EffectiveConfig)

/-- The evictions are those of the request (`none`) and of the subscribers. A reader is late
when it gets after the request and every eviction are over. -/
structure InvalidationState where
  tables : ConfigTables
  cache : ConfigCache
  admin : AdminPhase
  evictions : Option Nat → Eviction String
  readers : Nat → ReaderPhase
  late : Nat → Bool

inductive InvalidationEvent where
  | adminWrites
  | publish
  | commit
  | evictStarts (index : Option Nat)
  /-- A key that `SCAN` has returned is deleted. -/
  | evictDeletes (index : Option Nat) (key : String)
  | evictEnds (index : Option Nat)
  | get (reader : Nat)
  | compute (reader : Nat)
  | store (reader : Nat)
  | expire (key : String)

section System

variable (isPrintable : Char → Bool) (digest : Python.Json → String) (bundled : BundledTiers)
  (subscribers : List Nat) (userOf : Nat → String) (write : AdminWrite)

/-- The admin request and all evictions it has published are over. -/
def Complete (state : InvalidationState) : Prop :=
  state.admin.isCommitted = true ∧ state.evictions none = .done ∧
    ∀ index ∈ subscribers, state.evictions (some index) = .done

instance (state : InvalidationState) : Decidable (Complete subscribers state) :=
  inferInstanceAs (Decidable (_ ∧ _ ∧ _))

def InvalidationState.initial (tables : ConfigTables) (cache : ConfigCache) :
    InvalidationState where
  tables := tables
  cache := cache
  admin := .idle
  evictions
    | none => .waits
    | some index => if index ∈ subscribers then .waits else .done
  readers _ := .idle
  late _ := false

def InvalidationState.moveReader (state : InvalidationState) (reader : Nat) (phase : ReaderPhase) :
    InvalidationState :=
  { state with readers := Function.update state.readers reader phase }

/-- A key leaves the cache. -/
def InvalidationState.drop (state : InvalidationState) (key : String) : InvalidationState :=
  { state with
    cache := state.cache.erase key
    evictions := fun index => (state.evictions index).gone key }

def invalidationStep (state : InvalidationState) : InvalidationEvent → Option InvalidationState
  | .adminWrites =>
    match state.admin with
    | .idle => (adminWrite state.tables write).map fun after => { state with admin := .wrote after }
    | _ => none
  | .publish =>
    match state.admin with
    | .wrote after =>
      if state.evictions none = .done then some { state with admin := .published after } else none
    | _ => none
  | .commit =>
    match state.admin with
    | .published after => some { state with tables := after, admin := .committed }
    | _ => none
  | .evictStarts index =>
    if state.evictions index = .waits ∧ state.admin.mayEvict index then
      some { state with
        evictions := Function.update state.evictions index (.scanning state.cache.keys) }
    else none
  | .evictDeletes index key =>
    match state.evictions index with
    | .scanning _ => some (state.drop key)
    | _ => none
  | .evictEnds index =>
    if state.evictions index = .scanning [] then
      some { state with evictions := Function.update state.evictions index .done }
    else none
  | .get reader =>
    match state.readers reader with
    | .idle =>
      some { state.moveReader reader
          (match state.cache.lookup (cacheKey (userOf reader)) with
          | some blob => .returned (EffectiveConfig.fromJson blob)
          | none => .missed) with
        late := Function.update state.late reader (decide (Complete subscribers state)) }
    | _ => none
  | .compute reader =>
    match state.readers reader with
    | .missed =>
      some (state.moveReader reader
        (.computed (computeEffectiveConfig isPrintable digest bundled (userOf reader) state.tables)
          state.admin.isCommitted))
    | _ => none
  | .store reader =>
    match state.readers reader with
    | .computed config _ =>
      some { state.moveReader reader (.returned (some config)) with
        cache := state.cache.insert (cacheKey (userOf reader)) config.toJson }
    | _ => none
  | .expire key => some (state.drop key)

/-- Every late reader returns the config that the tables with the admin's write give. -/
def AdminVisible (after : ConfigTables) (state : InvalidationState) : Prop :=
  ∀ reader config, state.readers reader = .returned config → state.late reader = true →
    config = some (computeEffectiveConfig isPrintable digest bundled (userOf reader) after)

/-- A config from before the commit, which the write changes, is stored when no eviction is sure
to delete it any more. -/
def StoresUncovered (before after : ConfigTables) (state : InvalidationState) :
    InvalidationEvent → Prop
  | .store reader =>
    (∃ config, state.readers reader = .computed config false) ∧
      effectiveLists isPrintable bundled (userOf reader) before ≠
        effectiveLists isPrintable bundled (userOf reader) after ∧
      ¬ Covered state.evictions (cacheKey (userOf reader))
  | _ => False

end System

/-! ### What one step keeps -/

section Steps

variable {isPrintable : Char → Bool} {digest : Python.Json → String} {bundled : BundledTiers}
  {subscribers : List Nat} {userOf : Nat → String} {write : AdminWrite}
  {before after : ConfigTables} {state next : InvalidationState}

/-- The config of a reader whose rows are from before or from after the commit. -/
def configOf (isPrintable : Char → Bool) (digest : Python.Json → String) (bundled : BundledTiers)
    (before after : ConfigTables) (userId : String) (afterCommit : Bool) : EffectiveConfig :=
  computeEffectiveConfig isPrintable digest bundled userId (if afterCommit then after else before)

/-- What every run keeps in which no config from before the commit is stored uncovered. -/
structure Invalidation (isPrintable : Char → Bool) (digest : Python.Json → String)
    (bundled : BundledTiers) (subscribers : List Nat) (userOf : Nat → String)
    (before after : ConfigTables) (state : InvalidationState) : Prop where
  tables : state.tables = if state.admin.isCommitted then after else before
  pending : ∀ tables, state.admin = .wrote tables ∨ state.admin = .published tables →
    tables = after
  others : ∀ index ∉ subscribers, state.evictions (some index) = .done
  stale : StaleCovered (configView isPrintable digest bundled) state.cache state.evictions
    fun userId => computeEffectiveConfig isPrintable digest bundled userId after
  late : ∀ reader, state.late reader = true → Complete subscribers state
  computed : ∀ reader config afterCommit, state.readers reader = .computed config afterCommit →
    config = configOf isPrintable digest bundled before after (userOf reader) afterCommit ∧
      (state.late reader = true → afterCommit = true)
  visible : AdminVisible isPrintable digest bundled userOf after state

/-- An eviction that is over stays so when a key leaves the cache. -/
theorem Complete.drop (complete : Complete subscribers state) (key : String) :
    Complete subscribers (state.drop key) := by
  refine ⟨complete.1, ?_, fun index member => ?_⟩
  · show (state.evictions none).gone key = .done
    rw [complete.2.1]
    rfl
  · show (state.evictions (some index)).gone key = .done
    rw [complete.2.2 index member]
    rfl

/-- When everything is over, no eviction is under way. -/
theorem Invalidation.ended
    (invariant : Invalidation isPrintable digest bundled subscribers userOf before after state)
    (complete : Complete subscribers state) (index : Option Nat) :
    state.evictions index = .done := by
  cases index with
  | none => exact complete.2.1
  | some index =>
    by_cases member : index ∈ subscribers
    · exact complete.2.2 index member
    · exact invariant.others index member

/-- A step of the request or of an eviction. -/
theorem Invalidation.frame
    (invariant : Invalidation isPrintable digest bundled subscribers userOf before after state)
    (readers : next.readers = state.readers) (late : next.late = state.late)
    (tables : next.tables = if next.admin.isCommitted then after else before)
    (pending : ∀ tables, next.admin = .wrote tables ∨ next.admin = .published tables →
      tables = after)
    (others : ∀ index ∉ subscribers, next.evictions (some index) = .done)
    (stale : StaleCovered (configView isPrintable digest bundled) next.cache next.evictions
      fun userId => computeEffectiveConfig isPrintable digest bundled userId after)
    (complete : Complete subscribers state → Complete subscribers next) :
    Invalidation isPrintable digest bundled subscribers userOf before after next where
  tables := tables
  pending := pending
  others := others
  stale := stale
  late reader isLate := by
    rw [late] at isLate
    exact complete (invariant.late reader isLate)
  computed reader config afterCommit hasConfig := by
    rw [readers] at hasConfig
    rw [late]
    exact invariant.computed reader config afterCommit hasConfig
  visible reader config returned isLate := by
    rw [readers] at returned
    rw [late] at isLate
    exact invariant.visible reader config returned isLate

/-- A step of the request, which leaves the cache and the evictions. -/
theorem Invalidation.adminStep
    (invariant : Invalidation isPrintable digest bundled subscribers userOf before after state)
    (tables : ConfigTables) (admin : AdminPhase)
    (committed : tables = if admin.isCommitted then after else before)
    (pending : ∀ tables, admin = .wrote tables ∨ admin = .published tables → tables = after)
    (notOver : state.admin.isCommitted = false) :
    Invalidation isPrintable digest bundled subscribers userOf before after
      { state with tables := tables, admin := admin } := by
  refine invariant.frame rfl rfl committed pending invariant.others invariant.stale
    fun complete => absurd complete.1 ?_
  rw [notOver]
  exact Bool.false_ne_true

/-- A key leaves the cache. -/
theorem Invalidation.drop
    (invariant : Invalidation isPrintable digest bundled subscribers userOf before after state)
    (key : String) :
    Invalidation isPrintable digest bundled subscribers userOf before after (state.drop key) := by
  refine invariant.frame rfl rfl invariant.tables invariant.pending (fun index notMember => ?_)
    (invariant.stale.erase key) fun complete => complete.drop key
  show (state.evictions (some index)).gone key = .done
  rw [invariant.others index notMember]
  rfl

/-- An eviction that is not over moves on. -/
theorem Invalidation.evict
    (invariant : Invalidation isPrintable digest bundled subscribers userOf before after state)
    (index : Option Nat) (eviction : Eviction String) (notOver : state.evictions index ≠ .done)
    (stale : StaleCovered (configView isPrintable digest bundled) state.cache
      (Function.update state.evictions index eviction)
      fun userId => computeEffectiveConfig isPrintable digest bundled userId after) :
    Invalidation isPrintable digest bundled subscribers userOf before after
      { state with evictions := Function.update state.evictions index eviction } := by
  refine invariant.frame rfl rfl invariant.tables invariant.pending (fun other notMember => ?_)
    stale fun complete => absurd (invariant.ended complete index) notOver
  have ended := invariant.others other notMember
  refine (Function.update_of_ne ?_ _ _).trans ended
  rintro rfl
  exact notOver ended

/-- A reader moves on, with what its new phase has to satisfy. -/
theorem Invalidation.moveReader
    (invariant : Invalidation isPrintable digest bundled subscribers userOf before after state)
    (reader : Nat) (phase : ReaderPhase) (late : Nat → Bool)
    (sameLate : ∀ other, other ≠ reader → late other = state.late other)
    (complete : late reader = true → Complete subscribers state)
    (computed : ∀ config afterCommit, phase = .computed config afterCommit →
      config = configOf isPrintable digest bundled before after (userOf reader) afterCommit ∧
        (late reader = true → afterCommit = true))
    (returned : ∀ config, phase = .returned config → late reader = true →
      config = some (computeEffectiveConfig isPrintable digest bundled (userOf reader) after)) :
    Invalidation isPrintable digest bundled subscribers userOf before after
      { state.moveReader reader phase with late := late } where
  tables := invariant.tables
  pending := invariant.pending
  others := invariant.others
  stale := invariant.stale
  late other isLate := by
    by_cases same : other = reader
    · rw [same] at isLate
      exact complete isLate
    · exact invariant.late other ((sameLate other same).symm.trans isLate)
  computed other config afterCommit hasConfig := by
    by_cases same : other = reader
    · rw [same] at hasConfig ⊢
      exact computed config afterCommit ((Function.update_self _ _ _).symm.trans hasConfig)
    · rw [show (_ : InvalidationState).late other = late other from rfl, sameLate other same]
      exact invariant.computed other config afterCommit
        ((Function.update_of_ne same _ _).symm.trans hasConfig)
  visible other config hasReturned isLate := by
    by_cases same : other = reader
    · rw [same] at hasReturned isLate ⊢
      exact returned config ((Function.update_self _ _ _).symm.trans hasReturned) isLate
    · exact invariant.visible other config ((Function.update_of_ne same _ _).symm.trans hasReturned)
        ((sameLate other same).symm.trans isLate)

/-- A reader looks the config up. -/
theorem Invalidation.get
    (invariant : Invalidation isPrintable digest bundled subscribers userOf before after state)
    (reader : Nat) :
    Invalidation isPrintable digest bundled subscribers userOf before after
      { state.moveReader reader
          (match state.cache.lookup (cacheKey (userOf reader)) with
          | some blob => .returned (EffectiveConfig.fromJson blob)
          | none => .missed) with
        late := Function.update state.late reader (decide (Complete subscribers state)) } := by
  refine invariant.moveReader reader _ _ (fun other notSame => Function.update_of_ne notSame _ _)
    (fun isLate => ?_) (fun config afterCommit isComputed => ?_)
    (fun config isReturned isLate => ?_)
  · rw [Function.update_self] at isLate
    exact of_decide_eq_true isLate
  · split at isComputed <;> cases isComputed
  · rw [Function.update_self] at isLate
    have fresh := invariant.stale.fresh (invariant.ended (of_decide_eq_true isLate)) (userOf reader)
    split at isReturned
    · next blob cached =>
      cases isReturned
      exact fresh blob cached
    · cases isReturned

/-- A reader computes the config from the committed rows. -/
theorem Invalidation.compute
    (invariant : Invalidation isPrintable digest bundled subscribers userOf before after state)
    (reader : Nat) :
    Invalidation isPrintable digest bundled subscribers userOf before after
      (state.moveReader reader
        (.computed (computeEffectiveConfig isPrintable digest bundled (userOf reader) state.tables)
          state.admin.isCommitted)) := by
  refine invariant.moveReader reader _ state.late (fun other notSame => rfl)
    (invariant.late reader) (fun config afterCommit isComputed => ?_)
    (fun config isReturned isLate => by cases isReturned)
  cases isComputed
  refine ⟨?_, fun isLate => (invariant.late reader isLate).1⟩
  rw [invariant.tables]
  rfl

/-- A reader stores the config it has computed, and returns it. -/
theorem Invalidation.store
    (invariant : Invalidation isPrintable digest bundled subscribers userOf before after state)
    {reader : Nat} {config : EffectiveConfig} {afterCommit : Bool}
    (isComputed : state.readers reader = .computed config afterCommit)
    (covered : ¬ StoresUncovered isPrintable bundled userOf before after state (.store reader)) :
    Invalidation isPrintable digest bundled subscribers userOf before after
      { state.moveReader reader (.returned (some config)) with
        cache := state.cache.insert (cacheKey (userOf reader)) config.toJson } := by
  obtain ⟨isConfig, lateComputes⟩ := invariant.computed reader config afterCommit isComputed
  have moved := invariant.moveReader reader (.returned (some config)) state.late
    (fun other notSame => rfl) (invariant.late reader)
    (fun config afterCommit isComputed => by cases isComputed) (fun returned same isLate => by
      cases same
      rw [isConfig, lateComputes isLate]
      rfl)
  have decoded : EffectiveConfig.fromJson config.toJson = some config := by
    rw [isConfig]
    exact fromJson_toJson_compute _ _
  have stored : (configView isPrintable digest bundled).decode config.toJson =
        some (computeEffectiveConfig isPrintable digest bundled (userOf reader) after) ∨
      Covered state.evictions ((configView isPrintable digest bundled).key (userOf reader)) := by
    cases afterCommit with
    | true =>
      refine Or.inl (decoded.trans ?_)
      rw [isConfig]
      rfl
    | false =>
      by_cases sure : Covered state.evictions (cacheKey (userOf reader))
      · exact Or.inr sure
      · have same : effectiveLists isPrintable bundled (userOf reader) before =
            effectiveLists isPrintable bundled (userOf reader) after := by
          by_contra different
          exact covered ⟨⟨config, isComputed⟩, different, sure⟩
        refine Or.inl (decoded.trans ?_)
        rw [isConfig]
        exact congrArg some ((computeEffectiveConfig_eq_iff _ _ _).mpr same)
  exact moved.frame rfl rfl moved.tables moved.pending moved.others
    (invariant.stale.insert stored) id

/-- The step lemma. -/
theorem invalidation_step (event : InvalidationEvent)
    (written : adminWrite before write = some after)
    (invariant : Invalidation isPrintable digest bundled subscribers userOf before after state)
    (covered : ¬ StoresUncovered isPrintable bundled userOf before after state event)
    (taken : invalidationStep isPrintable digest bundled subscribers userOf write state event =
      some next) :
    Invalidation isPrintable digest bundled subscribers userOf before after next := by
  cases event with
  | adminWrites =>
    simp only [invalidationStep] at taken
    split at taken
    · next isIdle =>
      obtain ⟨tables, tablesWritten, rfl⟩ := Option.map_eq_some_iff.mp taken
      have committed := invariant.tables
      rw [isIdle] at committed
      rw [committed] at tablesWritten
      refine invariant.adminStep state.tables (.wrote tables) committed (fun other isPending => ?_)
        (by rw [isIdle]; rfl)
      have isAfter : tables = after := Option.some.inj (tablesWritten.symm.trans written)
      rcases isPending with same | same <;> cases same
      exact isAfter
    · cases taken
  | publish =>
    simp only [invalidationStep] at taken
    split at taken
    · next tables hasWritten =>
      split at taken
      · cases taken
        have committed := invariant.tables
        rw [hasWritten] at committed
        refine invariant.adminStep state.tables (.published tables) committed
          (fun other isPending => ?_) (by rw [hasWritten]; rfl)
        rcases isPending with same | same <;> cases same
        exact invariant.pending tables (Or.inl hasWritten)
      · cases taken
    · cases taken
  | commit =>
    simp only [invalidationStep] at taken
    split at taken
    · next tables hasPublished =>
      cases taken
      refine invariant.adminStep tables .committed
        (invariant.pending tables (Or.inr hasPublished)) (fun other isPending => ?_)
        (by rw [hasPublished]; rfl)
      rcases isPending with same | same <;> cases same
    · cases taken
  | evictStarts index =>
    rw [invalidationStep, Option.ite_none_right_eq_some] at taken
    obtain ⟨⟨waits, _⟩, taken⟩ := taken
    cases taken
    exact invariant.evict index _ (by rw [waits]; decide) (staleCovered_start index)
  | evictDeletes index key =>
    simp only [invalidationStep] at taken
    split at taken
    · cases taken
      exact invariant.drop key
    · cases taken
  | evictEnds index =>
    rw [invalidationStep, Option.ite_none_right_eq_some] at taken
    obtain ⟨deleted, taken⟩ := taken
    cases taken
    exact invariant.evict index _ (by rw [deleted]; decide) (invariant.stale.finish deleted)
  | get reader =>
    simp only [invalidationStep] at taken
    split at taken
    · cases taken
      exact invariant.get reader
    · cases taken
  | compute reader =>
    simp only [invalidationStep] at taken
    split at taken
    · cases taken
      exact invariant.compute reader
    · cases taken
  | store reader =>
    simp only [invalidationStep] at taken
    split at taken
    · next isComputed =>
      cases taken
      exact invariant.store isComputed covered
    · cases taken
  | expire key =>
    cases taken
    exact invariant.drop key

theorem invalidation_initial (cache : ConfigCache) :
    Invalidation isPrintable digest bundled subscribers userOf before after
      (InvalidationState.initial subscribers before cache) where
  tables := rfl
  pending tables isPending := by rcases isPending with same | same <;> cases same
  others index notMember := if_neg notMember
  stale := by
    have waits : (InvalidationState.initial subscribers before cache).evictions none = .waits := rfl
    exact staleCovered_of_waits waits
  late reader isLate := by cases isLate
  computed reader config afterCommit isComputed := by cases isComputed
  visible reader config isReturned := by cases isReturned

end Steps

/-- Where no config from before the commit is stored once no eviction is sure to delete it,
every reader that starts after the request and its evictions gets the admin's write. -/
theorem admin_write_visible (isPrintable : Char → Bool) (digest : Python.Json → String)
    (bundled : BundledTiers) (subscribers : List Nat) (userOf : Nat → String)
    (write : AdminWrite) (before after : ConfigTables)
    (written : adminWrite before write = some after) (cache : ConfigCache)
    (events : List InvalidationEvent)
    (covered : StepsMeet
      (invalidationStep isPrintable digest bundled subscribers userOf write)
      (fun state event => ¬ StoresUncovered isPrintable bundled userOf before after state event)
      (InvalidationState.initial subscribers before cache) events) :
    Always (invalidationStep isPrintable digest bundled subscribers userOf write)
      (AdminVisible isPrintable digest bundled userOf after)
      (InvalidationState.initial subscribers before cache) events := by
  have initial : Invalidation isPrintable digest bundled subscribers userOf before after
      (InvalidationState.initial subscribers before cache) := invalidation_initial cache
  have invariant := always_of_invariant
    (invalidationStep isPrintable digest bundled subscribers userOf write)
    (fun state event next => invalidation_step event written) initial covered
  exact invariant.mono _ fun _ invariant => invariant.visible

/-! ### A run on either side -/

/-- The official skill of `deployTables` is deleted. -/
def deleteDeploy : AdminWrite := ⟨.skills, .deleteOfficial "deploy"⟩

def deployDeleted : ConfigTables :=
  { deployTables with
    officials := Function.update deployTables.officials .skills
      [⟨"deploy", 1, false, ⟨false, true, [], "Deploy.", none⟩⟩] }

/-- A config from before the commit is stored before the request evicts. -/
def storedInTime : List InvalidationEvent :=
  [.get 0, .compute 0, .adminWrites, .store 0, .evictStarts none,
    .evictDeletes none "effective:alice", .evictEnds none, .publish, .evictStarts (some 0),
    .evictEnds (some 0), .commit, .get 1, .compute 1, .store 1, .get 2]

theorem storedInTime_visible :
    Always (invalidationStep (fun _ => true) (fun _ => "") ⟨[], [], []⟩ [0] (fun _ => "alice")
        deleteDeploy)
      (AdminVisible (fun _ => true) (fun _ => "") ⟨[], [], []⟩ (fun _ => "alice") deployDeleted)
      (InvalidationState.initial [0] deployTables ∅) storedInTime := by
  refine admin_write_visible (fun _ => true) (fun _ => "") ⟨[], [], []⟩ [0] (fun _ => "alice")
    deleteDeploy deployTables deployDeleted rfl ∅ storedInTime ?_
  iterate 3 refine StepsMeet.cons _ id rfl ?_
  refine StepsMeet.cons _ (fun uncovered => uncovered.2.2 ⟨none, trivial⟩) rfl ?_
  iterate 9 refine StepsMeet.cons _ id rfl ?_
  refine StepsMeet.cons _ (fun uncovered => ?_) rfl ?_
  · obtain ⟨⟨config, before⟩, _⟩ := uncovered
    cases before
  · exact StepsMeet.cons _ id rfl trivial

/-- A reader fills the cache between the evictions and the commit. -/
def storedBetween : List InvalidationEvent :=
  [.adminWrites, .evictStarts none, .evictEnds none, .publish, .evictStarts (some 0),
    .evictEnds (some 0), .get 0, .compute 0, .store 0, .commit, .get 1]

theorem stored_between_hides_admin_write :
    ¬ ∀ (isPrintable : Char → Bool) (digest : Python.Json → String) (bundled : BundledTiers)
      (subscribers : List Nat) (userOf : Nat → String) (write : AdminWrite)
      (before after : ConfigTables), adminWrite before write = some after →
        ∀ (cache : ConfigCache) (events : List InvalidationEvent),
          Always (invalidationStep isPrintable digest bundled subscribers userOf write)
            (AdminVisible isPrintable digest bundled userOf after)
            (InvalidationState.initial subscribers before cache) events := by
  intro assumed
  have always := assumed (fun _ => true) (fun _ => "") ⟨[], [], []⟩ [0] (fun _ => "alice")
    deleteDeploy deployTables deployDeleted rfl ∅ storedBetween
  have returned := always.last _ rfl 1 _ rfl rfl
  have decoded : EffectiveConfig.fromJson
        (computeEffectiveConfig (fun _ => true) (fun _ => "") ⟨[], [], []⟩ "alice"
          deployTables).toJson =
      some (computeEffectiveConfig (fun _ => true) (fun _ => "") ⟨[], [], []⟩ "alice"
        deployTables) := fromJson_toJson_compute _ _
  have same := Option.some.inj (decoded.symm.trans returned)
  have lists := (computeEffectiveConfig_eq_iff "alice" deployTables deployDeleted).mp same
  have length := congrArg (fun lists => lists.1.length) lists
  revert length
  decide

end LiteHorse.Web
