/-
This file is about what `invalidate` promises. A call of it is known by its number, and a
configuration that was resolved before it by the number of calls made at that time. A server
is outdated for it if it was built for one of its keys from such a configuration.

The block of `invalidate` leaves no outdated server in the cache. After that, only an insert
can bring one in, of a server that was built or requested from an old configuration; and a
later `acquire` with a new configuration gets an outdated server from the cache only.
-/

import LiteHorse.Agent.McpAcquire

namespace LiteHorse.Agent.McpPool

open OrderedDicts Repositories

variable {Time : Type}

/-! ### What a step does to calls and cache -/

/-- When the configuration of an `acquire` that may still return was resolved. -/
def Call.resolvedAt? : Call Time → Option Nat
  | .next acquire _ | .lookUp acquire _ _ | .dropStale acquire _ _ _ | .build acquire _ _
  | .insert acquire _ _ _ | .evict acquire _ _ | .returned acquire => some acquire.resolvedAt
  | .raised | .invalidate .. | .invalidated .. | .shutdown | .closed _ => none

/-- The servers that a call has collected, with the one it is about to collect. -/
def Call.collecting : Call Time → List Nat
  | .next acquire _ | .lookUp acquire _ _ | .dropStale acquire _ _ _ | .build acquire _ _
  | .returned acquire => acquire.out
  | .insert acquire _ _ server | .evict acquire server _ => acquire.out ++ [server]
  | .raised | .invalidate .. | .invalidated .. | .shutdown | .closed _ => []

theorem resolvedAt_proceed (acquire : Acquire) :
    (acquire.proceed : Call Time).resolvedAt? = some acquire.resolvedAt := by
  unfold Acquire.proceed
  split <;> rfl

theorem collecting_proceed (acquire : Acquire) :
    (acquire.proceed : Call Time).collecting = acquire.out := by
  unfold Acquire.proceed
  split <;> rfl

/-- A call makes a step: what it collects it had collected, or it comes from the cache, or it is
new. -/
def Collects (state next : State Time) (call new : Call Time) : Prop :=
  ∀ resolvedAt, new.resolvedAt? = some resolvedAt → call.resolvedAt? = some resolvedAt ∧
    ∀ server ∈ new.collecting, server ∈ call.collecting ∨ server ∈ state.cached ∨
      ∃ built, next.servers[server]? = some built ∧ built.resolvedAt = resolvedAt

/-- The call has taken out the entries of an `invalidate`. -/
def Call.HasInvalidated (userId slug : Option String) (count : Nat) (call : Call Time) : Prop :=
  ∃ remaining, call = .invalidated userId slug remaining count

theorem not_hasInvalidated_proceed (acquire : Acquire) (userId slug : Option String) (count : Nat) :
    ¬ (acquire.proceed : Call Time).HasInvalidated userId slug count := by
  unfold Acquire.proceed
  rintro ⟨remaining, same⟩
  split at same <;> cases same

/-- A call that has taken its entries out stays one, and one that becomes one leaves no entry
that it names. -/
structure Invalidates (next : State Time) (call new : Call Time) : Prop where
  stays : ∀ userId slug count, call.HasInvalidated userId slug count →
    new.HasInvalidated userId slug count
  becomes : ∀ userId slug count, new.HasInvalidated userId slug count →
    call.HasInvalidated userId slug count ∨
      ∀ item ∈ next.cache.items, matchesKey userId slug item.1 = false

/-- What a step can do. -/
structure Moves (pool : Pool Time) (state next : State Time) (event : Event Time) : Prop where
  grows : state.calls.length ≤ next.calls.length
  servers : ∃ new, next.servers = state.servers ++ new
  cache : ∀ item ∈ next.cache.items, item ∈ state.cache.items ∨
    ∃ task acquire entry now server, event = .take task ∧
      state.calls[task]? = some (.insert acquire entry now server) ∧
      item = (cacheKey acquire.userId entry, ⟨server, pool.expiry now⟩)
  calls : ∀ (task : Nat) (new : Call Time), next.calls[task]? = some new →
    (new.collecting = [] ∧ task = state.calls.length ∧
        ∀ userId slug count, ¬ new.HasInvalidated userId slug count) ∨
      ∃ call, state.calls[task]? = some call ∧ Collects state next call new ∧
        Invalidates next call new

section Moves

variable {pool : Pool Time} {state next : State Time} {task : Nat} {event : Event Time}
  {call new : Call Time}

theorem Collects.same (state next : State Time) (call : Call Time) :
    Collects state next call call :=
  fun _ isResolved => ⟨isResolved, fun _ member => Or.inl member⟩

theorem Invalidates.same (next : State Time) (call : Call Time) : Invalidates next call call :=
  ⟨fun _ _ _ => id, fun _ _ _ => Or.inl⟩

theorem Invalidates.other (notBefore : ∀ userId slug count, ¬ call.HasInvalidated userId slug count)
    (notAfter : ∀ userId slug count, ¬ new.HasInvalidated userId slug count) :
    Invalidates next call new :=
  ⟨fun userId slug count has => absurd has (notBefore userId slug count),
    fun userId slug count has => absurd has (notAfter userId slug count)⟩

/-- The call at one place changes. -/
theorem moves_calls (isCall : state.calls[task]? = some call)
    (isCalls : next.calls = state.calls.set task new) (collects : Collects state next call new)
    (invalidates : Invalidates next call new) (other : Nat) (changed : Call Time)
    (isChanged : next.calls[other]? = some changed) :
    ∃ call, state.calls[other]? = some call ∧ Collects state next call changed ∧
      Invalidates next call changed := by
  rw [isCalls] at isChanged
  by_cases same : task = other
  · subst same
    rw [List.getElem?_set_self (List.getElem?_eq_some_iff.mp isCall).1] at isChanged
    cases isChanged
    exact ⟨call, isCall, collects, invalidates⟩
  · rw [List.getElem?_set_ne same] at isChanged
    exact ⟨changed, isChanged, Collects.same _ _ _, Invalidates.same _ _⟩

/-- A call makes a step that brings no server in. -/
theorem Moves.put (isCall : state.calls[task]? = some call)
    (isCalls : next.calls = state.calls.set task new) (isServers : next.servers = state.servers)
    (fewer : ∀ item ∈ next.cache.items, item ∈ state.cache.items)
    (collects : Collects state next call new) (invalidates : Invalidates next call new) :
    Moves pool state next event where
  grows := by rw [isCalls, List.length_set]
  servers := ⟨[], by rw [isServers, List.append_nil]⟩
  cache item member := Or.inl (fewer item member)
  calls other changed isChanged :=
    Or.inr (moves_calls isCall isCalls collects invalidates other changed isChanged)

/-- A call is made. -/
theorem Moves.make (isCalls : next.calls = state.calls ++ [new])
    (isServers : next.servers = state.servers) (sameCache : next.cache = state.cache)
    (collectsNothing : new.collecting = [])
    (other : ∀ userId slug count, ¬ new.HasInvalidated userId slug count) :
    Moves pool state next event where
  grows := by
    rw [isCalls, List.length_append]
    exact Nat.le_add_right _ _
  servers := ⟨[], by rw [isServers, List.append_nil]⟩
  cache item member := Or.inl (sameCache ▸ member)
  calls task changed isChanged := by
    rw [isCalls, List.getElem?_append] at isChanged
    split at isChanged
    · exact Or.inr ⟨changed, isChanged, Collects.same _ _ _, Invalidates.same _ _⟩
    · next beyond =>
      obtain ⟨inside, isNew⟩ := List.getElem?_eq_some_iff.mp isChanged
      rw [List.length_singleton] at inside
      rw [List.getElem_singleton] at isNew
      exact Or.inl ⟨isNew ▸ collectsNothing, by omega, isNew ▸ other⟩

end Moves

section Steps

variable {pool : Pool Time} {state next : State Time} {task : Nat}

/-- What `_evict_if_full` does, and the end of `_get_or_build` after it. -/
theorem evictIfFull_moves (pool : Pool Time) (state : State Time) (task : Nat) (acquire : Acquire)
    (server : Nat) :
    ∃ new, (pool.evictIfFull state task acquire server).calls = state.calls.set task new ∧
      (∀ item ∈ (pool.evictIfFull state task acquire server).cache.items,
        item ∈ state.cache.items) ∧
      (∀ resolvedAt, new.resolvedAt? = some resolvedAt →
        acquire.resolvedAt = resolvedAt ∧ new.collecting = acquire.out ++ [server]) ∧
      ∀ userId slug count, ¬ new.HasInvalidated userId slug count := by
  unfold Pool.evictIfFull
  split
  · split
    · next oldest rest popped =>
      refine ⟨.evict acquire server oldest.2.server, rfl, fun item member => ?_,
        fun resolvedAt same => ⟨Option.some.inj same, rfl⟩, fun _ _ _ ⟨_, same⟩ => by cases same⟩
      rw [OrderedDict.items_of_popFirst popped]
      exact List.mem_cons_of_mem _ member
    · exact ⟨.raised, rfl, fun _ => id, fun _ none => (by cases none),
        fun _ _ _ ⟨_, same⟩ => by cases same⟩
  · refine ⟨(acquire.collect server).proceed, rfl, fun _ => id, fun resolvedAt same => ?_,
      not_hasInvalidated_proceed _⟩
    rw [resolvedAt_proceed] at same
    exact ⟨Option.some.inj same, collecting_proceed _⟩

theorem moves_lookUp {event : Event Time} {acquire : Acquire} {entry : ResolvedMcpServer}
    {now : Time} (isCall : state.calls[task]? = some (.lookUp acquire entry now)) :
    Moves pool state (pool.lookUp state task acquire entry now) event := by
  have sameOut : ∀ next, ∀ resolvedAt, some acquire.resolvedAt = some resolvedAt →
      (Call.lookUp acquire entry now).resolvedAt? = some resolvedAt ∧
        ∀ server ∈ acquire.out, server ∈ (Call.lookUp acquire entry now).collecting ∨
          server ∈ state.cached ∨ ∃ built, (next : State Time).servers[server]? = some built ∧
            built.resolvedAt = resolvedAt :=
    fun _ _ same => ⟨same, fun _ member => Or.inl member⟩
  unfold Pool.lookUp
  dsimp only
  cases found : state.cache.get (cacheKey acquire.userId entry) with
  | none =>
    exact Moves.put isCall rfl rfl (fun _ => id) (sameOut _)
      (Invalidates.other (fun _ _ _ ⟨_, same⟩ => by cases same)
        fun _ _ _ ⟨_, same⟩ => by cases same)
  | some existing =>
    have cached : existing.server ∈ state.cached :=
      List.mem_map_of_mem (OrderedDict.mem_iff_get.mpr found)
    dsimp only
    split
    · refine Moves.put isCall rfl rfl (fun _ => (state.cache.perm_moveToEnd _).mem_iff.mp) ?_
        (Invalidates.other (fun _ _ _ ⟨_, same⟩ => by cases same)
          (not_hasInvalidated_proceed _))
      intro resolvedAt same
      rw [resolvedAt_proceed] at same
      refine ⟨same, fun server member => ?_⟩
      rw [collecting_proceed] at member
      rcases List.mem_append.mp member with before | isNew
      · exact Or.inl before
      · exact Or.inr (Or.inl ((List.mem_singleton.mp isNew).symm ▸ cached))
    · exact Moves.put isCall rfl rfl (fun _ member => (OrderedDict.mem_erase_iff.mp member).1)
        (sameOut _) (Invalidates.other (fun _ _ _ ⟨_, same⟩ => by cases same)
        fun _ _ _ ⟨_, same⟩ => by cases same)

/-- A call that evicts, or has inserted, goes on. -/
theorem collects_evictIfFull {start : State Time} {call new : Call Time} {acquire : Acquire}
    {server : Nat} (isResolved : call.resolvedAt? = some acquire.resolvedAt)
    (isCollecting : call.collecting = acquire.out ++ [server])
    (isNew : ∀ resolvedAt, new.resolvedAt? = some resolvedAt →
      acquire.resolvedAt = resolvedAt ∧ new.collecting = acquire.out ++ [server]) :
    Collects start next call new := by
  intro resolvedAt same
  obtain ⟨rfl, collecting⟩ := isNew resolvedAt same
  refine ⟨isResolved, fun other member => Or.inl ?_⟩
  rw [isCollecting, ← collecting]
  exact member

theorem moves_insert {acquire : Acquire} {entry : ResolvedMcpServer} {now : Time} {server : Nat}
    (isCall : state.calls[task]? = some (.insert acquire entry now server)) :
    Moves pool state (pool.insert state task acquire entry now server) (.take task) := by
  obtain ⟨new, isCalls, fewer, isNew, other⟩ := evictIfFull_moves pool
    { state with
        cache := state.cache.setLast (cacheKey acquire.userId entry) ⟨server, pool.expiry now⟩ }
    task acquire server
  refine ⟨?_, ⟨[], ?_⟩, fun item member => ?_, fun changedTask changed isChanged => Or.inr ?_⟩
  · exact (congrArg List.length isCalls).symm ▸ (List.length_set).ge
  · rw [List.append_nil]
    exact servers_evictIfFull pool _ task acquire server
  · rcases List.mem_append.mp (fewer item member) with before | isInserted
    · exact Or.inl (OrderedDict.mem_erase_iff.mp before).1
    · exact Or.inr ⟨task, acquire, entry, now, server, rfl, isCall,
        List.mem_singleton.mp isInserted⟩
  · exact moves_calls isCall isCalls (collects_evictIfFull rfl rfl isNew)
      (Invalidates.other (fun _ _ _ ⟨_, same⟩ => by cases same) other)
      changedTask changed isChanged

theorem moves_block {call : Call Time} (isCall : state.calls[task]? = some call)
    (taken : pool.block state task call = some next) : Moves pool state next (.take task) := by
  cases call with
  | lookUp acquire entry now =>
    cases taken
    exact moves_lookUp isCall
  | insert acquire entry now server =>
    cases taken
    exact moves_insert isCall
  | invalidate userId slug =>
    cases taken
    refine Moves.put isCall rfl rfl (fun _ member => (List.mem_filter.mp member).1)
      (fun _ none => by cases none) ⟨fun _ _ _ ⟨_, same⟩ => (by cases same),
        fun userId slug count ⟨remaining, isNew⟩ => Or.inr ?_⟩
    cases isNew
    intro item member
    have kept := (List.mem_filter.mp member).2
    rwa [Bool.not_eq_true'] at kept
  | shutdown =>
    cases taken
    exact Moves.put isCall rfl rfl (fun _ member => absurd member List.not_mem_nil)
      (fun _ none => by cases none) (Invalidates.other (fun _ _ _ ⟨_, same⟩ => by cases same)
        fun _ _ _ ⟨_, same⟩ => by cases same)
  | next | dropStale | build | evict | returned | raised | invalidated | closed => cases taken

theorem moves_cleanedUp {event : Event Time} {call : Call Time}
    (isCall : state.calls[task]? = some call)
    (taken : pool.cleanedUp state task call = some next) : Moves pool state next event := by
  cases call with
  | dropStale acquire entry now stale =>
    cases taken
    exact Moves.put isCall rfl rfl (fun _ => id)
      (fun _ same => ⟨same, fun _ member => Or.inl member⟩)
      (Invalidates.other (fun _ _ _ ⟨_, same⟩ => by cases same)
        fun _ _ _ ⟨_, same⟩ => by cases same)
  | evict acquire server victim =>
    cases taken
    obtain ⟨new, isCalls, fewer, isNew, other⟩ := evictIfFull_moves pool
      { state with cleaned := state.cleaned ++ [victim] } task acquire server
    exact Moves.put isCall isCalls (servers_evictIfFull pool _ task acquire server) fewer
      (collects_evictIfFull rfl rfl isNew)
      (Invalidates.other (fun _ _ _ ⟨_, same⟩ => by cases same) other)
  | invalidated userId slug remaining count =>
    cases remaining with
    | nil => cases taken
    | cons first rest =>
      cases taken
      refine Moves.put isCall rfl rfl (fun _ => id) (fun _ none => by cases none)
        ⟨fun userId slug count ⟨remaining, isCall⟩ => ?_,
          fun userId slug count ⟨remaining, isNew⟩ => Or.inl ?_⟩
      · cases isCall
        exact ⟨rest, rfl⟩
      · cases isNew
        exact ⟨first :: rest, rfl⟩
  | closed remaining =>
    cases remaining with
    | nil => cases taken
    | cons first rest =>
      cases taken
      exact Moves.put isCall rfl rfl (fun _ => id) (fun _ none => by cases none)
        (Invalidates.other (fun _ _ _ ⟨_, same⟩ => by cases same)
        fun _ _ _ ⟨_, same⟩ => by cases same)
  | next | lookUp | build | insert | returned | raised | invalidate | shutdown => cases taken

/-- Every step is one of these moves. -/
theorem moves_step {event : Event Time} (taken : pool.step state event = some next) :
    Moves pool state next event := by
  cases event with
  | acquire userId resolvedAt entries =>
    obtain ⟨_, rfl⟩ := Pool.step_acquire taken
    exact Moves.make rfl rfl rfl (collecting_proceed _) (not_hasInvalidated_proceed _)
  | invalidate | shutdown =>
    cases taken
    exact Moves.make rfl rfl rfl rfl fun _ _ _ ⟨_, same⟩ => by cases same
  | look task now =>
    obtain ⟨acquire, entry, isCall, rfl⟩ := Pool.step_look taken
    exact Moves.put isCall rfl rfl (fun _ => id)
      (fun _ same => ⟨same, fun _ member => Or.inl member⟩)
      (Invalidates.other (fun _ _ _ ⟨_, same⟩ => by cases same)
        fun _ _ _ ⟨_, same⟩ => by cases same)
  | take task =>
    obtain ⟨_, call, isCall, runs⟩ := Pool.step_take taken
    exact moves_block isCall runs
  | build task decrypt connects =>
    obtain ⟨acquire, entry, now, isCall, ⟨params, _, rfl⟩ | rfl⟩ := Pool.step_build taken
    · refine ⟨(List.length_set).ge, ⟨_, rfl⟩, fun _ => Or.inl,
        fun other changed isChanged => Or.inr ?_⟩
      refine moves_calls isCall rfl ?_ (Invalidates.other (fun _ _ _ ⟨_, same⟩ => by cases same)
        fun _ _ _ ⟨_, same⟩ => by cases same) other
        changed isChanged
      refine fun resolvedAt same => ⟨same, fun server member => ?_⟩
      rcases List.mem_append.mp member with before | isNew
      · exact Or.inl before
      · rw [List.mem_singleton.mp isNew]
        exact Or.inr (Or.inr ⟨_, List.getElem?_concat_length, Option.some.inj same⟩)
    · exact Moves.put isCall rfl rfl (fun _ => id) (fun _ none => by cases none)
        (Invalidates.other (fun _ _ _ ⟨_, same⟩ => by cases same)
        fun _ _ _ ⟨_, same⟩ => by cases same)
  | cleaned task =>
    obtain ⟨call, isCall, ends⟩ := Pool.step_cleaned taken
    exact moves_cleanedUp isCall ends

end Steps

/-! ### Outdated servers -/

section Outdated

variable (task : Nat) (userId slug : Option String)

/-- The server was built for a key that the call of `invalidate` names, from a configuration
that was resolved before that call was made. -/
def Outdated (servers : List Server) (server : Nat) : Prop :=
  ∃ built, servers[server]? = some built ∧ matchesKey userId slug built.key = true ∧
    built.resolvedAt ≤ task

/-- The server was built, and is not outdated. -/
def UpToDate (servers : List Server) (server : Nat) : Prop :=
  ∃ built, servers[server]? = some built ∧
    ¬ (matchesKey userId slug built.key = true ∧ built.resolvedAt ≤ task)

variable {task userId slug} {servers : List Server} {server : Nat}

theorem UpToDate.not_outdated (upToDate : UpToDate task userId slug servers server) :
    ¬ Outdated task userId slug servers server := by
  rintro ⟨built, isBuilt, outdated⟩
  obtain ⟨same, isSame, fine⟩ := upToDate
  cases isBuilt.symm.trans isSame
  exact fine outdated

theorem upToDate_of_builtFor {key : Key} (isBuilt : BuiltFor servers key server)
    (fine : ¬ Outdated task userId slug servers server) :
    UpToDate task userId slug servers server := by
  obtain ⟨built, found, _⟩ := isBuilt
  exact ⟨built, found, fun outdated => fine ⟨built, found, outdated⟩⟩

theorem UpToDate.append (upToDate : UpToDate task userId slug servers server) (new : List Server) :
    UpToDate task userId slug (servers ++ new) server := by
  obtain ⟨built, found, fine⟩ := upToDate
  have inBounds := (List.getElem?_eq_some_iff.mp found).1
  exact ⟨built, (List.getElem?_append_left inBounds).trans found, fine⟩

end Outdated

/-- No server is inserted that is outdated for a call of `invalidate` that has taken its entries
out. -/
def State.InsertsUpToDate (state : State Time) : Event Time → Prop
  | .take other => ∀ acquire entry now server,
      state.calls[other]? = some (.insert acquire entry now server) →
      ∀ (task : Nat) call userId slug count, state.calls[task]? = some call →
        call.HasInvalidated userId slug count → ¬ Outdated task userId slug state.servers server
  | .acquire .. | .invalidate .. | .shutdown | .look .. | .build .. | .cleaned _ => True

/-- No entry is outdated for a call of `invalidate` that has taken its entries out. -/
def State.Purged (state : State Time) : Prop :=
  ∀ (task : Nat) call userId slug count, state.calls[task]? = some call →
    call.HasInvalidated userId slug count →
    ∀ item ∈ state.cache.items, UpToDate task userId slug state.servers item.2.server

section Effective

variable {pool : Pool Time} {state next last : State Time} {event : Event Time}

theorem purged_step (keyed : state.Keyed) (purged : state.Purged)
    (inserts : state.InsertsUpToDate event) (taken : pool.step state event = some next) :
    next.Purged := by
  intro task new userId slug count isNew hasInvalidated item member
  have moves := moves_step taken
  have nextKeyed := keyed_step keyed taken
  obtain ⟨servers, isServers⟩ := moves.servers
  rcases moves.calls task new isNew with ⟨_, _, other⟩ | ⟨call, isCall, _, invalidates⟩
  · exact absurd hasInvalidated (other userId slug count)
  · rcases invalidates.becomes userId slug count hasInvalidated with before | noMatch
    · rw [isServers]
      rcases moves.cache item member with
        old | ⟨other, acquire, entry, now, server, rfl, isInsert, rfl⟩
      · exact (purged task call userId slug count isCall before item old).append servers
      · have built := keyed.calls _ (List.mem_of_getElem? isInsert)
        have fine := inserts acquire entry now server isInsert task call userId slug count isCall
          before
        exact (upToDate_of_builtFor built fine).append servers
    · obtain ⟨built, found, isKey⟩ := nextKeyed.cached item member
      refine ⟨built, found, fun outdated => ?_⟩
      rw [isKey, noMatch item member] at outdated
      cases outdated.1

/-- The calls from a number on that have a new configuration collect no outdated server. -/
def Renewed (first task : Nat) (userId slug : Option String) (state : State Time) : Prop :=
  ∀ (other : Nat) call, first ≤ other → state.calls[other]? = some call →
    ∀ resolvedAt, call.resolvedAt? = some resolvedAt → task < resolvedAt →
      ∀ server ∈ call.collecting, UpToDate task userId slug state.servers server

theorem renewed_step {first task : Nat} {userId slug : Option String}
    (renewed : Renewed first task userId slug state)
    (cached : ∀ item ∈ state.cache.items, UpToDate task userId slug state.servers item.2.server)
    (taken : pool.step state event = some next) : Renewed first task userId slug next := by
  intro other changed fromFirst isChanged resolvedAt isResolved isNew server member
  have moves := moves_step taken
  obtain ⟨servers, isServers⟩ := moves.servers
  rcases moves.calls other changed isChanged with ⟨nothing, _, _⟩ | ⟨call, isCall, collects, _⟩
  · rw [nothing] at member
    cases member
  · obtain ⟨wasResolved, sources⟩ := collects resolvedAt isResolved
    rcases sources server member with before | inCache | ⟨built, found, isBuilt⟩
    · rw [isServers]
      exact (renewed other call fromFirst isCall resolvedAt wasResolved isNew server before).append
        servers
    · obtain ⟨item, isItem, rfl⟩ := List.mem_map.mp inCache
      rw [isServers]
      exact (cached item isItem).append servers
    · refine ⟨built, found, fun outdated => ?_⟩
      omega

/-- A call that has taken its entries out stays one that has. -/
theorem hasInvalidated_step {task : Nat} {call : Call Time} {userId slug : Option String}
    {count : Nat} (isCall : state.calls[task]? = some call)
    (has : call.HasInvalidated userId slug count) (taken : pool.step state event = some next) :
    ∃ new, next.calls[task]? = some new ∧ new.HasInvalidated userId slug count := by
  have moves := moves_step taken
  have inBounds := (List.getElem?_eq_some_iff.mp isCall).1
  have isNew := List.getElem?_eq_getElem (inBounds.trans_le moves.grows)
  refine ⟨_, isNew, ?_⟩
  rcases moves.calls task _ isNew with ⟨_, isLast, _⟩ | ⟨same, isSame, _, invalidates⟩
  · exact absurd isLast inBounds.ne
  · cases isCall.symm.trans isSame
    exact invalidates.stays userId slug count has

/-- What holds in the states after the call of `invalidate` has taken its entries out. -/
structure AfterInvalidate (first task : Nat) (userId slug : Option String) (count : Nat)
    (state : State Time) : Prop where
  keyed : state.Keyed
  purged : state.Purged
  has : ∃ call, state.calls[task]? = some call ∧ call.HasInvalidated userId slug count
  renewed : Renewed first task userId slug state

theorem afterInvalidate_step {first task : Nat} {userId slug : Option String} {count : Nat}
    (after : AfterInvalidate first task userId slug count state)
    (inserts : state.InsertsUpToDate event) (taken : pool.step state event = some next) :
    AfterInvalidate first task userId slug count next := by
  obtain ⟨call, isCall, has⟩ := after.has
  refine ⟨keyed_step after.keyed taken, purged_step after.keyed after.purged inserts taken,
    hasInvalidated_step isCall has taken, renewed_step after.renewed ?_ taken⟩
  exact after.purged task call userId slug count isCall has

/-- In every run in which no outdated server is inserted: once a call of `invalidate` has
returned, an `acquire` that is called later, with a configuration resolved after that call, does
not return an outdated server. -/
theorem invalidate_effective (pool : Pool Time) {before rest : List (Event Time)}
    (reached : Runs.exec pool.step {} before = some state)
    (run : Runs.exec pool.step state rest = some last)
    (inserts : Runs.StepsMeet pool.step State.InsertsUpToDate {} (before ++ rest))
    {task : Nat} {userId slug : Option String} {count : Nat}
    (returned : state.calls[task]? = some (.invalidated userId slug [] count))
    {later : Nat} (isLater : state.calls.length ≤ later) {acquire : Acquire}
    (isAcquire : last.calls[later]? = some (.returned acquire))
    (isNew : task < acquire.resolvedAt) :
    ∀ server ∈ acquire.out, ¬ Outdated task userId slug last.servers server := by
  have invariant : ∀ (state : State Time) event next, state.Keyed ∧ state.Purged →
      state.InsertsUpToDate event → pool.step state event = some next →
      next.Keyed ∧ next.Purged := by
    rintro state event next ⟨keyed, purged⟩ inserts taken
    exact ⟨keyed_step keyed taken, purged_step keyed purged inserts taken⟩
  have initial : ({} : State Time).Keyed ∧ ({} : State Time).Purged :=
    ⟨keyed_empty, fun _ _ _ _ _ isCall => by cases isCall⟩
  obtain ⟨insertsBefore, insertsRest⟩ := Runs.stepsMeet_append pool.step reached inserts
  obtain ⟨keyed, purged⟩ :=
    (Runs.always_of_invariant pool.step invariant initial insertsBefore).last pool.step reached
  have renewed : Renewed state.calls.length task userId slug state := by
    intro other call beyond isCall
    have inBounds := (List.getElem?_eq_some_iff.mp isCall).1
    omega
  have after : AfterInvalidate state.calls.length task userId slug count state :=
    ⟨keyed, purged, ⟨_, returned, [], rfl⟩, renewed⟩
  have holds := (Runs.always_of_invariant pool.step
    (fun _ _ _ => afterInvalidate_step) after insertsRest).last pool.step run
  intro server member
  exact (holds.renewed later _ isLater isAcquire acquire.resolvedAt rfl isNew server
    member).not_outdated

/-- An `acquire` gets the server of an entry that is in the cache and has not expired, outdated
or not. -/
theorem cached_server_is_returned (pool : Pool Time) (userId : String) {entry : ResolvedMcpServer}
    {existing : Entry Time} {now : Time} (free : state.holder = none)
    (cached : state.cache.get (cacheKey userId entry) = some existing)
    (fresh : pool.later existing.expiresAt now = true) :
    ∃ last, Runs.exec pool.step state [.acquire userId state.calls.length [entry],
        .look state.calls.length now, .take state.calls.length] = some last ∧
      last.calls[state.calls.length]? =
        some (.returned ⟨userId, state.calls.length, [], [existing.server]⟩) := by
  let made := { state with shutDown := state.shutDown && state.calls.any Call.isClosing }.make
    (Acquire.proceed ⟨userId, state.calls.length, [entry], []⟩)
  let looked := made.put state.calls.length
    (.lookUp ⟨userId, state.calls.length, [], []⟩ entry now)
  have inBounds : state.calls.length < made.calls.length := by
    show _ < (state.calls ++ [_]).length
    rw [List.length_append, List.length_singleton]
    exact Nat.lt_succ_self _
  have isNext : made.calls[state.calls.length]? =
      some (.next ⟨userId, state.calls.length, [], []⟩ entry) := List.getElem?_concat_length
  have isLookUp : looked.calls[state.calls.length]? =
      some (.lookUp ⟨userId, state.calls.length, [], []⟩ entry now) :=
    List.getElem?_set_self inBounds
  have acquires : pool.step state (.acquire userId state.calls.length [entry]) = some made :=
    if_pos le_rfl
  have looks : pool.step made (.look state.calls.length now) = some looked := by
    rw [Pool.step, isNext]
  have takes : pool.step looked (.take state.calls.length) =
      some (pool.lookUp looked state.calls.length ⟨userId, state.calls.length, [], []⟩ entry
        now) := by
    rw [Pool.step, isLookUp]
    exact if_pos free
  refine ⟨pool.lookUp looked state.calls.length ⟨userId, state.calls.length, [], []⟩ entry now,
    ?_, ?_⟩
  · rw [Runs.exec_cons, acquires, Option.bind_some, Runs.exec_cons, looks, Option.bind_some,
      Runs.exec_cons, takes]
    rfl
  · have found : looked.cache.get (cacheKey userId entry) = some existing := cached
    simp only [Pool.lookUp, found, fresh, if_true]
    refine List.getElem?_set_self ?_
    show _ < (made.calls.set _ _).length
    rwa [List.length_set]

end Effective

/-! ### An invalidation during a build -/

/-- The old entry is built while it is invalidated. -/
def invalidatedWhileBuilding : List (Event Nat) :=
  [.acquire "u" 0 [docsServer], .look 0 0, .take 0, .invalidate (some "u") (some "docs"), .take 1,
    .build 0 (fun _ _ => none) true, .take 0]

/-- The server that it makes is inserted after the call of `invalidate` has returned, and returned
to an `acquire` that comes later with a new configuration. -/
theorem outdated_server_is_returned :
    ∃ state last acquire,
      Runs.exec defaultPool.step {} invalidatedWhileBuilding = some state ∧
      state.calls[1]? = some (.invalidated (some "u") (some "docs") [] 0) ∧
      Runs.exec defaultPool.step state [.acquire "u" 2 [docsServer], .look 2 1, .take 2] =
        some last ∧
      last.calls[2]? = some (.returned acquire) ∧ 1 < acquire.resolvedAt ∧ acquire.out = [0] ∧
      Outdated 1 (some "u") (some "docs") last.servers 0 :=
  ⟨_, _, _, rfl, rfl, rfl, rfl, by decide, rfl, _, rfl, by decide, by decide⟩

theorem rebuilt_server_is_returned :
    ∃ last acquire,
      Runs.exec defaultPool.step {} ([.invalidate (some "u") (some "docs"), .take 0] ++
        [.acquire "u" 1 [docsServer], .look 1 0, .take 1, .build 1 (fun _ _ => none) true,
          .take 1]) = some last ∧
        last.calls[1]? = some (.returned acquire) ∧ acquire.out = [0] ∧
        ∀ server ∈ acquire.out, ¬ Outdated 0 (some "u") (some "docs") last.servers server := by
  refine ⟨_, _, rfl, rfl, rfl, ?_⟩
  have reached : Runs.exec defaultPool.step {} [.invalidate (some "u") (some "docs"), .take 0] =
    some _ := rfl
  refine invalidate_effective defaultPool reached
    (show Runs.exec defaultPool.step _ [.acquire "u" 1 [docsServer], .look 1 0, .take 1,
      .build 1 (fun _ _ => none) true, .take 1] = some _ from rfl) ?_ rfl (le_refl 1) rfl
    (by decide)
  refine ⟨trivial, fun _ taken => ?_⟩
  cases taken
  refine ⟨fun _ _ _ _ none => (by cases none), fun _ taken => ?_⟩
  cases taken
  refine ⟨trivial, fun _ taken => ?_⟩
  cases taken
  refine ⟨trivial, fun _ taken => ?_⟩
  cases taken
  refine ⟨fun _ _ _ _ none => (by cases none), fun _ taken => ?_⟩
  cases taken
  refine ⟨trivial, fun _ taken => ?_⟩
  cases taken
  refine ⟨fun acquire entry now server isInsert task call userId slug count isCall has => ?_,
    fun _ _ => trivial⟩
  cases isInsert
  rintro ⟨built, isBuilt, _, old⟩
  cases isBuilt
  match task with
  | 0 => cases old
  | 1 =>
    cases isCall
    obtain ⟨_, same⟩ := has
    cases same
  | task + 2 => cases isCall

end LiteHorse.Agent.McpPool
