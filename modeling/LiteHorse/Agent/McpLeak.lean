/-
This file is about the places where a connected server can be: in the cache, in the hands of
a call, or cleaned up. A step moves servers from one place to another and brings in the ones
it connects. Only one step takes a server from all places, the insert that finds an entry
under its key (`accounted_step`), and `no_leak` is what follows for whole runs.
-/

import LiteHorse.Agent.McpPool

namespace LiteHorse.Agent.McpPool

open OrderedDicts Repositories

variable {Time : Type}

/-! ### The places of a server -/

/-- How often a server is in a cache. -/
def cacheCount (cache : OrderedDict Key (Entry Time)) (server : Nat) : Nat :=
  (cache.items.map fun item => item.2.server).count server

/-- How often a server is in the hands of a call. -/
def heldCount : List (Call Time) → Nat → Nat
  | [], _ => 0
  | call :: rest, server => call.held.count server + heldCount rest server

/-- How often a server is in the cache, in the hands of a call, or cleaned up. -/
def State.count (state : State Time) (server : Nat) : Nat :=
  cacheCount state.cache server + heldCount state.calls server + state.cleaned.count server

section CacheCount

variable {cache : OrderedDict Key (Entry Time)} {key : Key} {entry : Entry Time}

theorem cacheCount_erase (found : cache.get key = some entry) (server : Nat) :
    cacheCount cache server =
      cacheCount (cache.erase key) server + [entry.server].count server := by
  have perm := (OrderedDict.perm_erase found).map fun item : Key × Entry Time => item.2.server
  rw [cacheCount, perm.count_eq, List.map_cons, List.count_cons, List.count_singleton]
  rfl

theorem cacheCount_setLast (cache : OrderedDict Key (Entry Time)) (key : Key)
    (entry : Entry Time) (server : Nat) :
    cacheCount (cache.setLast key entry) server =
      cacheCount (cache.erase key) server + [entry.server].count server := by
  show (((cache.erase key).items ++ [(key, entry)]).map _).count server = _
  rw [List.map_append, List.count_append]
  rfl

theorem cacheCount_moveToEnd (cache : OrderedDict Key (Entry Time)) (key : Key) (server : Nat) :
    cacheCount (cache.moveToEnd key) server = cacheCount cache server :=
  ((cache.perm_moveToEnd key).map _).count_eq server

theorem cacheCount_popFirst {first : Key × Entry Time} {rest : OrderedDict Key (Entry Time)}
    (popped : cache.popFirst = some (first, rest)) (server : Nat) :
    cacheCount cache server = cacheCount rest server + [first.2.server].count server := by
  rw [cacheCount, OrderedDict.items_of_popFirst popped, List.map_cons, List.count_cons,
    List.count_singleton]
  rfl

theorem cacheCount_keep (cache : OrderedDict Key (Entry Time)) (condition : Key → Bool)
    (server : Nat) :
    cacheCount (cache.keep condition) server +
        cacheCount (cache.keep fun key => !condition key) server = cacheCount cache server := by
  rw [cacheCount, cacheCount, ← List.count_append, ← List.map_append]
  exact ((cache.perm_keep condition).map _).count_eq server

end CacheCount

theorem held_proceed (acquire : Acquire) : (acquire.proceed : Call Time).held = [] := by
  unfold Acquire.proceed
  split <;> rfl

/-- The hands of one call change. -/
theorem heldCount_set {calls : List (Call Time)} {task : Nat} {call : Call Time}
    (isCall : calls[task]? = some call) (new : Call Time) (server : Nat) :
    heldCount (calls.set task new) server + call.held.count server =
      heldCount calls server + new.held.count server := by
  induction calls generalizing task with
  | nil => cases isCall
  | cons first rest inductionHypothesis =>
    cases task with
    | zero =>
      cases isCall
      simp only [heldCount, List.set_cons_zero]
      omega
    | succ task =>
      have later := inductionHypothesis isCall
      simp only [heldCount, List.set_cons_succ] at later ⊢
      omega

theorem heldCount_append (calls : List (Call Time)) (call : Call Time) (server : Nat) :
    heldCount (calls ++ [call]) server = heldCount calls server + call.held.count server := by
  induction calls with
  | nil => simp [heldCount]
  | cons first rest inductionHypothesis =>
    rw [List.cons_append, heldCount, heldCount, inductionHypothesis, Nat.add_assoc]

theorem count_make (state : State Time) {call : Call Time} (emptyHands : call.held = [])
    (server : Nat) : (state.make call).count server = state.count server := by
  simp [State.count, State.make, heldCount_append, emptyHands]

section Count

variable {state : State Time} {task : Nat} {call : Call Time}

/-- A call changes, and with it what it has in its hands. -/
theorem count_put (state : State Time) (isCall : state.calls[task]? = some call) (new : Call Time)
    (server : Nat) :
    (state.put task new).count server + call.held.count server =
      state.count server + new.held.count server := by
  have hands := heldCount_set isCall new server
  simp only [State.count, State.put]
  omega

theorem count_evictIfFull (pool : Pool Time) (state : State Time)
    (isCall : state.calls[task]? = some call) (acquire : Acquire) (inserted server : Nat) :
    (pool.evictIfFull state task acquire inserted).count server + call.held.count server =
      state.count server := by
  unfold Pool.evictIfFull
  split
  · split
    · next oldest rest popped =>
      have moved := count_put { state with cache := rest, holder := some task } isCall
        (.evict acquire inserted oldest.2.server) server
      have left := cacheCount_popFirst popped server
      simp only [State.count, Call.held] at moved left ⊢
      omega
    · exact count_put { state with holder := none } isCall .raised server
  · have moved := count_put { state with holder := none } isCall
      (acquire.collect inserted).proceed server
    rw [held_proceed] at moved
    exact moved

theorem count_lookUp (pool : Pool Time) {acquire : Acquire} {entry : ResolvedMcpServer} {now : Time}
    (isCall : state.calls[task]? = some (.lookUp acquire entry now)) (server : Nat) :
    (pool.lookUp state task acquire entry now).count server = state.count server := by
  unfold Pool.lookUp
  dsimp only
  split
  · next existing found =>
    split
    · have moved := count_put
        { state with cache := state.cache.moveToEnd (cacheKey acquire.userId entry) }
        isCall (acquire.collect existing.server).proceed server
      have same := cacheCount_moveToEnd state.cache (cacheKey acquire.userId entry) server
      rw [held_proceed] at moved
      simp only [State.count, Call.held] at moved ⊢
      omega
    · have moved := count_put
        { state with
          cache := state.cache.erase (cacheKey acquire.userId entry), holder := some task }
        isCall (.dropStale acquire entry now existing.server) server
      have left := cacheCount_erase found server
      simp only [State.count, Call.held, List.count_nil] at moved ⊢
      omega
  · exact count_put state isCall (.build acquire entry now) server

/-- The servers that the insert of a call takes from the cache without cleaning them up: the
one under its key, if there is one. -/
def State.overwrittenBy (state : State Time) : Call Time → List Nat
  | .insert acquire entry _ _ =>
    (state.cache.get (cacheKey acquire.userId entry)).toList.map Entry.server
  | _ => []

theorem count_insert (pool : Pool Time) {acquire : Acquire} {entry : ResolvedMcpServer} {now : Time}
    {inserted : Nat} (isCall : state.calls[task]? = some (.insert acquire entry now inserted))
    (server : Nat) :
    (pool.insert state task acquire entry now inserted).count server +
        (state.overwrittenBy (.insert acquire entry now inserted)).count server =
      state.count server := by
  have moved := count_evictIfFull pool
    { state with
        cache := state.cache.setLast (cacheKey acquire.userId entry) ⟨inserted, pool.expiry now⟩ }
    isCall acquire inserted server
  have joined := cacheCount_setLast state.cache (cacheKey acquire.userId entry)
    ⟨inserted, pool.expiry now⟩ server
  unfold Pool.insert
  cases found : state.cache.get (cacheKey acquire.userId entry) with
  | none =>
    have same : cacheCount (state.cache.erase (cacheKey acquire.userId entry)) server =
        cacheCount state.cache server := by
      rw [cacheCount, OrderedDict.items_erase_of_get_none found]
      rfl
    simp only [State.count, Call.held, State.overwrittenBy, found, Option.toList_none,
      List.map_nil, List.count_nil] at moved joined ⊢
    omega
  | some existing =>
    have left := cacheCount_erase found server
    simp only [State.count, Call.held, State.overwrittenBy, found, Option.toList_some,
      List.map_cons, List.map_nil] at moved joined left ⊢
    omega

theorem count_invalidate {userId slug : Option String}
    (isCall : state.calls[task]? = some (.invalidate userId slug)) (server : Nat) :
    (state.invalidate task userId slug).count server = state.count server := by
  have moved := count_put
    { state with cache := state.cache.keep fun key => !matchesKey userId slug key } isCall
    (.invalidated userId slug
      ((state.cache.keep (matchesKey userId slug)).items.map fun item => item.2.server)
      ((state.cache.keep (matchesKey userId slug)).items.map fun item => item.2.server).length)
    server
  have split := cacheCount_keep state.cache (matchesKey userId slug) server
  unfold State.invalidate
  simp only [State.count, Call.held, List.count_nil, cacheCount] at moved split ⊢
  omega

theorem count_shutdown (isCall : state.calls[task]? = some .shutdown) (server : Nat) :
    (state.shutdown task).count server = state.count server := by
  have moved := count_put { state with cache := .empty, shutDown := true } isCall
    (.closed state.cached) server
  unfold State.shutdown
  simp only [State.count, Call.held, cacheCount, OrderedDict.empty, List.map_nil, List.count_nil,
    State.cached] at moved ⊢
  omega

/-- A block takes nothing from the places of a server but what its insert overwrites. -/
theorem count_block (pool : Pool Time) (isCall : state.calls[task]? = some call)
    {next : State Time} (taken : pool.block state task call = some next) (server : Nat) :
    next.count server + (state.overwrittenBy call).count server = state.count server := by
  cases call with
  | lookUp acquire entry now =>
    cases taken
    exact count_lookUp pool isCall server
  | insert acquire entry now inserted =>
    cases taken
    exact count_insert pool isCall server
  | invalidate userId slug =>
    cases taken
    exact count_invalidate isCall server
  | shutdown =>
    cases taken
    exact count_shutdown isCall server
  | next | dropStale | build | evict | returned | raised | invalidated | closed => cases taken

theorem count_cleaned (state : State Time) (done server : Nat) :
    ({ state with cleaned := state.cleaned ++ [done] } : State Time).count server =
      state.count server + [done].count server := by
  simp only [State.count, List.count_append]
  omega

/-- What was cleaned up leaves the hands of its call. -/
theorem count_cleanedUp (pool : Pool Time) (isCall : state.calls[task]? = some call)
    {next : State Time} (taken : pool.cleanedUp state task call = some next) (server : Nat) :
    next.count server = state.count server := by
  cases call with
  | dropStale acquire entry now stale =>
    cases taken
    have moved := count_put
      { state with cleaned := state.cleaned ++ [stale], holder := none } isCall
      (.build acquire entry now) server
    have joined := count_cleaned state stale server
    simp only [State.count, Call.held, List.count_nil] at moved joined ⊢
    omega
  | evict acquire inserted victim =>
    cases taken
    have moved := count_evictIfFull pool { state with cleaned := state.cleaned ++ [victim] } isCall
      acquire inserted server
    rw [count_cleaned] at moved
    exact Nat.add_right_cancel moved
  | invalidated userId slug remaining count =>
    cases remaining with
    | nil => cases taken
    | cons first rest =>
      cases taken
      have moved := count_put { state with cleaned := state.cleaned ++ [first] } isCall
        (.invalidated userId slug rest count) server
      have joined := count_cleaned state first server
      simp only [Call.held, List.count_cons, List.count_nil] at moved joined
      omega
  | closed remaining =>
    cases remaining with
    | nil => cases taken
    | cons first rest =>
      cases taken
      have moved := count_put { state with cleaned := state.cleaned ++ [first] } isCall
        (.closed rest) server
      have joined := count_cleaned state first server
      simp only [Call.held, List.count_cons, List.count_nil] at moved joined
      omega
  | next | lookUp | build | insert | returned | raised | invalidate | shutdown => cases taken

end Count

/-! ### The servers of a run -/

/-- The servers that a step takes from the cache without cleaning them up. -/
def State.overwritten (state : State Time) : Event Time → List Nat
  | .take task => (state.calls[task]?.map state.overwrittenBy).getD []
  | .acquire .. | .invalidate .. | .shutdown | .look .. | .build .. | .cleaned _ => []

/-- Every server that was connected is in one place, or it is in the list of the lost ones. -/
def Accounted (lost : List Nat) (state : State Time) : Prop :=
  ∀ server, state.count server + lost.count server =
    if server < state.servers.length then 1 else 0

theorem Accounted.frame {lost : List Nat} {state next : State Time}
    (accounted : Accounted lost state)
    (sameCount : ∀ server, next.count server = state.count server)
    (sameServers : next.servers = state.servers) : Accounted lost next := by
  intro server
  rw [sameCount server, sameServers]
  exact accounted server

theorem servers_evictIfFull (pool : Pool Time) (state : State Time) (task : Nat)
    (acquire : Acquire) (inserted : Nat) :
    (pool.evictIfFull state task acquire inserted).servers = state.servers := by
  unfold Pool.evictIfFull
  split
  · split <;> rfl
  · rfl

theorem servers_block (pool : Pool Time) {state next : State Time} {task : Nat} {call : Call Time}
    (taken : pool.block state task call = some next) : next.servers = state.servers := by
  cases call with
  | lookUp acquire entry now =>
    cases taken
    unfold Pool.lookUp
    dsimp only
    split
    · split <;> rfl
    · rfl
  | insert acquire entry now inserted =>
    cases taken
    exact servers_evictIfFull pool _ task acquire inserted
  | invalidate | shutdown =>
    cases taken
    rfl
  | next | dropStale | build | evict | returned | raised | invalidated | closed => cases taken

theorem servers_cleanedUp (pool : Pool Time) {state next : State Time} {task : Nat}
    {call : Call Time} (taken : pool.cleanedUp state task call = some next) :
    next.servers = state.servers := by
  cases call with
  | dropStale =>
    cases taken
    rfl
  | evict acquire inserted victim =>
    cases taken
    exact servers_evictIfFull pool _ task acquire inserted
  | invalidated _ _ remaining _ | closed remaining =>
    cases remaining with
    | nil => cases taken
    | cons first rest =>
      cases taken
      rfl
  | next | lookUp | build | insert | returned | raised | invalidate | shutdown => cases taken

/-- A build that connects makes a new server, which is then in the hands of the call. -/
theorem accounted_connected {lost : List Nat} {state : State Time} {task : Nat} {acquire : Acquire}
    {entry : ResolvedMcpServer} {now : Time}
    (isCall : state.calls[task]? = some (.build acquire entry now)) (new : Server)
    (accounted : Accounted lost state) :
    Accounted lost ({ state with servers := state.servers ++ [new] }.put task
      (.insert acquire entry now state.servers.length)) := by
  intro server
  have moved := count_put { state with servers := state.servers ++ [new] } isCall
    (.insert acquire entry now state.servers.length) server
  have before := accounted server
  simp only [Call.held, List.count_nil, List.count_singleton, Nat.add_zero] at moved
  rw [moved]
  show state.count server + _ + _ = if server < (state.servers ++ [new]).length then 1 else 0
  rw [List.length_append, List.length_singleton]
  by_cases isNew : state.servers.length = server
  · simp only [isNew, beq_self_eq_true, if_true, lt_irrefl, if_false, Nat.lt_succ_self] at before ⊢
    omega
  · simp only [beq_eq_false_iff_ne.mpr isNew, Nat.lt_succ_iff_lt_or_eq, Ne.symm isNew, or_false,
      Bool.false_eq_true, if_false] at before ⊢
    exact before

/-- A step loses what its insert overwrites, and nothing else. -/
theorem accounted_step (pool : Pool Time) {lost : List Nat} {state next : State Time}
    {event : Event Time} (accounted : Accounted lost state)
    (taken : pool.step state event = some next) :
    Accounted (lost ++ state.overwritten event) next := by
  cases event with
  | acquire userId resolvedAt entries =>
    obtain ⟨_, rfl⟩ := Pool.step_acquire taken
    rw [State.overwritten, List.append_nil]
    exact accounted.frame (fun server => count_make _ (held_proceed _) server) rfl
  | invalidate userId slug =>
    cases taken
    rw [State.overwritten, List.append_nil]
    exact accounted.frame (fun server => count_make state rfl server) rfl
  | shutdown =>
    cases taken
    rw [State.overwritten, List.append_nil]
    exact accounted.frame (fun server => count_make state rfl server) rfl
  | look task now =>
    obtain ⟨acquire, entry, isCall, rfl⟩ := Pool.step_look taken
    rw [State.overwritten, List.append_nil]
    exact accounted.frame
      (fun server => count_put state isCall (.lookUp acquire entry now) server) rfl
  | take task =>
    obtain ⟨_, call, isCall, runs⟩ := Pool.step_take taken
    intro server
    have moved := count_block pool isCall runs server
    have before := accounted server
    rw [servers_block pool runs, State.overwritten, isCall, Option.map_some, Option.getD_some,
      List.count_append]
    omega
  | build task decrypt connects =>
    rw [State.overwritten, List.append_nil]
    obtain ⟨acquire, entry, now, isCall, ⟨params, _, rfl⟩ | rfl⟩ := Pool.step_build taken
    · exact accounted_connected isCall _ accounted
    · exact accounted.frame (fun server => count_put state isCall .raised server) rfl
  | cleaned task =>
    obtain ⟨call, isCall, ends⟩ := Pool.step_cleaned taken
    rw [State.overwritten, List.append_nil]
    exact accounted.frame (count_cleanedUp pool isCall ends) (servers_cleanedUp pool ends)

/-- A run loses servers exactly if one of its inserts overwrites an entry. -/
theorem accounted_run (pool : Pool Time) {lost : List Nat} {state last : State Time}
    {events : List (Event Time)} (accounted : Accounted lost state)
    (run : Runs.exec pool.step state events = some last) :
    ∃ more, Accounted (lost ++ more) last ∧
      (more = [] ↔
        Runs.StepsMeet pool.step (fun state event => state.overwritten event = []) state
          events) := by
  induction events generalizing state lost with
  | nil =>
    cases run
    exact ⟨[], by rwa [List.append_nil], iff_of_true rfl trivial⟩
  | cons event rest inductionHypothesis =>
    obtain ⟨next, taken, run⟩ := Option.bind_eq_some_iff.mp run
    obtain ⟨more, later, nothingMore⟩ :=
      inductionHypothesis (accounted_step pool accounted taken) run
    refine ⟨state.overwritten event ++ more, by rwa [← List.append_assoc], ?_⟩
    rw [List.append_eq_nil_iff, nothingMore]
    constructor
    · rintro ⟨nothing, meets⟩
      exact Runs.StepsMeet.cons pool.step nothing taken meets
    · intro meets
      exact ⟨meets.1, meets.2 next taken⟩

theorem held_of_finished {call : Call Time} (finished : call.finished = true) : call.held = [] := by
  cases call with
  | invalidated _ _ remaining _ | closed remaining => exact List.isEmpty_iff.mp finished
  | returned | raised => rfl
  | next | lookUp | dropStale | build | insert | evict | invalidate | shutdown => cases finished

theorem heldCount_of_finished {calls : List (Call Time)}
    (finished : ∀ call ∈ calls, call.finished = true) (server : Nat) :
    heldCount calls server = 0 := by
  induction calls with
  | nil => rfl
  | cons call rest inductionHypothesis =>
    obtain ⟨callFinished, restFinished⟩ := List.forall_mem_cons.mp finished
    rw [heldCount, held_of_finished callFinished, inductionHypothesis restFinished]
    rfl

/-! ### No leak -/

namespace State

/-- The server is the server of exactly one entry of the cache, or it has been cleaned up, and
not both. -/
def Kept (state : State Time) (server : Nat) : Prop :=
  Xor (state.cached.count server = 1) (server ∈ state.cleaned)

structure NoLeak (state : State Time) : Prop where
  kept : ∀ server < state.servers.length, state.Kept server
  closed : state.shutDown = true → ∀ server < state.servers.length, server ∈ state.cleaned

end State

section NoLeak

variable {lost : List Nat} {state : State Time}

/-- Without a call in progress, the servers that are not kept are the lost ones. -/
theorem kept_iff_of_quiet (accounted : Accounted lost state) (quiet : state.Quiet) {server : Nat}
    (connected : server < state.servers.length) : state.Kept server ↔ server ∉ lost := by
  have one := accounted server
  rw [if_pos connected, State.count, heldCount_of_finished quiet] at one
  have cached : cacheCount state.cache server = state.cached.count server := rfl
  rw [cached] at one
  rw [State.Kept, ← List.count_pos_iff, ← List.count_eq_zero]
  constructor
  · rintro (⟨isCached, _⟩ | ⟨isCleaned, _⟩) <;> omega
  · intro notLost
    by_cases isCached : state.cached.count server = 1
    · exact Or.inl ⟨isCached, by omega⟩
    · exact Or.inr ⟨by omega, isCached⟩

theorem connected_of_lost (accounted : Accounted lost state) {server : Nat}
    (isLost : server ∈ lost) : server < state.servers.length := by
  have one := accounted server
  have positive := List.count_pos_iff.mpr isLost
  split at one
  · assumption
  · omega

theorem all_kept_iff (accounted : Accounted lost state) (quiet : state.Quiet) :
    (∀ server < state.servers.length, state.Kept server) ↔ lost = [] := by
  constructor
  · intro kept
    refine List.eq_nil_iff_forall_not_mem.mpr fun server isLost => ?_
    have connected := connected_of_lost accounted isLost
    exact (kept_iff_of_quiet accounted quiet connected).mp (kept server connected) isLost
  · rintro rfl server connected
    exact (kept_iff_of_quiet accounted quiet connected).mpr List.not_mem_nil

end NoLeak

/-! A pool that is shut down has an empty cache, as long as nothing is inserted. -/

def State.Drained (state : State Time) : Prop := state.shutDown = true → state.cache.items = []

/-- An insert finds no entry under its key, and the pool is not shut down. -/
def State.FitsCall (state : State Time) : Call Time → Prop
  | .insert acquire entry _ _ =>
    state.cache.get (cacheKey acquire.userId entry) = none ∧ state.shutDown = false
  | _ => True

def State.Fits (state : State Time) : Event Time → Prop
  | .take task => ∀ call, state.calls[task]? = some call → state.FitsCall call
  | .acquire .. | .invalidate .. | .shutdown | .look .. | .build .. | .cleaned _ => True

theorem State.FitsCall.nothingOverwritten {state : State Time} {call : Call Time}
    (fits : state.FitsCall call) : state.overwrittenBy call = [] := by
  cases call with
  | insert acquire entry now server =>
    rw [State.overwrittenBy, fits.1]
    rfl
  | next | lookUp | dropStale | build | evict | returned | raised | invalidate | invalidated
  | shutdown | closed => rfl

theorem State.Fits.nothingOverwritten {state : State Time} {event : Event Time}
    (fits : state.Fits event) : state.overwritten event = [] := by
  cases event with
  | take task =>
    show (state.calls[task]?.map state.overwrittenBy).getD [] = []
    cases isCall : state.calls[task]? with
    | none => rfl
    | some call => exact (fits call isCall).nothingOverwritten
  | acquire | invalidate | shutdown | look | build | cleaned => rfl

section Drained

variable {pool : Pool Time} {state next : State Time}

theorem drained_evictIfFull (drained : state.Drained) (task : Nat) (acquire : Acquire)
    (inserted : Nat) : (pool.evictIfFull state task acquire inserted).Drained := by
  unfold Pool.evictIfFull
  split
  · split
    · next oldest rest popped =>
      intro shutDown
      have nonempty := OrderedDict.items_of_popFirst popped
      rw [drained shutDown] at nonempty
      cases nonempty
    · exact drained
  · exact drained

theorem drained_lookUp (drained : state.Drained) (task : Nat) (acquire : Acquire)
    (entry : ResolvedMcpServer) (now : Time) :
    (pool.lookUp state task acquire entry now).Drained := by
  unfold Pool.lookUp
  dsimp only
  cases found : state.cache.get (cacheKey acquire.userId entry) with
  | none => exact drained
  | some existing =>
    have notDown : ¬ state.shutDown = true := by
      intro shutDown
      have member := OrderedDict.mem_iff_get.mpr found
      rw [drained shutDown] at member
      cases member
    dsimp only
    split
    · exact fun shutDown => absurd shutDown notDown
    · exact fun shutDown => absurd shutDown notDown

theorem drained_step {event : Event Time} (drained : state.Drained) (fits : state.Fits event)
    (taken : pool.step state event = some next) : next.Drained := by
  cases event with
  | acquire userId resolvedAt entries =>
    obtain ⟨_, rfl⟩ := Pool.step_acquire taken
    exact fun shutDown => drained (Bool.and_eq_true_iff.mp shutDown).1
  | invalidate | shutdown =>
    cases taken
    exact drained
  | look task now =>
    obtain ⟨acquire, entry, isCall, rfl⟩ := Pool.step_look taken
    exact drained
  | take task =>
    obtain ⟨_, call, isCall, runs⟩ := Pool.step_take taken
    cases call with
    | lookUp acquire entry now =>
      cases runs
      exact drained_lookUp drained task acquire entry now
    | insert acquire entry now inserted =>
      cases runs
      have fitsCall : state.FitsCall (.insert acquire entry now inserted) := fits _ isCall
      refine drained_evictIfFull (fun shutDown => ?_) task acquire inserted
      exact absurd (fitsCall.2.symm.trans shutDown) Bool.false_ne_true
    | invalidate userId slug =>
      cases runs
      intro shutDown
      show state.cache.items.filter _ = []
      rw [drained shutDown]
      rfl
    | shutdown =>
      cases runs
      exact fun _ => rfl
    | next | dropStale | build | evict | returned | raised | invalidated | closed => cases runs
  | build task decrypt connects =>
    obtain ⟨acquire, entry, now, isCall, ⟨params, _, rfl⟩ | rfl⟩ := Pool.step_build taken
    · exact drained
    · exact drained
  | cleaned task =>
    obtain ⟨call, isCall, ends⟩ := Pool.step_cleaned taken
    cases call with
    | dropStale =>
      cases ends
      exact drained
    | evict acquire inserted victim =>
      cases ends
      refine drained_evictIfFull ?_ task acquire inserted
      exact drained
    | invalidated _ _ remaining _ | closed remaining =>
      cases remaining with
      | nil => cases ends
      | cons first rest =>
        cases ends
        exact drained
    | next | lookUp | build | insert | returned | raised | invalidate | shutdown => cases ends

end Drained

theorem noLeak_of_quiet {state : State Time} (accounted : Accounted [] state)
    (drained : state.Drained) (quiet : state.Quiet) : state.NoLeak := by
  have kept := (all_kept_iff accounted quiet).mpr rfl
  refine ⟨kept, fun shutDown server connected => ?_⟩
  rcases kept server connected with ⟨isCached, _⟩ | ⟨isCleaned, _⟩
  · rw [State.cached, drained shutDown] at isCached
    cases isCached
  · exact isCleaned

/-- In every run whose inserts find no entry under their key and a pool that is not shut down,
nothing leaks: whenever no call is in progress, a connected server is the server of one entry
or cleaned up, and once the pool is shut down all are cleaned up. And in the runs that end
without a call in progress, the first is so only if no insert overwrote an entry. -/
theorem no_leak (pool : Pool Time) (events : List (Event Time)) :
    (Runs.StepsMeet pool.step State.Fits {} events →
      Runs.Always pool.step (fun state => state.Quiet → state.NoLeak) {} events) ∧
    ∀ last, Runs.exec pool.step {} events = some last → last.Quiet →
      ((∀ server < last.servers.length, last.Kept server) ↔
        Runs.StepsMeet pool.step (fun state event => state.overwritten event = []) {} events) := by
  have empty : Accounted [] ({} : State Time) := fun _ => rfl
  constructor
  · intro fits
    have invariant : ∀ (state : State Time) event next, (Accounted [] state ∧ state.Drained) →
        state.Fits event → pool.step state event = some next →
        Accounted [] next ∧ next.Drained := by
      rintro state event next ⟨accounted, drained⟩ fits taken
      have later := accounted_step pool accounted taken
      rw [fits.nothingOverwritten] at later
      exact ⟨later, drained_step drained fits taken⟩
    have initial : Accounted [] ({} : State Time) ∧ ({} : State Time).Drained :=
      ⟨empty, fun _ => rfl⟩
    exact (Runs.always_of_invariant pool.step invariant initial fits).mono pool.step
      fun state holds => noLeak_of_quiet holds.1 holds.2
  · intro last run quiet
    obtain ⟨more, accounted, nothingMore⟩ := accounted_run pool empty run
    rw [all_kept_iff accounted quiet]
    exact nothingMore

/-! ### Two runs that leak -/

/-- A clock of seconds, with the time to live of the pool. -/
def defaultPool : Pool Nat where
  maxEntries := 100
  expiry now := now + 600
  later expiresAt now := decide (now < expiresAt)

def docsServer : ResolvedMcpServer where
  slug := "docs"
  scope := .official
  url := "https://docs"
  authHeader := none
  authValueCt := none
  cacheToolsList := true
  enabled := true
  mandatory := false
  userId := none

/-- Two turns of a user miss the same entry and both build it. -/
def twoMisses : List (Event Nat) :=
  [.acquire "u" 0 [docsServer], .acquire "u" 0 [docsServer],
    .look 0 0, .take 0, .look 1 0, .take 1,
    .build 0 (fun _ _ => none) true, .take 0, .build 1 (fun _ _ => none) true, .take 1]

/-- The pool is shut down while a turn builds. -/
def shutDownWhileBuilding : List (Event Nat) :=
  [.acquire "u" 0 [docsServer], .look 0 0, .take 0, .shutdown, .take 1,
    .build 0 (fun _ _ => none) true, .take 0]

/-- The server of the first turn is overwritten; the other run leaves a server in the cache of
a pool that is shut down. -/
theorem connections_leak :
    (∃ last, Runs.exec defaultPool.step {} twoMisses = some last ∧ last.Quiet ∧
      last.servers.length = 2 ∧ ¬ last.Kept 0) ∧
    ∃ last, Runs.exec defaultPool.step {} shutDownWhileBuilding = some last ∧ last.Quiet ∧
      last.shutDown = true ∧ last.servers.length = 1 ∧ 0 ∉ last.cleaned := by
  refine ⟨⟨_, rfl, ?_, rfl, ?_⟩, ⟨_, rfl, ?_, rfl, rfl, ?_⟩⟩
  · unfold State.Quiet
    decide
  · unfold State.Kept
    decide
  · unfold State.Quiet
    decide
  · decide

end LiteHorse.Agent.McpPool
