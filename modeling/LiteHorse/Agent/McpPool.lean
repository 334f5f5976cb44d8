/-
This file models `McpPool`, the cache of connected MCP servers of a process. A call takes a
step between any two of its awaits: it reads the clock, it runs a block under the lock, it
has built a server, or a `cleanup` it awaits has returned. `step` interleaves the calls, with
any readings of the clock and any outcome of a build.

The lock is known by its holder. Any call that waits may take it when it is free, so the runs
include those in which the waiters take it in the order in which they came. A server is known
by its number: the pool has connected the servers `0, 1, ...` so far.

`keyed_step` is what every run keeps: an entry is under the key its server was built for.
-/

import LiteHorse.Library.OrderedDict
import LiteHorse.Library.Runs
import LiteHorse.Repositories.Effective

namespace LiteHorse.Agent.McpPool

open OrderedDicts Repositories

/-! ### Servers and calls -/

/-- The tenant, the slug and the URL. -/
structure Key where
  userId : String
  slug : String
  url : String
  deriving DecidableEq

def cacheKey (userId : String) (entry : ResolvedMcpServer) : Key := ⟨userId, entry.slug, entry.url⟩

/-- The arguments of `MCPServerStreamableHttp`. -/
structure ServerParams where
  name : String
  url : String
  headers : Option (String × String)
  cacheToolsList : Bool

/-- `value or default` of an optional text. -/
def orText (value : Option String) (default : String) : String :=
  match value with
  | some text => if text = "" then default else text
  | none => default

/-- `_build_server` up to the connect. `decrypt` is what decrypting for an owner and decoding
gives, `none` where one of them raises. -/
def buildServer (decrypt : ByteArray → String → Option String) (entry : ResolvedMcpServer) :
    Option ServerParams :=
  match entry.authValueCt with
  | some ciphertext =>
    if orText entry.authHeader "" = "" then
      some ⟨entry.slug, entry.url, none, entry.cacheToolsList⟩
    else
      (decrypt ciphertext (orText entry.userId "official")).map fun plaintext =>
        ⟨entry.slug, entry.url, some (orText entry.authHeader "", plaintext), entry.cacheToolsList⟩
  | none => some ⟨entry.slug, entry.url, none, entry.cacheToolsList⟩

/-- A connected server, with what it was built from. -/
structure Server where
  key : Key
  params : ServerParams
  /-- How many calls had been made when the configuration was resolved. -/
  resolvedAt : Nat

/-- `_Entry`, with the number of the server. -/
structure Entry (Time : Type) where
  server : Nat
  expiresAt : Time

/-- An `acquire` that is under way. -/
structure Acquire where
  userId : String
  resolvedAt : Nat
  /-- The entries that are still to come. -/
  entries : List ResolvedMcpServer
  out : List Nat := []

inductive Call (Time : Type) where
  /-- `acquire` is at an entry, and reads the clock next. -/
  | next (acquire : Acquire) (entry : ResolvedMcpServer)
  /-- It waits for the lock of the lookup. -/
  | lookUp (acquire : Acquire) (entry : ResolvedMcpServer) (now : Time)
  /-- It holds the lock while it cleans a stale server up. -/
  | dropStale (acquire : Acquire) (entry : ResolvedMcpServer) (now : Time) (stale : Nat)
  | build (acquire : Acquire) (entry : ResolvedMcpServer) (now : Time)
  /-- It waits for the lock of the insert. -/
  | insert (acquire : Acquire) (entry : ResolvedMcpServer) (now : Time) (server : Nat)
  /-- It holds the lock while it cleans a server up that had to leave. -/
  | evict (acquire : Acquire) (server victim : Nat)
  | returned (acquire : Acquire)
  | raised
  /-- `invalidate` waits for the lock. -/
  | invalidate (userId slug : Option String)
  /-- It has taken servers out, and these are still to be cleaned up. -/
  | invalidated (userId slug : Option String) (remaining : List Nat) (count : Nat)
  | shutdown
  | closed (remaining : List Nat)

variable {Time : Type}

/-- The servers a call has in its hands, to insert or to clean them up. -/
def Call.held : Call Time → List Nat
  | .dropStale _ _ _ server | .insert _ _ _ server | .evict _ _ server => [server]
  | .invalidated _ _ remaining _ | .closed remaining => remaining
  | .next .. | .lookUp .. | .build .. | .returned _ | .raised | .invalidate .. | .shutdown => []

/-- The call has returned or raised. -/
def Call.finished : Call Time → Bool
  | .returned _ | .raised => true
  | .invalidated _ _ remaining _ | .closed remaining => remaining.isEmpty
  | .next .. | .lookUp .. | .dropStale .. | .build .. | .insert .. | .evict .. | .invalidate ..
  | .shutdown => false

/-- A shutdown that has emptied the cache and not returned yet. -/
def Call.isClosing : Call Time → Bool
  | .closed (_ :: _) => true
  | _ => false

/-- The head of the loop of `acquire`. -/
def Acquire.proceed (acquire : Acquire) : Call Time :=
  match acquire.entries with
  | [] => .returned acquire
  | entry :: rest => .next { acquire with entries := rest } entry

/-- `out.append(server)` -/
def Acquire.collect (acquire : Acquire) (server : Nat) : Acquire :=
  { acquire with out := acquire.out ++ [server] }

/-! ### The pool -/

structure State (Time : Type) where
  cache : OrderedDict Key (Entry Time) := .empty
  /-- The call that holds the lock. -/
  holder : Option Nat := none
  /-- All calls, in the order in which they were made. -/
  calls : List (Call Time) := []
  servers : List Server := []
  cleaned : List Nat := []
  /-- A shutdown has emptied the cache, and since it returned, if it has, no `acquire` was
  called. -/
  shutDown : Bool := false

/-- The settings of a pool and the arithmetic of its clock. -/
structure Pool (Time : Type) where
  maxEntries : Int
  /-- `now + ttl` -/
  expiry : Time → Time
  /-- `expires_at > now` -/
  later : Time → Time → Bool

/-- What happens next: a call is made, or a call takes its next step. -/
inductive Event (Time : Type) where
  | acquire (userId : String) (resolvedAt : Nat) (entries : List ResolvedMcpServer)
  | invalidate (userId slug : Option String)
  | shutdown
  /-- `now = self._clock()` -/
  | look (task : Nat) (now : Time)
  /-- The lock is taken and the block runs to its first await, or to its end. -/
  | take (task : Nat)
  /-- The build is done, or it has raised. -/
  | build (task : Nat) (decrypt : ByteArray → String → Option String) (connects : Bool)
  /-- The `cleanup` that the call awaits has returned or raised. -/
  | cleaned (task : Nat)

namespace State

def make (state : State Time) (call : Call Time) : State Time :=
  { state with calls := state.calls ++ [call] }

def put (state : State Time) (task : Nat) (call : Call Time) : State Time :=
  { state with calls := state.calls.set task call }

def cached (state : State Time) : List Nat := state.cache.items.map fun item => item.2.server

/-- No call is in progress. -/
def Quiet (state : State Time) : Prop := ∀ call ∈ state.calls, call.finished = true

end State

namespace Pool

variable (pool : Pool Time)

/-- `_evict_if_full` up to its next await, and what `_get_or_build` does after it. `popitem`
raises `KeyError` on an empty cache, which happens with a negative bound only. -/
def evictIfFull (state : State Time) (task : Nat) (acquire : Acquire) (server : Nat) :
    State Time :=
  if state.cache.length > pool.maxEntries then
    match state.cache.popFirst with
    | some (oldest, rest) =>
      { state with cache := rest, holder := some task }.put task
        (.evict acquire server oldest.2.server)
    | none => { state with holder := none }.put task .raised
  else { state with holder := none }.put task (acquire.collect server).proceed

/-- The first block of `_get_or_build`. -/
def lookUp (state : State Time) (task : Nat) (acquire : Acquire) (entry : ResolvedMcpServer)
    (now : Time) : State Time :=
  let key := cacheKey acquire.userId entry
  match state.cache.get key with
  | some existing =>
    if pool.later existing.expiresAt now then
      { state with cache := state.cache.moveToEnd key }.put task
        (acquire.collect existing.server).proceed
    else
      { state with cache := state.cache.erase key, holder := some task }.put task
        (.dropStale acquire entry now existing.server)
  | none => state.put task (.build acquire entry now)

/-- The second block. -/
def insert (state : State Time) (task : Nat) (acquire : Acquire) (entry : ResolvedMcpServer)
    (now : Time) (server : Nat) : State Time :=
  pool.evictIfFull
    { state with
        cache := state.cache.setLast (cacheKey acquire.userId entry) ⟨server, pool.expiry now⟩ }
    task acquire server

end Pool

/-- The keys that `invalidate` drops. -/
def matchesKey (userId slug : Option String) (key : Key) : Bool :=
  userId.all (key.userId = ·) && slug.all (key.slug = ·)

namespace State

/-- The block of `invalidate`. -/
def invalidate (state : State Time) (task : Nat) (userId slug : Option String) : State Time :=
  let victims := (state.cache.keep (matchesKey userId slug)).items.map fun item => item.2.server
  { state with cache := state.cache.keep fun key => !matchesKey userId slug key }.put task
    (.invalidated userId slug victims victims.length)

/-- The block of `shutdown`. -/
def shutdown (state : State Time) (task : Nat) : State Time :=
  { state with cache := .empty, shutDown := true }.put task (.closed state.cached)

/-- A build ends. -/
def built (state : State Time) (task : Nat) (decrypt : ByteArray → String → Option String)
    (connects : Bool) : Call Time → Option (State Time)
  | .build acquire entry now =>
    match buildServer decrypt entry, connects with
    | some params, true =>
      let server := ⟨cacheKey acquire.userId entry, params, acquire.resolvedAt⟩
      some ({ state with servers := state.servers ++ [server] }.put task
        (.insert acquire entry now state.servers.length))
    | _, _ => some (state.put task .raised)
  | _ => none

end State

namespace Pool

variable (pool : Pool Time)

/-- A call runs its block under the lock. -/
def block (state : State Time) (task : Nat) : Call Time → Option (State Time)
  | .lookUp acquire entry now => some (pool.lookUp state task acquire entry now)
  | .insert acquire entry now server => some (pool.insert state task acquire entry now server)
  | .invalidate userId slug => some (state.invalidate task userId slug)
  | .shutdown => some (state.shutdown task)
  | .next .. | .dropStale .. | .build .. | .evict .. | .returned _ | .raised | .invalidated ..
  | .closed _ => none

/-- A `cleanup` ends. -/
def cleanedUp (state : State Time) (task : Nat) : Call Time → Option (State Time)
  | .dropStale acquire entry now stale =>
    some ({ state with cleaned := state.cleaned ++ [stale], holder := none }.put task
      (.build acquire entry now))
  | .evict acquire server victim =>
    some (pool.evictIfFull { state with cleaned := state.cleaned ++ [victim] } task acquire server)
  | .invalidated userId slug (server :: rest) count =>
    some ({ state with cleaned := state.cleaned ++ [server] }.put task
      (.invalidated userId slug rest count))
  | .closed (server :: rest) =>
    some ({ state with cleaned := state.cleaned ++ [server] }.put task (.closed rest))
  | _ => none

def step (state : State Time) : Event Time → Option (State Time)
  | .acquire userId resolvedAt entries =>
    if resolvedAt ≤ state.calls.length then
      some ({ state with shutDown := state.shutDown && state.calls.any Call.isClosing }.make
        (Acquire.proceed ⟨userId, resolvedAt, entries, []⟩))
    else none
  | .invalidate userId slug => some (state.make (.invalidate userId slug))
  | .shutdown => some (state.make .shutdown)
  | .look task now =>
    match state.calls[task]? with
    | some (.next acquire entry) => some (state.put task (.lookUp acquire entry now))
    | _ => none
  | .take task =>
    if state.holder = none then state.calls[task]?.bind (pool.block state task) else none
  | .build task decrypt connects =>
    state.calls[task]?.bind (state.built task decrypt connects)
  | .cleaned task => state.calls[task]?.bind (pool.cleanedUp state task)

end Pool

namespace Pool

variable {pool : Pool Time} {state next : State Time} {task : Nat}

theorem step_acquire {userId : String} {resolvedAt : Nat} {entries : List ResolvedMcpServer}
    (taken : pool.step state (.acquire userId resolvedAt entries) = some next) :
    resolvedAt ≤ state.calls.length ∧
      { state with shutDown := state.shutDown && state.calls.any Call.isClosing }.make
        (Acquire.proceed ⟨userId, resolvedAt, entries, []⟩) = next := by
  rw [step] at taken
  split at taken
  · next past => exact ⟨past, Option.some.inj taken⟩
  · cases taken

theorem step_look {now : Time} (taken : pool.step state (.look task now) = some next) :
    ∃ acquire entry, state.calls[task]? = some (.next acquire entry) ∧
      state.put task (.lookUp acquire entry now) = next := by
  rw [step] at taken
  split at taken
  · next acquire entry isCall => exact ⟨acquire, entry, isCall, Option.some.inj taken⟩
  · cases taken

theorem step_take (taken : pool.step state (.take task) = some next) :
    state.holder = none ∧
      ∃ call, state.calls[task]? = some call ∧ pool.block state task call = some next := by
  rw [step] at taken
  split at taken
  · next free => exact ⟨free, Option.bind_eq_some_iff.mp taken⟩
  · cases taken

/-- A call that builds has a new connected server, or it raises. -/
theorem step_build {decrypt : ByteArray → String → Option String} {connects : Bool}
    (taken : pool.step state (.build task decrypt connects) = some next) :
    ∃ acquire entry now, state.calls[task]? = some (.build acquire entry now) ∧
      ((∃ params, buildServer decrypt entry = some params ∧
          { state with servers := state.servers ++
              [Server.mk (cacheKey acquire.userId entry) params acquire.resolvedAt] }.put task
            (.insert acquire entry now state.servers.length) = next) ∨
        state.put task .raised = next) := by
  obtain ⟨call, isCall, ends⟩ := Option.bind_eq_some_iff.mp taken
  cases call with
  | build acquire entry now =>
    refine ⟨acquire, entry, now, isCall, ?_⟩
    unfold State.built at ends
    dsimp only at ends
    split at ends
    · next params isParams => exact Or.inl ⟨params, isParams, Option.some.inj ends⟩
    · exact Or.inr (Option.some.inj ends)
  | next | lookUp | dropStale | insert | evict | returned | raised | invalidate | invalidated
  | shutdown | closed => cases ends

theorem step_cleaned (taken : pool.step state (.cleaned task) = some next) :
    ∃ call, state.calls[task]? = some call ∧ pool.cleanedUp state task call = some next :=
  Option.bind_eq_some_iff.mp taken

end Pool

/-! ### Servers are under the keys they were built for -/

/-- A server that was built for the key from a configuration of this age. -/
def BuiltFor (servers : List Server) (key : Key) (server : Nat) : Prop :=
  ∃ built, servers[server]? = some built ∧ built.key = key

theorem BuiltFor.append {servers : List Server} {key : Key} {server : Nat}
    (built : BuiltFor servers key server) (new : Server) :
    BuiltFor (servers ++ [new]) key server := by
  obtain ⟨found, isFound, isKey⟩ := built
  have inBounds := (List.getElem?_eq_some_iff.mp isFound).1
  exact ⟨found, (List.getElem?_append_left inBounds).trans isFound, isKey⟩

/-- What a call is about to insert, it has built for the key of its entry. -/
def Call.Keyed (servers : List Server) : Call Time → Prop
  | .insert acquire entry _ server => BuiltFor servers (cacheKey acquire.userId entry) server
  | _ => True

structure State.Keyed (state : State Time) : Prop where
  cached : ∀ item ∈ state.cache.items, BuiltFor state.servers item.1 item.2.server
  calls : ∀ call ∈ state.calls, call.Keyed state.servers

theorem keyed_proceed (servers : List Server) (acquire : Acquire) :
    (acquire.proceed : Call Time).Keyed servers := by
  unfold Acquire.proceed
  split <;> trivial

section Keyed

variable {pool : Pool Time} {state next : State Time} {task : Nat}

theorem Call.Keyed.append {servers : List Server} {call : Call Time} (keyed : call.Keyed servers)
    (new : Server) : call.Keyed (servers ++ [new]) := by
  cases call with
  | insert acquire entry now server => exact BuiltFor.append keyed new
  | next | lookUp | dropStale | build | evict | returned | raised | invalidate | invalidated
  | shutdown | closed => trivial

theorem State.Keyed.make (keyed : state.Keyed) {call : Call Time}
    (callKeyed : call.Keyed state.servers) : (state.make call).Keyed where
  cached := keyed.cached
  calls other member := by
    rcases List.mem_append.mp member with before | isNew
    · exact keyed.calls other before
    · rw [List.mem_singleton.mp isNew]
      exact callKeyed

theorem State.Keyed.put (keyed : state.Keyed) {call : Call Time}
    (callKeyed : call.Keyed state.servers) : (state.put task call).Keyed where
  cached := keyed.cached
  calls other member := by
    rcases List.mem_or_eq_of_mem_set member with before | rfl
    · exact keyed.calls other before
    · exact callKeyed

/-- The cache loses entries, and the lock or what is cleaned up changes. -/
theorem State.Keyed.shrink (keyed : state.Keyed) {cache : OrderedDict Key (Entry Time)}
    (fewer : ∀ item ∈ cache.items, item ∈ state.cache.items) (holder : Option Nat)
    (cleaned : List Nat) (shutDown : Bool) :
    State.Keyed { state with cache, holder, cleaned, shutDown } where
  cached item member := keyed.cached item (fewer item member)
  calls := keyed.calls

theorem keyed_evictIfFull (keyed : state.Keyed) (acquire : Acquire) (server : Nat) :
    (pool.evictIfFull state task acquire server).Keyed := by
  unfold Pool.evictIfFull
  split
  · split
    · next oldest rest popped =>
      have fewer : ∀ item ∈ rest.items, item ∈ state.cache.items := by
        intro item member
        rw [OrderedDict.items_of_popFirst popped]
        exact List.mem_cons_of_mem _ member
      exact (keyed.shrink fewer (some task) state.cleaned state.shutDown).put trivial
    · exact (keyed.shrink (fun _ => id) none state.cleaned state.shutDown).put trivial
  · exact (keyed.shrink (fun _ => id) none state.cleaned state.shutDown).put
      (keyed_proceed _ _)

theorem keyed_lookUp (keyed : state.Keyed) (acquire : Acquire) (entry : ResolvedMcpServer)
    (now : Time) : (pool.lookUp state task acquire entry now).Keyed := by
  unfold Pool.lookUp
  dsimp only
  split
  · split
    · exact (keyed.shrink (fun item => (state.cache.perm_moveToEnd _).mem_iff.mp) state.holder
        state.cleaned state.shutDown).put (keyed_proceed _ _)
    · exact (keyed.shrink (fun item member => (OrderedDict.mem_erase_iff.mp member).1) (some task)
        state.cleaned state.shutDown).put trivial
  · exact keyed.put trivial

theorem keyed_insert (keyed : state.Keyed) {acquire : Acquire} {entry : ResolvedMcpServer}
    {now : Time} {server : Nat}
    (built : BuiltFor state.servers (cacheKey acquire.userId entry) server) :
    (pool.insert state task acquire entry now server).Keyed := by
  have grown : State.Keyed { state with
      cache := state.cache.setLast (cacheKey acquire.userId entry) ⟨server, pool.expiry now⟩ } := by
    refine ⟨fun item member => ?_, keyed.calls⟩
    rcases List.mem_append.mp member with before | isNew
    · exact keyed.cached item (OrderedDict.mem_erase_iff.mp before).1
    · rw [List.mem_singleton.mp isNew]
      exact built
  exact keyed_evictIfFull grown acquire server

theorem keyed_block (keyed : state.Keyed) {call : Call Time} (callKeyed : call.Keyed state.servers)
    (taken : pool.block state task call = some next) : next.Keyed := by
  cases call with
  | lookUp acquire entry now =>
    cases taken
    exact keyed_lookUp keyed acquire entry now
  | insert acquire entry now server =>
    cases taken
    exact keyed_insert keyed callKeyed
  | invalidate userId slug =>
    cases taken
    exact (keyed.shrink (fun item member => (List.mem_filter.mp member).1) state.holder
      state.cleaned state.shutDown).put trivial
  | shutdown =>
    cases taken
    exact (keyed.shrink (fun item member => absurd member List.not_mem_nil) state.holder
      state.cleaned true).put trivial
  | next | dropStale | build | evict | returned | raised | invalidated | closed => cases taken

theorem keyed_cleanedUp (keyed : state.Keyed) {call : Call Time}
    (taken : pool.cleanedUp state task call = some next) : next.Keyed := by
  cases call with
  | dropStale acquire entry now stale =>
    cases taken
    exact (keyed.shrink (fun _ => id) none _ state.shutDown).put trivial
  | evict acquire server victim =>
    cases taken
    exact keyed_evictIfFull (keyed.shrink (fun _ => id) state.holder _ state.shutDown) acquire
      server
  | invalidated _ _ remaining _ | closed remaining =>
    cases remaining with
    | nil => cases taken
    | cons first rest =>
      cases taken
      exact (keyed.shrink (fun _ => id) state.holder _ state.shutDown).put trivial
  | next | lookUp | build | insert | returned | raised | invalidate | shutdown => cases taken

theorem keyed_step {event : Event Time} (keyed : state.Keyed)
    (taken : pool.step state event = some next) : next.Keyed := by
  cases event with
  | acquire userId resolvedAt entries =>
    obtain ⟨_, rfl⟩ := Pool.step_acquire taken
    exact (keyed.shrink (fun _ => id) state.holder state.cleaned _).make (keyed_proceed _ _)
  | invalidate | shutdown =>
    cases taken
    exact keyed.make trivial
  | look task now =>
    obtain ⟨acquire, entry, _, rfl⟩ := Pool.step_look taken
    exact keyed.put trivial
  | take task =>
    obtain ⟨_, call, isCall, runs⟩ := Pool.step_take taken
    exact keyed_block keyed (keyed.calls call (List.mem_of_getElem? isCall)) runs
  | build task decrypt connects =>
    obtain ⟨acquire, entry, now, _, ⟨params, _, rfl⟩ | rfl⟩ := Pool.step_build taken
    · have grown : State.Keyed { state with servers := state.servers ++
          [Server.mk (cacheKey acquire.userId entry) params acquire.resolvedAt] } :=
        ⟨fun item member => (keyed.cached item member).append _,
          fun call member => (keyed.calls call member).append _⟩
      exact grown.put ⟨_, List.getElem?_concat_length, rfl⟩
    · exact keyed.put trivial
  | cleaned task =>
    obtain ⟨call, _, ends⟩ := Pool.step_cleaned taken
    exact keyed_cleanedUp keyed ends

theorem keyed_empty : ({} : State Time).Keyed :=
  ⟨fun _ member => absurd member List.not_mem_nil, fun _ member => absurd member List.not_mem_nil⟩

theorem keyed_run {events : List (Event Time)} {last : State Time}
    (run : Runs.exec pool.step {} events = some last) : last.Keyed :=
  Runs.exec_invariant pool.step (fun _ _ _ => keyed_step) keyed_empty run

end Keyed

end LiteHorse.Agent.McpPool
