/-
This file is about an `acquire` that no other call overlaps. It returns a server for each
entry, in order. Whether these are all alive when it returns is decided by the entries and the
readings of the clock (`KeepsServers`): a server that was collected is cleaned up again if
the call uses more keys than the cache has room for, or if an entry that it used has expired
when it uses its key again.

`Progress` is what the call has brought about so far: the cache holds what is left of its old
entries, and behind them an entry for each key used, with the server that was collected.
-/

import LiteHorse.Agent.McpLeak

namespace LiteHorse.Agent.McpPool

open OrderedDicts Repositories

variable {Time : Type}

/-! ### The condition -/

section Condition

variable (pool : Pool Time) (start : OrderedDict Key (Entry Time))

/-- How many entries fit into the cache. -/
def Pool.room : Nat := pool.maxEntries.toNat

/-- The expiry of the entry that the first use of a key finds or makes: the old one's, if it is
left and has not expired. -/
def expiryFor (used : List Key) (key : Key) (now : Time) : Time :=
  match (start.remaining pool.room used).get key with
  | some entry => if pool.later entry.expiresAt now then entry.expiresAt else pool.expiry now
  | none => pool.expiry now

/-- The expiry of the entry that the first of the uses has found or made. -/
def firstExpiry : List Key → List (Key × Time) → Key → Option Time
  | _, [], _ => none
  | used, (other, now) :: rest, key =>
    if other = key then some (expiryFor pool start used key now)
    else firstExpiry (used ++ [other]) rest key

/-- There is room for all the keys that are used, and a key that is used again has not expired
since its first use. -/
structure KeepsServers (uses : List (Key × Time)) : Prop where
  fits : (uses.map Prod.fst).toFinset.card ≤ pool.room
  fresh : ∀ before key now, before ++ [(key, now)] <+: uses →
    ∀ expiresAt, firstExpiry pool start [] before key = some expiresAt →
      pool.later expiresAt now = true

variable {pool start}

theorem firstExpiry_concat (used : List Key) (uses : List (Key × Time)) (key other : Key)
    (now : Time) :
    firstExpiry pool start used (uses ++ [(other, now)]) key =
      (firstExpiry pool start used uses key).or
        (if other = key then some (expiryFor pool start (used ++ uses.map Prod.fst) key now)
          else none) := by
  induction uses generalizing used with
  | nil =>
    rw [List.map_nil, List.append_nil]
    rfl
  | cons use uses inductionHypothesis =>
    obtain ⟨first, reading⟩ := use
    rw [List.cons_append, firstExpiry, firstExpiry]
    split
    · rfl
    · rw [inductionHypothesis, List.map_cons, List.append_assoc]
      rfl

theorem firstExpiry_eq_none {used : List Key} {uses : List (Key × Time)} {key : Key}
    (notUsed : key ∉ uses.map Prod.fst) : firstExpiry pool start used uses key = none := by
  induction uses generalizing used with
  | nil => rfl
  | cons use uses inductionHypothesis =>
    rw [List.map_cons, List.mem_cons, not_or] at notUsed
    rw [firstExpiry, if_neg (Ne.symm notUsed.1)]
    exact inductionHypothesis notUsed.2

theorem KeepsServers.of_prefix {first uses : List (Key × Time)}
    (keeps : KeepsServers pool start uses) (isPrefix : first <+: uses) :
    KeepsServers pool start first where
  fits := by
    refine (Finset.card_le_card ?_).trans keeps.fits
    intro key member
    rw [List.mem_toFinset] at member ⊢
    exact (isPrefix.sublist.map Prod.fst).subset member
  fresh before key now again := keeps.fresh before key now (again.trans isPrefix)

theorem keepsServers_concat {uses : List (Key × Time)} {key : Key} {now : Time}
    (keeps : KeepsServers pool start uses)
    (fits : ((uses ++ [(key, now)]).map Prod.fst).toFinset.card ≤ pool.room)
    (fresh : ∀ expiresAt, firstExpiry pool start [] uses key = some expiresAt →
      pool.later expiresAt now = true) : KeepsServers pool start (uses ++ [(key, now)]) where
  fits := fits
  fresh before other reading isPrefix expiresAt isFirst := by
    rcases List.prefix_concat_iff.mp isPrefix with last | earlier
    · obtain ⟨rfl, sameUse⟩ := List.append_inj' last rfl
      cases sameUse
      exact fresh expiresAt isFirst
    · exact keeps.fresh before other reading earlier expiresAt isFirst

end Condition

/-! ### What the call has brought about -/

/-- The entries of the keys used so far. -/
structure Recent (pool : Pool Time) (start : OrderedDict Key (Entry Time))
    (uses : List (Key × Time)) (out : List Nat) (recent : List (Key × Entry Time)) : Prop where
  keeps : KeepsServers pool start uses
  distinct : (recent.map Prod.fst).Nodup
  keys : ∀ key, key ∈ recent.map Prod.fst ↔ key ∈ uses.map Prod.fst
  expiry : ∀ item ∈ recent, firstExpiry pool start [] uses item.1 = some item.2.expiresAt
  collected : List.Forall₂ (fun use server => ∃ expiresAt, (use.1, ⟨server, expiresAt⟩) ∈ recent)
    uses out

section Recent

variable {pool : Pool Time} {start : OrderedDict Key (Entry Time)} {uses : List (Key × Time)}
  {out : List Nat} {recent : List (Key × Entry Time)} {key : Key} {now : Time} {entry : Entry Time}

theorem exists_of_mem_left {First Second : Type} {related : First → Second → Prop}
    {firsts : List First} {seconds : List Second} (all : List.Forall₂ related firsts seconds)
    {first : First} (member : first ∈ firsts) : ∃ second ∈ seconds, related first second := by
  induction all with
  | nil => cases member
  | cons isRelated _ inductionHypothesis =>
    rcases List.mem_cons.mp member with rfl | later
    · exact ⟨_, List.mem_cons_self, isRelated⟩
    · obtain ⟨second, isSecond, isRelated⟩ := inductionHypothesis later
      exact ⟨second, List.mem_cons_of_mem _ isSecond, isRelated⟩

theorem eq_of_mem_of_distinct (distinct : (recent.map Prod.fst).Nodup)
    {first second : Entry Time} (isFirst : (key, first) ∈ recent)
    (isSecond : (key, second) ∈ recent) : first = second :=
  congrArg Prod.snd (List.inj_on_of_nodup_map distinct isFirst isSecond rfl)

namespace Recent

variable (progress : Recent pool start uses out recent)

include progress

theorem length : recent.length = (uses.map Prod.fst).toFinset.card := by
  have sameKeys : (recent.map Prod.fst).toFinset = (uses.map Prod.fst).toFinset := by
    ext other
    rw [List.mem_toFinset, List.mem_toFinset]
    exact progress.keys other
  rw [← sameKeys, List.toFinset_card_of_nodup progress.distinct, List.length_map]

/-- The server of a recent entry has been collected. -/
theorem server_mem {item : Key × Entry Time} (member : item ∈ recent) : item.2.server ∈ out := by
  have isKey := (progress.keys item.1).mp (List.mem_map_of_mem member)
  obtain ⟨use, isUse, sameKey⟩ := List.mem_map.mp isKey
  obtain ⟨server, isServer, expiresAt, isEntry⟩ := exists_of_mem_left progress.collected isUse
  rw [sameKey] at isEntry
  rw [eq_of_mem_of_distinct progress.distinct member isEntry]
  exact isServer

/-- A key is used for the first time. -/
theorem use (entry : Entry Time) (fresh : key ∉ uses.map Prod.fst)
    (fits : (uses.map Prod.fst).toFinset.card + 1 ≤ pool.room)
    (expiry : expiryFor pool start (uses.map Prod.fst) key now = entry.expiresAt) :
    Recent pool start (uses ++ [(key, now)]) (out ++ [entry.server])
      (recent ++ [(key, entry)]) where
  keeps := by
    refine keepsServers_concat progress.keeps ?_ fun expiresAt isFirst => ?_
    · rw [List.map_append, List.map_singleton, card_concat fresh]
      exact fits
    · rw [firstExpiry_eq_none fresh] at isFirst
      cases isFirst
  distinct := by
    rw [List.map_append, List.map_singleton, ← List.concat_eq_append]
    exact List.Nodup.concat (fun member => fresh ((progress.keys key).mp member)) progress.distinct
  keys other := by
    rw [List.map_append, List.map_append, List.mem_append, List.mem_append, progress.keys other]
    rfl
  expiry item member := by
    rw [firstExpiry_concat]
    rcases List.mem_append.mp member with before | isNew
    · rw [progress.expiry item before, Option.some_or]
    · rw [List.mem_singleton.mp isNew, firstExpiry_eq_none fresh, Option.none_or, if_pos rfl]
      exact congrArg some expiry
  collected := by
    refine List.rel_append (List.Forall₂.imp ?_ progress.collected) (List.Forall₂.cons ?_ .nil)
    · rintro use server ⟨expiresAt, member⟩
      exact ⟨expiresAt, List.mem_append_left _ member⟩
    · exact ⟨entry.expiresAt, List.mem_append_right _ (List.mem_singleton_self _)⟩

/-- A key is used again, before its entry has expired. -/
theorem again (member : (key, entry) ∈ recent) (fresh : pool.later entry.expiresAt now = true) :
    Recent pool start (uses ++ [(key, now)]) (out ++ [entry.server])
      ((recent.filter fun item => decide (item.1 ≠ key)) ++ [(key, entry)]) := by
  have sameItems : ∀ item, item ∈ (recent.filter fun item => decide (item.1 ≠ key)) ++
      [(key, entry)] ↔ item ∈ recent := by
    intro item
    rw [List.mem_append, List.mem_filter, decide_eq_true_eq, List.mem_singleton]
    constructor
    · rintro (⟨isItem, _⟩ | rfl)
      · exact isItem
      · exact member
    · intro isItem
      by_cases same : item.1 = key
      · obtain ⟨_, other⟩ := item
        subst same
        exact Or.inr (Prod.ext rfl (eq_of_mem_of_distinct progress.distinct isItem member))
      · exact Or.inl ⟨isItem, same⟩
  have isUsed : key ∈ uses.map Prod.fst := (progress.keys key).mp (List.mem_map_of_mem member)
  have isFirst := progress.expiry _ member
  refine ⟨?_, ?_, fun other => ?_, fun item isItem => ?_, ?_⟩
  · refine keepsServers_concat progress.keeps ?_ fun expiresAt isExpiry => ?_
    · have sameKeys : ((uses ++ [(key, now)]).map Prod.fst).toFinset =
          (uses.map Prod.fst).toFinset := by
        ext other
        simp only [List.map_append, List.map_cons, List.map_nil, List.mem_toFinset,
          List.mem_append, List.mem_singleton]
        exact or_iff_left_of_imp fun same => same ▸ isUsed
      rw [sameKeys]
      exact progress.keeps.fits
    · rw [isFirst] at isExpiry
      cases isExpiry
      exact fresh
  · rw [List.map_append, List.map_singleton, ← List.concat_eq_append]
    refine List.Nodup.concat (fun isKey => ?_)
      (progress.distinct.sublist (List.filter_sublist.map Prod.fst))
    obtain ⟨item, isItem, same⟩ := List.mem_map.mp isKey
    exact of_decide_eq_true (List.mem_filter.mp isItem).2 same
  · have sameKeys : other ∈ (uses ++ [(key, now)]).map Prod.fst ↔ other ∈ uses.map Prod.fst := by
      rw [List.map_append, List.mem_append, List.map_singleton, List.mem_singleton]
      exact or_iff_left_of_imp fun same => same ▸ isUsed
    rw [sameKeys, ← progress.keys other, List.mem_map, List.mem_map]
    exact exists_congr fun item => and_congr_left fun _ => sameItems item
  · rw [firstExpiry_concat, progress.expiry item ((sameItems item).mp isItem), Option.some_or]
  · refine List.rel_append (List.Forall₂.imp ?_ progress.collected) (List.Forall₂.cons ?_ .nil)
    · rintro use server ⟨expiresAt, isItem⟩
      exact ⟨expiresAt, (sameItems _).mpr isItem⟩
    · exact ⟨entry.expiresAt, (sameItems _).mpr member⟩

end Recent

end Recent

/-! ### The cache -/

section Cache

variable (pool : Pool Time) (start : OrderedDict Key (Entry Time))

/-- All collected servers are in the cache, behind what is left of the old entries. -/
def Alive (cache : OrderedDict Key (Entry Time)) (uses : List (Key × Time)) (out : List Nat) :
    Prop :=
  ∃ recent, Recent pool start uses out recent ∧
    cache.items = remaining pool.room start.items (uses.map Prod.fst) ++ recent

/-- So they are, and a server is made for a new key. -/
def Making (cache : OrderedDict Key (Entry Time)) (uses : List (Key × Time)) (key : Key)
    (now : Time) (out : List Nat) : Prop :=
  ∃ recent, Recent pool start uses out recent ∧ key ∉ uses.map Prod.fst ∧
    cache.items = (remaining pool.room start.items (uses.map Prod.fst)).filter
        (fun item => decide (item.1 ≠ key)) ++ recent ∧
      expiryFor pool start (uses.map Prod.fst) key now = pool.expiry now

variable {pool start} {cache : OrderedDict Key (Entry Time)} {uses : List (Key × Time)}
  {out : List Nat} {key : Key} {now : Time} {entry : Entry Time}

theorem Alive.length_le (alive : Alive pool start cache uses out) : cache.length ≤ pool.room := by
  obtain ⟨recent, progress, items⟩ := alive
  have room := length_remaining pool.room start.items (uses.map Prod.fst)
  have fits := progress.keeps.fits
  rw [OrderedDict.length, items, List.length_append, progress.length]
  omega

theorem filter_ne_eq_self {items : List (Key × Entry Time)}
    (missing : ∀ item ∈ items, item.1 ≠ key) :
    items.filter (fun item => decide (item.1 ≠ key)) = items :=
  List.filter_eq_self.mpr fun item member => decide_eq_true (missing item member)

/-- A fresh entry is found, and moves to the back. -/
theorem Alive.hit (alive : Alive pool start cache uses out) (found : cache.get key = some entry)
    (fresh : pool.later entry.expiresAt now = true) :
    Alive pool start (cache.moveToEnd key) (uses ++ [(key, now)]) (out ++ [entry.server]) := by
  obtain ⟨recent, progress, items⟩ := alive
  have member := OrderedDict.mem_iff_get.mpr found
  rw [items, List.mem_append] at member
  have moved : (cache.moveToEnd key).items =
      (remaining pool.room start.items (uses.map Prod.fst)).filter
          (fun item => decide (item.1 ≠ key)) ++
        (recent.filter (fun item => decide (item.1 ≠ key)) ++ [(key, entry)]) := by
    rw [OrderedDict.items_moveToEnd found, ← List.append_assoc, ← List.filter_append, ← items]
    rfl
  by_cases isUsed : key ∈ uses.map Prod.fst
  · have notOld : ∀ item ∈ remaining pool.room start.items (uses.map Prod.fst), item.1 ≠ key :=
      fun item isOld same => (mem_remaining isOld).2 (same ▸ isUsed)
    have isRecent := member.resolve_left fun isOld => notOld _ isOld rfl
    refine ⟨_, progress.again isRecent fresh, ?_⟩
    rw [moved, filter_ne_eq_self notOld, List.map_append, List.map_singleton,
      remaining_again isUsed]
  · have notRecent : ∀ item ∈ recent, item.1 ≠ key := fun item isRecent same =>
      isUsed ((progress.keys key).mp (same ▸ List.mem_map_of_mem isRecent))
    have isOld := member.resolve_right fun isRecent => notRecent _ isRecent rfl
    have room := length_remaining pool.room start.items (uses.map Prod.fst)
    have nonempty := List.length_pos_of_mem isOld
    have fits : (uses.map Prod.fst).toFinset.card + 1 ≤ pool.room := by omega
    have isLeft : (start.remaining pool.room (uses.map Prod.fst)).get key = some entry :=
      OrderedDict.mem_iff_get.mp isOld
    have expiry : expiryFor pool start (uses.map Prod.fst) key now = entry.expiresAt := by
      simp only [expiryFor, isLeft, fresh, if_true]
    refine ⟨_, progress.use entry isUsed fits expiry, ?_⟩
    have leaves : ((remaining pool.room start.items (uses.map Prod.fst)).filter
        fun item => decide (item.1 ≠ key)).length <
          (remaining pool.room start.items (uses.map Prod.fst)).length :=
      List.length_filter_lt_length_iff_exists.mpr
        ⟨(key, entry), isOld, fun differs => of_decide_eq_true differs rfl⟩
    rw [moved, filter_ne_eq_self notRecent, List.map_append, List.map_singleton,
      remaining_use start.distinct isUsed fits rfl, if_neg (by omega)]

/-- An expired entry is found: it is an old one, or it was used by this call. -/
theorem Alive.stale (alive : Alive pool start cache uses out) (found : cache.get key = some entry)
    (expired : ¬ pool.later entry.expiresAt now = true) :
    Making pool start (cache.erase key) uses key now out ∨
      ¬ KeepsServers pool start (uses ++ [(key, now)]) ∧ entry.server ∈ out := by
  obtain ⟨recent, progress, items⟩ := alive
  have member := OrderedDict.mem_iff_get.mpr found
  rw [items, List.mem_append] at member
  by_cases isUsed : key ∈ uses.map Prod.fst
  · have isRecent := member.resolve_left fun isOld => (mem_remaining isOld).2 isUsed
    refine Or.inr ⟨fun keeps => expired ?_, progress.server_mem isRecent⟩
    exact keeps.fresh uses key now (List.prefix_refl _) _ (progress.expiry _ isRecent)
  · have notRecent : ∀ item ∈ recent, item.1 ≠ key := fun item isRecent same =>
      isUsed ((progress.keys key).mp (same ▸ List.mem_map_of_mem isRecent))
    have isOld := member.resolve_right fun isRecent => notRecent _ isRecent rfl
    have isLeft : (start.remaining pool.room (uses.map Prod.fst)).get key = some entry :=
      OrderedDict.mem_iff_get.mp isOld
    refine Or.inl ⟨recent, progress, isUsed, ?_, ?_⟩
    · show cache.items.filter _ = _
      rw [items, List.filter_append, filter_ne_eq_self notRecent]
    · simp only [expiryFor, isLeft, expired, Bool.false_eq_true, if_false]

theorem Alive.miss (alive : Alive pool start cache uses out) (missing : cache.get key = none) :
    Making pool start cache uses key now out := by
  obtain ⟨recent, progress, items⟩ := alive
  have noItem := OrderedDict.get_eq_none_iff.mp missing
  rw [items, List.map_append, List.mem_append, not_or] at noItem
  have isLeft : (start.remaining pool.room (uses.map Prod.fst)).get key = none :=
    OrderedDict.get_eq_none_iff.mpr noItem.1
  have notOld : ∀ item ∈ remaining pool.room start.items (uses.map Prod.fst), item.1 ≠ key :=
    fun item isOld same => noItem.1 (same ▸ List.mem_map_of_mem isOld)
  refine ⟨recent, progress, fun isUsed => noItem.2 ((progress.keys key).mpr isUsed), ?_, ?_⟩
  · rw [items, filter_ne_eq_self notOld]
  · simp only [expiryFor, isLeft]

theorem Making.items_setLast (entry : Entry Time) {recent : List (Key × Entry Time)}
    (progress : Recent pool start uses out recent) (fresh : key ∉ uses.map Prod.fst)
    {old : List (Key × Entry Time)} (notOld : ∀ item ∈ old, item.1 ≠ key)
    (items : cache.items = old ++ recent) :
    (cache.setLast key entry).items = old ++ (recent ++ [(key, entry)]) := by
  have notRecent : ∀ item ∈ recent, item.1 ≠ key := fun item isRecent same =>
    fresh ((progress.keys key).mp (same ▸ List.mem_map_of_mem isRecent))
  show cache.items.filter _ ++ [(key, entry)] = _
  rw [items, List.filter_append, filter_ne_eq_self notOld, filter_ne_eq_self notRecent,
    List.append_assoc]

/-- The new server is inserted, and there is room for it. -/
theorem Making.insert (making : Making pool start cache uses key now out) (server : Nat)
    (fits : (cache.setLast key ⟨server, pool.expiry now⟩).length ≤ pool.room) :
    Alive pool start (cache.setLast key ⟨server, pool.expiry now⟩) (uses ++ [(key, now)])
      (out ++ [server]) := by
  obtain ⟨recent, progress, fresh, items, expiry⟩ := making
  have inserted := Making.items_setLast ⟨server, pool.expiry now⟩ progress fresh
    (fun item isOld => of_decide_eq_true (List.mem_filter.mp isOld).2) items
  rw [OrderedDict.length, inserted, List.length_append, List.length_append, List.length_singleton,
    progress.length] at fits
  refine ⟨_, progress.use ⟨server, pool.expiry now⟩ fresh (by omega) expiry, ?_⟩
  rw [inserted, List.map_append, List.map_singleton,
    remaining_use start.distinct fresh (by omega) rfl, if_neg (by omega)]

/-- The new server is inserted, and the one at the front has to leave: it is an old one, or it was
collected by this call. -/
theorem Making.evict (making : Making pool start cache uses key now out) (server : Nat)
    (atLeastOne : 1 ≤ pool.room)
    (full : pool.room < (cache.setLast key ⟨server, pool.expiry now⟩).length) :
    ∃ oldest rest, (cache.setLast key ⟨server, pool.expiry now⟩).popFirst = some (oldest, rest) ∧
      (Alive pool start rest (uses ++ [(key, now)]) (out ++ [server]) ∨
        ¬ KeepsServers pool start (uses ++ [(key, now)]) ∧ oldest.2.server ∈ out) := by
  obtain ⟨recent, progress, fresh, items, expiry⟩ := making
  have inserted := Making.items_setLast ⟨server, pool.expiry now⟩ progress fresh
    (fun item isOld => of_decide_eq_true (List.mem_filter.mp isOld).2) items
  obtain ⟨oldest, rest, popped⟩ := (cache.setLast key ⟨server, pool.expiry now⟩).exists_popFirst
    (by
      rw [inserted, ← List.append_assoc]
      exact List.append_ne_nil_of_right_ne_nil _ (List.cons_ne_nil _ _))
  refine ⟨oldest, rest, popped, ?_⟩
  have parts := OrderedDict.items_of_popFirst popped
  rw [inserted] at parts
  rw [OrderedDict.length, inserted, List.length_append, List.length_append, List.length_singleton,
    progress.length] at full
  have room := length_remaining pool.room start.items (uses.map Prod.fst)
  by_cases fits : (uses.map Prod.fst).toFinset.card + 1 ≤ pool.room
  · left
    refine ⟨_, progress.use ⟨server, pool.expiry now⟩ fresh fits expiry, ?_⟩
    rw [List.map_append, List.map_singleton, remaining_use start.distinct fresh fits rfl,
      if_pos (by omega)]
    cases isOld : (remaining pool.room start.items (uses.map Prod.fst)).filter
        (fun item => decide (item.1 ≠ key)) with
    | nil =>
      rw [isOld, List.length_nil] at full
      omega
    | cons first old =>
      rw [isOld] at parts
      exact (List.cons.inj parts).2.symm
  · right
    constructor
    · intro keeps
      have all := keeps.fits
      rw [List.map_append, List.map_singleton, card_concat fresh] at all
      omega
    · have noneLeft : remaining pool.room start.items (uses.map Prod.fst) = [] :=
        List.eq_nil_of_length_eq_zero (by omega)
      rw [noneLeft] at parts
      cases isRecent : recent with
      | nil =>
        have none := progress.length
        rw [isRecent, List.length_nil] at none
        omega
      | cons first others =>
        rw [isRecent] at parts
        have isFirst : first = oldest := (List.cons.inj parts).1
        rw [← isFirst]
        exact progress.server_mem (isRecent ▸ List.mem_cons_self)

end Cache

/-! ### The steps of the call -/

/-- The call that takes the step. -/
def Event.task? : Event Time → Option Nat
  | .look task _ | .take task | .build task _ _ | .cleaned task => some task
  | .acquire .. | .invalidate .. | .shutdown => none

/-- The readings of the clock in a step. -/
def Event.readings : Event Time → List Time
  | .look _ now => [now]
  | .acquire .. | .invalidate .. | .shutdown | .take _ | .build .. | .cleaned _ => []

/-- The servers that were collected were built for the keys. -/
def Collected (servers : List Server) (uses : List (Key × Time)) (out : List Nat) : Prop :=
  List.Forall₂ (fun use server => BuiltFor servers use.1 server) uses out

/-- A server that was collected is cleaned up, or it is about to be. -/
structure Doomed (pool : Pool Time) (start : OrderedDict Key (Entry Time)) (cleaned : List Nat)
    (uses : List (Key × Time)) (out dropping : List Nat) : Prop where
  broken : ¬ KeepsServers pool start uses
  dead : ∃ server ∈ out, server ∈ cleaned ∨ server ∈ dropping

/-- The keys of the entries that are still to come. -/
def Acquire.pending (acquire : Acquire) : List Key :=
  acquire.entries.map (cacheKey acquire.userId)

section Standing

variable (pool : Pool Time) (start : OrderedDict Key (Entry Time)) (keys : List Key)

/-- Either all servers that were collected are in the cache, or one of them is cleaned up. -/
def Fate (state : State Time) (uses : List (Key × Time)) (out : List Nat) : Prop :=
  Alive pool start state.cache uses out ∨ Doomed pool start state.cleaned uses out []

/-- Where a call stands that was made for the keys, after its uses. -/
def Standing (state : State Time) (uses : List (Key × Time)) : Call Time → Prop
  | .next acquire entry =>
    keys = uses.map Prod.fst ++ cacheKey acquire.userId entry :: acquire.pending ∧
      Collected state.servers uses acquire.out ∧ Fate pool start state uses acquire.out
  | .lookUp acquire entry now =>
    ∃ before, uses = before ++ [(cacheKey acquire.userId entry, now)] ∧
      keys = uses.map Prod.fst ++ acquire.pending ∧
      Collected state.servers before acquire.out ∧ Fate pool start state before acquire.out
  | .dropStale acquire entry now stale =>
    ∃ before, uses = before ++ [(cacheKey acquire.userId entry, now)] ∧
      keys = uses.map Prod.fst ++ acquire.pending ∧
      Collected state.servers before acquire.out ∧
      (Making pool start state.cache before (cacheKey acquire.userId entry) now acquire.out ∨
        Doomed pool start state.cleaned uses acquire.out [stale])
  | .build acquire entry now =>
    ∃ before, uses = before ++ [(cacheKey acquire.userId entry, now)] ∧
      keys = uses.map Prod.fst ++ acquire.pending ∧
      Collected state.servers before acquire.out ∧
      (Making pool start state.cache before (cacheKey acquire.userId entry) now acquire.out ∨
        Doomed pool start state.cleaned uses acquire.out [])
  | .insert acquire entry now server =>
    ∃ before, uses = before ++ [(cacheKey acquire.userId entry, now)] ∧
      keys = uses.map Prod.fst ++ acquire.pending ∧
      Collected state.servers before acquire.out ∧
      BuiltFor state.servers (cacheKey acquire.userId entry) server ∧
      (Making pool start state.cache before (cacheKey acquire.userId entry) now acquire.out ∨
        Doomed pool start state.cleaned uses acquire.out [])
  | .evict acquire server victim =>
    keys = uses.map Prod.fst ++ acquire.pending ∧
      Collected state.servers uses (acquire.out ++ [server]) ∧
      (Alive pool start state.cache uses (acquire.out ++ [server]) ∨
        Doomed pool start state.cleaned uses acquire.out [victim])
  | .returned acquire =>
    keys = uses.map Prod.fst ∧ Collected state.servers uses acquire.out ∧
      Fate pool start state uses acquire.out
  | .raised => True
  | .invalidate .. | .invalidated .. | .shutdown | .closed _ => False

variable {pool start keys} {state next : State Time} {uses before : List (Key × Time)} {task : Nat}
  {acquire : Acquire} {entry : ResolvedMcpServer} {now : Time} {server : Nat}
  {out dropping : List Nat}

theorem Collected.concat {servers : List Server} (collected : Collected servers before out)
    {key : Key} (built : BuiltFor servers key server) :
    Collected servers (before ++ [(key, now)]) (out ++ [server]) :=
  List.rel_append collected (List.Forall₂.cons built .nil)

theorem Collected.append {servers : List Server} (collected : Collected servers uses out)
    (new : Server) : Collected (servers ++ [new]) uses out :=
  List.Forall₂.imp (fun _ _ built => built.append new) collected

theorem Doomed.grow {cleaned : List Nat} (doomed : Doomed pool start cleaned uses out dropping)
    (key : Key) (now : Time) : Doomed pool start cleaned (uses ++ [(key, now)]) out dropping :=
  ⟨fun keeps => doomed.broken (keeps.of_prefix (List.prefix_append _ _)), doomed.dead⟩

theorem Doomed.collect {cleaned : List Nat} (doomed : Doomed pool start cleaned uses out dropping)
    (server : Nat) : Doomed pool start cleaned uses (out ++ [server]) dropping := by
  obtain ⟨dead, isOut, isDead⟩ := doomed.dead
  exact ⟨doomed.broken, dead, List.mem_append_left _ isOut, isDead⟩

/-- The cleanup that was awaited has ended. -/
theorem Doomed.cleanUp {cleaned : List Nat} (doomed : Doomed pool start cleaned uses out [server]) :
    Doomed pool start (cleaned ++ [server]) uses out [] := by
  obtain ⟨dead, isOut, isDead⟩ := doomed.dead
  exact ⟨doomed.broken, dead, isOut, Or.inl (List.mem_append.mpr isDead)⟩

theorem Doomed.weaken {cleaned : List Nat} (doomed : Doomed pool start cleaned uses out [])
    (dropping : List Nat) : Doomed pool start cleaned uses out dropping := by
  obtain ⟨dead, isOut, isDead⟩ := doomed.dead
  exact ⟨doomed.broken, dead, isOut, isDead.imp_right fun none => absurd none List.not_mem_nil⟩

theorem Standing.proceed (acquire : Acquire) (isKeys : keys = uses.map Prod.fst ++ acquire.pending)
    (collected : Collected state.servers uses acquire.out)
    (fate : Fate pool start state uses acquire.out) :
    Standing pool start keys state uses acquire.proceed := by
  unfold Acquire.proceed
  split
  · next none =>
    rw [Acquire.pending, none, List.map_nil, List.append_nil] at isKeys
    exact ⟨isKeys, collected, fate⟩
  · next entry rest isEntries =>
    rw [Acquire.pending, isEntries] at isKeys
    exact ⟨isKeys, collected, fate⟩

/-- The call stands at its new place. -/
def StandsNext (pool : Pool Time) (start : OrderedDict Key (Entry Time)) (keys : List Key)
    (state : State Time) (uses : List (Key × Time)) (task : Nat) : Prop :=
  ∃ call, state.calls[task]? = some call ∧ Standing pool start keys state uses call

theorem standsNext_put {call : Call Time} (inBounds : task < state.calls.length)
    (standing : Standing pool start keys state uses call) :
    StandsNext pool start keys (state.put task call) uses task := by
  refine ⟨call, List.getElem?_set_self inBounds, ?_⟩
  cases call <;> exact standing

/-- Nothing more has to leave. -/
theorem standsNext_evictIfFull_alive (state : State Time) (inBounds : task < state.calls.length)
    (atLeastOne : 1 ≤ pool.maxEntries)
    (isKeys : keys = uses.map Prod.fst ++ acquire.pending)
    (collected : Collected state.servers uses (acquire.out ++ [server]))
    (alive : Alive pool start state.cache uses (acquire.out ++ [server])) :
    StandsNext pool start keys (pool.evictIfFull state task acquire server) uses task := by
  have fits := alive.length_le
  have notFull : ¬ (state.cache.length : Int) > pool.maxEntries := by
    unfold Pool.room at fits
    omega
  rw [Pool.evictIfFull, if_neg notFull]
  exact standsNext_put inBounds
    (Standing.proceed (acquire.collect server) isKeys collected (Or.inl alive))

/-- Whatever has to leave, a server that was collected is cleaned up. -/
theorem standsNext_evictIfFull_doomed (state : State Time) (inBounds : task < state.calls.length)
    (isKeys : keys = uses.map Prod.fst ++ acquire.pending)
    (collected : Collected state.servers uses (acquire.out ++ [server]))
    (doomed : Doomed pool start state.cleaned uses acquire.out []) :
    StandsNext pool start keys (pool.evictIfFull state task acquire server) uses task := by
  unfold Pool.evictIfFull
  split
  · split
    · exact standsNext_put inBounds ⟨isKeys, collected, Or.inr (doomed.weaken _)⟩
    · exact standsNext_put inBounds trivial
  · exact standsNext_put inBounds
      (Standing.proceed (acquire.collect server) isKeys collected
        (Or.inr (doomed.collect server)))

theorem standsNext_lookUp (keyed : state.Keyed) (inBounds : task < state.calls.length)
    (standing : Standing pool start keys state uses (.lookUp acquire entry now)) :
    StandsNext pool start keys (pool.lookUp state task acquire entry now) uses task := by
  obtain ⟨before, rfl, isKeys, collected, fate⟩ := standing
  unfold Pool.lookUp
  dsimp only
  cases found : state.cache.get (cacheKey acquire.userId entry) with
  | none =>
    refine standsNext_put inBounds ⟨before, rfl, isKeys, collected, ?_⟩
    rcases fate with alive | doomed
    · exact Or.inl (alive.miss found)
    · exact Or.inr (doomed.grow _ _)
  | some existing =>
    have built := keyed.cached _ (OrderedDict.mem_iff_get.mpr found)
    dsimp only
    split
    · next fresh =>
      refine standsNext_put inBounds
        (Standing.proceed (acquire.collect existing.server) isKeys
          (collected.concat built) ?_)
      rcases fate with alive | doomed
      · exact Or.inl (alive.hit found fresh)
      · exact Or.inr ((doomed.grow _ _).collect _)
    · next expired =>
      refine standsNext_put inBounds ⟨before, rfl, isKeys, collected, ?_⟩
      rcases fate with alive | doomed
      · refine (alive.stale found expired).imp_right fun ⟨broken, isOut⟩ => ?_
        exact ⟨broken, existing.server, isOut, Or.inr (List.mem_singleton_self _)⟩
      · exact Or.inr ((doomed.grow _ _).weaken _)

theorem standsNext_insert (atLeastOne : 1 ≤ pool.maxEntries) (inBounds : task < state.calls.length)
    (standing : Standing pool start keys state uses (.insert acquire entry now server)) :
    StandsNext pool start keys (pool.insert state task acquire entry now server) uses task := by
  obtain ⟨before, rfl, isKeys, collected, built, making | doomed⟩ := standing
  · by_cases fits : (state.cache.setLast (cacheKey acquire.userId entry)
        ⟨server, pool.expiry now⟩).length ≤ pool.room
    · exact standsNext_evictIfFull_alive
        { state with
          cache := state.cache.setLast (cacheKey acquire.userId entry) ⟨server, pool.expiry now⟩ }
        inBounds atLeastOne isKeys (collected.concat built) (making.insert server fits)
    · have full : (state.cache.setLast (cacheKey acquire.userId entry)
          ⟨server, pool.expiry now⟩).length > pool.maxEntries := by
        unfold Pool.room at fits
        omega
      have oneFits : 1 ≤ pool.room := by
        unfold Pool.room
        omega
      obtain ⟨oldest, rest, popped, leaves⟩ := making.evict server oneFits (by omega)
      rw [Pool.insert, Pool.evictIfFull, if_pos full, popped]
      refine standsNext_put inBounds ⟨isKeys, collected.concat built, ?_⟩
      refine leaves.imp_right fun ⟨broken, isOut⟩ => ?_
      exact ⟨broken, oldest.2.server, isOut, Or.inr (List.mem_singleton_self _)⟩
  · exact standsNext_evictIfFull_doomed
      { state with
        cache := state.cache.setLast (cacheKey acquire.userId entry) ⟨server, pool.expiry now⟩ }
      inBounds isKeys (collected.concat built) doomed

end Standing

section Run

variable {pool : Pool Time} {start : OrderedDict Key (Entry Time)} {keys : List Key}
  {state next last : State Time} {uses : List (Key × Time)} {task : Nat} {event : Event Time}

/-- A cleanup that the call awaits has ended. -/
theorem standsNext_cleanedUp (atLeastOne : 1 ≤ pool.maxEntries) {call : Call Time}
    (inBounds : task < state.calls.length) (standing : Standing pool start keys state uses call)
    (taken : pool.cleanedUp state task call = some next) :
    StandsNext pool start keys next uses task := by
  cases call with
  | dropStale acquire entry now stale =>
    cases taken
    obtain ⟨before, isUses, isKeys, collected, fate⟩ := standing
    refine standsNext_put inBounds ⟨before, isUses, isKeys, collected, ?_⟩
    exact fate.imp_right Doomed.cleanUp
  | evict acquire server victim =>
    cases taken
    obtain ⟨isKeys, collected, alive | doomed⟩ := standing
    · exact standsNext_evictIfFull_alive
        { state with cleaned := state.cleaned ++ [victim] } inBounds atLeastOne isKeys
        collected alive
    · exact standsNext_evictIfFull_doomed
        { state with cleaned := state.cleaned ++ [victim] } inBounds isKeys collected
        doomed.cleanUp
  | invalidated | closed => exact standing.elim
  | next | lookUp | build | insert | returned | raised | invalidate | shutdown => cases taken

/-- What one step of the call preserves. -/
theorem standsNext_step (atLeastOne : 1 ≤ pool.maxEntries) (keyed : state.Keyed)
    (stands : StandsNext pool start keys state uses task) (own : event.task? = some task)
    (taken : pool.step state event = some next) :
    ∃ after, StandsNext pool start keys next after task ∧
      after.map Prod.snd = uses.map Prod.snd ++ event.readings := by
  obtain ⟨call, isCall, standing⟩ := stands
  have inBounds := (List.getElem?_eq_some_iff.mp isCall).1
  cases event with
  | acquire | invalidate | shutdown => cases own
  | look other now =>
    cases own
    obtain ⟨acquire, entry, isNext, rfl⟩ := Pool.step_look taken
    cases isCall.symm.trans isNext
    obtain ⟨isKeys, collected, fate⟩ := standing
    refine ⟨uses ++ [(cacheKey acquire.userId entry, now)],
      standsNext_put inBounds ⟨uses, rfl, ?_, collected, fate⟩, List.map_append⟩
    rw [isKeys, List.map_append, List.append_assoc]
    rfl
  | take other =>
    cases own
    obtain ⟨_, same, isSame, runs⟩ := Pool.step_take taken
    cases isCall.symm.trans isSame
    refine ⟨uses, ?_, (List.append_nil _).symm⟩
    cases call with
    | lookUp acquire entry now =>
      cases runs
      exact standsNext_lookUp keyed inBounds standing
    | insert acquire entry now server =>
      cases runs
      exact standsNext_insert atLeastOne inBounds standing
    | invalidate | shutdown => exact standing.elim
    | next | dropStale | build | evict | returned | raised | invalidated | closed => cases runs
  | build other decrypt connects =>
    cases own
    refine ⟨uses, ?_, (List.append_nil _).symm⟩
    obtain ⟨acquire, entry, now, isBuild, ⟨params, _, rfl⟩ | rfl⟩ := Pool.step_build taken
    · cases isCall.symm.trans isBuild
      obtain ⟨before, isUses, isKeys, collected, fate⟩ := standing
      exact standsNext_put inBounds ⟨before, isUses, isKeys, collected.append _,
        ⟨_, List.getElem?_concat_length, rfl⟩, fate⟩
    · exact standsNext_put inBounds trivial
  | cleaned other =>
    cases own
    obtain ⟨same, isSame, ends⟩ := Pool.step_cleaned taken
    cases isCall.symm.trans isSame
    exact ⟨uses, standsNext_cleanedUp atLeastOne inBounds standing ends, (List.append_nil _).symm⟩

/-- What a run of the call's own steps preserves. -/
theorem standsNext_run (atLeastOne : 1 ≤ pool.maxEntries) {own : List (Event Time)}
    (keyed : state.Keyed) (stands : StandsNext pool start keys state uses task)
    (alone : ∀ event ∈ own, event.task? = some task)
    (run : Runs.exec pool.step state own = some last) :
    ∃ after, StandsNext pool start keys last after task ∧
      after.map Prod.snd = uses.map Prod.snd ++ own.flatMap Event.readings := by
  induction own generalizing state uses with
  | nil =>
    cases run
    exact ⟨uses, stands, (List.append_nil _).symm⟩
  | cons event rest inductionHypothesis =>
    obtain ⟨next, taken, run⟩ := Option.bind_eq_some_iff.mp run
    obtain ⟨isOwn, restOwn⟩ := List.forall_mem_cons.mp alone
    obtain ⟨between, stands, readings⟩ := standsNext_step atLeastOne keyed stands isOwn taken
    obtain ⟨after, stands, more⟩ :=
      inductionHypothesis (keyed_step keyed taken) stands restOwn run
    refine ⟨after, stands, ?_⟩
    rw [more, readings, List.append_assoc, List.flatMap_cons]

end Run

/-! ### The size of the cache -/

section Bounded

variable {pool : Pool Time} {state next last : State Time} {task : Nat}

/-- The call is about to take more entries out. -/
def Call.isEvicting : Call Time → Bool
  | .evict .. => true
  | _ => false

/-- The cache is within its bound, or a call is about to take more entries out. -/
def Bounded (pool : Pool Time) (state : State Time) : Prop :=
  state.cache.length ≤ pool.maxEntries ∨
    ∃ (task : Nat) (call : Call Time), state.calls[task]? = some call ∧ call.isEvicting = true

/-- A call that does not evict makes its step, and the cache does not grow. -/
theorem Bounded.frame {call new : Call Time} (bounded : Bounded pool state)
    (isCall : state.calls[task]? = some call) (notEvicting : call.isEvicting = false)
    (shrinks : next.cache.length ≤ state.cache.length)
    (isCalls : next.calls = state.calls.set task new) : Bounded pool next := by
  refine bounded.imp (fun fits => (Int.ofNat_le.mpr shrinks).trans fits) ?_
  rintro ⟨other, evicting, isOther, isEvicting⟩
  have differs : task ≠ other := by
    rintro rfl
    rw [isCall, Option.some.injEq] at isOther
    rw [isOther, isEvicting] at notEvicting
    cases notEvicting
  refine ⟨other, evicting, ?_, isEvicting⟩
  rw [isCalls, List.getElem?_set_ne differs]
  exact isOther

theorem Bounded.make (bounded : Bounded pool state) (sameCache : next.cache = state.cache)
    {call : Call Time} (isCalls : next.calls = state.calls ++ [call]) : Bounded pool next := by
  unfold Bounded
  rw [sameCache, isCalls]
  refine bounded.imp_right fun ⟨task, evicting, isCall, isEvicting⟩ => ?_
  have inBounds := (List.getElem?_eq_some_iff.mp isCall).1
  exact ⟨task, evicting, (List.getElem?_append_left inBounds).trans isCall, isEvicting⟩

theorem bounded_evictIfFull (state : State Time) (atLeastZero : 0 ≤ pool.maxEntries)
    (inBounds : task < state.calls.length) (acquire : Acquire) (server : Nat) :
    Bounded pool (pool.evictIfFull state task acquire server) := by
  unfold Pool.evictIfFull
  split
  · next full =>
    split
    · exact Or.inr ⟨task, .evict acquire server _, List.getElem?_set_self inBounds, rfl⟩
    · next none =>
      have nonempty : state.cache.items ≠ [] := by
        intro isEmpty
        rw [OrderedDict.length, isEmpty, List.length_nil] at full
        omega
      obtain ⟨first, rest, popped⟩ := OrderedDict.exists_popFirst nonempty
      cases none.symm.trans popped
  · next notFull =>
    left
    exact not_lt.mp notFull

theorem bounded_block (atLeastZero : 0 ≤ pool.maxEntries) (bounded : Bounded pool state)
    {call : Call Time} (isCall : state.calls[task]? = some call)
    (taken : pool.block state task call = some next) : Bounded pool next := by
  have inBounds := (List.getElem?_eq_some_iff.mp isCall).1
  cases call with
  | lookUp acquire entry now =>
    cases taken
    unfold Pool.lookUp
    dsimp only
    split
    · split
      · exact bounded.frame isCall rfl (state.cache.perm_moveToEnd _).length_eq.le rfl
      · exact bounded.frame isCall rfl (List.length_filter_le _ _) rfl
    · exact bounded.frame isCall rfl le_rfl rfl
  | insert acquire entry now server =>
    cases taken
    exact bounded_evictIfFull
      { state with
          cache := state.cache.setLast (cacheKey acquire.userId entry) ⟨server, pool.expiry now⟩ }
      atLeastZero inBounds acquire server
  | invalidate userId slug =>
    cases taken
    exact bounded.frame isCall rfl (List.length_filter_le _ _) rfl
  | shutdown =>
    cases taken
    exact bounded.frame isCall rfl (Nat.zero_le _) rfl
  | next | dropStale | build | evict | returned | raised | invalidated | closed => cases taken

theorem bounded_step (atLeastZero : 0 ≤ pool.maxEntries) {event : Event Time}
    (bounded : Bounded pool state) (taken : pool.step state event = some next) :
    Bounded pool next := by
  cases event with
  | acquire userId resolvedAt entries =>
    obtain ⟨_, rfl⟩ := Pool.step_acquire taken
    exact bounded.make rfl rfl
  | invalidate | shutdown =>
    cases taken
    exact bounded.make rfl rfl
  | look task now =>
    obtain ⟨acquire, entry, isCall, rfl⟩ := Pool.step_look taken
    exact bounded.frame isCall rfl le_rfl rfl
  | take task =>
    obtain ⟨_, call, isCall, runs⟩ := Pool.step_take taken
    exact bounded_block atLeastZero bounded isCall runs
  | build task decrypt connects =>
    obtain ⟨acquire, entry, now, isCall, ⟨params, _, rfl⟩ | rfl⟩ := Pool.step_build taken
    · exact bounded.frame isCall rfl le_rfl rfl
    · exact bounded.frame isCall rfl le_rfl rfl
  | cleaned task =>
    obtain ⟨call, isCall, ends⟩ := Pool.step_cleaned taken
    have inBounds := (List.getElem?_eq_some_iff.mp isCall).1
    cases call with
    | dropStale =>
      cases ends
      exact bounded.frame isCall rfl le_rfl rfl
    | evict acquire server victim =>
      cases ends
      exact bounded_evictIfFull { state with cleaned := state.cleaned ++ [victim] } atLeastZero
        inBounds acquire server
    | invalidated _ _ remaining _ | closed remaining =>
      cases remaining with
      | nil => cases ends
      | cons first rest =>
        cases ends
        exact bounded.frame isCall rfl le_rfl rfl
    | next | lookUp | build | insert | returned | raised | invalidate | shutdown => cases ends

/-- Without a call in progress, the cache is within its bound. -/
theorem length_le_of_quiet (atLeastZero : 0 ≤ pool.maxEntries) {events : List (Event Time)}
    (run : Runs.exec pool.step {} events = some last) (quiet : last.Quiet) :
    last.cache.length ≤ pool.maxEntries := by
  have initial : Bounded pool ({} : State Time) := Or.inl atLeastZero
  rcases Runs.exec_invariant pool.step (fun _ _ _ => bounded_step atLeastZero) initial run with
    fits | ⟨task, call, isCall, isEvicting⟩
  · exact fits
  · have finished := quiet call (List.mem_of_getElem? isCall)
    cases call with
    | evict => cases finished
    | next | lookUp | dropStale | build | insert | returned | raised | invalidate | invalidated
    | shutdown | closed => cases isEvicting

end Bounded

/-! ### What the call returns -/

/-- The keys of the entries with the readings of the clock. -/
def usesOf (userId : String) (entries : List ResolvedMcpServer) (own : List (Event Time)) :
    List (Key × Time) :=
  (entries.map (cacheKey userId)).zip (own.flatMap Event.readings)

section Returned

variable {pool : Pool Time} {state last : State Time} {before own : List (Event Time)}
  {userId : String} {resolvedAt : Nat} {entries : List ResolvedMcpServer} {acquire : Acquire}

theorem recent_nil (pool : Pool Time) (start : OrderedDict Key (Entry Time)) :
    Recent pool start [] [] [] where
  keeps := ⟨Nat.zero_le _, fun before key now isPrefix => by
    cases List.append_eq_nil_iff.mp (List.prefix_nil.mp isPrefix) |>.2⟩
  distinct := List.nodup_nil
  keys _ := Iff.rfl
  expiry _ member := absurd member List.not_mem_nil
  collected := .nil

/-- The call is made, while no other is in progress. -/
theorem standsNext_acquire (atLeastOne : 1 ≤ pool.maxEntries)
    (reached : Runs.exec pool.step {} before = some state) (quiet : state.Quiet)
    {made : State Time}
    (isMade : pool.step state (.acquire userId resolvedAt entries) = some made) :
    StandsNext pool state.cache (entries.map (cacheKey userId)) made [] state.calls.length := by
  obtain ⟨_, rfl⟩ := Pool.step_acquire isMade
  have size := length_le_of_quiet (by omega) reached quiet
  have fits : state.cache.items.length ≤ pool.room := by
    unfold Pool.room
    rw [OrderedDict.length] at size
    omega
  have alive : Alive pool state.cache state.cache [] [] :=
    ⟨[], recent_nil pool state.cache, by rw [List.map_nil, remaining_nil fits, List.append_nil]⟩
  exact ⟨_, List.getElem?_concat_length,
    Standing.proceed ⟨userId, resolvedAt, entries, []⟩ rfl .nil (Or.inl alive)⟩

theorem zip_of_maps {First Second : Type} (pairs : List (First × Second)) :
    (pairs.map Prod.fst).zip (pairs.map Prod.snd) = pairs := by
  induction pairs with
  | nil => rfl
  | cons pair pairs inductionHypothesis =>
    rw [List.map_cons, List.map_cons, List.zip_cons_cons, inductionHypothesis]

/-- A server in the cache has not been cleaned up. -/
theorem not_cleaned_of_cached {lost : List Nat} (accounted : Accounted lost state)
    {item : Key × Entry Time} (cached : item ∈ state.cache.items) :
    item.2.server ∉ state.cleaned := by
  intro cleaned
  have one := accounted item.2.server
  have inCache : 0 < cacheCount state.cache item.2.server :=
    List.count_pos_iff.mpr (List.mem_map_of_mem cached)
  have inCleaned := List.count_pos_iff.mpr cleaned
  unfold State.count at one
  split at one <;> omega

/-- An `acquire` that no other call overlaps returns a server for each entry, in order; and none
of them has been cleaned up exactly if the keys fit and none expires between its uses. -/
theorem acquire_alive_iff (atLeastOne : 1 ≤ pool.maxEntries)
    (reached : Runs.exec pool.step {} before = some state) (quiet : state.Quiet)
    (alone : ∀ event ∈ own, event.task? = some state.calls.length)
    (run : Runs.exec pool.step state (.acquire userId resolvedAt entries :: own) = some last)
    (returned : last.calls[state.calls.length]? = some (.returned acquire)) :
    List.Forall₂ (fun entry server => BuiltFor last.servers (cacheKey userId entry) server) entries
        acquire.out ∧
      ((∀ server ∈ acquire.out, server ∉ last.cleaned) ↔
        KeepsServers pool state.cache (usesOf userId entries own)) := by
  obtain ⟨made, isMade, rest⟩ := Option.bind_eq_some_iff.mp run
  have stands := standsNext_acquire atLeastOne reached quiet isMade
  have keyed := keyed_step (keyed_run reached) isMade
  obtain ⟨uses, ⟨call, isCall, standing⟩, readings⟩ :=
    standsNext_run atLeastOne keyed stands alone rest
  cases isCall.symm.trans returned
  obtain ⟨isKeys, collected, fate⟩ := standing
  have isUses : usesOf userId entries own = uses := by
    rw [usesOf, isKeys, ← List.nil_append (own.flatMap _)]
    exact (congrArg _ readings.symm).trans (zip_of_maps uses)
  constructor
  · have byKey : List.Forall₂ (fun key server => BuiltFor last.servers key server)
        (entries.map (cacheKey userId)) acquire.out := by
      rw [isKeys]
      exact List.forall₂_map_left_iff.mpr collected
    exact List.forall₂_map_left_iff.mp byKey
  · rw [isUses]
    rcases fate with ⟨recent, progress, items⟩ | doomed
    · refine iff_of_true (fun server isOut => ?_) progress.keeps
      obtain ⟨use, _, expiresAt, isRecent⟩ := exists_of_mem_left progress.collected.flip isOut
      have cached : (use.1, Entry.mk server expiresAt) ∈ last.cache.items := by
        rw [items]
        exact List.mem_append_right _ isRecent
      have whole : Runs.exec pool.step {} (before ++ .acquire userId resolvedAt entries :: own) =
          some last := by
        rw [Runs.exec_append, reached]
        exact run
      have empty : Accounted [] ({} : State Time) := fun _ => rfl
      obtain ⟨lost, accounted, _⟩ := accounted_run pool empty whole
      exact not_cleaned_of_cached accounted cached
    · refine iff_of_false (fun allAlive => ?_) doomed.broken
      obtain ⟨dead, isOut, isCleaned | isNone⟩ := doomed.dead
      · exact allAlive dead isOut isCleaned
      · exact absurd isNone List.not_mem_nil

end Returned

/-- The steps of a turn whose servers are all built, at these readings of the clock. -/
def builtAt : List Nat → List (Event Nat)
  | [] => []
  | now :: rest =>
    [.look 0 now, .take 0, .build 0 (fun _ _ => none) true, .take 0] ++ builtAt rest

theorem task_of_mem_builtAt {readings : List Nat} {event : Event Nat}
    (member : event ∈ builtAt readings) : event.task? = some 0 := by
  induction readings with
  | nil => cases member
  | cons now rest inductionHypothesis =>
    rcases List.mem_append.mp member with own | later
    · simp only [List.mem_cons, List.not_mem_nil, or_false] at own
      rcases own with rfl | rfl | rfl | rfl <;> rfl
    · exact inductionHypothesis later

theorem lone_server_is_alive :
    ∃ last acquire,
      Runs.exec defaultPool.step {} (.acquire "u" 0 [docsServer] :: builtAt [0]) = some last ∧
        last.calls[0]? = some (.returned acquire) ∧ acquire.out = [0] ∧
          ∀ server ∈ acquire.out, server ∉ last.cleaned := by
  have keeps : KeepsServers defaultPool .empty (usesOf "u" [docsServer] (builtAt [0])) := by
    refine ⟨by decide, fun before key now isPrefix expiresAt isFirst => ?_⟩
    have short := isPrefix.length_le
    rw [List.length_append, List.length_singleton] at short
    have none : before = [] :=
      List.eq_nil_of_length_eq_zero (Nat.le_zero.mp (Nat.le_of_succ_le_succ short))
    rw [none] at isFirst
    cases isFirst
  refine ⟨_, _, rfl, rfl, rfl, ?_⟩
  have reached : Runs.exec defaultPool.step {} [] = some {} := rfl
  exact (acquire_alive_iff (by decide) reached (fun _ member => absurd member List.not_mem_nil)
    (fun _ => task_of_mem_builtAt)
    (show Runs.exec defaultPool.step {} (.acquire "u" 0 [docsServer] :: builtAt [0]) = some _
      from rfl) rfl).2.mpr keeps

/-! ### Two calls that return a server that is cleaned up -/

def wikiServer : ResolvedMcpServer := { docsServer with slug := "wiki", url := "https://wiki" }

/-- With room for one entry, the second server takes the place of the first. And an entry that
the configuration names twice expires between its two readings of the clock. -/
theorem returned_servers_are_cleaned_up :
    (∃ last acquire,
      Runs.exec { defaultPool with maxEntries := 1 }.step {}
          (.acquire "u" 0 [docsServer, wikiServer] :: builtAt [0, 0] ++ [.cleaned 0]) =
            some last ∧
        last.calls[0]? = some (.returned acquire) ∧ acquire.out = [0, 1] ∧ 0 ∈ last.cleaned) ∧
    ∃ last acquire,
      Runs.exec defaultPool.step {}
          (.acquire "u" 0 [docsServer, docsServer] :: builtAt [0] ++
            [.look 0 600, .take 0, .cleaned 0, .build 0 (fun _ _ => none) true, .take 0]) =
            some last ∧
        last.calls[0]? = some (.returned acquire) ∧ acquire.out = [0, 1] ∧ 0 ∈ last.cleaned :=
  ⟨⟨_, _, rfl, rfl, rfl, by decide⟩, ⟨_, _, rfl, rfl, rfl, by decide⟩⟩

end LiteHorse.Agent.McpPool
