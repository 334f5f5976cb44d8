/-
This file models the rate limit of turns: a counter in Redis for each user, agent and minute, which
a request counts up before it is let in.

Redis forgets a counter two minutes after it was last counted up, and the minute is told by the
clock of the process that asks. `turns_are_limited` says that nothing is forgotten too early as
long as no process is half a minute off: every request is answered by how many came before it in
its minute, and no sixty seconds let in more than twice the limit.
-/

import LiteHorse.Library.ExpiringCounters
import LiteHorse.Library.Runs
import Mathlib

namespace LiteHorse.Web.RateLimit

open ExpiringCounters Runs

/-! ### A request -/

def defaultTurnRatePerMin : Int := 60

def windowSeconds : Int := 60

/-- The minute of a moment. -/
def bucketOf (moment : ℚ) : Int := ⌊moment / windowSeconds⌋

/-- `_PREFIX` -/
def keyPrefix : String := "rate:turn:"

/-- The agent a key names, if any. -/
def namedAgent (agentId : Option String) : Option String := agentId.filter fun agent => agent ≠ ""

/-- `_key` -/
def rateKey (userId : String) (agentId : Option String) (moment : ℚ) : String :=
  match namedAgent agentId with
  | some agent => keyPrefix ++ userId ++ ":" ++ agent ++ ":" ++ (bucketOf moment).repr
  | none => keyPrefix ++ userId ++ ":" ++ (bucketOf moment).repr

def capOf (limitPerMin : Option Int) : Int := limitPerMin.getD defaultTurnRatePerMin

/-- What Redis keeps of a counter, in seconds: `WINDOW_SECONDS * 2`. -/
def counterLife : ℚ := windowSeconds * 2

abbrev Redis := ExpiringCounters.State String ℚ

structure Request where
  userId : String
  agentId : Option String
  limitPerMin : Option Int
  /-- `time.time()` in the process that asks. -/
  moment : ℚ

def Request.key (request : Request) : String :=
  rateKey request.userId request.agentId request.moment

/-- The user, the agent and the minute that a request counts for. -/
def Request.window (request : Request) : String × Option String × Int :=
  (request.userId, namedAgent request.agentId, bucketOf request.moment)

def Request.cap (request : Request) : Int := capOf request.limitPerMin

/-- A request with a limit that is not positive is let in and not counted. -/
def Request.counted (request : Request) : Bool := decide (0 < request.cap)

/-- `check_and_consume`; the pipeline is one transaction. -/
def checkAndConsume (redis : Option Redis) (request : Request) : Bool × Option Redis :=
  match redis with
  | none => (true, none)
  | some state =>
    if request.cap ≤ 0 then (true, some state)
    else
      let after := state.hit counterLife request.key
      (decide ((after.live request.key : Int) ≤ request.cap), some after)

/-! ### Requests one after the other -/

/-- A request that was answered, with the time by the clock of Redis. -/
structure Answered extends Request where
  time : ℚ
  allowed : Bool

structure State where
  redis : Redis
  /-- The requests that were answered so far. -/
  log : List Answered

inductive Event where
  | wait (later : ℚ)
  | request (request : Request)

def State.initial (now : ℚ) : State where
  redis := .initial now
  log := []

def State.answer (state : State) (request : Request) : State :=
  let (allowed, redis) := checkAndConsume (some state.redis) request
  { redis := redis.getD state.redis
    log := state.log ++ [{ request with time := state.redis.now, allowed := allowed }] }

def step (state : State) : Event → Option State
  | .wait later =>
    if state.redis.now ≤ later then some { state with redis := state.redis.wait later } else none
  | .request request => some (state.answer request)

/-- The clock of the process is at most half a minute off, and the ids have no colon. -/
structure InStep (now : ℚ) (request : Request) : Prop where
  notBehind : now ≤ request.moment + 30
  notAhead : request.moment ≤ now + 30
  plainUser : ':' ∉ request.userId.toList
  plainAgent : ∀ agent ∈ request.agentId, ':' ∉ agent.toList

def KeepsTime (state : State) : Event → Prop
  | .wait _ => True
  | .request request => InStep state.redis.now request

/-! ### What the limit promises -/

/-- The requests of a list that were counted for a user, an agent and a minute. -/
def countedIn (log : List Answered) (window : String × Option String × Int) : Nat :=
  log.countP fun answered => answered.counted && decide (answered.window = window)

/-- Of these, the requests that were let in. -/
def admittedIn (log : List Answered) (window : String × Option String × Int) : Nat :=
  log.countP fun answered =>
    answered.counted && answered.allowed && decide (answered.window = window)

/-- The counted requests that were let in, in the sixty seconds from a moment on. -/
def admittedSince (log : List Answered) (userId : String) (agent : Option String) (start : ℚ) :
    Nat :=
  log.countP fun answered => answered.counted && answered.allowed &&
    decide (answered.userId = userId ∧ namedAgent answered.agentId = agent ∧
      start ≤ answered.moment ∧ answered.moment < start + 60)

/-- A request is let in exactly if its limit is not positive or fewer requests than its limit came
before it for its user, its agent and its minute. -/
def Exact (log : List Answered) : Prop :=
  ∀ before answered, before ++ [answered] <+: log →
    (answered.allowed = true ↔
      answered.cap ≤ 0 ∨ (countedIn before answered.window : Int) < answered.cap)

structure RateLimited (log : List Answered) : Prop where
  exact : Exact log
  burst : ∀ (userId : String) (agent : Option String) (start : ℚ) (limit : Nat),
    (∀ answered ∈ log, answered.userId = userId → namedAgent answered.agentId = agent →
      answered.cap ≤ limit) →
    admittedSince log userId agent start ≤ 2 * limit

/-! ### The key -/

theorem colon_not_mem_repr (number : Int) : ':' ∉ number.repr.toList := by
  have ofNat : ∀ value : Nat, ':' ∉ value.repr.toList := by
    intro value member
    rw [Nat.toList_repr] at member
    have isDigit := Nat.isDigit_of_mem_toDigits (by decide) (by decide) member
    revert isDigit
    decide
  rw [Int.repr_eq_if]
  split
  next => exact ofNat _
  next =>
    rw [String.toList_append, List.mem_append, not_or]
    exact ⟨by decide, ofNat _⟩

theorem colon_unique {first second rest more : List Char} (plain : ':' ∉ first)
    (otherPlain : ':' ∉ second) (same : first ++ ':' :: rest = second ++ ':' :: more) :
    first = second ∧ rest = more := by
  induction first generalizing second with
  | nil =>
    cases second with
    | nil => exact ⟨rfl, (List.cons.inj same).2⟩
    | cons char second => exact absurd (List.cons.inj same).1 (List.ne_of_not_mem_cons otherPlain)
  | cons char first inductionHypothesis =>
    cases second with
    | nil => exact absurd (List.cons.inj same).1.symm (List.ne_of_not_mem_cons plain)
    | cons other second =>
      obtain ⟨rfl, sameRest⟩ := List.cons.inj same
      obtain ⟨rfl, sameTail⟩ := inductionHypothesis (List.not_mem_of_not_mem_cons plain)
        (List.not_mem_of_not_mem_cons otherPlain) sameRest
      exact ⟨rfl, sameTail⟩

/-- The part of a key after the user. -/
def agentPart (agent : Option String) (bucket : Int) : List Char :=
  match agent with
  | some agent => agent.toList ++ ':' :: bucket.repr.toList
  | none => bucket.repr.toList

theorem toList_rateKey (userId : String) (agentId : Option String) (moment : ℚ) :
    (rateKey userId agentId moment).toList =
      keyPrefix.toList ++ (userId.toList ++ ':' ::
        agentPart (namedAgent agentId) (bucketOf moment)) := by
  unfold rateKey agentPart
  cases namedAgent agentId with
  | none =>
    simp only [String.toList_append, List.append_assoc]
    rfl
  | some agent =>
    simp only [String.toList_append, List.append_assoc]
    rfl

theorem agentPart_injective {agent other : Option String} {bucket otherBucket : Int}
    (plain : ∀ name ∈ agent, ':' ∉ name.toList) (plainOther : ∀ name ∈ other, ':' ∉ name.toList)
    (same : agentPart agent bucket = agentPart other otherBucket) :
    agent = other ∧ bucket = otherBucket := by
  have colon : ∀ (name : String) (text : List Char), ':' ∈ name.toList ++ ':' :: text :=
    fun name text => List.mem_append_right _ List.mem_cons_self
  cases agent with
  | none =>
    cases other with
    | none => exact ⟨rfl, Int.repr_injective (String.toList_injective same)⟩
    | some otherName =>
      have noColon := colon_not_mem_repr bucket
      rw [show bucket.repr.toList = _ from same] at noColon
      exact absurd (colon otherName _) noColon
  | some name =>
    cases other with
    | none =>
      have noColon := colon_not_mem_repr otherBucket
      rw [← show _ = otherBucket.repr.toList from same] at noColon
      exact absurd (colon name _) noColon
    | some otherName =>
      obtain ⟨sameName, sameBucket⟩ := colon_unique (plain name rfl) (plainOther otherName rfl) same
      exact ⟨congrArg some (String.toList_injective sameName),
        Int.repr_injective (String.toList_injective sameBucket)⟩

theorem InStep.plainNamed {now : ℚ} {request : Request} (inStep : InStep now request) :
    ∀ name ∈ namedAgent request.agentId, ':' ∉ name.toList :=
  fun name isNamed => inStep.plainAgent name (Option.filter_eq_some_iff.mp isNamed).1

/-- Requests are counted by one key exactly if they are of one user, one agent and one minute. -/
theorem key_eq_iff {now before : ℚ} {request other : Request} (inStep : InStep now request)
    (otherInStep : InStep before other) :
    request.key = other.key ↔ request.window = other.window := by
  constructor
  · intro same
    have texts := congrArg String.toList same
    unfold Request.key at texts
    rw [toList_rateKey, toList_rateKey, List.append_cancel_left_eq] at texts
    obtain ⟨sameUser, samePart⟩ := colon_unique inStep.plainUser otherInStep.plainUser texts
    obtain ⟨sameAgent, sameBucket⟩ :=
      agentPart_injective inStep.plainNamed otherInStep.plainNamed samePart
    unfold Request.window
    rw [String.toList_injective sameUser, sameAgent, sameBucket]
  · intro same
    obtain ⟨sameUser, sameRest⟩ := Prod.mk.inj same
    obtain ⟨sameAgent, sameBucket⟩ := Prod.mk.inj sameRest
    unfold Request.key rateKey
    rw [sameUser, sameAgent, sameBucket]

/-- Moments of one minute are less than a minute apart. -/
theorem lt_of_bucket {moment later : ℚ} (same : bucketOf moment = bucketOf later) :
    moment < later + 60 := by
  have below : moment / windowSeconds < bucketOf moment + 1 := Int.lt_floor_add_one _
  have above : (bucketOf later : ℚ) ≤ later / windowSeconds := Int.floor_le _
  rw [same] at below
  unfold windowSeconds at below above
  push_cast at below above
  linarith

/-! ### The tally of the log -/

/-- What the counters were counted up for. -/
def tallyOf (log : List Answered) : List (String × ℚ) :=
  (log.filter fun answered => answered.counted).map fun answered => (answered.key, answered.time)

theorem mem_tallyOf {log : List Answered} {entry : String × ℚ} (member : entry ∈ tallyOf log) :
    ∃ answered ∈ log, entry = (answered.key, answered.time) := by
  obtain ⟨answered, inLog, rfl⟩ := List.mem_map.mp member
  exact ⟨answered, (List.mem_filter.mp inLog).1, rfl⟩

theorem tallyOf_concat_counted (log : List Answered) {answered : Answered}
    (counted : answered.counted = true) :
    tallyOf (log ++ [answered]) = tallyOf log ++ [(answered.key, answered.time)] := by
  unfold tallyOf
  rw [List.filter_append, List.filter_singleton, counted, List.map_append]
  rfl

theorem tallyOf_concat_free (log : List Answered) {answered : Answered}
    (free : answered.counted = false) : tallyOf (log ++ [answered]) = tallyOf log := by
  unfold tallyOf
  rw [List.filter_append, List.filter_singleton, free]
  exact congrArg _ (List.append_nil _)

/-- Everything in the log kept its time. -/
def Timed (log : List Answered) : Prop :=
  ∀ answered ∈ log, InStep answered.time answered.toRequest

theorem hits_tallyOf {log : List Answered} (timed : Timed log) {now : ℚ} {request : Request}
    (inStep : InStep now request) :
    hits (tallyOf log) request.key = countedIn log request.window := by
  unfold hits tallyOf countedIn
  rw [List.countP_map, List.countP_filter]
  refine List.countP_congr fun answered member => ?_
  have sameKey := key_eq_iff (timed answered member) inStep
  simp only [Function.comp_apply, Bool.and_eq_true, decide_eq_true_eq, sameKey]
  exact and_comm

/-- A counter that a request counts up is still there if it ever was: the earlier requests of its
minute were less than two minutes ago. -/
theorem remembers {state : State} (timed : Timed state.log) {request : Request}
    (inStep : InStep state.redis.now request) :
    Remembers counterLife state.redis (tallyOf state.log) request.key := by
  intro entry member sameKey
  obtain ⟨answered, inLog, rfl⟩ := mem_tallyOf member
  have before := timed answered inLog
  have sameWindow := (key_eq_iff before inStep).mp sameKey
  have sameBucket : bucketOf request.moment = bucketOf answered.moment :=
    (congrArg (fun window => window.2.2) sameWindow).symm
  have withinMinute := lt_of_bucket sameBucket
  have notBehind := inStep.notBehind
  have notAhead := before.notAhead
  show state.redis.now < answered.time + counterLife
  unfold counterLife windowSeconds
  push_cast
  linarith

/-! ### Every answer is exact -/

theorem exact_nil : Exact [] := by
  intro before answered isPrefix
  exact absurd (List.prefix_nil.mp isPrefix) (List.append_ne_nil_of_right_ne_nil _ (by simp))

theorem Exact.concat {log : List Answered} (exact : Exact log) {answered : Answered}
    (right : answered.allowed = true ↔
      answered.cap ≤ 0 ∨ (countedIn log answered.window : Int) < answered.cap) :
    Exact (log ++ [answered]) := by
  intro before other isPrefix
  rcases List.prefix_concat_iff.mp isPrefix with whole | earlier
  · obtain ⟨rfl, single⟩ := List.append_inj' whole rfl
    exact (List.cons.inj single).1 ▸ right
  · exact exact before other earlier

theorem checkAndConsume_free {redis : Redis} {request : Request} (free : request.cap ≤ 0) :
    checkAndConsume (some redis) request = (true, some redis) := if_pos free

theorem checkAndConsume_counted {redis : Redis} {request : Request} (counted : 0 < request.cap) :
    checkAndConsume (some redis) request =
      (decide ((redis.live request.key : Int) < request.cap),
        some (redis.hit counterLife request.key)) := by
  have positive : 0 < counterLife := by norm_num [counterLife, windowSeconds]
  refine (if_neg counted.not_ge).trans ?_
  rw [live_hit positive, Nat.cast_succ]
  rfl

theorem now_answer (state : State) (request : Request) :
    (state.answer request).redis.now = state.redis.now := by
  unfold State.answer
  rcases le_or_gt request.cap 0 with free | counted
  · rw [checkAndConsume_free free]
    rfl
  · rw [checkAndConsume_counted counted]
    rfl

structure Invariant (state : State) : Prop where
  tallied : Tally counterLife state.redis (tallyOf state.log)
  past : ∀ answered ∈ state.log, answered.time ≤ state.redis.now
  timed : Timed state.log
  exact : Exact state.log

theorem invariant_initial (now : ℚ) : Invariant (.initial now) where
  tallied := tally_initial now
  past _ member := absurd member List.not_mem_nil
  timed _ member := absurd member List.not_mem_nil
  exact := exact_nil

theorem forall_mem_concat {log : List Answered} {property : Answered → Prop} {answered : Answered}
    (before : ∀ other ∈ log, property other) (new : property answered) :
    ∀ other ∈ log ++ [answered], property other := by
  intro other member
  rcases List.mem_append.mp member with old | isNew
  · exact before other old
  · exact List.mem_singleton.mp isNew ▸ new

theorem Invariant.request {state : State} (invariant : Invariant state) {request : Request}
    (inStep : InStep state.redis.now request) : Invariant (state.answer request) := by
  unfold State.answer
  rcases le_or_gt request.cap 0 with free | counted
  · rw [checkAndConsume_free free]
    exact {
      tallied := by
        rw [tallyOf_concat_free _ (decide_eq_false free.not_gt)]
        exact invariant.tallied
      past := forall_mem_concat invariant.past le_rfl
      timed := forall_mem_concat invariant.timed inStep
      exact := invariant.exact.concat ⟨fun _ => Or.inl free, fun _ => rfl⟩ }
  · have remembered := remembers invariant.timed inStep
    have counter : state.redis.live request.key = countedIn state.log request.window :=
      (invariant.tallied.live_eq remembered).trans (hits_tallyOf invariant.timed inStep)
    rw [checkAndConsume_counted counted, counter]
    exact {
      tallied := by
        rw [tallyOf_concat_counted _ (decide_eq_true counted)]
        refine invariant.tallied.hit remembered fun entry member => ?_
        obtain ⟨answered, inLog, rfl⟩ := mem_tallyOf member
        exact invariant.past answered inLog
      past := forall_mem_concat invariant.past le_rfl
      timed := forall_mem_concat invariant.timed inStep
      exact := invariant.exact.concat
        (decide_eq_true_iff.trans (or_iff_right counted.not_ge).symm) }

theorem step_wait {state : State} {later : ℚ} (forward : state.redis.now ≤ later) :
    step state (.wait later) = some { state with redis := state.redis.wait later } :=
  if_pos forward

theorem Invariant.step {state next : State} {event : Event} (invariant : Invariant state)
    (keepsTime : KeepsTime state event) (taken : step state event = some next) :
    Invariant next := by
  cases event with
  | wait later =>
    obtain ⟨forward, isNext⟩ := Option.ite_none_right_eq_some.mp taken
    cases isNext
    exact {
      tallied := invariant.tallied.wait later
      past := fun answered member => (invariant.past answered member).trans forward
      timed := invariant.timed
      exact := invariant.exact }
  | request request =>
    cases taken
    exact invariant.request keepsTime

/-! ### Sixty seconds are in two minutes -/

theorem admittedIn_le_countedIn (log : List Answered) (window : String × Option String × Int) :
    admittedIn log window ≤ countedIn log window := by
  refine List.countP_mono_left fun answered _ admitted => ?_
  rw [Bool.and_eq_true, Bool.and_eq_true] at admitted
  rw [Bool.and_eq_true]
  exact ⟨admitted.1.1, admitted.2⟩

/-- No more requests than the highest limit are let in for a user, an agent and a minute. -/
theorem admittedIn_le {log : List Answered} {window : String × Option String × Int} {limit : Nat}
    (exact : Exact log) (capped : ∀ answered ∈ log, answered.window = window →
      answered.cap ≤ limit) : admittedIn log window ≤ limit := by
  induction log using List.reverseRecOn with
  | nil => exact Nat.zero_le _
  | append_singleton log answered inductionHypothesis =>
    have before : admittedIn log window ≤ limit :=
      inductionHypothesis
        (fun front other isPrefix => exact front other (isPrefix.trans (List.prefix_append ..)))
        (fun other member => capped other (List.mem_append_left _ member))
    unfold admittedIn
    rw [List.countP_append, List.countP_singleton]
    split
    next admitted =>
      simp only [Bool.and_eq_true, decide_eq_true_eq] at admitted
      obtain ⟨⟨counted, allowed⟩, isWindow⟩ := admitted
      have positive : 0 < answered.cap := of_decide_eq_true counted
      have room : (countedIn log answered.window : Int) < answered.cap :=
        ((exact log answered (List.prefix_refl _)).mp allowed).resolve_left positive.not_ge
      rw [isWindow] at room
      have capLe := capped answered (List.mem_append_right _ List.mem_cons_self) isWindow
      have fewer : admittedIn log window < limit := by
        have := admittedIn_le_countedIn log window
        omega
      exact fewer
    next => exact before

/-- Sixty seconds from a moment on are in its minute or in the next one. -/
theorem bucketOf_within {start moment : ℚ} (notBefore : start ≤ moment)
    (before : moment < start + 60) :
    bucketOf moment = bucketOf start ∨ bucketOf moment = bucketOf start + 1 := by
  have low : bucketOf start ≤ bucketOf moment := by
    refine Int.floor_mono ?_
    unfold windowSeconds
    push_cast
    linarith
  have high : bucketOf moment ≤ bucketOf start + 1 := by
    unfold bucketOf
    rw [← Int.floor_add_one]
    refine Int.floor_mono ?_
    unfold windowSeconds
    push_cast
    linarith
  omega

theorem countP_le_add {log : List Answered} {counted first second : Answered → Bool}
    (either : ∀ answered, counted answered = true →
      first answered = true ∨ second answered = true) :
    log.countP counted ≤ log.countP first + log.countP second := by
  induction log with
  | nil => exact Nat.zero_le _
  | cons answered rest inductionHypothesis =>
    rw [List.countP_cons, List.countP_cons, List.countP_cons]
    split
    next isCounted =>
      rcases either answered isCounted with isFirst | isSecond
      · rw [if_pos isFirst]
        omega
      · rw [if_pos isSecond]
        omega
    next => omega

theorem rateLimited_of_exact {log : List Answered} (exact : Exact log) : RateLimited log := by
  refine ⟨exact, fun userId agent start limit capped => ?_⟩
  have minute : ∀ bucket, admittedIn log (userId, agent, bucket) ≤ limit := by
    refine fun bucket => admittedIn_le exact fun answered member isWindow => ?_
    obtain ⟨isUser, rest⟩ := Prod.mk.inj isWindow
    exact capped answered member isUser (Prod.mk.inj rest).1
  have split : admittedSince log userId agent start ≤
      admittedIn log (userId, agent, bucketOf start) +
        admittedIn log (userId, agent, bucketOf start + 1) := by
    refine countP_le_add fun answered admitted => ?_
    simp only [Bool.and_eq_true, decide_eq_true_eq] at admitted ⊢
    obtain ⟨isAdmitted, isUser, isAgent, notBefore, before⟩ := admitted
    unfold Request.window
    rw [isUser, isAgent]
    rcases bucketOf_within notBefore before with isMinute | isNext
    · exact Or.inl ⟨isAdmitted, by rw [isMinute]⟩
    · exact Or.inr ⟨isAdmitted, by rw [isNext]⟩
  have first := minute (bucketOf start)
  have second := minute (bucketOf start + 1)
  omega

/-- As long as no process is half a minute off, every request is answered by how many came before
it in its minute, and no sixty seconds let in more than twice the limit. -/
theorem turns_are_limited (now : ℚ) (events : List Event)
    (keepsTime : StepsMeet step KeepsTime (.initial now) events) :
    Always step (fun state => RateLimited state.log) (.initial now) events :=
  (always_of_invariant step (fun _ _ _ invariant kept taken => invariant.step kept taken)
    (invariant_initial now) keepsTime).mono step fun _ invariant =>
      rateLimited_of_exact invariant.exact

/-- A user with a limit of one asks twice in the last seconds of a minute and once in the next. -/
theorem turns_are_limited_next_minute :
    let request : ℚ → Request := fun moment =>
      { userId := "u1", agentId := some "a1", limitPerMin := some 1, moment := moment }
    Always step (fun state => RateLimited state.log) (.initial 58)
      [.request (request 58), .request (request 59), .wait 61, .request (request 61)] := by
  intro request
  have inStep : ∀ state : State, ∀ moment now, state.redis.now = now → now ≤ moment + 30 →
      moment ≤ now + 30 → KeepsTime state (.request (request moment)) := by
    rintro state moment _ rfl notBehind notAhead
    have plain : ':' ∉ "u1".toList := by decide
    have plainAgent : ':' ∉ "a1".toList := by decide
    exact ⟨notBehind, notAhead, plain, fun agent isAgent => Option.some.inj isAgent ▸ plainAgent⟩
  refine turns_are_limited 58 _ ?_
  refine StepsMeet.cons step (inStep _ _ 58 rfl (by norm_num) (by norm_num)) rfl ?_
  refine StepsMeet.cons step (inStep _ _ 58 (now_answer ..) (by norm_num) (by norm_num)) rfl ?_
  have forward : (((State.initial 58).answer (request 58)).answer (request 59)).redis.now ≤ 61 := by
    rw [now_answer, now_answer]
    show (58 : ℚ) ≤ 61
    norm_num
  refine StepsMeet.cons step trivial (step_wait forward) ?_
  exact StepsMeet.cons step (inStep _ _ 61 rfl (by norm_num) (by norm_num)) rfl trivial

end LiteHorse.Web.RateLimit
