/-
This file models how a request is authenticated: the bearer token of its header, the key of the
issuer that its signature is checked with, and the identity that the claims give.

The keys are cached for an hour in each process. `revoked_key_is_refused` says what that means for
a key that the issuer withdraws: a request that begins an hour later is not let in by it, however
requests and fetches overlap. Checking a signature is a parameter.
-/

import LiteHorse.Library.TtlCache
import LiteHorse.Python
import Mathlib.Algebra.Order.Ring.Rat
import Mathlib.Tactic.FinCases
import Mathlib.Tactic.NormNum

namespace LiteHorse.Web.Auth

open Python Runs TtlCache

/-! ### A token and its key -/

/-- A JSON Web Key: what the code reads of it, and the rest. -/
structure Jwk (Material : Type) where
  kid : Option String
  alg : Option String
  material : Material
  deriving DecidableEq

/-- The header of a token, not verified. -/
structure TokenHeader where
  kid : Option String
  alg : Option String

abbrev Claims := List (String × Json)

/-- The library that reads and verifies tokens. The error is the text of a `JOSEError`. -/
structure Jose (Material : Type) where
  getUnverifiedHeader : String → Except String TokenHeader
  decode : String → Jwk Material → List String → String → String → Except String Claims

structure Settings where
  jwtJwksUrl : String
  jwtAudience : String
  jwtIssuer : String

inductive AuthError where
  | unauthorized (message : String)
  | unavailable (message : String)

/-- `first or second`, for texts that may be missing. -/
def orText (first second : Option String) : Option String :=
  match first with
  | some text => if text = "" then second else some text
  | none => second

section Verify

variable {Material : Type} (jose : Jose Material) (settings : Settings)

def algorithm (key : Jwk Material) (header : TokenHeader) : String :=
  (orText (orText key.alg header.alg) (some "RS256")).getD ""

/-- What `verify_jwt` makes of a token with the keys of the issuer at hand. -/
def verifyJwt (keys : List (Jwk Material)) (token : String) : Except AuthError Claims := do
  let invalid := fun error => AuthError.unauthorized ("invalid JWT: " ++ error)
  let header ← (jose.getUnverifiedHeader token).mapError invalid
  match keys.find? fun key => key.kid = header.kid with
  | none => .error (.unauthorized "JWT signing key not found")
  | some key =>
    (jose.decode token key [algorithm key header] settings.jwtAudience settings.jwtIssuer).mapError
      invalid

/-- `str.lower`, where it is compared with ASCII. -/
def lower (text : String) : String := String.ofList (text.toList.map Char.toLower)

def bearerPrefix : String := "bearer "

/-- `_extract_bearer_token` -/
def extractBearerToken : Option String → Except AuthError String
  | none => .error (.unauthorized "missing bearer token")
  | some header =>
    if bearerPrefix.toList <+: (lower header).toList then
      .ok (strip (String.ofList (header.toList.drop bearerPrefix.length)))
    else .error (.unauthorized "missing bearer token")

inductive Role where
  | user
  | admin
  deriving DecidableEq

structure Identity where
  externalId : String
  role : Role

def roleOf (claims : Claims) : Role :=
  match getField claims "role" with
  | some (.str "admin") => .admin
  | _ => .user

/-- What `authenticate_request` takes from the claims. -/
def identityOf (claims : Claims) : Except AuthError Identity :=
  match getField claims "sub" with
  | some (.str sub) =>
    if sub = "" then .error (.unauthorized "missing sub claim")
    else .ok { externalId := sub, role := roleOf claims }
  | _ => .error (.unauthorized "missing sub claim")

/-- `authenticate_request` up to the user's row. The keys are the answer of `_get_jwks`. -/
def authenticate (jwks : Except String (List (Jwk Material))) (header : Option String) :
    Except AuthError Identity := do
  let token ← extractBearerToken header
  let keys ← jwks.mapError fun error => AuthError.unavailable ("JWKS fetch failed: " ++ error)
  let claims ← verifyJwt jose settings keys token
  identityOf claims

end Verify

section Accepted

variable {Material : Type} {jose : Jose Material} {settings : Settings}
  {keys : List (Jwk Material)} {token : String} {claims : Claims} {identity : Identity}

/-- The claims of a token that one of the keys verifies. -/
def VerifiedBy (jose : Jose Material) (settings : Settings) (key : Jwk Material)
    (token : String) (claims : Claims) : Prop :=
  ∃ header, jose.getUnverifiedHeader token = .ok header ∧ key.kid = header.kid ∧
    jose.decode token key [algorithm key header] settings.jwtAudience settings.jwtIssuer =
      .ok claims

theorem verifiedBy_of_verifyJwt (isOk : verifyJwt jose settings keys token = .ok claims) :
    ∃ key ∈ keys, VerifiedBy jose settings key token claims := by
  unfold verifyJwt at isOk
  obtain ⟨header, isHeader, isOk⟩ := bind_eq_ok_iff.mp isOk
  split at isOk
  next => cases isOk
  next key isKey =>
    have sameKid := List.find?_some isKey
    exact ⟨key, List.mem_of_find?_eq_some isKey, header, mapError_eq_ok_iff.mp isHeader,
      of_decide_eq_true sameKid, mapError_eq_ok_iff.mp isOk⟩

/-- A request that is let in has a token that a key of the issuer verifies, and the role that its
claims name. -/
theorem verifiedBy_of_authenticate {header : Option String}
    (isOk : authenticate jose settings (.ok keys) header = .ok identity) :
    ∃ key ∈ keys, ∃ token claims, extractBearerToken header = .ok token ∧
      VerifiedBy jose settings key token claims ∧ identityOf claims = .ok identity := by
  unfold authenticate at isOk
  obtain ⟨token, isToken, isOk⟩ := bind_eq_ok_iff.mp isOk
  obtain ⟨_, isKeys, isOk⟩ := bind_eq_ok_iff.mp isOk
  cases isKeys
  obtain ⟨claims, isVerified, isOk⟩ := bind_eq_ok_iff.mp isOk
  obtain ⟨key, member, verified⟩ := verifiedBy_of_verifyJwt isVerified
  exact ⟨key, member, token, claims, isToken, verified, isOk⟩

end Accepted

/-! ### The keys of the issuer -/

/-- `_JWKS_TTL_SECONDS` -/
def jwksTtlSeconds : ℚ := 3600

/-- `_get_jwks` in the requests of one process, by the URL. Its clock is `time.monotonic`. -/
abbrev JwksState (Id Material : Type) := State Id String (List (Jwk Material)) ℚ

abbrev JwksEvent (Id Material : Type) := Event Id String (List (Jwk Material)) ℚ

section Revocation

variable {Id Material : Type} [DecidableEq Id]

def jwksStep : JwksState Id Material → JwksEvent Id Material → Option (JwksState Id Material) :=
  step jwksTtlSeconds

/-- A request that begins an hour after a time, and is let in, has a token verified by another
key than the given one. -/
def RefusesKey (jose : Jose Material) (settings : Settings) (revoked : Jwk Material) (since : ℚ)
    (state : JwksState Id Material) : Prop :=
  ∀ id started keys header identity, state.phase id = .returned settings.jwtJwksUrl started keys →
    since + jwksTtlSeconds ≤ started → authenticate jose settings (.ok keys) header = .ok identity →
    ∃ key ∈ keys, key ≠ revoked ∧ ∃ token claims, extractBearerToken header = .ok token ∧
      VerifiedBy jose settings key token claims ∧ identityOf claims = .ok identity

/-- The issuer does not list the key again. -/
def WithoutKey (settings : Settings) (revoked : Jwk Material) :
    JwksState Id Material → JwksEvent Id Material → Prop :=
  PublishesGood (fun keys => revoked ∈ keys) settings.jwtJwksUrl

/-- A key that the issuer has withdrawn lets nobody in who comes an hour later, whatever is cached
and whichever fetches are under way when it is withdrawn. -/
theorem revoked_key_is_refused (jose : Jose Material) (settings : Settings)
    (revoked : Jwk Material) (boot : ℚ) (issued : String → List (Jwk Material))
    (before after : List (JwksEvent Id Material)) (state : JwksState Id Material)
    (run : exec jwksStep (State.initial boot issued) before = some state)
    (withdrawn : revoked ∉ state.source settings.jwtJwksUrl)
    (meet : StepsMeet jwksStep (WithoutKey settings revoked) state after) :
    Always jwksStep (RefusesKey jose settings revoked state.now) state after := by
  have timely : Timely state :=
    exec_invariant jwksStep (fun _ _ _ timely taken => timely_step timely taken)
      (timely_initial boot issued) run
  have positive : (0 : ℚ) < jwksTtlSeconds := by
    unfold jwksTtlSeconds
    norm_num
  refine Always.mono jwksStep (fun reached forgets => ?_)
    (forgets_of_meet positive timely withdrawn meet)
  intro id started keys header identity isReturned late isOk
  obtain ⟨key, member, accepted⟩ := verifiedBy_of_authenticate isOk
  refine ⟨key, member, fun same => ?_, accepted⟩
  exact forgets id started keys isReturned late (same ▸ member)

end Revocation

/-! ### A key that is withdrawn -/

def localSettings : Settings where
  jwtJwksUrl := "https://issuer/keys"
  jwtAudience := "lite-horse"
  jwtIssuer := "https://issuer"

def oldKey : Jwk Nat := { kid := some "old", alg := some "RS256", material := 1 }

def newKey : Jwk Nat := { kid := some "new", alg := none, material := 2 }

/-- A token is the id of a key, and the key with that id verifies it. -/
def byKid : Jose Nat where
  getUnverifiedHeader := fun token => .ok { kid := some token, alg := none }
  decode := fun token key _ _ _ =>
    if key.kid = some token then .ok [("sub", .str "someone")] else .error "signature"

def onlyOld : String → List (Jwk Nat) := fun _ => [oldKey]

/-- The key is cached, and withdrawn while a request has the old keys on their way. -/
def rotation : List (JwksEvent Nat Nat) :=
  [.call 0 "https://issuer/keys", .serve 0, .call 1 "https://issuer/keys", .serve 1, .receive 0,
    .publish "https://issuer/keys" [newKey]]

/-- The old keys arrive, and two requests come, one of them an hour later. -/
def afterRotation : List (JwksEvent Nat Nat) :=
  [.receive 1, .wait 1800, .call 2 "https://issuer/keys", .wait 3600,
    .call 3 "https://issuer/keys", .serve 3, .receive 3]

example : (exec jwksStep (State.initial 0 onlyOld) (rotation ++ afterRotation)).map
    (fun state => [2, 3].map fun id =>
      match state.phase id with
      | .returned _ _ keys => keys
      | _ => []) = some [[oldKey], [newKey]] := by
  decide +kernel

theorem revoked_key_is_refused_rotation :
    ∃ state, exec jwksStep (State.initial 0 onlyOld) rotation = some state ∧
      Always jwksStep (RefusesKey byKid localSettings oldKey state.now) state afterRotation := by
  have withdrawn : oldKey ∉ [newKey] := by decide
  refine ⟨_, rfl, revoked_key_is_refused byKid localSettings oldKey 0 onlyOld rotation
    afterRotation _ rfl withdrawn ?_⟩
  refine stepsMeet_of_mem jwksStep (fun event member state => ?_) _
  fin_cases member <;> trivial

end LiteHorse.Web.Auth
