/-
`KeycloakTokenVerifier`: a token is checked with a key of the realm's JWKS, which are fetched and cached.

PyJWT and httpx are parameters, by what they return or raise. An exception is told apart by the `except` clauses that could
catch it. The verifier is run here by one call alone, `verify`; its parts are those of the interleaved calls of `KeyCache`.

Results:
- `identity_given`: an identity has an issuer and a subject;
- `covered_fetchKeys`, `covered_validate`: when a fetch and a validation raise nothing but `TokenVerificationError`;
- `verify_covered_iff`: exactly when a call does;
- `ecKey_escapes`: calls that raise something else.
-/
import AtlasRag.Lib.Effect
import AtlasRag.Platform.Value

namespace AtlasRag.Platform.Auth

open AtlasRag.Lib.Effect

/-! ## Exceptions -/

/-- what the libraries raise -/
inductive PyError where
  | invalidTokenError
  | invalidKeyError
  | typeError
  | valueError
  | httpError
  | invalidUrl
  | recursionError
deriving DecidableEq, Repr

inductive VerifyError where
  | tokenVerificationError (message : String)
  /-- one that nothing has caught -/
  | escaped (e : PyError)
deriving DecidableEq, Repr

/-- `try: x except classes: raise TokenVerificationError(message)` -/
def catching {α : Type} (classes : List PyError) (message : String) : Except PyError α → Except VerifyError α
  | .error e => .error (if e ∈ classes then .tokenVerificationError message else .escaped e)
  | .ok a => .ok a

/-! ## The libraries -/

/-- PyJWT, as a call finds it -/
structure Jwt (RsaKey : Type) where
  getUnverifiedHeader : Str → Except PyError Dict
  /-- `RSAAlgorithm.from_jwk(json.dumps(key))` -/
  fromJwk : Dict → Except PyError RsaKey
  /-- token, key, algorithms, audience, issuer, required claims -/
  decode : Str → RsaKey → List Str → Str → Str → List Str → Except PyError Dict

/-- an answer of the server -/
structure Response where
  status : ℕ
  /-- what `json()` makes of its body -/
  json : Except PyError Value

/-- what `get` returns or raises, in the two requests of a fetch -/
structure Server where
  discovery : Str → Except PyError Response
  jwks : Str → Except PyError Response

/-- what `_refresh_jwks` meets: the readings of the clock before the lock and under it, and the server -/
structure Round where
  before : ℚ
  locked : ℚ
  server : Server

/-! ## The verifier -/

/-- what `__init__` checks is part of the type -/
structure KeycloakTokenVerifier where
  issuerGiven : Str
  discoveryUrlGiven : Str
  audience : Str
  algorithms : List Str
  jwksCacheTtlSeconds : ℚ
  jwksRefreshCooldownSeconds : ℚ
  issuer_ne : issuerGiven ≠ []
  discoveryUrl_ne : discoveryUrlGiven ≠ []
  audience_ne : audience ≠ []
  algorithms_ne : algorithms ≠ []
  jwksCacheTtlSeconds_pos : 0 < jwksCacheTtlSeconds
  jwksRefreshCooldownSeconds_nonneg : 0 ≤ jwksRefreshCooldownSeconds

/-- the keys by their ids -/
abbrev Keys := List (Str × Dict)

/-- `keys[key_id] = key` -/
def Keys.set (keys : Keys) (keyId : Str) (key : Dict) : Keys :=
  if (keys.lookup keyId).isSome then keys.map fun e => if e.1 = keyId then (keyId, key) else e else keys ++ [(keyId, key)]

structure Cache where
  keys : Keys
  jwksExpiresAt : ℚ
  lastRefreshAt : ℚ

def Cache.init : Cache := ⟨[], 0, 0⟩

structure AuthenticatedIdentity where
  issuer : Str
  subject : Str
  email : Option Str
  emailVerified : Option Bool
  username : Option Str
  displayName : Option Str
deriving DecidableEq

namespace KeycloakTokenVerifier

variable {RsaKey : Type}

def issuer (v : KeycloakTokenVerifier) : Str := v.issuerGiven.rdropWhile (· = 0x2f)

def discoveryUrl (v : KeycloakTokenVerifier) : Str := v.discoveryUrlGiven.rdropWhile (· = 0x2f)

/-- the header of the token: its algorithm and key id -/
def readHeader (v : KeycloakTokenVerifier) (jwt : Jwt RsaKey) (token : Str) : Except VerifyError (Str × Str) := do
  let header ← catching [.invalidTokenError] "Malformed token header" (jwt.getUnverifiedHeader token)
  match header.get (str "alg") with
  | some (.str algorithm) =>
    if algorithm ∈ v.algorithms then
      match header.get (str "kid") with
      | some (.str keyId) =>
        if keyId ≠ [] then return (algorithm, keyId)
        else throw (.tokenVerificationError "Token does not contain a signing key id")
      | _ => throw (.tokenVerificationError "Token does not contain a signing key id")
    else throw (.tokenVerificationError "Token uses an unsupported signing algorithm")
  | _ => throw (.tokenVerificationError "Token uses an unsupported signing algorithm")

/-! ## Fetching keys -/

/-- `_get_json`, on what `get` returns or raises -/
def getJson (response : Except PyError Response) : Except VerifyError Dict := do
  let payload ← catching [.httpError, .valueError] "Keycloak metadata is unavailable" do
    let response ← response
    if 200 ≤ response.status ∧ response.status < 300 then response.json else throw .httpError
  match payload with
  | .dict d => return d
  | _ => throw (.tokenVerificationError "Keycloak metadata has an invalid format")

/-- the keys that are objects with an id -/
def usableKeys (rawKeys : List Value) : Keys :=
  rawKeys.foldl (fun keys rawKey =>
    match rawKey with
    | .dict key =>
      match Dict.get key (str "kid") with
      | some (.str keyId) => if keyId ≠ [] then keys.set keyId key else keys
      | _ => keys
    | _ => keys) []

/-- the part of `_refresh_jwks` that is under the lock, after its checks -/
def fetchKeys (v : KeycloakTokenVerifier) (server : Server) : Except VerifyError Keys := do
  let discovery ← getJson (server.discovery v.discoveryUrl)
  match discovery.get (str "jwks_uri") with
  | some (.str jwksUri) =>
    if jwksUri ≠ [] then
      let jwks ← getJson (server.jwks jwksUri)
      match jwks.get (str "keys") with
      | some (.list rawKeys) =>
        if usableKeys rawKeys ≠ [] then return usableKeys rawKeys
        else throw (.tokenVerificationError "Keycloak JWKS contains no usable keys")
      | _ => throw (.tokenVerificationError "Keycloak JWKS has an invalid key list")
    else throw (.tokenVerificationError "Keycloak discovery has no JWKS URI")
  | _ => throw (.tokenVerificationError "Keycloak discovery has no JWKS URI")

/-- `_refresh_jwks` returns at once: the cache is fresh, or was refreshed within the cooldown; zero counts as never -/
def Skips (v : KeycloakTokenVerifier) (cache : Cache) (force : Bool) (now : ℚ) : Prop :=
  (force = false ∧ cache.keys ≠ [] ∧ now < cache.jwksExpiresAt) ∨
    (force = true ∧ cache.lastRefreshAt ≠ 0 ∧ now - cache.lastRefreshAt < v.jwksRefreshCooldownSeconds)

instance (v : KeycloakTokenVerifier) (cache : Cache) (force : Bool) (now : ℚ) : Decidable (v.Skips cache force now) :=
  inferInstanceAs (Decidable (_ ∨ _))

/-- the cache after a fetch that started at `now` -/
def refreshed (v : KeycloakTokenVerifier) (keys : Keys) (now : ℚ) : Cache := ⟨keys, now + v.jwksCacheTtlSeconds, now⟩

/-! ## Checking the token -/

def identityFromClaims (claims : Dict) : Except VerifyError AuthenticatedIdentity :=
  match claims.get (str "iss") with
  | some (.str issuer) =>
    if issuer ≠ [] then
      match claims.get (str "sub") with
      | some (.str subject) =>
        if subject ≠ [] then
          .ok ⟨issuer, subject, (claims.get (str "email")).bind Value.str?, (claims.get (str "email_verified")).bind Value.bool?,
            (claims.get (str "preferred_username")).bind Value.str?, (claims.get (str "name")).bind Value.str?⟩
        else .error (.tokenVerificationError "Token has no subject")
      | _ => .error (.tokenVerificationError "Token has no subject")
    else .error (.tokenVerificationError "Token has no issuer")
  | _ => .error (.tokenVerificationError "Token has no issuer")

/-- `key.get("alg") in (None, algorithm)` -/
def Suits (key : Dict) (algorithm : Str) : Prop :=
  match key.get (str "alg") with
  | none => True
  | some .null => True
  | some (.str s) => s = algorithm
  | some _ => False

instance (key : Dict) (algorithm : Str) : Decidable (Suits key algorithm) := by
  unfold Suits
  split <;> infer_instance

/-- what follows when the key is found -/
def validate (v : KeycloakTokenVerifier) (jwt : Jwt RsaKey) (token algorithm : Str) (key : Dict) :
    Except VerifyError AuthenticatedIdentity := do
  if Suits key algorithm then
    let claims ← catching [.invalidTokenError, .typeError, .valueError] "Token validation failed" do
      let rsaKey ← jwt.fromJwk key
      jwt.decode token rsaKey v.algorithms v.audience v.issuer [str "exp", str "iss", str "sub"]
    identityFromClaims claims
  else throw (.tokenVerificationError "Token signing key algorithm does not match")

/-! ## One call -/

def ofExcept {α : Type} (x : Except VerifyError α) : Eff Cache VerifyError α := fun cache => (x, cache)

def refreshJwks (v : KeycloakTokenVerifier) (round : Round) (force : Bool) : Eff Cache VerifyError Unit := do
  let cache ← get
  if v.Skips cache force round.before then return
  else if v.Skips cache force round.locked then return
  else
    let keys ← ofExcept (v.fetchKeys round.server)
    modify fun _ => v.refreshed keys round.locked

/-- the keys are refreshed once more if the id is unknown -/
def keyForId (v : KeycloakTokenVerifier) (rounds : Bool → Round) (keyId : Str) : Eff Cache VerifyError (Option Dict) := do
  v.refreshJwks (rounds false) false
  let cache ← get
  match cache.keys.lookup keyId with
  | some key => return some key
  | none =>
    v.refreshJwks (rounds true) true
    let cache ← get
    return cache.keys.lookup keyId

def verify (v : KeycloakTokenVerifier) (jwt : Jwt RsaKey) (rounds : Bool → Round) (token : Str) :
    Eff Cache VerifyError AuthenticatedIdentity := do
  let (algorithm, keyId) ← ofExcept (v.readHeader jwt token)
  match ← v.keyForId rounds keyId with
  | some key => ofExcept (v.validate jwt token algorithm key)
  | none => fail (.tokenVerificationError "Token signing key is not trusted")

/-! ## What escapes -/

end KeycloakTokenVerifier

/-- nothing is raised but `TokenVerificationError` -/
def Covered {α : Type} (x : Except VerifyError α) : Prop := ∀ e, x = .error e → ∃ message, e = .tokenVerificationError message

section

variable {α β S : Type}

theorem covered_ok (a : α) : Covered (.ok a : Except VerifyError α) := fun _ h => by cases h

theorem covered_error (message : String) : Covered (.error (.tokenVerificationError message) : Except VerifyError α) :=
  fun _ h => ⟨message, (Except.error.inj h).symm⟩

/-- what may be raised in a `try` block -/
theorem covered_catching {classes : List PyError} {message : String} {x : Except PyError α} :
    Covered (catching classes message x) ↔ ∀ e, x = .error e → e ∈ classes := by
  cases x with
  | ok a => exact iff_of_true (covered_ok a) (fun e h => by cases h)
  | error e =>
    rw [catching]
    split_ifs with he
    · refine iff_of_true (covered_error message) fun e' h => ?_
      rw [← Except.error.inj h]
      exact he
    · refine iff_of_false (fun h => ?_) fun h => he (h e rfl)
      obtain ⟨message, hmessage⟩ := h _ rfl
      cases hmessage

theorem covered_bind {x : Except VerifyError α} {f : α → Except VerifyError β} :
    Covered (x >>= f) ↔ Covered x ∧ ∀ a, x = .ok a → Covered (f a) := by
  cases x with
  | ok a =>
    refine ⟨fun h => ⟨covered_ok a, fun a' ha => ?_⟩, fun h => h.2 a rfl⟩
    rw [← Except.ok.inj ha]
    exact h
  | error e =>
    refine ⟨fun h => ⟨fun e' he => h e' ?_, fun a ha => (by cases ha)⟩, fun h e' he => h.1 e' ?_⟩
    · rw [Except.error.inj he]
      rfl
    · rw [← Except.error.inj he]

theorem covered_eff_bind {x : Eff S VerifyError α} {f : α → Eff S VerifyError β} {s : S} :
    Covered ((x >>= f) s).1 ↔ Covered (x s).1 ∧ ∀ a s', x s = (.ok a, s') → Covered (f a s').1 := by
  rcases hx : x s with ⟨e | a, s'⟩
  · rw [bind_error hx]
    refine ⟨fun h => ⟨fun e' he => h e' ?_, fun a s' ha => (by cases ha)⟩, fun h e' he => h.1 e' ?_⟩
    · exact congrArg Except.error (Except.error.inj he)
    · exact congrArg Except.error (Except.error.inj he)
  · rw [bind_ok hx]
    refine ⟨fun h => ⟨covered_ok a, fun a' s'' ha => ?_⟩, fun h => h.2 a s' rfl⟩
    obtain ⟨hok, rfl⟩ := Prod.mk.inj ha
    obtain rfl := Except.ok.inj hok
    exact h

end

namespace KeycloakTokenVerifier

variable {RsaKey : Type} {v : KeycloakTokenVerifier}

/-- an identity has an issuer and a subject -/
theorem identity_given {claims : Dict} {identity : AuthenticatedIdentity} (h : identityFromClaims claims = .ok identity) :
    identity.issuer ≠ [] ∧ identity.subject ≠ [] := by
  unfold identityFromClaims at h
  split at h
  · split_ifs at h with hissuer
    split at h
    · split_ifs at h with hsubject
      obtain rfl := Except.ok.inj h
      exact ⟨hissuer, hsubject⟩
    · cases h
  · cases h

theorem covered_identityFromClaims (claims : Dict) : Covered (identityFromClaims claims) := by
  unfold identityFromClaims
  split
  · split_ifs
    · split
      · split_ifs
        · exact covered_ok _
        · exact covered_error _
      · exact covered_error _
    · exact covered_error _
  · exact covered_error _

/-- the exceptions of `get` are caught, and those of reading the answer -/
def Readable : Except PyError Response → Prop
  | .error e => e = .httpError ∨ e = .valueError
  | .ok response => 200 ≤ response.status ∧ response.status < 300 →
    ∀ e, response.json = .error e → e = .httpError ∨ e = .valueError

theorem covered_getJson {response : Except PyError Response} : Covered (getJson response) ↔ Readable response := by
  have hdict : ∀ payload : Value, Covered (match payload with
      | .dict d => return d
      | _ => throw (.tokenVerificationError "Keycloak metadata has an invalid format") : Except VerifyError Dict) := by
    intro payload
    split
    · exact covered_ok _
    · exact covered_error _
  rw [getJson, covered_bind, covered_catching]
  refine (and_iff_left fun payload _ => hdict payload).trans ?_
  cases response with
  | error e =>
    rw [Readable]
    constructor
    · intro h
      simpa using h e rfl
    · intro h e' he
      obtain rfl := Except.error.inj he
      simpa using h
  | ok response =>
    show (∀ e, (if 200 ≤ response.status ∧ response.status < 300 then response.json else throw .httpError) = .error e →
      e ∈ [.httpError, .valueError]) ↔ _
    rw [Readable]
    by_cases hstatus : 200 ≤ response.status ∧ response.status < 300
    · rw [if_pos hstatus]
      simp only [hstatus, true_imp_iff, List.mem_cons, List.not_mem_nil, or_false, and_self]
    · rw [if_neg hstatus]
      refine iff_of_true (fun e he => ?_) fun h => absurd h hstatus
      rw [← Except.error.inj he]
      exact List.mem_cons_self

/-- the server can be asked: the URLs can be parsed, and what is read of the answers that have been asked for -/
def Answers (v : KeycloakTokenVerifier) (server : Server) : Prop :=
  Readable (server.discovery v.discoveryUrl) ∧
    ∀ discovery jwksUri, getJson (server.discovery v.discoveryUrl) = .ok discovery →
      discovery.get (str "jwks_uri") = some (.str jwksUri) → jwksUri ≠ [] → Readable (server.jwks jwksUri)

/-- A fetch raises nothing but `TokenVerificationError` iff the server answers as it should. -/
theorem covered_fetchKeys {server : Server} : Covered (v.fetchKeys server) ↔ v.Answers server := by
  rw [fetchKeys, covered_bind, covered_getJson, Answers]
  refine and_congr_right fun _ => ?_
  have hkeys : ∀ jwks : Dict, Covered (match jwks.get (str "keys") with
      | some (.list rawKeys) =>
        if usableKeys rawKeys ≠ [] then return usableKeys rawKeys
        else throw (.tokenVerificationError "Keycloak JWKS contains no usable keys")
      | _ => throw (.tokenVerificationError "Keycloak JWKS has an invalid key list") : Except VerifyError Keys) := by
    intro jwks
    split
    · split_ifs
      · exact covered_ok _
      · exact covered_error _
    · exact covered_error _
  constructor
  · intro h discovery jwksUri hdiscovery huri hne
    have hcovered := h discovery hdiscovery
    simp only [huri, if_pos hne] at hcovered
    exact covered_getJson.1 (covered_bind.1 hcovered).1
  · intro h discovery hdiscovery
    split
    · next jwksUri huri =>
      split_ifs with hne
      · exact covered_bind.2 ⟨covered_getJson.2 (h discovery jwksUri hdiscovery huri hne), fun jwks _ => hkeys jwks⟩
      · exact covered_error _
    · exact covered_error _

/-- **The validation**, where `decode` raises only what is caught -/
theorem covered_validate {jwt : Jwt RsaKey} {token algorithm : Str} {key : Dict}
    (hjwk : ∀ key e, jwt.fromJwk key = .error e → e = .invalidKeyError)
    (hdecode : ∀ token key algorithms audience issuer require e,
      jwt.decode token key algorithms audience issuer require = .error e → e = .invalidTokenError) :
    Covered (v.validate jwt token algorithm key) ↔ (Suits key algorithm → ∃ rsaKey, jwt.fromJwk key = .ok rsaKey) := by
  rw [validate]
  by_cases hsuits : Suits key algorithm
  · rw [if_pos hsuits, covered_bind, covered_catching]
    refine (and_iff_left fun claims _ => covered_identityFromClaims claims).trans ?_
    cases hkey : jwt.fromJwk key with
    | error e =>
      refine iff_of_false (fun h => ?_) fun h => ?_
      · have hmem := h e rfl
        rw [hjwk key e hkey] at hmem
        revert hmem
        decide
      · obtain ⟨rsaKey, hok⟩ := h hsuits
        cases hok
    | ok rsaKey =>
      refine iff_of_true (fun e he => ?_) fun _ => ⟨rsaKey, rfl⟩
      rw [hdecode _ _ _ _ _ _ e he]
      exact List.mem_cons_self
  · rw [if_neg hsuits]
    exact iff_of_true (covered_error _) fun h => absurd h hsuits

variable {jwt : Jwt RsaKey} {rounds : Bool → Round} {round : Round} {force : Bool} {cache : Cache} {token keyId : Str}

/-- the cache is neither fresh nor just refreshed, before the lock as under it -/
def Due (v : KeycloakTokenVerifier) (round : Round) (force : Bool) (cache : Cache) : Prop :=
  ¬ v.Skips cache force round.before ∧ ¬ v.Skips cache force round.locked

instance (round : Round) (force : Bool) (cache : Cache) : Decidable (v.Due round force cache) :=
  inferInstanceAs (Decidable (_ ∧ _))

/-- what a refresh that is due comes to -/
def fetchInto (v : KeycloakTokenVerifier) (round : Round) (cache : Cache) : Except VerifyError Unit × Cache :=
  match v.fetchKeys round.server with
  | .ok keys => (.ok (), v.refreshed keys round.locked)
  | .error e => (.error e, cache)

theorem refreshJwks_run : v.refreshJwks round force cache =
    if v.Due round force cache then v.fetchInto round cache else (.ok (), cache) := by
  rw [refreshJwks, bind_ok (get_run cache)]
  by_cases hbefore : v.Skips cache force round.before
  · rw [if_pos hbefore, if_neg fun h : v.Due round force cache => h.1 hbefore]
    rfl
  · by_cases hlocked : v.Skips cache force round.locked
    · rw [if_neg hbefore, if_pos hlocked, if_neg fun h : v.Due round force cache => h.2 hlocked]
      rfl
    · have hdue : v.Due round force cache := ⟨hbefore, hlocked⟩
      rw [if_neg hbefore, if_neg hlocked, if_pos hdue, fetchInto]
      cases v.fetchKeys round.server with
      | error e => rfl
      | ok keys => rfl

theorem covered_refreshJwks :
    Covered (v.refreshJwks round force cache).1 ↔ (v.Due round force cache → v.Answers round.server) := by
  rw [refreshJwks_run, ← covered_fetchKeys]
  split_ifs with hdue
  · refine Iff.trans ?_ ⟨fun h _ => h, fun h => h hdue⟩
    rw [fetchInto]
    cases v.fetchKeys round.server with
    | error e => exact ⟨fun h e' he => h e' (congrArg Except.error (Except.error.inj he)),
        fun h e' he => h e' (congrArg Except.error (Except.error.inj he))⟩
    | ok keys => exact iff_of_true (covered_ok ()) (covered_ok keys)
  · exact iff_of_true (covered_ok ()) fun h => absurd h hdue

theorem keyForId_error {e : VerifyError} {cache' : Cache}
    (h : v.refreshJwks (rounds false) false cache = (.error e, cache')) : v.keyForId rounds keyId cache = (.error e, cache') :=
  bind_error h

theorem keyForId_known {key : Dict} {cache' : Cache} (h : v.refreshJwks (rounds false) false cache = (.ok (), cache'))
    (hkey : cache'.keys.lookup keyId = some key) : v.keyForId rounds keyId cache = (.ok (some key), cache') := by
  rw [keyForId, bind_ok h, bind_ok (get_run cache')]
  simp only [hkey]
  rfl

theorem keyForId_unknown_error {e : VerifyError} {cache' cache'' : Cache}
    (h : v.refreshJwks (rounds false) false cache = (.ok (), cache')) (hkey : cache'.keys.lookup keyId = none)
    (h' : v.refreshJwks (rounds true) true cache' = (.error e, cache'')) :
    v.keyForId rounds keyId cache = (.error e, cache'') := by
  rw [keyForId, bind_ok h, bind_ok (get_run cache')]
  simp only [hkey]
  exact bind_error h'

theorem keyForId_unknown {cache' cache'' : Cache} (h : v.refreshJwks (rounds false) false cache = (.ok (), cache'))
    (hkey : cache'.keys.lookup keyId = none) (h' : v.refreshJwks (rounds true) true cache' = (.ok (), cache'')) :
    v.keyForId rounds keyId cache = (.ok (cache''.keys.lookup keyId), cache'') := by
  rw [keyForId, bind_ok h, bind_ok (get_run cache')]
  simp only [hkey]
  rw [bind_ok h', bind_ok (get_run cache'')]
  rfl

/-- Looking up a key raises nothing but `TokenVerificationError` iff the server does so in each refresh that is due. -/
theorem covered_keyForId : Covered (v.keyForId rounds keyId cache).1 ↔
    (v.Due (rounds false) false cache → v.Answers (rounds false).server) ∧
      ∀ cache', v.refreshJwks (rounds false) false cache = (.ok (), cache') → cache'.keys.lookup keyId = none →
        v.Due (rounds true) true cache' → v.Answers (rounds true).server := by
  rw [keyForId, covered_eff_bind, covered_refreshJwks]
  refine and_congr_right fun _ => ?_
  constructor
  · intro h cache' hcache' hnone
    have hcovered := h () cache' hcache'
    rw [bind_ok (get_run cache')] at hcovered
    simp only [hnone] at hcovered
    exact covered_refreshJwks.1 (covered_eff_bind.1 hcovered).1
  · intro h u cache' hcache'
    rw [bind_ok (get_run cache')]
    cases hnone : cache'.keys.lookup keyId with
    | some key => exact covered_ok _
    | none =>
      refine covered_eff_bind.2 ⟨covered_refreshJwks.2 (h cache' hcache' hnone), fun u cache'' _ => ?_⟩
      rw [bind_ok (get_run cache'')]
      exact covered_ok _

/-- the token's header can be parsed or is malformed, the servers that are asked answer, and the key that is found is an RSA
key -/
structure Sound (v : KeycloakTokenVerifier) (jwt : Jwt RsaKey) (rounds : Bool → Round) (cache : Cache) (token : Str) :
    Prop where
  header : ∀ e, jwt.getUnverifiedHeader token = .error e → e = .invalidTokenError
  expired : ∀ algorithm keyId, v.readHeader jwt token = .ok (algorithm, keyId) →
    v.Due (rounds false) false cache → v.Answers (rounds false).server
  unknown : ∀ algorithm keyId, v.readHeader jwt token = .ok (algorithm, keyId) →
    ∀ cache', v.refreshJwks (rounds false) false cache = (.ok (), cache') → cache'.keys.lookup keyId = none →
      v.Due (rounds true) true cache' → v.Answers (rounds true).server
  key : ∀ algorithm keyId, v.readHeader jwt token = .ok (algorithm, keyId) →
    ∀ key cache', v.keyForId rounds keyId cache = (.ok (some key), cache') → Suits key algorithm →
      ∃ rsaKey, jwt.fromJwk key = .ok rsaKey

theorem covered_readHeader : Covered (v.readHeader jwt token) ↔
    ∀ e, jwt.getUnverifiedHeader token = .error e → e = .invalidTokenError := by
  rw [readHeader, covered_bind, covered_catching]
  simp only [List.mem_singleton]
  refine and_iff_left fun header _ => ?_
  split
  · split_ifs
    · split
      · split_ifs
        · exact covered_ok _
        · exact covered_error _
      · exact covered_error _
    · exact covered_error _
  · exact covered_error _

theorem covered_verify
    (hjwk : ∀ key e, jwt.fromJwk key = .error e → e = .invalidKeyError)
    (hdecode : ∀ token key algorithms audience issuer require e,
      jwt.decode token key algorithms audience issuer require = .error e → e = .invalidTokenError) :
    Covered (v.verify jwt rounds token cache).1 ↔ v.Sound jwt rounds cache token := by
  rw [verify, covered_eff_bind]
  constructor
  · intro ⟨hheader, hrest⟩
    have hkey : ∀ algorithm keyId, v.readHeader jwt token = .ok (algorithm, keyId) →
        Covered (v.keyForId rounds keyId cache).1 ∧ _ := fun algorithm keyId hread =>
      covered_eff_bind.1 (hrest (algorithm, keyId) cache (by rw [ofExcept, hread]))
    refine ⟨covered_readHeader.1 hheader, ?_, ?_, ?_⟩
    · exact fun algorithm keyId hread => (covered_keyForId.1 (hkey algorithm keyId hread).1).1
    · exact fun algorithm keyId hread => (covered_keyForId.1 (hkey algorithm keyId hread).1).2
    · intro algorithm keyId hread key cache' hfound
      exact (covered_validate hjwk hdecode).1 ((hkey algorithm keyId hread).2 (some key) cache' hfound)
  · intro h
    refine ⟨covered_readHeader.2 h.header, fun ⟨algorithm, keyId⟩ cache' hrun => ?_⟩
    obtain ⟨hread, rfl⟩ := Prod.mk.inj hrun
    refine covered_eff_bind.2 ⟨covered_keyForId.2 ⟨h.expired algorithm keyId hread, h.unknown algorithm keyId hread⟩, ?_⟩
    intro found cache' hfound
    cases found with
    | none => exact covered_error _
    | some key => exact (covered_validate hjwk hdecode).2 (h.key algorithm keyId hread key cache' hfound)

theorem verify_malformed {e : VerifyError} (h : v.readHeader jwt token = .error e) :
    v.verify jwt rounds token cache = (.error e, cache) := bind_error (by rw [ofExcept, h])

theorem verify_error {algorithm : Str} {e : VerifyError} {cache' : Cache} (h : v.readHeader jwt token = .ok (algorithm, keyId))
    (hkey : v.keyForId rounds keyId cache = (.error e, cache')) : v.verify jwt rounds token cache = (.error e, cache') := by
  have hread : ofExcept (v.readHeader jwt token) cache = (.ok (algorithm, keyId), cache) := by rw [ofExcept, h]
  rw [verify, bind_ok hread]
  exact bind_error hkey

theorem verify_found {algorithm : Str} {key : Dict} {cache' : Cache} (h : v.readHeader jwt token = .ok (algorithm, keyId))
    (hkey : v.keyForId rounds keyId cache = (.ok (some key), cache')) :
    v.verify jwt rounds token cache = (v.validate jwt token algorithm key, cache') := by
  have hread : ofExcept (v.readHeader jwt token) cache = (.ok (algorithm, keyId), cache) := by rw [ofExcept, h]
  rw [verify, bind_ok hread]
  exact bind_ok hkey

theorem verify_untrusted {algorithm : Str} {cache' : Cache} (h : v.readHeader jwt token = .ok (algorithm, keyId))
    (hkey : v.keyForId rounds keyId cache = (.ok none, cache')) : v.verify jwt rounds token cache =
      (.error (.tokenVerificationError "Token signing key is not trusted"), cache') := by
  have hread : ofExcept (v.readHeader jwt token) cache = (.ok (algorithm, keyId), cache) := by rw [ofExcept, h]
  rw [verify, bind_ok hread]
  exact bind_ok hkey

/-- an identity with an issuer and a subject, or `TokenVerificationError` -/
def Proper (outcome : Except VerifyError AuthenticatedIdentity) : Prop :=
  (∃ identity, outcome = .ok identity ∧ identity.issuer ≠ [] ∧ identity.subject ≠ []) ∨
    ∃ message, outcome = .error (.tokenVerificationError message)

theorem validate_given {algorithm : Str} {key : Dict} {identity : AuthenticatedIdentity}
    (h : v.validate jwt token algorithm key = .ok identity) : identity.issuer ≠ [] ∧ identity.subject ≠ [] := by
  rw [validate] at h
  split_ifs at h
  obtain ⟨claims, -, hclaims⟩ := bind_eq_ok h
  exact identity_given hclaims

theorem verify_given {identity : AuthenticatedIdentity} (h : (v.verify jwt rounds token cache).1 = .ok identity) :
    identity.issuer ≠ [] ∧ identity.subject ≠ [] := by
  obtain ⟨⟨algorithm, keyId⟩, cache', -, hrest⟩ := eff_bind_eq_ok h
  obtain ⟨found, cache'', -, hfound⟩ := eff_bind_eq_ok hrest
  cases found with
  | none => cases hfound
  | some key => exact validate_given hfound

/-- **What `verify` raises.** Where PyJWT raises `InvalidKeyError` for a key and `InvalidTokenError` for a token, the call
returns an identity with an issuer and a subject, or raises `TokenVerificationError`, exactly if the header of the token can be
parsed or is malformed, the servers that are asked answer under URLs that can be parsed, and the key is an RSA key. -/
theorem verify_covered_iff (v : KeycloakTokenVerifier) (jwt : Jwt RsaKey) (rounds : Bool → Round) (cache : Cache) (token : Str)
    (hjwk : ∀ key e, jwt.fromJwk key = .error e → e = .invalidKeyError)
    (hdecode : ∀ token key algorithms audience issuer require e,
      jwt.decode token key algorithms audience issuer require = .error e → e = .invalidTokenError) :
    Proper (v.verify jwt rounds token cache).1 ↔ v.Sound jwt rounds cache token := by
  rw [← covered_verify hjwk hdecode]
  constructor
  · intro h e he
    rcases h with ⟨identity, hok, -⟩ | ⟨message, herror⟩
    · rw [hok] at he
      cases he
    · exact ⟨message, Except.error.inj (he.symm.trans herror)⟩
  · intro h
    cases houtcome : (v.verify jwt rounds token cache).1 with
    | ok identity => exact .inl ⟨identity, rfl, verify_given houtcome⟩
    | error e =>
      obtain ⟨message, rfl⟩ := h e houtcome
      exact .inr ⟨message, rfl⟩

end KeycloakTokenVerifier

/-! ## A realm -/

def realmVerifier : KeycloakTokenVerifier where
  issuerGiven := str "https://id.example/realms/atlas/"
  discoveryUrlGiven := str "https://id.example/realms/atlas/.well-known/openid-configuration"
  audience := str "atlasrag"
  algorithms := [str "RS256"]
  jwksCacheTtlSeconds := 3600
  jwksRefreshCooldownSeconds := 30
  issuer_ne := by decide
  discoveryUrl_ne := by decide
  audience_ne := by decide
  algorithms_ne := by decide
  jwksCacheTtlSeconds_pos := by decide
  jwksRefreshCooldownSeconds_nonneg := by decide

/-- a key is its modulus and its exponent; the token is signed with the key `keyId` -/
def realmJwt (keyId : Str) : Jwt (Str × Str) where
  getUnverifiedHeader _ := .ok [(str "alg", .str (str "RS256")), (str "kid", .str keyId)]
  fromJwk key :=
    match key.lookup (str "kty"), key.lookup (str "n"), key.lookup (str "e") with
    | some (.str kty), some (.str n), some (.str e) => if kty = str "RSA" then .ok (n, e) else .error .invalidKeyError
    | _, _, _ => .error .invalidKeyError
  decode _ _ _ _ issuer _ := .ok [(str "iss", .str issuer), (str "sub", .str (str "user-1"))]

def rsaKey (keyId : Str) : Dict :=
  [(str "kid", .str keyId), (str "kty", .str (str "RSA")), (str "n", .str (str "AQAB")), (str "e", .str (str "AQAB"))]

def ecKey (keyId : Str) : Dict := [(str "kid", .str keyId), (str "kty", .str (str "EC")), (str "crv", .str (str "P-256"))]

/-- a server with these keys; the port of `http://h:abc/` is no number, so this is not a URL -/
def realmServer (jwksUri : Str) (keys : List Dict) : Server where
  discovery _ := .ok ⟨200, .ok (.dict [(str "jwks_uri", .str jwksUri)])⟩
  jwks url := if url = str "http://h:abc/" then .error .invalidUrl else
    .ok ⟨200, .ok (.dict [(str "keys", .list (keys.map Value.dict))])⟩

theorem realmJwt_fromJwk (keyId : Str) (key : Dict) (e : PyError) (h : (realmJwt keyId).fromJwk key = .error e) :
    e = .invalidKeyError := by
  simp only [realmJwt] at h
  split at h
  · split_ifs at h
    exact (Except.error.inj h).symm
  · exact (Except.error.inj h).symm

theorem realmJwt_decode (keyId token : Str) (key : Str × Str) (algorithms : List Str) (audience issuer : Str)
    (require : List Str) (e : PyError) (h : (realmJwt keyId).decode token key algorithms audience issuer require = .error e) :
    e = .invalidTokenError := by
  cases h

/-- the clock stands still, and the server has these keys -/
def realmRounds (jwksUri : Str) (keys : List Dict) : Bool → Round := fun _ => ⟨100, 100, realmServer jwksUri keys⟩

/-- a token signed with the RSA key of the realm -/
theorem verify_covered_iff_realm : realmVerifier.Sound (realmJwt (str "k1"))
    (realmRounds (str "https://id.example/jwks") [rsaKey (str "k1")]) Cache.init (str "token") :=
  (KeycloakTokenVerifier.verify_covered_iff realmVerifier (realmJwt (str "k1"))
    (realmRounds (str "https://id.example/jwks") [rsaKey (str "k1")]) Cache.init (str "token") (realmJwt_fromJwk _)
    (realmJwt_decode _)).1 (.inl ⟨⟨str "https://id.example/realms/atlas", str "user-1", none, none, none, none⟩,
      by decide +kernel, by decide, by decide⟩)

/-- a key that is no RSA key, and a JWKS URI that cannot be parsed: what is raised is caught by nothing -/
theorem ecKey_escapes : ¬ (∀ (v : KeycloakTokenVerifier) (jwt : Jwt (Str × Str)) (rounds : Bool → Round) (cache : Cache)
      (token : Str), (∀ key e, jwt.fromJwk key = .error e → e = .invalidKeyError) →
      (∀ token key algorithms audience issuer require e,
        jwt.decode token key algorithms audience issuer require = .error e → e = .invalidTokenError) →
      KeycloakTokenVerifier.Proper (v.verify jwt rounds token cache).1) ∧
    (realmVerifier.verify (realmJwt (str "k1")) (realmRounds (str "https://id.example/jwks") [ecKey (str "k1")]) (str "token")
      Cache.init).1 = .error (.escaped .invalidKeyError) ∧
    (realmVerifier.verify (realmJwt (str "k1")) (realmRounds (str "http://h:abc/") []) (str "token") Cache.init).1 =
      .error (.escaped .invalidUrl) := by
  have hec : (realmVerifier.verify (realmJwt (str "k1")) (realmRounds (str "https://id.example/jwks") [ecKey (str "k1")])
      (str "token") Cache.init).1 = .error (.escaped .invalidKeyError) := by decide +kernel
  refine ⟨fun hall => ?_, hec, by decide +kernel⟩
  rcases hall realmVerifier (realmJwt (str "k1")) _ Cache.init (str "token") (realmJwt_fromJwk _) (realmJwt_decode _) with
    ⟨identity, hok, -⟩ | ⟨message, herror⟩
  · rw [hec] at hok
    cases hok
  · rw [hec] at herror
    cases herror

end AtlasRag.Platform.Auth
