import SynaMcp.Access.Calls
import SynaMcp.Auth.Server

/-! The token endpoint under interleaving. A request is a flight through phases, each of
which ends where the handler calls a store; `EnsurePrincipal` and `ReadableStorageIDs`,
which touch no token and no grant, are one phase each. -/
namespace SynaMcp
open Keyed OAuthServer Function

structure CodeRequest where
  code : String
  redirectURI : String := ""
  clientID : String := ""
  codeVerifier : String := ""
  deriving DecidableEq, Repr

structure RefreshRequest where
  refreshToken : String
  clientID : String := ""
  deriving DecidableEq, Repr

inductive TokenRequest where
  | exchange (req : CodeRequest)
  | refresh (req : RefreshRequest)
  deriving DecidableEq, Repr

/-- What `mintTokens` is called with. -/
structure MintInput where
  principal : Principal
  clientID : String
  scope : String
  deriving DecidableEq, Repr

structure TokenResponse where
  accessToken : String
  refreshToken : String
  expiresIn : Int
  scope : String
  deriving DecidableEq, Repr

inductive Phase where
  | idle
  | consume
  | revoke (existing : RefreshToken)
  | lookup (existing : RefreshToken)
  | ensure (input : MintInput)
  | readable (input : MintInput) (personal : Storage)
  | create (input : MintInput) (storageIDs : List String)
  | save (input : MintInput) (token : AccessToken) (raw : String)
  | failed (status : Nat) (error description : String)
  | answered (response : TokenResponse)
  deriving DecidableEq

/-- The request of a flight, its phase and, once it has consumed its grant, the
authorization code at the start of the chain it carries on. -/
structure Flight where
  request : TokenRequest := .refresh { refreshToken := "" }
  phase : Phase := .idle
  origin : Option String := none

/-- The last three fields are history: the code that each refresh token descends from,
by its hash; the access tokens minted along each chain; and the strings drawn so far. -/
structure TokenServer extends AuthState where
  flights : Nat → Flight
  lineage : String → Option String
  minted : List (Option String × String)
  drawn : List String

inductive TokenEvent where
  | login (req : LoginRequest)
  | access (call : StoreCall)
  | arrive (i : Nat) (req : TokenRequest)
  | advance (i : Nat)

/-- `time.Hour` in nanoseconds. -/
def hour : Time := 3600 * second

namespace TokenServer

def start (access : Store) : TokenServer where
  access := access
  oauth := .empty
  flights _ := {}
  lineage _ := none
  minted := []
  drawn := []

def setFlight (σ : TokenServer) (i : Nat) (f : Flight) : TokenServer :=
  { σ with flights := update σ.flights i f }

section
variable {σ : TokenServer} {i j : Nat} {f : Flight}

@[simp] theorem setFlight_flights_self : (σ.setFlight i f).flights i = f := by simp [setFlight]

theorem setFlight_flights_of_ne (other : j ≠ i) : (σ.setFlight i f).flights j = σ.flights j := by
  simp [setFlight, update_of_ne other]

theorem setFlight_flights_all {P : Nat → Flight → Prop} (own : P i f)
    (others : ∀ j, j ≠ i → P j (σ.flights j)) (j : Nat) : P j ((σ.setFlight i f).flights j) := by
  by_cases same : j = i
  · subst same
    rw [setFlight_flights_self]
    exact own
  · rw [setFlight_flights_of_ne same]
    exact others j same

end

section
variable [Digests]

def hashOpaque (raw : String) : String := Digests.sha256Hex raw

def refreshPrincipal (s : Store) (existing : RefreshToken) : Principal :=
  match s.userBySubjectKey existing.subjectKey with
  | some user => loginPrincipal user
  | none => { subjectKey := existing.subjectKey, userID := existing.subjectKey, authSource := "oauth" }

def scopeStorageIDs (now : Time) (choose : Nat → Nat) (s : Store) (p : Principal) (personal : Storage) :
    List String :=
  let ids := GoMaps.range choose (readableStorageIDs now s p none [])
  if ids = [] then [personal.id] else ids

def oauthTokenInput (cfg : OAuthConfig) (now : Time) (input : MintInput) (ids : List String) :
    CreateTokenInput :=
  let mode := orElse .unset cfg.defaultTokenMode .readWrite
  { ownerSubjectKey := subjectKeyForPrincipal input.principal
    name := "oauth:mcp-client"
    mode := mode
    storageScopes := ids.map fun id => { storageID := id, maxMode := mode }
    expiresAt := some (now + cfg.accessTokenTTLHours * hour)
    createdBy := "oauth_as" }

def newRefreshToken (cfg : OAuthConfig) (env : AuthEnv) (input : MintInput) (token : AccessToken) :
    RefreshToken :=
  { tokenHash := hashOpaque env.random
    clientID := input.clientID
    subjectKey := subjectKeyForPrincipal input.principal
    accessTokenID := token.id
    expiresAt := env.now + cfg.refreshTokenTTLHours * hour }

def tokenResponse (env : AuthEnv) (input : MintInput) (token : AccessToken) (raw : String) : TokenResponse :=
  { accessToken := raw
    refreshToken := env.random
    expiresIn := ((token.expiresAt.getD env.now) - env.now).tdiv second
    scope := orElse "" input.scope "mcp" }

def afterExchange [GoLib] (req : CodeRequest) (code : AuthorizationCode) : Phase :=
  if code.clientID ≠ req.clientID then .failed 400 "invalid_grant" "client_id mismatch"
  else if code.redirectURI ≠ req.redirectURI then .failed 400 "invalid_grant" "redirect_uri mismatch"
  else if !verifyPKCES256 req.codeVerifier code.codeChallenge then
    .failed 400 "invalid_grant" "pkce verification failed"
  else .ensure { principal := code.principal, clientID := req.clientID, scope := code.scope }

/-- A client id that is sent with a refresh token must match. -/
def afterRotation (req : RefreshRequest) (existing : RefreshToken) : Phase :=
  if req.clientID ≠ "" ∧ existing.clientID ≠ req.clientID then .failed 400 "invalid_grant" "client_id mismatch"
  else .revoke existing

def consumeGrant [GoLib] (env : AuthEnv) (σ : TokenServer) (i : Nat) (f : Flight) : TokenServer :=
  match f.request with
  | .exchange req =>
    match σ.oauth.consumeAuthorizationCode env.toEnv req.code with
    | .error e => σ.setFlight i { f with phase := .failed 400 "invalid_grant" e }
    | .ok (oauth, code) =>
      { σ with oauth := oauth }.setFlight i { f with origin := some req.code, phase := afterExchange req code }
  | .refresh req =>
    match σ.oauth.consumeRefreshToken env.toEnv (hashOpaque req.refreshToken) with
    | .error e => σ.setFlight i { f with phase := .failed 400 "invalid_grant" e }
    | .ok (oauth, existing) =>
      { σ with oauth := oauth }.setFlight i
        { f with origin := σ.lineage (hashOpaque req.refreshToken), phase := afterRotation req existing }

variable (cfg : OAuthConfig) (env : AuthEnv) (σ : TokenServer) (i : Nat) (f : Flight) (input : MintInput)

/-- `CreateToken`, with the token noted as minted along its chain. -/
def mintAccess (ids : List String) : TokenServer :=
  match σ.access.createToken env.toEnv (oauthTokenInput cfg env.now input ids) with
  | .error e => σ.setFlight i { f with phase := .failed 500 "server_error" e }
  | .ok (access, token, raw) =>
    { σ with access := access, minted := (f.origin, token.id) :: σ.minted }.setFlight i
      { f with phase := .save input token raw }

/-- `SaveRefreshToken`, with the token noted as a descendant of the chain's code. -/
def saveRefresh (token : AccessToken) (raw : String) : TokenServer :=
  { σ with
    oauth := σ.oauth.saveRefreshToken env.toEnv (newRefreshToken cfg env input token)
    lineage := update σ.lineage (hashOpaque env.random) f.origin }.setFlight i
      { f with phase := .answered (tokenResponse env input token raw) }

/-- A call of `mintTokens` fails with the error of the environment. -/
def orFault (env : AuthEnv) (σ : TokenServer) (i : Nat) (f : Flight) (next : TokenServer) : TokenServer :=
  match env.fault with
  | some e => σ.setFlight i { f with phase := .failed 500 "server_error" e }
  | none => next

def advance [GoLib] (cfg : OAuthConfig) (env : AuthEnv) (σ : TokenServer) (i : Nat) : TokenServer :=
  let f := σ.flights i
  match f.phase with
  | .idle | .failed _ _ _ | .answered _ => σ
  | .consume => consumeGrant env σ i f
  | .revoke existing =>
    { σ with access := σ.access.revokeToken env.toEnv existing.accessTokenID }.setFlight i
      { f with phase := .lookup existing }
  | .lookup existing =>
    σ.setFlight i
      { f with
        phase := .ensure
          { principal := refreshPrincipal σ.access existing, clientID := existing.clientID, scope := "" } }
  | .ensure input =>
    let (access, _, personal) := ensurePrincipal env.toEnv σ.access input.principal cfg.bucket
    orFault env σ i f ({ σ with access := access }.setFlight i { f with phase := .readable input personal })
  | .readable input personal =>
    orFault env σ i f (σ.setFlight i
      { f with phase := .create input (scopeStorageIDs env.now env.choose σ.access input.principal personal) })
  | .create input ids => orFault env σ i f (mintAccess cfg env σ i f input ids)
  | .save input token raw => orFault env σ i f (saveRefresh cfg env σ i f input token raw)

def arrive (σ : TokenServer) (i : Nat) (req : TokenRequest) : TokenServer :=
  match (σ.flights i).phase with
  | .idle => σ.setFlight i { request := req, phase := .consume }
  | _ => σ

def apply [GoLib] (cfg : OAuthConfig) (env : AuthEnv) (σ : TokenServer) : TokenEvent → TokenServer
  | .login req => { σ with toAuthState := (serve cfg env σ.toAuthState req).1 }
  | .access call => { σ with access := σ.access.call env.toEnv call }
  | .arrive i req => arrive σ i req
  | .advance i => advance cfg env σ i

def step [GoLib] (cfg : OAuthConfig) (σ : TokenServer) (input : AuthEnv × TokenEvent) : TokenServer :=
  { apply cfg input.1 σ input.2 with drawn := (input.1.uuid 0).val :: input.1.random :: σ.drawn }

end

def Fresh (σ : TokenServer) (input : AuthEnv × TokenEvent) : Prop :=
  (input.1.uuid 0).val ∉ σ.drawn ∧ input.1.random ∉ σ.drawn

instance (σ : TokenServer) (input : AuthEnv × TokenEvent) : Decidable (Fresh σ input) :=
  inferInstanceAs (Decidable (_ ∧ _))

section
variable [Digests] [GoLib] (cfg : OAuthConfig) (env : AuthEnv) (σ : TokenServer) (i : Nat)

inductive Move : TokenServer → Prop where
  | still : Move σ
  | failed {status error description} :
      Move (σ.setFlight i { σ.flights i with phase := .failed status error description })
  | exchanged {req oauth code}
      (phase : (σ.flights i).phase = .consume) (request : (σ.flights i).request = .exchange req)
      (used : σ.oauth.consumeAuthorizationCode env.toEnv req.code = .ok (oauth, code)) :
      Move ({ σ with oauth := oauth }.setFlight i
        { σ.flights i with origin := some req.code, phase := afterExchange req code })
  | rotated {req oauth existing}
      (phase : (σ.flights i).phase = .consume) (request : (σ.flights i).request = .refresh req)
      (used : σ.oauth.consumeRefreshToken env.toEnv (hashOpaque req.refreshToken) = .ok (oauth, existing)) :
      Move ({ σ with oauth := oauth }.setFlight i
        { σ.flights i with
          origin := σ.lineage (hashOpaque req.refreshToken), phase := afterRotation req existing })
  | revoked {existing} (phase : (σ.flights i).phase = .revoke existing) :
      Move ({ σ with access := σ.access.revokeToken env.toEnv existing.accessTokenID }.setFlight i
        { σ.flights i with phase := .lookup existing })
  | lookedUp {existing} (phase : (σ.flights i).phase = .lookup existing) :
      Move (σ.setFlight i
        { σ.flights i with
          phase := .ensure
            { principal := refreshPrincipal σ.access existing, clientID := existing.clientID, scope := "" } })
  | ensured {input} (phase : (σ.flights i).phase = .ensure input) :
      Move ({ σ with access := (ensurePrincipal env.toEnv σ.access input.principal cfg.bucket).1 }.setFlight i
        { σ.flights i with
          phase := .readable input (ensurePrincipal env.toEnv σ.access input.principal cfg.bucket).2.2 })
  | listed {input personal ids}
      (phase : (σ.flights i).phase = .readable input personal) :
      Move (σ.setFlight i { σ.flights i with phase := .create input ids })
  | created {input ids access token raw}
      (phase : (σ.flights i).phase = .create input ids)
      (made : σ.access.createToken env.toEnv (oauthTokenInput cfg env.now input ids) = .ok (access, token, raw)) :
      Move ({ σ with access := access, minted := ((σ.flights i).origin, token.id) :: σ.minted }.setFlight i
        { σ.flights i with phase := .save input token raw })
  | saved {input token raw}
      (phase : (σ.flights i).phase = .save input token raw) :
      Move (saveRefresh cfg env σ i (σ.flights i) input token raw)

variable {cfg env σ i}

theorem serve_records (req : LoginRequest) : (serve cfg env σ.toAuthState req).1.oauth.refresh = σ.oauth.refresh ∧
      (serve cfg env σ.toAuthState req).1.access.tokens = σ.access.tokens ∧
      ((serve cfg env σ.toAuthState req).1.oauth.codes = σ.oauth.codes ∨ ∃ code, code.code = env.random ∧
          (serve cfg env σ.toAuthState req).1.oauth.codes = σ.oauth.codes.put code) := by
  obtain ⟨refresh, ⟨access, codes⟩ | ⟨sess, p, _, access, codes⟩⟩ :=
    @OAuthServer.serve_grants _ _ cfg env σ.toAuthState req
  · exact ⟨refresh, congrArg Store.tokens access, .inl codes⟩
  · refine ⟨refresh, ?_, ?_⟩
    · rw [access]
      exact ensurePrincipal_tokens
    · rcases codes with same | put
      · exact .inl same
      · exact .inr ⟨_, rfl, put⟩

theorem orFault_move {next} (h : Move cfg env σ i next) : Move cfg env σ i (orFault env σ i (σ.flights i) next) := by
  unfold orFault
  split
  · exact .failed
  · exact h

theorem consumeGrant_move (phase : (σ.flights i).phase = .consume) :
    Move cfg env σ i (consumeGrant env σ i (σ.flights i)) := by
  unfold consumeGrant
  split
  · next req request =>
    split
    · exact .failed
    · next oauth code used => exact .exchanged phase request used
  · next req request =>
    split
    · exact .failed
    · next oauth existing used => exact .rotated phase request used

theorem advance_move : Move cfg env σ i (advance cfg env σ i) := by
  simp only [advance]
  split
  · exact .still
  · exact .still
  · exact .still
  · next phase => exact consumeGrant_move phase
  · next existing phase => exact .revoked phase
  · next existing phase => exact .lookedUp phase
  · next input phase => exact orFault_move (.ensured phase)
  · next input personal phase => exact orFault_move (.listed phase)
  · next input ids phase =>
    apply orFault_move
    unfold mintAccess
    split
    · exact .failed
    · next access token raw made => exact .created phase made
  · next input token raw phase => exact orFault_move (.saved phase)

end

end TokenServer
end SynaMcp
