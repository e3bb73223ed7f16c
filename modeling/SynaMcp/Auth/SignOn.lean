import SynaMcp.Auth.TokenEndpoint

/-! Who a request comes from. A session cookie of the web console goes first, then
a bearer token: an access token of the store, or a JWT of a configured issuer. -/
namespace SynaMcp
open Keyed GoStrings

structure TokenClaims where
  (issuer subject : String)
  audience : List String := []
  email : String := ""
  emailVerified : Bool := false
  (groups scopes : List String := [])
  scope : String := ""
  deriving DecidableEq, Repr

structure ProviderConfig where
  issuer : String
  (audience jwksURL : String := "")
  deriving DecidableEq, Repr

structure TeleportConfig where
  enabled : Bool := false
  (issuer audience : String := "")
  deriving DecidableEq, Repr

structure GatewayConfig where
  providers : List ProviderConfig := []
  googleDomains : List String := []
  teleport : TeleportConfig := {}
  devMode : Bool := false

/-- The JWT library with the key sets behind it. A token that is verified for an
issuer names that issuer. -/
structure Jwt where
  parseUnverified : (raw : String) → Except String TokenClaims
  keyfunc : (jwksURL : String) → Except String Unit
  parseWithClaims : (jwksURL issuer raw : String) → Except String TokenClaims
  issued : ∀ {url issuer raw : String} {claims : TokenClaims},
    parseWithClaims url issuer raw = .ok claims → claims.issuer = issuer

def hasAudience (auds : List String) (expected : String) : Bool := decide (expected ∈ auds)

def TokenClaims.withScopes (c : TokenClaims) : TokenClaims :=
  if c.scopes = [] ∧ c.scope ≠ "" then { c with scopes := fields c.scope } else c

namespace GatewayConfig
variable (cfg : GatewayConfig) (issuer : String)

def providerByIssuer : Except String ProviderConfig :=
  match cfg.providers.find? (fun p => p.issuer = issuer) with
  | some p => .ok p
  | none =>
    if cfg.teleport.enabled = true ∧ issuer = cfg.teleport.issuer then
      .ok { issuer := issuer, jwksURL := trimRightFunc (· == '/') cfg.teleport.issuer ++ "/.well-known/jwks.json" }
    else .error ("unknown provider issuer: " ++ issuer)

def audienceByIssuer : String :=
  match cfg.providers.find? (fun p => p.issuer = issuer ∧ p.audience ≠ "") with
  | some p => p.audience
  | none => if issuer = cfg.teleport.issuer then cfg.teleport.audience else ""

/-- A provider without keys is for development: its tokens are not verified. -/
def verifyAndParseClaims (jwt : Jwt) (cfg : GatewayConfig) (raw : String) : Except String TokenClaims :=
  match jwt.parseUnverified raw with
  | .error e => .error ("parse unverified token: " ++ e)
  | .ok unverified =>
    if unverified.issuer = "" then .error "missing issuer"
    else
      match cfg.providerByIssuer unverified.issuer with
      | .error e => .error e
      | .ok provider =>
        if provider.jwksURL = "insecure" then
          if !cfg.devMode then .error "insecure jwks requires server.dev_mode" else .ok unverified.withScopes
        else if provider.jwksURL = "" then
          .error ("no jwks configured for issuer \"" ++ unverified.issuer ++ "\"")
        else
          match jwt.keyfunc provider.jwksURL with
          | .error e => .error e
          | .ok () =>
            match jwt.parseWithClaims provider.jwksURL unverified.issuer raw with
            | .error e => .error ("verify token: " ++ e)
            | .ok verified =>
              let aud := cfg.audienceByIssuer unverified.issuer
              if aud ≠ "" ∧ hasAudience verified.audience aud = false then .error "audience mismatch"
              else .ok verified.withScopes

def isTeleport (cfg : GatewayConfig) (c : TokenClaims) : Bool :=
  cfg.teleport.enabled && decide (c.issuer = cfg.teleport.issuer) && hasAudience c.audience cfg.teleport.audience

def isKnownIssuer : Bool := cfg.providers.any (fun p => p.issuer = issuer)

def allowedGoogleDomain [GoLib] (cfg : GatewayConfig) (email : String) : Bool :=
  match split email '@' with
  | [_, d] => cfg.googleDomains.any (GoLib.equalFold d)
  | _ => false

end GatewayConfig

section
variable [Digests]

/-- The principal of a JWT carries its keys with it. -/
def jwtPrincipal (source : String) (claims : TokenClaims) : Principal :=
  let p : Principal :=
    { userID := claims.subject, issuer := claims.issuer, email := claims.email, groups := claims.groups,
      scopes := claims.scopes, authSource := source }
  { p with subjectKey := subjectKeyForPrincipal p, groupSubjectKeys := groupSubjectKeysForPrincipal p }

def GatewayConfig.toPrincipal [GoLib] (cfg : GatewayConfig) (claims : TokenClaims) : Except String Principal :=
  if cfg.isTeleport claims then .ok (jwtPrincipal "teleport_proxy" claims)
  else if !cfg.isKnownIssuer claims.issuer then .error "unknown issuer"
  else if contains claims.issuer "google" = true ∧ 0 < cfg.googleDomains.length then
    if !claims.emailVerified then .error "google email not verified"
    else if !cfg.allowedGoogleDomain claims.email then .error "google domain denied"
    else .ok (jwtPrincipal "oauth" claims)
  else .ok (jwtPrincipal "oauth" claims)

end

structure WebSession where
  sessionID : String
  principal : Principal
  csrfToken : String
  expiresAt : Time

/-- Whom a login of the web console lets in: the administrator of the configuration
or an account. -/
def LoggedIn (cfg : WebAdmin) (p : Principal) : Prop :=
  (cfg.enabled = true ∧ cfg.expectedPassword ≠ "" ∧ p = defaultAdmin cfg) ∨
    ∃ user : User, user.status = "active" ∧ p = loginPrincipal user

structure WebSessions (cfg : WebAdmin) where
  table : Table WebSession.sessionID
  opened : ∀ ws ∈ table.rows, LoggedIn cfg ws.principal

namespace WebSessions
variable {cfg : WebAdmin}

def empty : WebSessions cfg where
  table := .empty
  opened ws mem := by cases mem

def createWebSession (env : Env) (sessions : WebSessions cfg) (p : Principal) (who : LoggedIn cfg p)
    (ttl : Time) : WebSessions cfg × WebSession :=
  let ws : WebSession :=
    { sessionID := (env.uuid 0).val, principal := p, csrfToken := (env.uuid 1).val, expiresAt := env.now + ttl }
  ({ table := sessions.table.put ws
     opened := by
      intro row mem
      rcases Table.mem_put.mp mem with rfl | ⟨old, _⟩
      · exact who
      · exact sessions.opened row old }, ws)

def getWebSession (now : Time) (sessions : WebSessions cfg) (id : String) : Option WebSession :=
  match sessions.table.get? id with
  | none => none
  | some ws => if now < ws.expiresAt then some ws else none

theorem getWebSession_some {now} {sessions : WebSessions cfg} {id ws}
    (h : sessions.getWebSession now id = some ws) : LoggedIn cfg ws.principal := by
  unfold getWebSession at h
  split at h
  · cases h
  · next found =>
    split at h
    · cases h
      exact sessions.opened ws (Table.mem_of_get? found)
    · cases h

/-- A `POST` of the login form. -/
def loginHandler [Digests] (choose : Nat → Nat) (ttlHours : Int) (env : Env) (s : Store)
    (sessions : WebSessions cfg) (username password : String) :
    WebSessions cfg × Except (String × Nat) WebSession :=
  match outcome : authenticateInternal cfg choose s (trimSpace username) password with
  | .error e => (sessions, .error (e, 401))
  | .ok p =>
    have who : LoggedIn cfg p := (authenticateInternal_ok outcome).imp_right fun ⟨user, _, known⟩ => ⟨user, known⟩
    let (sessions, ws) := sessions.createWebSession env p who ((if ttlHours ≤ 0 then 12 else ttlHours) * hour)
    (sessions, .ok ws)

end WebSessions

structure Presented where
  method : String := "GET"
  cookie : Option String := none
  (csrfToken authorization : String := "")

def isMutatingMethod (method : String) : Bool := decide (method ∈ ["POST", "PUT", "PATCH", "DELETE"])

def extractBearer [GoLib] (header : String) : String :=
  match splitFirst (trimSpace header) ' ' with
  | some (scheme, rest) => if GoLib.equalFold scheme "bearer" then trimSpace rest else ""
  | none => ""

section
variable [Digests] [GoLib] (jwt : Jwt) (cfg : GatewayConfig)

/-- The gateway's part: an access token is looked up first, and what the store does
not know is taken for a JWT. -/
def gatewayMiddleware (env : Env) (s : Store) (mcp : Option MCPStore) (authorization : String) :
    Store × Except (String × Nat) APIAccessContext :=
  let bearer := extractBearer authorization
  if bearer = "" then (s, .error ("missing bearer token", 401))
  else
    match resolveBearer env s mcp bearer with
    | (s, .error e) => (s, .error (e, 401))
    | (s, .ok (some ac)) => (s, .ok ac)
    | (s, .ok none) =>
      match cfg.verifyAndParseClaims jwt bearer with
      | .error _ => (s, .error ("invalid token", 401))
      | .ok claims =>
        match cfg.toPrincipal claims with
        | .error _ => (s, .error ("forbidden", 403))
        | .ok p => (s, .ok { principal := p, authMode := "bearer_jwt" })

/-- A live session decides the request, whatever bearer token comes with it. -/
def authMiddleware {web : WebAdmin} (sessions : WebSessions web) (env : Env) (s : Store) (mcp : Option MCPStore)
    (req : Presented) : Store × Except (String × Nat) APIAccessContext :=
  match req.cookie.bind (sessions.getWebSession env.now) with
  | some ws =>
    if isMutatingMethod req.method = true ∧ req.csrfToken ≠ ws.csrfToken then
      (s, .error ("invalid csrf token", 403))
    else (s, .ok { principal := ws.principal, authMode := "web_session" })
  | none => gatewayMiddleware jwt cfg env s mcp req.authorization

end

inductive SignedOn [Digests] (web : WebAdmin) : APIAccessContext → Prop where
  | session {p} (who : LoggedIn web p) : SignedOn web { principal := p, authMode := "web_session" }
  | token (s : Store) (mcp : Option MCPStore) (t : AccessToken) (scopes : List AccessTokenStorage) :
      SignedOn web (tokenContext s mcp t scopes)
  | jwt (source : String) (claims : TokenClaims) (outside : source ∈ ["oauth", "teleport_proxy"])
      (issued : claims.issuer ≠ "") :
      SignedOn web { principal := jwtPrincipal source claims, authMode := "bearer_jwt" }

section
variable {jwt : Jwt} {cfg : GatewayConfig}
  {raw : String} {claims : TokenClaims} {env : Env} {s s' : Store} {mcp : Option MCPStore} {ac : APIAccessContext}

@[simp] theorem TokenClaims.withScopes_issuer (c : TokenClaims) : c.withScopes.issuer = c.issuer := by
  unfold withScopes
  split <;> rfl

theorem GatewayConfig.verifyAndParseClaims_ok
    (h : cfg.verifyAndParseClaims jwt raw = .ok claims) : claims.issuer ≠ "" := by
  unfold verifyAndParseClaims at h
  split at h
  · cases h
  · next unverified _ =>
    split at h
    · cases h
    · next named =>
      split at h
      · cases h
      · split at h
        · split at h
          · cases h
          · cases h
            rw [TokenClaims.withScopes_issuer]
            exact named
        · split at h
          · cases h
          · split at h
            · cases h
            · split at h
              · cases h
              · next verified parsed =>
                simp only at h
                split at h
                · cases h
                · cases h
                  rw [TokenClaims.withScopes_issuer, jwt.issued parsed]
                  exact named

variable [Digests]

theorem resolveBearer_ok (h : resolveBearer env s mcp raw = (s', .ok (some ac))) :
    ∃ t scopes, ac = tokenContext s' mcp t scopes := by
  unfold resolveBearer at h
  simp only at h
  split at h
  · cases h
  · cases h
  · next t scopes _ =>
    cases h
    exact ⟨t, scopes, rfl⟩

theorem subjectKeyForPrincipal_jwtPrincipal {source}
    (outside : source ∈ ["oauth", "teleport_proxy"]) (issued : claims.issuer ≠ "") :
    subjectKeyForPrincipal (jwtPrincipal source claims) =
      "user:" ++ issuerHash claims.issuer ++ ":" ++ claims.subject := by
  have carried : ∀ p : Principal, ∀ keys,
      subjectKeyForPrincipal { p with subjectKey := subjectKeyForPrincipal p, groupSubjectKeys := keys } =
        subjectKeyForPrincipal p :=
    fun p keys => if_pos (subjectKeyForPrincipal_ne_empty p)
  have external : sourceOf { authSource := source } ≠ "internal" := by
    rcases List.mem_pair.mp outside with rfl | rfl <;> decide
  unfold jwtPrincipal
  rw [carried]
  simp only [subjectKeyForPrincipal, SubjectRef.key]
  rw [if_neg (by decide), if_neg]
  exact not_or.mpr ⟨external, issued⟩

variable [GoLib]

theorem GatewayConfig.toPrincipal_ok {p} (h : cfg.toPrincipal claims = .ok p) :
    ∃ source ∈ ["oauth", "teleport_proxy"], p = jwtPrincipal source claims := by
  unfold toPrincipal at h
  split at h
  · cases h
    exact ⟨"teleport_proxy", by decide, rfl⟩
  · split at h
    · cases h
    · split at h
      · split at h
        · cases h
        · split at h
          · cases h
          · cases h
            exact ⟨"oauth", by decide, rfl⟩
      · cases h
        exact ⟨"oauth", by decide, rfl⟩

theorem authMiddleware_ok {web} {sessions : WebSessions web} {req}
    (h : authMiddleware jwt cfg sessions env s mcp req = (s', .ok ac)) : SignedOn web ac := by
  unfold authMiddleware at h
  split at h
  · next ws shown =>
    obtain ⟨_, _, found⟩ := Option.bind_eq_some_iff.mp shown
    split at h
    · cases h
    · cases h
      exact .session (WebSessions.getWebSession_some found)
  · unfold gatewayMiddleware at h
    simp only at h
    split at h
    · cases h
    · split at h
      · cases h
      · next resolved =>
        cases h
        obtain ⟨t, scopes, rfl⟩ := resolveBearer_ok resolved
        exact .token s' mcp t scopes
      · split at h
        · cases h
        · next claims verified =>
          split at h
          · cases h
          · next p known =>
            cases h
            obtain ⟨source, outside, rfl⟩ := GatewayConfig.toPrincipal_ok known
            exact .jwt source claims outside (GatewayConfig.verifyAndParseClaims_ok verified)

end

end SynaMcp
