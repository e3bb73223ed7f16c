import SynaMcp.Auth.Passwords
import SynaMcp.Auth.Redirects
import SynaMcp.Http.Messages

/-! The OAuth server up to the authorization code: registering a client, opening a login
session, and the two ways through it. A request is one step; what each can do is a
`LoginEffect`. -/
namespace SynaMcp
open Keyed OAuthStore

structure Provider where
  name : String
  (clientID issuer : String := "")
  deriving DecidableEq, Repr

structure OAuthConfig where
  allowedRedirectURIPatterns : List String := []
  (authorizationCodeTTLSeconds accessTokenTTLHours refreshTokenTTLHours : Int := 0)
  defaultTokenMode : AccessMode := .unset
  providers : List Provider := []
  web : WebAdmin := {}
  bucket : String := ""
  /-- `exchangeOIDCCode`, `VerifyAndParseClaims` and `ToPrincipal`; an error comes with its status. -/
  oidcPrincipal : Provider → (code : String) → Except (String × Nat) Principal :=
    fun _ _ => .error ("oidc token response missing id_token", 400)

/-- What one request reads from outside, with the order of a range over a map and
the error of a failing call. -/
structure AuthEnv extends Env where
  choose : Nat → Nat := fun _ => 0
  fault : Option String := none

structure AuthState where
  access : Store
  oauth : OAuthStore

inductive AuthResponse where
  | error (message : String) (status : Nat)
  | oauthError (status : Nat) (code description : String)
  | registered (client : OAuthClient)
  | loginPage (sessionID : String) (client : OAuthClient) (message : String)
  /-- The redirect to a provider, whose state is the session. -/
  | toProvider (provider : Provider) (sessionID : String)
  /-- The redirect that carries an authorization code. -/
  | codeRedirect (location : String)
  deriving DecidableEq

structure RegisterRequest where
  redirectURIs : List String := []
  (clientName tokenEndpointAuthMethod : String := "")
  deriving DecidableEq, Repr

structure AuthorizeQuery where
  (clientID redirectURI responseType state scope codeChallenge codeChallengeMethod : String := "")
  deriving DecidableEq, Repr

structure LoginForm where
  (loginSessionID username password : String := "")
  deriving DecidableEq, Repr

inductive LoginRequest where
  | register (body : Decoded RegisterRequest)
  | authorize (query : AuthorizeQuery)
  | login (form : Decoded LoginForm)
  | oidcStart (sessionID provider : String)
  | oidcCallback (state code : String)

def LoginRequest.session : LoginRequest → Option String
  | .login (.ok form) => some form.loginSessionID
  | .oidcCallback state _ => some state
  | _ => none

/-- `time.Second` in nanoseconds. -/
def second : Time := 1000000000

namespace OAuthServer
variable [Digests] [GoLib] (cfg : OAuthConfig) (env : AuthEnv) (σ : AuthState)

def register (body : Decoded RegisterRequest) : AuthState × AuthResponse :=
  match body with
  | .error _ => (σ, .oauthError 400 "invalid_client_metadata" "invalid JSON body")
  | .ok req =>
    if req.redirectURIs = [] then (σ, .oauthError 400 "invalid_redirect_uri" "redirect_uris required")
    else
      match req.redirectURIs.find? (fun uri => !redirectURIAllowed uri [] cfg.allowedRedirectURIPatterns) with
      | some uri => (σ, .oauthError 400 "invalid_redirect_uri" ("redirect_uri not allowed: " ++ uri))
      | none =>
        let (oauth, client) := σ.oauth.createClient env.toEnv
          { clientName := req.clientName, redirectURIs := req.redirectURIs,
            tokenEndpointAuthMethod := orElse "" req.tokenEndpointAuthMethod "none" }
        ({ σ with oauth := oauth }, .registered client)

variable (sess : LoginSession)

def renderLogin (client : OAuthClient) (message : String) : AuthResponse :=
  if sess.id = "" then .error "missing login session" 500 else .loginPage sess.id client message

variable (query : AuthorizeQuery)

def newSession : LoginSession :=
  { clientID := query.clientID, redirectURI := query.redirectURI, scope := query.scope,
    state := query.state, codeChallenge := query.codeChallenge, codeChallengeMethod := "S256",
    expiresAt := env.now + cfg.authorizationCodeTTLSeconds * second }

def authorize : AuthState × AuthResponse :=
  if query.responseType ≠ "code" then (σ, .error "unsupported_response_type" 400)
  else if query.codeChallengeMethod ≠ "" ∧ query.codeChallengeMethod ≠ "S256" then
    (σ, .error "code_challenge_method must be S256" 400)
  else if query.codeChallenge = "" then (σ, .error "code_challenge required" 400)
  else
    match σ.oauth.getClient query.clientID with
    | none => (σ, .error "invalid_client" 400)
    | some client =>
      if !clientHasRedirectURI client query.redirectURI ||
          !redirectURIAllowed query.redirectURI client.redirectURIs cfg.allowedRedirectURIPatterns then
        (σ, .error "invalid_redirect_uri" 400)
      else
        let (oauth, sess) := σ.oauth.saveLoginSession env.toEnv (newSession cfg env query)
        ({ σ with oauth := oauth }, renderLogin sess client "")

def newCode (p : Principal) : AuthorizationCode :=
  { code := env.random, clientID := sess.clientID, subjectKey := subjectKeyForPrincipal p, principal := p,
    redirectURI := sess.redirectURI, scope := sess.scope, codeChallenge := sess.codeChallenge,
    codeChallengeMethod := sess.codeChallengeMethod,
    expiresAt := env.now + cfg.authorizationCodeTTLSeconds * second }

/-- A code whose redirect cannot be built is stored nevertheless. -/
def completeAuthorize (p : Principal) : AuthState × AuthResponse :=
  let access := (ensurePrincipal env.toEnv σ.access p cfg.bucket).1
  match env.fault with
  | some e => ({ σ with access := access }, .error e 500)
  | none =>
    let oauth := σ.oauth.saveAuthorizationCode env.toEnv (newCode cfg env sess p)
    ({ access := access, oauth := oauth },
      match GoLib.parseURL sess.redirectURI with
      | none => .error "invalid redirect_uri" 400
      | some u => .codeRedirect (codeLocation u env.random sess.state))

/-- The session is read, and taken only after the password was right. -/
def authorizeLogin (form : Decoded LoginForm) : AuthState × AuthResponse :=
  match form with
  | .error _ => (σ, .error "invalid form" 400)
  | .ok form =>
    match σ.oauth.getLoginSession env.toEnv form.loginSessionID with
    | none => (σ, .error "login session expired" 400)
    | some sess =>
      match σ.oauth.getClient sess.clientID with
      | none => (σ, .error "invalid_client" 400)
      | some client =>
        match authenticateInternal cfg.web env.choose σ.access (GoStrings.trimSpace form.username)
            form.password with
        | .error _ => (σ, renderLogin sess client "invalid credentials")
        | .ok p =>
          completeAuthorize cfg env
            { σ with oauth := (σ.oauth.takeLoginSession env.toEnv form.loginSessionID).1 } sess p

def providerByName (name : String) : Option Provider := cfg.providers.find? (fun p => GoLib.equalFold p.name name)

def authorizeOIDCStart (sessionID providerName : String) : AuthState × AuthResponse :=
  match σ.oauth.getLoginSession env.toEnv sessionID with
  | none => (σ, .error "login session expired" 400)
  | some sess =>
    match providerByName cfg providerName with
    | none => (σ, .error "provider not configured for login" 400)
    | some provider =>
      if provider.clientID = "" then (σ, .error "provider not configured for login" 400)
      else
        let (oauth, sess) := σ.oauth.saveLoginSession env.toEnv { sess with providerName := provider.name }
        ({ σ with oauth := oauth }, .toProvider provider sess.id)

/-- The session is taken first, whatever comes of the exchange. -/
def oidcCallback (sessionID code : String) : AuthState × AuthResponse :=
  if sessionID = "" ∨ code = "" then (σ, .error "missing code/state" 400)
  else
    let (oauth, taken) := σ.oauth.takeLoginSession env.toEnv sessionID
    let σ := { σ with oauth := oauth }
    match taken with
    | none => (σ, .error "login session expired" 400)
    | some sess =>
      match providerByName cfg sess.providerName with
      | none => (σ, .error "unknown provider" 400)
      | some provider =>
        match cfg.oidcPrincipal provider code with
        | .error (e, status) => (σ, .error e status)
        | .ok p => completeAuthorize cfg env σ sess p

variable (req : LoginRequest)

def serve : AuthState × AuthResponse :=
  match req with
  | .register body => register cfg env σ body
  | .authorize query => authorize cfg env σ query
  | .login form => authorizeLogin cfg env σ form
  | .oidcStart sessionID provider => authorizeOIDCStart cfg env σ sessionID provider
  | .oidcCallback state code => oidcCallback cfg env σ state code

def Vouched : LoginRequest → Principal → Prop
  | .login (.ok form), p =>
    authenticateInternal cfg.web env.choose σ.access (GoStrings.trimSpace form.username) form.password = .ok p
  | .oidcCallback _ code, p => ∃ provider ∈ cfg.providers, cfg.oidcPrincipal provider code = .ok p
  | _, _ => False

inductive LoginEffect : LoginRequest → AuthState → AuthResponse → Prop where
  /-- Nothing but sessions that were dropped. -/
  | kept {req logins r}
      (sub : ∀ sess ∈ logins.rows, sess ∈ σ.oauth.logins.rows) (plain : ∀ location, r ≠ .codeRedirect location) :
      LoginEffect req { σ with oauth := { σ.oauth with logins := logins } } r
  | registered {body client} (unnamed : client.clientID = "") :
      LoginEffect (.register body) { σ with oauth := (σ.oauth.createClient env.toEnv client).1 }
        (.registered (σ.oauth.createClient env.toEnv client).2)
  | opened {query client r}
      (known : σ.oauth.clients.get? query.clientID = some client)
      (has : query.redirectURI ∈ client.redirectURIs)
      (allowed : redirectURIAllowed query.redirectURI client.redirectURIs
        cfg.allowedRedirectURIPatterns = true) (plain : ∀ location, r ≠ .codeRedirect location) :
      LoginEffect (.authorize query)
        { σ with oauth := (σ.oauth.saveLoginSession env.toEnv (newSession cfg env query)).1 } r
  | resumed {sessionID provider name sess r}
      (row : σ.oauth.logins.get? sessionID = some sess) (plain : ∀ location, r ≠ .codeRedirect location) :
      LoginEffect (.oidcStart sessionID provider)
        { σ with oauth := (σ.oauth.saveLoginSession env.toEnv { sess with providerName := name }).1 } r
  | entered {req sessionID sess p logins} (session : req.session = some sessionID)
      (row : σ.oauth.logins.get? sessionID = some sess)
      (sub : ∀ sess ∈ logins.rows, sess ∈ σ.oauth.logins.rows) (vouched : Vouched cfg env σ req p) :
      LoginEffect req
        (completeAuthorize cfg env { σ with oauth := { σ.oauth with logins := logins } } sess p).1
        (completeAuthorize cfg env { σ with oauth := { σ.oauth with logins := logins } } sess p).2

variable {cfg env σ}

theorem LoginEffect.same {req r} (plain : ∀ location, r ≠ .codeRedirect location) :
    LoginEffect cfg env σ req σ r := .kept (fun _ h => h) plain

omit [Digests] [GoLib] in
theorem renderLogin_plain {sess client message location} :
    renderLogin sess client message ≠ .codeRedirect location := by
  unfold renderLogin
  split <;> simp

theorem register_effect (body : Decoded RegisterRequest) :
    LoginEffect cfg env σ (.register body) (register cfg env σ body).1 (register cfg env σ body).2 := by
  unfold register
  split
  · exact .same (by simp)
  · split
    · exact .same (by simp)
    · split
      · exact .same (by simp)
      · exact .registered rfl

theorem authorize_effect :
    LoginEffect cfg env σ (.authorize query) (authorize cfg env σ query).1 (authorize cfg env σ query).2 := by
  unfold authorize
  split
  · exact .same (by simp)
  · split
    · exact .same (by simp)
    · split
      · exact .same (by simp)
      · split
        · exact .same (by simp)
        · next client known =>
          split
          · exact .same (by simp)
          · next ok =>
            simp only [Bool.or_eq_true, Bool.not_eq_true', not_or, Bool.not_eq_false] at ok
            exact .opened known (of_decide_eq_true ok.1) ok.2 (fun _ => renderLogin_plain)

theorem authorizeLogin_effect (form : Decoded LoginForm) :
    LoginEffect cfg env σ (.login form) (authorizeLogin cfg env σ form).1 (authorizeLogin cfg env σ form).2 := by
  unfold authorizeLogin
  split
  · exact .same (by simp)
  · next form =>
    split
    · exact .same (by simp)
    · next sess found =>
      split
      · exact .same (by simp)
      · split
        · exact .same (fun _ => renderLogin_plain)
        · next p ok =>
          obtain ⟨⟨_, after, sub⟩, _⟩ := takeLoginSession_cases env.toEnv σ.oauth form.loginSessionID
          rw [after]
          exact .entered rfl (getLoginSession_some found) sub ok

theorem authorizeOIDCStart_effect (sessionID provider : String) :
    LoginEffect cfg env σ (.oidcStart sessionID provider) (authorizeOIDCStart cfg env σ sessionID provider).1
      (authorizeOIDCStart cfg env σ sessionID provider).2 := by
  unfold authorizeOIDCStart
  split
  · exact .same (by simp)
  · next sess found =>
    split
    · exact .same (by simp)
    · split
      · exact .same (by simp)
      · exact .resumed (getLoginSession_some found) (by simp)

theorem oidcCallback_effect (state code : String) :
    LoginEffect cfg env σ (.oidcCallback state code) (oidcCallback cfg env σ state code).1
      (oidcCallback cfg env σ state code).2 := by
  unfold oidcCallback
  split
  · exact .same (by simp)
  · obtain ⟨⟨_, after, sub⟩, taken⟩ := takeLoginSession_cases env.toEnv σ.oauth state
    simp only [after]
    split
    · exact .kept sub (by simp)
    · next sess found =>
      split
      · exact .kept sub (by simp)
      · next provider named =>
        split
        · exact .kept sub (by simp)
        · next p ok =>
          exact .entered rfl (taken sess found) sub ⟨provider, List.mem_of_find?_eq_some named, ok⟩

theorem serve_effect : LoginEffect cfg env σ req (serve cfg env σ req).1 (serve cfg env σ req).2 := by
  cases req with
  | register body => exact register_effect body
  | authorize query => exact authorize_effect query
  | login form => exact authorizeLogin_effect form
  | oidcStart sessionID provider => exact authorizeOIDCStart_effect sessionID provider
  | oidcCallback state code => exact oidcCallback_effect state code

/-- Of the access store and the grants a request writes nothing, or it completes a
login: the principal is ensured and at most one new code is stored, unused. -/
theorem serve_grants : (serve cfg env σ req).1.oauth.refresh = σ.oauth.refresh ∧
      (((serve cfg env σ req).1.access = σ.access ∧ (serve cfg env σ req).1.oauth.codes = σ.oauth.codes) ∨
        ∃ sess p, Vouched cfg env σ req p ∧
          (serve cfg env σ req).1.access = (ensurePrincipal env.toEnv σ.access p cfg.bucket).1 ∧
          ((serve cfg env σ req).1.oauth.codes = σ.oauth.codes ∨
            (serve cfg env σ req).1.oauth.codes = σ.oauth.codes.put
              { newCode cfg env sess p with createdAt := env.now })) := by
  have effect := @serve_effect _ _ cfg env σ req
  generalize serve cfg env σ req = result at effect ⊢
  obtain ⟨σ', _⟩ := result
  cases effect with
  | kept sub plain | registered unnamed | opened known has allowed plain | resumed row plain =>
    exact ⟨rfl, .inl ⟨rfl, rfl⟩⟩
  | @entered _ _ sess p _ _ _ _ vouched =>
    unfold completeAuthorize
    split
    · exact ⟨rfl, .inr ⟨sess, p, vouched, rfl, .inl rfl⟩⟩
    · exact ⟨rfl, .inr ⟨sess, p, vouched, rfl, .inr rfl⟩⟩

end OAuthServer
end SynaMcp
