import SynaMcp.Access.Service

/-! Logging in with a password, as the web console and the OAuth server do it: the
administrator of the configuration first, then the accounts of the access store. -/
namespace SynaMcp
open GoStrings

structure WebAdmin where
  enabled : Bool := false
  (username passwordEnvRef : String := "")
  getenv : String → String := fun _ => ""

/-- A secret of the configuration: a variable of the process, or a literal. -/
def configResolveSecret (getenv : String → String) (value : String) : String :=
  if hasPrefix value "env:" then getenv (trimPrefix value "env:")
  else if hasPrefix value "$" then getenv (trimPrefix value "$")
  else if hasPrefix value "literal:" then trimPrefix value "literal:"
  else value

def WebAdmin.expectedPassword (cfg : WebAdmin) : String :=
  if cfg.enabled then configResolveSecret cfg.getenv cfg.passwordEnvRef else ""

def defaultAdminKey : String := "user:internal:default-admin"

def defaultAdmin (cfg : WebAdmin) : Principal :=
  { userID := "default-admin", email := cfg.username, subjectKey := defaultAdminKey,
    scopes := ["platform_admin", "admin"], authSource := "internal" }

/-- The principal built for an account: no groups, whatever its memberships are. -/
def loginPrincipal (user : User) : Principal :=
  { userID := user.externalSubject, email := user.email, subjectKey := user.subjectKey,
    authSource := user.source,
    scopes := if user.subjectKey = defaultAdminKey then ["platform_admin", "admin"] else [] }

def authenticateInternal [Digests] (cfg : WebAdmin) (choose : Nat → Nat) (s : Store)
    (username password : String) : Except String Principal :=
  if cfg.enabled = true ∧ cfg.expectedPassword ≠ "" ∧ username = cfg.username ∧
      password = cfg.expectedPassword then .ok (defaultAdmin cfg)
  else
    match s.authenticateUser choose username password with
    | none => .error "invalid credentials"
    | some user => .ok (loginPrincipal user)

theorem authenticateInternal_ok [Digests] {cfg choose s username password p} (h : authenticateInternal cfg choose s username password = .ok p) :
    (cfg.enabled = true ∧ cfg.expectedPassword ≠ "" ∧ p = defaultAdmin cfg) ∨
      ∃ user ∈ s.users.rows, user.status = "active" ∧ p = loginPrincipal user := by
  unfold authenticateInternal at h
  split at h
  · next configured =>
    cases h
    exact .inl ⟨configured.1, configured.2.1, rfl⟩
  · split at h
    · cases h
    · next user found =>
      cases h
      obtain ⟨row, active, _⟩ := Store.authenticateUser_some found
      exact .inr ⟨user, row, active, rfl⟩

theorem groupSubjectKeysForPrincipal_loginPrincipal [Digests] (user : User) :
    groupSubjectKeysForPrincipal (loginPrincipal user) = [] := by
  simp [groupSubjectKeysForPrincipal, loginPrincipal]

theorem subjectKeyForPrincipal_loginPrincipal [Digests] {user} (named : user.subjectKey ≠ "") :
    subjectKeyForPrincipal (loginPrincipal user) = user.subjectKey := by
  simp [subjectKeyForPrincipal, loginPrincipal, named]

theorem platform_admin_mem_loginPrincipal {user} :
    "platform_admin" ∈ (loginPrincipal user).scopes ↔ user.subjectKey = defaultAdminKey := by
  unfold loginPrincipal
  split <;> simp_all

end SynaMcp
