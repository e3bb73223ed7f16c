import SynaMcp.Auth.Rotation

/-! Locking a user out. Only the password login reads the status of an account, and
every request of a principal writes its account back as active. What keeps a subject key
out is that nothing that is still good carries it. -/
namespace SynaMcp
open Keyed SingleUse Table Store

section
variable [Digests]

theorem createUser_subjectKey_ne_empty {env} {s : Store} {user} : (s.createUser env user).2.subjectKey ≠ "" := by
  simp only [createUser, orElse]
  split
  · exact SubjectRef.key_ne_empty _
  · assumption

def Phase.subject : Phase → Option String
  | .revoke existing | .lookup existing => some existing.subjectKey
  | .ensure input | .readable input _ | .create input _ | .save input _ _ =>
    some (subjectKeyForPrincipal input.principal)
  | .idle | .consume | .failed _ _ _ | .answered _ => none

/-- A call that lets a subject key in: it sees a principal of that key, makes or
activates an account of it, or makes an access token for it. -/
def StoreCall.LetsIn (env : Env) (s : Store) : StoreCall → String → Prop
  | .upsertUserFromPrincipal p, k => subjectKeyForPrincipal p = k
  | .ensurePrincipal p _, k => subjectKeyForPrincipal p = k
  | .createUser user, k =>
    (s.createUser env user).2.status = "active" ∧ (s.createUser env user).2.subjectKey = k
  | .updateUser userID patch, k =>
    patch.status = "active" ∧ ∃ u, s.users.get? userID = some u ∧ u.subjectKey = k
  | .createToken input, k => input.ownerSubjectKey = k ∧ k ≠ ""
  | _, _ => False

end

namespace TokenServer
section
variable [Digests]

/-- An event that lets a subject key in: such a call, or a login at an identity provider. -/
def LetsIn (cfg : OAuthConfig) (σ : TokenServer) (input : AuthEnv × TokenEvent) (k : String) : Prop :=
  match input.2 with
  | .access call => call.LetsIn input.1.toEnv σ.access k
  | .login (.oidcCallback _ code) =>
    ∃ provider ∈ cfg.providers, ∃ p, cfg.oidcPrincipal provider code = .ok p ∧ subjectKeyForPrincipal p = k
  | _ => False

/-- Whatever is good, an active account, a token, a grant or a request under way,
has a key of `G`; and every account has a key. -/
structure Admitted (G : String → Prop) (σ : TokenServer) : Prop where
  named : ∀ u ∈ σ.access.users.rows, u.subjectKey ≠ ""
  users : ∀ u ∈ σ.access.users.rows, u.status = "active" → G u.subjectKey
  tokens : ∀ t ∈ σ.access.tokens.rows, t.revokedAt = none → G t.ownerSubjectKey
  codes : ∀ c ∈ σ.oauth.codes.rows, c.usedAt = none → G (subjectKeyForPrincipal c.principal)
  refresh : ∀ r ∈ σ.oauth.refresh.rows, r.revokedAt = none → G r.subjectKey
  flights : ∀ i k, (σ.flights i).phase.subject = some k → G k

/-- Nobody gets in under the key: no password, no access token and no refresh token
of it is good, and no request is about to be answered with tokens of it. -/
structure Shut (cfg : OAuthConfig) (k : String) (σ : TokenServer) : Prop where
  login : ∀ choose username password p,
    authenticateInternal cfg.web choose σ.access username password = .ok p → subjectKeyForPrincipal p ≠ k
  token : ∀ env raw s t scopes, σ.access.resolveToken env raw = (s, .ok (some (t, scopes))) → t.ownerSubjectKey ≠ k
  refresh : ∀ env hash oauth existing,
    σ.oauth.consumeRefreshToken env hash = .ok (oauth, existing) → existing.subjectKey ≠ k
  answer : ∀ i input token raw,
    (σ.flights i).phase = .save input token raw → subjectKeyForPrincipal input.principal ≠ k

/-- The administrator of the configuration, where there is one, has a key of `G`. -/
def AdminIn (cfg : OAuthConfig) (G : String → Prop) : Prop :=
  cfg.web.enabled = true → cfg.web.expectedPassword ≠ "" → G defaultAdminKey

variable {G : String → Prop} {cfg : OAuthConfig} {σ : TokenServer} {i : Nat} {f : Flight}

section
variable (h : Admitted G σ)
include h

theorem Admitted.setFlight (own : ∀ k, f.phase.subject = some k → G k) : Admitted G (σ.setFlight i f) :=
  { h with
    flights := setFlight_flights_all (P := fun _ f => ∀ k, f.phase.subject = some k → G k) own
      fun j _ => h.flights j }

theorem Admitted.login (admin : AdminIn cfg G) {choose username password p}
    (ok : authenticateInternal cfg.web choose σ.access username password = .ok p) : G (subjectKeyForPrincipal p) := by
  rcases authenticateInternal_ok ok with ⟨enabled, configured, rfl⟩ | ⟨user, row, active, rfl⟩
  · exact admin enabled configured
  · rw [subjectKeyForPrincipal_loginPrincipal (h.named user row)]
    exact h.users user row active

theorem Admitted.shut (admin : AdminIn cfg G) {k} (out : ¬ G k) : Shut cfg k σ where
  login _ _ _ _ ok same := out (same ▸ h.login admin ok)
  token env raw s t scopes ok same := by
    obtain ⟨⟨_, _, found⟩, live, _⟩ := resolveToken_some ok
    apply out
    rw [← same]
    refine h.tokens t (mem_of_get? found) ?_
    simp only [tokenRefused, Bool.or_eq_false_iff, Option.isSome_eq_false_iff, Option.isNone_iff_eq_none] at live
    exact live.1
  refresh env hash oauth existing ok same := by
    obtain ⟨_, used, _⟩ := OAuthStore.consumeRefreshToken_ok ok
    obtain ⟨row, found, unused, _, rfl, _⟩ := consume_ok used
    exact out (same ▸ h.refresh row (mem_of_get? found) unused)
  answer i input token raw phase same := by
    apply out
    rw [← same]
    exact h.flights i _ (by rw [phase]; rfl)

/-- The access store may change if what is good in it still has a key of `G`. -/
theorem Admitted.withAccess {access} (named : ∀ u ∈ access.users.rows, u.subjectKey ≠ "")
    (users : ∀ u ∈ access.users.rows, u.status = "active" → G u.subjectKey)
    (tokens : ∀ t ∈ access.tokens.rows, t.revokedAt = none → G t.ownerSubjectKey) :
    Admitted G { σ with access := access } :=
  { h with named := named, users := users, tokens := tokens }

theorem Admitted.tokens_of_age {access} (age : TokensAge σ.access access) :
    ∀ t ∈ access.tokens.rows, t.revokedAt = none → G t.ownerSubjectKey := by
  intro t' mem live
  obtain ⟨t, row, later⟩ := age t' mem
  rw [later.owner]
  apply h.tokens t row
  by_contra revoked
  have still := later.revoked (Option.isSome_iff_ne_none.mpr revoked)
  rw [live] at still
  cases still

theorem Admitted.tokens_put {token} (own : G token.ownerSubjectKey) :
    ∀ t ∈ (σ.access.tokens.put token).rows, t.revokedAt = none → G t.ownerSubjectKey := by
  intro t mem live
  rcases Table.mem_put.mp mem with rfl | ⟨old, _⟩
  · exact own
  · exact h.tokens t old live

theorem Admitted.writes_named {env} {call : StoreCall} {u}
    (writes : call.Writes env σ.access u) : u.subjectKey ≠ "" := by
  cases call with
  | upsertUserFromPrincipal p | ensurePrincipal p bucket =>
    rw [show u = _ from writes]
    exact subjectKeyForPrincipal_ne_empty p
  | createUser =>
    rw [show u = _ from writes]
    exact createUser_subjectKey_ne_empty
  | updateUser userID patch | setUserPassword userID password =>
    obtain ⟨old, found, patched⟩ := writes
    rw [patched.subjectKey]
    exact h.named old (mem_of_get? found)
  | _ => exact False.elim writes

theorem Admitted.writes_active {env} {call : StoreCall} {u}
    (lets : ∀ k, call.LetsIn env σ.access k → G k) (writes : call.Writes env σ.access u)
    (active : u.status = "active") : G u.subjectKey := by
  cases call with
  | upsertUserFromPrincipal p | ensurePrincipal p bucket =>
    obtain rfl : u = _ := writes
    exact lets _ rfl
  | createUser =>
    obtain rfl : u = _ := writes
    exact lets _ ⟨active, rfl⟩
  | updateUser =>
    obtain ⟨old, found, patched⟩ := writes
    rw [patched.status] at active
    rw [patched.subjectKey]
    split at active
    · exact lets _ ⟨active, old, found, rfl⟩
    · exact h.users old (mem_of_get? found) active
  | setUserPassword =>
    obtain ⟨old, found, patched⟩ := writes
    rw [patched.subjectKey]
    refine h.users old (mem_of_get? found) ?_
    simpa [patched.status] using active
  | _ => exact False.elim writes

theorem Admitted.call {env} (call : StoreCall)
    (lets : ∀ k, call.LetsIn env σ.access k → G k) : Admitted G { σ with access := σ.access.call env call } := by
  apply h.withAccess
  · intro u mem
    rcases mem_users_call mem with old | writes
    · exact h.named u old
    · exact h.writes_named writes
  · intro u mem active
    rcases mem_users_call mem with old | writes
    · exact h.users u old active
    · exact h.writes_active lets writes active
  · rcases call_tokens call with age | ⟨_, rfl, owned, put⟩
    · exact h.tokens_of_age age
    · rw [put]
      exact h.tokens_put (lets _ ⟨rfl, owned⟩)

theorem Admitted.ensure {env p bucket} (own : G (subjectKeyForPrincipal p)) :
    Admitted G { σ with access := (ensurePrincipal env σ.access p bucket).1 } :=
  h.call (.ensurePrincipal p bucket) fun k same => (show subjectKeyForPrincipal p = k from same) ▸ own

end

theorem refreshPrincipal_subjectKey {s existing} (named : existing.subjectKey ≠ "") :
    subjectKeyForPrincipal (refreshPrincipal s existing) = existing.subjectKey := by
  unfold refreshPrincipal
  split
  · next user found =>
    have same : user.subjectKey = existing.subjectKey := by
      simpa using List.find?_some found
    rw [subjectKeyForPrincipal_loginPrincipal (same ▸ named), same]
  · simp [subjectKeyForPrincipal, named]

variable [GoLib] {env : AuthEnv}

theorem afterExchange_subject {req code k}
    (h : (afterExchange req code).subject = some k) : k = subjectKeyForPrincipal code.principal := by
  unfold afterExchange at h
  split at h
  · cases h
  · split at h
    · cases h
    · split at h
      · cases h
      · exact (Option.some.inj h).symm

omit [GoLib] in
theorem afterRotation_subject {req existing k}
    (h : (afterRotation req existing).subject = some k) : k = existing.subjectKey := by
  unfold afterRotation at h
  split at h
  · cases h
  · exact (Option.some.inj h).symm

theorem Admitted.move {σ'} (real : ∀ k, G k → k ≠ "") (h : Admitted G σ)
    (move : Move cfg env σ i σ') : Admitted G σ' := by
  cases move with
  | still => exact h
  | failed => exact h.setFlight nofun
  | @exchanged _ _ _ _ _ used =>
    obtain ⟨codes, consumed, rfl⟩ := OAuthStore.consumeAuthorizationCode_ok used
    obtain ⟨row, found, unused, _, rfl, _⟩ := consume_ok consumed
    refine Admitted.setFlight { h with codes := fun c mem unused => ?_ } fun k subject => ?_
    · exact h.codes c (mem_of_mem_consume consumed mem unused) unused
    · rw [afterExchange_subject subject]
      exact h.codes row (mem_of_get? found) unused
  | @rotated _ _ _ _ _ used =>
    obtain ⟨refresh, consumed, rfl⟩ := OAuthStore.consumeRefreshToken_ok used
    obtain ⟨row, found, unused, _, rfl, _⟩ := consume_ok consumed
    refine Admitted.setFlight { h with refresh := fun r mem unused => ?_ } fun k subject => ?_
    · exact h.refresh r (mem_of_mem_consume consumed mem unused) unused
    · rw [afterRotation_subject subject]
      exact h.refresh row (mem_of_get? found) unused
  | @revoked existing phase =>
    have later : TokensAge σ.access (σ.access.revokeToken env.toEnv existing.accessTokenID) :=
      tokensAge_updateToken fun _ => ⟨rfl, rfl, fun _ => rfl⟩
    refine Admitted.setFlight (h.withAccess h.named h.users (h.tokens_of_age later)) fun k subject => ?_
    exact h.flights i k (by rw [phase]; exact subject)
  | @lookedUp existing phase =>
    have own : G existing.subjectKey := h.flights i _ (by rw [phase]; rfl)
    apply h.setFlight
    intro k subject
    cases subject
    rw [refreshPrincipal_subjectKey (real _ own)]
    exact own
  | @ensured input phase =>
    have own : G (subjectKeyForPrincipal input.principal) := h.flights i _ (by rw [phase]; rfl)
    exact (h.ensure own).setFlight fun k subject => Option.some.inj subject ▸ own
  | listed phase => exact h.setFlight fun k subject => h.flights i k (by rw [phase]; exact subject)
  | @created input _ _ _ _ phase made =>
    obtain ⟨rfl, _, store⟩ := createToken_ok made
    have own : G (subjectKeyForPrincipal input.principal) := h.flights i _ (by rw [phase]; rfl)
    refine Admitted.setFlight { h with named := ?_, users := ?_, tokens := ?_ } fun k subject => ?_
    · rw [store]
      exact h.named
    · rw [store]
      exact h.users
    · rw [store]
      exact h.tokens_put own
    · exact Option.some.inj subject ▸ own
  | @saved input _ _ phase =>
    have own : G (subjectKeyForPrincipal input.principal) := h.flights i _ (by rw [phase]; rfl)
    refine Admitted.setFlight { h with refresh := fun r mem live => ?_ } nofun
    rcases Table.mem_put.mp mem with rfl | ⟨old, _⟩
    · exact own
    · exact h.refresh r old live

omit [GoLib] in
theorem Admitted.vouched (h : Admitted G σ) (admin : AdminIn cfg G) {req p}
    (lets : ∀ k, LetsIn cfg σ (env, .login req) k → G k)
    (vouched : OAuthServer.Vouched cfg env σ.toAuthState req p) : G (subjectKeyForPrincipal p) := by
  unfold OAuthServer.Vouched at vouched
  split at vouched
  · exact h.login admin vouched
  · obtain ⟨provider, known, ok⟩ := vouched
    exact lets _ ⟨provider, known, p, ok, rfl⟩
  · exact vouched.elim

theorem Admitted.serve (h : Admitted G σ) (admin : AdminIn cfg G) {req}
    (lets : ∀ k, LetsIn cfg σ (env, .login req) k → G k) : Admitted G (apply cfg env σ (.login req)) := by
  obtain ⟨refresh, ⟨access, codes⟩ | ⟨sess, p, vouched, access, codes⟩⟩ :=
    @OAuthServer.serve_grants _ _ cfg env σ.toAuthState req
  · constructor
    all_goals simp only [apply, refresh, access, codes]
    exacts [h.named, h.users, h.tokens, h.codes, h.refresh, h.flights]
  · have own := h.vouched admin lets vouched
    have ensured := @Admitted.ensure _ _ _ h env.toEnv p cfg.bucket own
    have stored : ∀ c ∈ (OAuthServer.serve cfg env σ.toAuthState req).1.oauth.codes.rows,
        c.usedAt = none → G (subjectKeyForPrincipal c.principal) := by
      intro c mem unused
      rcases codes with same | put
      · rw [same] at mem
        exact h.codes c mem unused
      · rw [put] at mem
        rcases Table.mem_put.mp mem with rfl | ⟨old, _⟩
        · exact own
        · exact h.codes c old unused
    constructor
    all_goals simp only [apply, refresh, access]
    exacts [ensured.named, ensured.users, ensured.tokens, stored, h.refresh, h.flights]

theorem admitted_step (real : ∀ k, G k → k ≠ "") (admin : AdminIn cfg G) (input : AuthEnv × TokenEvent)
    (h : Admitted G σ) (lets : ∀ k, LetsIn cfg σ input k → G k) : Admitted G (step cfg σ input) := by
  obtain ⟨env, event⟩ := input
  have applied : Admitted G (apply cfg env σ event) := by
    cases event with
    | login => exact h.serve admin lets
    | access call => exact h.call call lets
    | arrive =>
      simp only [apply, arrive]
      split
      · refine h.setFlight fun k subject => ?_
        cases subject
      · exact h
    | advance => exact h.move real advance_move
  exact { applied with }

omit [GoLib] in
theorem Admitted.letsIn_ne_empty (h : Admitted G σ) {input} {k : String} (lets : LetsIn cfg σ input k) : k ≠ "" := by
  unfold LetsIn at lets
  split at lets
  · next call _ =>
    cases call with
    | upsertUserFromPrincipal p | ensurePrincipal p bucket =>
      exact (show _ = k from lets) ▸ subjectKeyForPrincipal_ne_empty p
    | createUser => exact lets.2 ▸ createUser_subjectKey_ne_empty
    | updateUser =>
      obtain ⟨_, u, found, rfl⟩ := lets
      exact h.named u (mem_of_get? found)
    | createToken => exact lets.2
    | _ => exact lets.elim
  · obtain ⟨_, _, p, _, rfl⟩ := lets
    exact subjectKeyForPrincipal_ne_empty p
  · exact lets.elim

theorem admitted_run (inputs : List (AuthEnv × TokenEvent)) :
    Admitted (· ≠ "") (Runs.run (step cfg) (start .empty) inputs) := by
  refine @Runs.run_preserves _ _ (step cfg) (Admitted (· ≠ "")) ?_ _ inputs ?_
  · intro σ input h
    exact admitted_step (fun _ named => named) (fun _ _ => by decide) input h fun _ => h.letsIn_ne_empty
  · constructor
    case flights => exact fun _ _ subject => nomatch subject
    all_goals exact fun _ mem => absurd mem List.not_mem_nil

end

/-- No other account of its key is active, its access tokens are revoked, its refresh
tokens and codes are used up, no request of it is under way, and it is not the
configured administrator. -/
structure Cleared [Digests] (cfg : OAuthConfig) (u : User) (σ : TokenServer) : Prop where
  users : ∀ v ∈ σ.access.users.rows, v.subjectKey = u.subjectKey → v.status = "active" → v.id = u.id
  tokens : ∀ t ∈ σ.access.tokens.rows, t.ownerSubjectKey = u.subjectKey → t.revokedAt ≠ none
  codes : ∀ c ∈ σ.oauth.codes.rows, subjectKeyForPrincipal c.principal = u.subjectKey → c.usedAt ≠ none
  refresh : ∀ r ∈ σ.oauth.refresh.rows, r.subjectKey = u.subjectKey → r.revokedAt ≠ none
  flights : ∀ i, (σ.flights i).phase.subject ≠ some u.subjectKey
  admin : u.subjectKey = defaultAdminKey → cfg.web.enabled = false ∨ cfg.web.expectedPassword = ""

theorem get?_updateUser {s : Store} {u patch} (row : s.users.get? u.id = some u) :
    ∃ users u', s.orSame (s.updateUser u.id patch) = { s with users := users } ∧
      users.get? u.id = some u' ∧ u'.PatchedBy u patch ∧ ∀ v ∈ users.rows, v = u' ∨ v ∈ s.users.rows := by
  unfold updateUser getUser
  rw [row]
  refine ⟨_, _, rfl, get?_put_self s.users _, ⟨rfl, rfl⟩, fun v mem => ?_⟩
  rcases Table.mem_put.mp mem with new | ⟨old, _⟩
  · exact .inl new
  · exact .inr old

theorem Cleared.disable [Digests] {cfg : OAuthConfig} {u patch σ}
    (cleared : Cleared cfg u σ) (env : Env) (h : Admitted (· ≠ "") σ) (row : σ.access.users.get? u.id = some u)
    (disabled : patch.status = "disabled") : Admitted (fun k => k ≠ "" ∧ k ≠ u.subjectKey)
      { σ with access := σ.access.call env (.updateUser u.id patch) } := by
  obtain ⟨users, _, after, found, patched, rows⟩ := @get?_updateUser σ.access u patch row
  have named : ∀ v ∈ users.rows, v.subjectKey ≠ "" := by
    intro v mem
    rcases rows v mem with rfl | old
    · rw [patched.subjectKey]
      exact h.named u (mem_of_get? row)
    · exact h.named v old
  simp only [call, after]
  constructor
  case named => exact named
  case users =>
    intro v mem active
    refine ⟨named v mem, fun same => ?_⟩
    -- the one account of the key that could be active is the one that was disabled
    have own : v.id = u.id := by
      rcases rows v mem with rfl | old
      · exact key_of_get? found
      · exact cleared.users v old same active
    have stored := get?_of_mem mem
    rw [own] at stored
    cases found.symm.trans stored
    rw [patched.status, disabled] at active
    simp at active
  case tokens => exact fun t mem live => ⟨h.tokens t mem live, fun same => cleared.tokens t mem same live⟩
  case codes => exact fun c mem unused => ⟨h.codes c mem unused, fun same => cleared.codes c mem same unused⟩
  case refresh => exact fun r mem unused => ⟨h.refresh r mem unused, fun same => cleared.refresh r mem same unused⟩
  case flights =>
    intro i k subject
    exact ⟨h.flights i k subject, fun same => cleared.flights i (same ▸ subject)⟩

end TokenServer

/-- A disabled user stays locked out in every run in which the account was cleared when
it was disabled, and no event afterwards lets its key in. -/
theorem disabled_user_stays_out [Digests] [GoLib] (cfg : OAuthConfig)
    (before after : List (AuthEnv × TokenEvent)) (env : AuthEnv) (u patch : User)
    (row : (Runs.run (TokenServer.step cfg) (.start .empty) before).access.users.get? u.id = some u)
    (disabled : patch.status = "disabled")
    (cleared : TokenServer.Cleared cfg u (Runs.run (TokenServer.step cfg) (.start .empty) before))
    (kept : Runs.Guarded (fun σ input => ¬ TokenServer.LetsIn cfg σ input u.subjectKey) (TokenServer.step cfg)
      (TokenServer.step cfg (Runs.run (TokenServer.step cfg) (.start .empty) before)
        (env, .access (.updateUser u.id patch))) after) :
    TokenServer.Shut cfg u.subjectKey (Runs.run (TokenServer.step cfg)
      (TokenServer.step cfg (Runs.run (TokenServer.step cfg) (.start .empty) before)
        (env, .access (.updateUser u.id patch))) after) := by
  have admin : TokenServer.AdminIn cfg (fun k => k ≠ "" ∧ k ≠ u.subjectKey) := by
    intro enabled configured
    refine ⟨by decide, fun same => ?_⟩
    rcases cleared.admin same.symm with off | blank
    · cases enabled.symm.trans off
    · exact configured blank
  have shut := cleared.disable env.toEnv (TokenServer.admitted_run before) row disabled
  have admitted := @Runs.run_invariant _ _ _ _ (TokenServer.Admitted fun k => k ≠ "" ∧ k ≠ u.subjectKey)
    (fun σ input h out => TokenServer.admitted_step (fun _ good => good.1) admin input h fun k lets =>
      ⟨h.letsIn_ne_empty lets, fun same => out (same ▸ lets)⟩) _ _ kept { shut with }
  exact admitted.shut admin fun good => good.2 rfl

/-- An administrator makes an account for `ann` and gives it a password. -/
def annJoins : List (AuthEnv × TokenEvent) :=
  [({ toEnv := draws "u" },
    .access (.createUser { subjectKey := "user:internal:ann", externalSubject := "ann", email := "ann@corp" })),
   ({ toEnv := draws "p" }, .access (.setUserPassword "user:internal:ann" "secret"))]

/-- `ann` logs in for a client, which exchanges the code. -/
def annConnects : List (AuthEnv × TokenEvent) :=
  [({ toEnv := draws "c" }, .login (.register (.ok { redirectURIs := ["cb"] }))),
   ({ toEnv := draws "s" }, .login (.authorize
      { clientID := "c", redirectURI := "cb", responseType := "code", codeChallenge := "s256:v" })),
   ({ toEnv := draws "k" }, .login (.login (.ok { loginSessionID := "s", username := "ann", password := "secret" }))),
   ({ toEnv := draws "0" },
    .arrive 0 (.exchange { code := "k", redirectURI := "cb", clientID := "c", codeVerifier := "v" }))] ++
    ["1", "2", "3", "4", "e"].map fun x => ({ toEnv := draws x }, .advance 0)

def annDisabled : AuthEnv × TokenEvent :=
  ({ toEnv := draws "d" }, .access (.updateUser "user:internal:ann" { status := "disabled" }))

/-- The client uses the refresh token `e`. -/
def annRefreshes : List (AuthEnv × TokenEvent) :=
  ({ toEnv := draws "5" }, .arrive 1 (.refresh { refreshToken := "e" })) ::
    ["6", "7", "8", "9", "10", "11", "f"].map fun x => ({ toEnv := draws x }, .advance 1)

/-- Disabled before there was anything to use, `ann` cannot log in. -/
theorem ann_stays_out :
    @TokenServer.Shut .plain adminRotationConfig "user:internal:ann"
      (Runs.run (@TokenServer.step .plain .plain adminRotationConfig)
        (@TokenServer.step .plain .plain adminRotationConfig
          (Runs.run (@TokenServer.step .plain .plain adminRotationConfig) (.start .empty) annJoins) annDisabled)
        (annConnects.take 3)) :=
  @disabled_user_stays_out .plain .plain adminRotationConfig annJoins (annConnects.take 3)
    { toEnv := draws "d" }
    { id := "user:internal:ann", subjectKey := "user:internal:ann", source := "internal",
      externalSubject := "ann", email := "ann@corp", displayName := "ann@corp", status := "active",
      passwordHash := "secret", createdAt := 1, lastSeenAt := 1 }
    { status := "disabled" } (by decide) rfl
    (@TokenServer.Cleared.mk .plain _ _ _ (by decide) (by decide) (by decide) (by decide) (fun _ => nofun)
      (by decide))
    ⟨fun lets => lets, fun lets => lets, fun lets => lets, trivial⟩

/-- Disabled later, `ann` keeps an access token that resolves, and the client gets
new tokens for its refresh token, which makes the account active again. -/
theorem disabled_user_comes_back :
    let σ := Runs.run (@TokenServer.step .plain .plain adminRotationConfig) (.start .empty)
      (annJoins ++ annConnects ++ [annDisabled]);
    let τ := Runs.run (@TokenServer.step .plain .plain adminRotationConfig) σ annRefreshes;
    (σ.access.users.get? "user:internal:ann").map User.status = some "disabled" ∧
      ¬ @TokenServer.Shut .plain adminRotationConfig "user:internal:ann" σ ∧
      (τ.flights 1).phase = .answered { accessToken := "syna_11", refreshToken := "f", expiresIn := 3600, scope := "mcp" } ∧
      (τ.access.users.get? "user:internal:ann").map User.status = some "active" := by
  refine ⟨by decide, ?_, by decide, by decide⟩
  intro shut
  exact @TokenServer.Shut.token .plain _ _ _ shut (draws "r") "syna_4" _ _ _ rfl rfl

end SynaMcp
