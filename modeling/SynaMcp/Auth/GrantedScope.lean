import SynaMcp.Auth.Codes
import SynaMcp.Auth.Rotation

/-! The scope of a grant. A code carries the scope that was asked for, and its exchange
names it; the token has the mode of the configuration, and a refreshed one is made
without a scope. -/
namespace SynaMcp
open Keyed SingleUse Table TokenServer List Runs

def AuthorizationCode.grantedScope (code : AuthorizationCode) : String := orElse "" code.scope "mcp"

def writePermissions : List StoragePermission := [.documentCreate, .documentUpdate, .documentDelete]

/-- Whatever scopes and bindings there are, the token does not let its bearer write. -/
def AccessToken.NeverWrites [Digests] (t : AccessToken) : Prop :=
  ∀ p scopes acl storageID, ∀ q ∈ writePermissions,
    (evaluateStorageAccess p (some t) scopes acl storageID q).2 = false

structure AccessToken.SameRights (t' t : AccessToken) : Prop where
  id : t'.id = t.id
  mode : t'.mode = t.mode
  allowed : t'.allowedPermissions = t.allowedPermissions

theorem AccessToken.SameRights.updates : AccessToken.Updates AccessToken.SameRights where
  refl _ := ⟨rfl, rfl, rfl⟩
  used _ _ := ⟨rfl, rfl, rfl⟩
  revoked _ _ := ⟨rfl, rfl, rfl⟩
  limited _ _ := ⟨rfl, rfl, rfl⟩

/-- The rights of a token of the OAuth server: its configured mode, and no permission list. -/
structure AccessToken.MintedBy (cfg : OAuthConfig) (t : AccessToken) : Prop where
  mode : t.mode = orElse .unset cfg.defaultTokenMode .readWrite
  unlisted : t.allowedPermissions = []

theorem AccessToken.MintedBy.of_same {cfg} {t t' : AccessToken} (h : t.MintedBy cfg)
    (same : t'.SameRights t) : t'.MintedBy cfg :=
  ⟨same.mode.trans h.mode, same.allowed.trans h.unlisted⟩

theorem storageTokenMode_closed {t} (closed : t.mode = .none ∨ t.mode = .read)
    (scopes : List AccessTokenStorage) (storageID : String) :
    storageTokenMode t scopes storageID = .none ∨ storageTokenMode t scopes storageID = .read := by
  unfold storageTokenMode
  split
  · exact .inl rfl
  · rcases closed with mode | mode
    · exact .inl (if_pos (.inl mode))
    · exact intersectMode_of_read (.inl mode)

/-- No other mode keeps from writing: `intersectMode` takes it for `read_write`. -/
theorem storageTokenMode_open {t} (notNone : t.mode ≠ .none) (notRead : t.mode ≠ .read) (storageID : String) :
    storageTokenMode t [{ storageID := storageID, maxMode := .readWrite }] storageID = .readWrite := by
  simp [storageTokenMode, intersectMode, notNone, notRead]

/-- Where there is no permission list, the mode of the token decides. -/
theorem AccessToken.neverWrites_iff [Digests] {t : AccessToken} (unlisted : t.allowedPermissions = []) :
    t.NeverWrites ↔ t.mode = .none ∨ t.mode = .read := by
  constructor
  · intro never
    by_contra writes
    obtain ⟨notNone, notRead⟩ := not_or.mp writes
    have carries : .documentCreate ∈
        modePermissions (storageTokenMode t [{ storageID := "s", maxMode := .readWrite }] "s") := by
      rw [storageTokenMode_open notNone notRead]
      decide
    -- the owner of a storage that the token names
    have denied := never {} [{ storageID := "s", maxMode := .readWrite }]
      [{ id := "b", storageID := "s", subjectKey := "", role := .storageOwner }] "s" .documentCreate mem_cons_self
    rw [Bool.eq_false_iff, Ne, evaluateStorageAccess_some_iff] at denied
    exact denied ⟨⟨carries, .inl unlisted⟩, _, List.mem_singleton.mpr rfl, rfl, by decide⟩
  · intro closed p scopes acl storageID q write
    rw [Bool.eq_false_iff, Ne, evaluateStorageAccess_some_iff]
    rintro ⟨⟨carried, _⟩, _⟩
    rcases storageTokenMode_closed closed scopes storageID with mode | mode
    · rw [mode] at carried
      exact absurd carried not_mem_nil
    · rw [mode] at carried
      simp only [writePermissions, mem_cons, not_mem_nil, or_false] at write
      rcases write with rfl | rfl | rfl <;> exact absurd carried (by decide)

theorem AccessToken.MintedBy.neverWrites_iff [Digests] {cfg} {t : AccessToken} (h : t.MintedBy cfg) :
    t.NeverWrites ↔ cfg.defaultTokenMode = .none ∨ cfg.defaultTokenMode = .read := by
  rw [AccessToken.neverWrites_iff h.unlisted, h.mode]
  unfold orElse
  split
  · next unset => simp [unset]
  · exact Iff.rfl

theorem mintedBy_newToken [Digests] {cfg env now input ids} :
    (Store.newToken env (oauthTokenInput cfg now input ids)).MintedBy cfg where
  mode := by
    simp only [Store.newToken, oauthTokenInput]
    by_cases unset : cfg.defaultTokenMode = .unset
    · simp [orElse, unset]
    · simp [orElse, unset]
  unlisted := rfl

def Phase.answerScope : Phase → Option String
  | .ensure input | .readable input _ | .create input _ | .save input _ _ => some (orElse "" input.scope "mcp")
  | .answered response => some response.scope
  | _ => none

def Phase.rotates : Phase → Bool
  | .revoke _ | .lookup _ => true
  | _ => false

namespace TokenServer

/-- The answer to an exchange names the scope of its code, that to a refresh names `mcp`. -/
structure Scoped (codes : Table AuthorizationCode.code) (f : Flight) : Prop where
  exchange : ∀ req, f.request = .exchange req → f.phase.rotates = false ∧
    ∀ scope ∈ f.phase.answerScope, ∃ code, codes.get? req.code = some code ∧ scope = code.grantedScope
  refresh : ∀ req, f.request = .refresh req → ∀ scope ∈ f.phase.answerScope, scope = "mcp"

def ScopesKept (codes codes' : Table AuthorizationCode.code) : Prop :=
  ∀ c code, codes.get? c = some code → ∃ code', codes'.get? c = some code' ∧ code'.scope = code.scope

section
variable {codes codes' : Table AuthorizationCode.code} {f : Flight} {code : AuthorizationCode} {phase : Phase}

theorem ScopesKept.refl : ScopesKept codes codes := fun _ code found => ⟨code, found, rfl⟩

theorem ScopesKept.consume {now raw}
    (used : SingleUse.consume authorizationCodes now codes raw = .ok (codes', code)) : ScopesKept codes codes' := by
  intro c old found
  by_cases same : c = raw
  · subst same
    obtain ⟨_, stored, _, _, marked, _⟩ := consume_ok used
    cases stored.symm.trans found
    exact ⟨code, get?_consume_self used, by rw [marked]; rfl⟩
  · exact ⟨old, (get?_consume_of_ne used same).trans found, rfl⟩

theorem ScopesKept.put (new : codes.get? code.code = none) : ScopesKept codes (codes.put code) := by
  intro c old found
  refine ⟨old, ?_, rfl⟩
  rw [← found]
  apply get?_put_of_ne
  rintro rfl
  cases new.symm.trans found

theorem Scoped.mono (h : Scoped codes f) (kept : ScopesKept codes codes') : Scoped codes' f where
  exchange req request := by
    refine ⟨(h.exchange req request).1, fun scope mem => ?_⟩
    obtain ⟨code, found, rfl⟩ := (h.exchange req request).2 scope mem
    obtain ⟨code', found', same⟩ := kept req.code code found
    exact ⟨code', found', by simp only [AuthorizationCode.grantedScope, same]⟩
  refresh := h.refresh

theorem Scoped.silent {origin} (none : phase.answerScope = none)
    (rotates : ∀ req, f.request = .exchange req → phase.rotates = false) :
    Scoped codes { f with phase := phase, origin := origin } where
  exchange req request := by
    refine ⟨rotates req request, fun scope mem => ?_⟩
    rw [none] at mem
    cases mem
  refresh req request scope mem := by
    rw [none] at mem
    cases mem

theorem Scoped.toward (h : Scoped codes f) (same : phase.answerScope = f.phase.answerScope)
    (rotates : phase.rotates = false) : Scoped codes { f with phase := phase } where
  exchange req request := by
    refine ⟨rotates, fun scope mem => ?_⟩
    rw [same] at mem
    exact (h.exchange req request).2 scope mem
  refresh req request scope mem := by
    rw [same] at mem
    exact h.refresh req request scope mem

end

def Rights (cfg : OAuthConfig) (σ : TokenServer) : Prop :=
  ∀ c t, (some c, t) ∈ σ.minted → ∀ row, σ.access.tokens.get? t = some row → row.MintedBy cfg

section
variable {cfg : OAuthConfig} {σ σ' : TokenServer} {i : Nat}

theorem Rights.of_updates (h : Rights cfg σ) (same : TokensFrom AccessToken.SameRights σ.access σ'.access)
    (minted : σ'.minted = σ.minted) : Rights cfg σ' := by
  intro c t mem row found
  obtain ⟨old, had, rights⟩ := same row (mem_of_get? found)
  rw [minted] at mem
  refine (h c t mem old ?_).of_same rights
  rw [← key_of_get? found, rights.id]
  exact get?_of_mem had

theorem Rights.of_eq (h : Rights cfg σ) (tokens : σ'.access.tokens = σ.access.tokens)
    (minted : σ'.minted = σ.minted) : Rights cfg σ' :=
  h.of_updates (.of_eq AccessToken.SameRights.updates.refl tokens) minted

theorem Rights.put {drawn token} (h : Rights cfg σ) (recorded : Recorded drawn σ)
    (new : token.id ∉ drawn) (put : σ'.access.tokens = σ.access.tokens.put token) {c t row}
    (mem : (some c, t) ∈ σ.minted) (found : σ'.access.tokens.get? t = some row) : row.MintedBy cfg := by
  have other : token.id ≠ t := by
    rintro rfl
    exact new (recorded.minted c _ mem).2
  rw [put, get?_put_of_ne _ other] at found
  exact h c t mem row found

theorem flights_scoped {f} (h : ∀ j, Scoped σ.oauth.codes (σ.flights j)) (kept : ScopesKept σ.oauth.codes σ'.oauth.codes)
    (flights : σ'.flights = σ.flights) (own : Scoped σ'.oauth.codes f) (j : Nat) :
    Scoped (σ'.setFlight i f).oauth.codes ((σ'.setFlight i f).flights j) := by
  refine setFlight_flights_all (P := fun _ f => Scoped σ'.oauth.codes f) own (fun j _ => ?_) j
  rw [flights]
  exact (h j).mono kept

end

structure Granting (cfg : OAuthConfig) (σ : TokenServer) : Prop where
  rights : Rights cfg σ
  answers : ∀ i, Scoped σ.oauth.codes (σ.flights i)

section
variable [Digests] [GoLib] {cfg : OAuthConfig} {env : AuthEnv} {σ σ' : TokenServer} {i : Nat} {drawn : List String}

omit [Digests] in
theorem afterExchange_scoped {codes} {f : Flight} {req code} (request : f.request = .exchange req) (found : codes.get? req.code = some code) :
    Scoped codes { f with origin := some req.code, phase := afterExchange req code } := by
  unfold afterExchange
  split
  · exact .silent rfl fun _ _ => rfl
  · split
    · exact .silent rfl fun _ _ => rfl
    · split
      · exact .silent rfl fun _ _ => rfl
      · refine ⟨fun req' request' => ⟨rfl, fun scope mem => ?_⟩, fun req' request' => ?_⟩
        · cases request.symm.trans request'
          cases mem
          exact ⟨code, found, rfl⟩
        · cases request.symm.trans request'

omit [Digests] [GoLib] in
theorem afterRotation_scoped {codes} {f : Flight} {req existing origin} (request : f.request = .refresh req) :
    Scoped codes { f with origin := origin, phase := afterRotation req existing } := by
  have never : ∀ {phase : Phase} req', f.request = .exchange req' → phase.rotates = false := by
    intro _ req' request'
    cases request.symm.trans request'
  unfold afterRotation
  split
  · exact .silent rfl never
  · exact .silent rfl never

theorem Granting.move (h : Granting cfg σ) (recorded : Recorded drawn σ) (fresh : (env.uuid 0).val ∉ drawn)
    (move : Move cfg env σ i σ') : Granting cfg σ' := by
  have own := h.answers i
  cases move with
  | still => exact h
  | failed => exact ⟨h.rights, flights_scoped h.answers .refl rfl (.silent rfl fun _ _ => rfl)⟩
  | @exchanged _ _ _ _ request used =>
    obtain ⟨_, consumed, rfl⟩ := OAuthStore.consumeAuthorizationCode_ok used
    refine ⟨h.rights, flights_scoped h.answers (.consume consumed) rfl ?_⟩
    exact afterExchange_scoped request (get?_consume_self consumed)
  | rotated phase request used =>
    obtain ⟨_, _, rfl⟩ := OAuthStore.consumeRefreshToken_ok used
    exact ⟨h.rights, flights_scoped h.answers .refl rfl (afterRotation_scoped request)⟩
  | @revoked _ phase =>
    refine ⟨h.rights.of_updates ?_ rfl, flights_scoped h.answers .refl rfl (.silent rfl fun req request => ?_)⟩
    · exact tokensFrom_updateToken AccessToken.SameRights.updates.refl fun t =>
        AccessToken.SameRights.updates.revoked t env.now
    · have never := (own.exchange req request).1
      rw [phase] at never
      cases never
  | @lookedUp _ phase =>
    refine ⟨h.rights, flights_scoped h.answers .refl rfl ⟨fun req request => ?_, fun req request scope mem => ?_⟩⟩
    · have never := (own.exchange req request).1
      rw [phase] at never
      cases never
    · cases mem
      rfl
  | ensured phase =>
    refine ⟨h.rights.of_eq ensurePrincipal_tokens rfl, flights_scoped h.answers .refl rfl (own.toward ?_ rfl)⟩
    rw [phase]
    rfl
  | listed phase | saved phase =>
    refine ⟨h.rights, flights_scoped h.answers .refl rfl (own.toward ?_ rfl)⟩
    rw [phase]
    rfl
  | @created _ _ _ _ _ phase made =>
    obtain ⟨rfl, _, rfl⟩ := Store.createToken_ok made
    refine ⟨fun c t mem row found => ?_, flights_scoped h.answers .refl rfl (own.toward ?_ rfl)⟩
    · rcases List.mem_cons.mp mem with new | old
      · cases (Prod.mk.inj new).2
        cases (get?_put_self _ _).symm.trans found
        exact mintedBy_newToken
      · exact h.rights.put recorded fresh rfl old found
    · rw [phase]
      rfl

theorem granting_step (input : AuthEnv × TokenEvent) (h : Granting cfg σ) (recorded : Recorded σ.drawn σ)
    (fresh : Fresh σ input) : Granting cfg (step cfg σ input) := by
  obtain ⟨env, event⟩ := input
  cases event with
  | login req =>
    obtain ⟨_, tokens, codes⟩ := @serve_records _ _ cfg env σ req
    refine ⟨h.rights.of_eq tokens rfl, fun i => (h.answers i).mono ?_⟩
    rcases codes with same | ⟨code, drew, put⟩
    · simp only [step, apply, same]
      exact .refl
    · simp only [step, apply, put]
      apply ScopesKept.put
      cases found : σ.oauth.codes.get? code.code with
      | none => rfl
      | some row =>
        have known := recorded.codes row (mem_of_get? found)
        rw [key_of_get? found, drew] at known
        exact absurd known fresh.2
  | access call =>
    refine ⟨?_, h.answers⟩
    rcases call_tokens_from AccessToken.SameRights.updates call with same | ⟨_, _, _, put⟩
    · exact h.rights.of_updates same rfl
    · exact fun c t mem row found => h.rights.put recorded fresh.1 put mem found
  | arrive =>
    simp only [step, apply, arrive]
    split
    · exact ⟨h.rights, flights_scoped h.answers .refl rfl ⟨fun _ _ => ⟨rfl, fun _ mem => by cases mem⟩,
        fun _ _ _ mem => by cases mem⟩⟩
    · exact ⟨h.rights, h.answers⟩
  | advance i =>
    have moved := h.move recorded fresh.1 (@advance_move _ _ cfg env σ i)
    exact ⟨moved.rights, moved.answers⟩

omit [Digests] [GoLib] in
theorem granting_start (access : Store) : Granting cfg (start access) where
  rights c t mem := absurd mem not_mem_nil
  answers i := ⟨fun req request => (by cases request), fun req request scope mem => (by cases mem)⟩

end
end TokenServer

/-- In every run: a token minted along the chain of a code never lets its bearer write
iff the configured mode is `none` or `read`; the exchange answers with the scope of the
code, and a refresh does so iff that is the scope `mcp`. -/
theorem oauth_scope_kept_iff [Digests] [GoLib] (cfg : OAuthConfig) (access : Store)
    (inputs : List (AuthEnv × TokenEvent))
    (fresh : Runs.Guarded TokenServer.Fresh (TokenServer.step cfg) (.start access) inputs) {c : String}
    {code : AuthorizationCode}
    (stored : (Runs.run (TokenServer.step cfg) (.start access) inputs).oauth.codes.get? c = some code) :
    let σ := run (step cfg) (.start access) inputs
    (∀ t row, (some c, t) ∈ σ.minted → σ.access.tokens.get? t = some row →
      (row.NeverWrites ↔ cfg.defaultTokenMode = .none ∨ cfg.defaultTokenMode = .read)) ∧
    (∀ i req response, (σ.flights i).request = .exchange req → req.code = c →
      (σ.flights i).phase = .answered response → response.scope = code.grantedScope) ∧
    ∀ i req response, (σ.flights i).request = .refresh req → (σ.flights i).origin = some c →
      (σ.flights i).phase = .answered response →
      (response.scope = code.grantedScope ↔ code.scope = "" ∨ code.scope = "mcp") := by
  have invariant : TokenServer.Rotating (run (step cfg) (.start access) inputs) ∧
      TokenServer.Granting cfg (run (step cfg) (.start access) inputs) := by
    refine @Runs.run_invariant _ _ _ _ (fun σ => TokenServer.Rotating σ ∧ TokenServer.Granting cfg σ) ?_ _ _ fresh
      ⟨rotating_start access, granting_start access⟩
    rintro σ input ⟨rotating, granting⟩ ok
    exact ⟨rotating_step input rotating ok, granting_step input granting rotating.recorded ok⟩
  obtain ⟨_, granting⟩ := invariant
  refine ⟨fun t row mem found => (granting.rights c t mem row found).neverWrites_iff, ?_, ?_⟩
  · rintro i req response request rfl phase
    obtain ⟨_, found, scope⟩ := ((granting.answers i).exchange req request).2 response.scope (by rw [phase]; rfl)
    cases stored.symm.trans found
    exact scope
  · intro i req response request _ phase
    have scope := (granting.answers i).refresh req request response.scope (by rw [phase]; rfl)
    rw [scope, AuthorizationCode.grantedScope]
    unfold orElse
    split
    · next empty => simp [empty]
    · next named => simp [named, eq_comm]

/-- The administrator's client asks for a scope, exchanges its code and uses the refresh token `e`. -/
def scopedRotation (scope : String) : List (AuthEnv × TokenEvent) :=
  [({ toEnv := draws "c" }, .login (.register (.ok { redirectURIs := ["cb"] }))),
   ({ toEnv := draws "s" }, .login (.authorize
     { clientID := "c", redirectURI := "cb", responseType := "code", codeChallenge := "s256:v", scope := scope }))] ++
  adminRotation.drop 2

def scopedServer (mode : AccessMode) (scope : String) : TokenServer :=
  run (@TokenServer.step .plain .plain { adminRotationConfig with defaultTokenMode := mode }) (.start .empty)
    (scopedRotation scope)

/-- The refreshed token `11` of a server that is configured with `read`. -/
theorem read_server_stays_within_scope :
    ∃ row, (scopedServer .read "").access.tokens.get? "11" = some row ∧ @AccessToken.NeverWrites .plain row := by
  have kept := @oauth_scope_kept_iff .plain .plain { adminRotationConfig with defaultTokenMode := .read } .empty
    (scopedRotation "") (by decide) "k" _ rfl
  exact ⟨_, rfl, (kept.1 "11" _ (by decide) rfl).mpr (.inr rfl)⟩

/-- With the default configuration a code for `knowledge.read` gives tokens that create
documents in the personal storage `k`, and the refresh answers with another scope. -/
theorem read_scope_token_writes :
    ((scopedServer .readWrite "knowledge.read").oauth.codes.get? "k").map AuthorizationCode.scope =
        some "knowledge.read" ∧
      (some "k", "11") ∈ (scopedServer .readWrite "knowledge.read").minted ∧
      (∃ row, (scopedServer .readWrite "knowledge.read").access.tokens.get? "11" = some row ∧
        @storageAllowed .plain (scopedServer .readWrite "knowledge.read").access
          { subjectKey := "user:internal:default-admin", authSource := "access_token" } (some row)
          ((scopedServer .readWrite "knowledge.read").access.tokenStorages "11") "k" .documentCreate = true) ∧
      ((scopedServer .readWrite "knowledge.read").flights 1).phase.answerScope = some "mcp" := by
  refine ⟨by decide, by decide, ⟨_, rfl, ?_⟩, by decide⟩
  exact (@storageAllowed_some_iff .plain _ _ _ _ _ _).mpr ⟨by decide, by decide +kernel, by decide⟩

end SynaMcp
