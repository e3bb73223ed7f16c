import SynaMcp.Access.Calls
import SynaMcp.Auth.CodeDelivery
import SynaMcp.Lib.Baton

/-! Login sessions under interleaving. A request is a flight through phases, each of
which ends where the handler calls a store. A session is carried by the store, then by
the flight that took it, and at last by the code issued from it. -/
namespace SynaMcp
open Keyed List Function Table

inductive LoginPhase where
  | idle
  | start (req : LoginRequest)
  | findClient (form : LoginForm) (sess : LoginSession)
  | authenticate (form : LoginForm) (sess : LoginSession) (client : OAuthClient)
  | take (sessionID : String) (sess : LoginSession) (p : Principal)
  | resave (sess : LoginSession) (provider : Provider)
  | ensure (sess : LoginSession) (p : Principal)
  | save (sess : LoginSession) (p : Principal)
  | answered (response : AuthResponse)

namespace LoginPhase

def holds : LoginPhase → Option String
  | .ensure sess _ | .save sess _ => some sess.id
  | _ => none

def Own : LoginPhase → Prop
  | .findClient form sess | .authenticate form sess _ => sess.id = form.loginSessionID
  | .take sessionID sess _ => sess.id = sessionID
  | _ => True

section
variable [Digests] [GoLib] (cfg : OAuthConfig) (env : AuthEnv) (σ : AuthState)
  {sess : LoginSession} {sessionID id : String}

/-- The first phase of a request. Registering and opening a session have no other. -/
def first : LoginRequest → AuthState × LoginPhase
  | .register body => ((OAuthServer.register cfg env σ body).1, .answered (OAuthServer.register cfg env σ body).2)
  | .authorize query => ((OAuthServer.authorize cfg env σ query).1, .answered (OAuthServer.authorize cfg env σ query).2)
  | .login (.error _) => (σ, .answered (.error "invalid form" 400))
  | .login (.ok form) =>
    match σ.oauth.getLoginSession env.toEnv form.loginSessionID with
    | none => (σ, .answered (.error "login session expired" 400))
    | some sess => (σ, .findClient form sess)
  | .oidcStart sessionID providerName =>
    match σ.oauth.getLoginSession env.toEnv sessionID with
    | none => (σ, .answered (.error "login session expired" 400))
    | some sess =>
      match OAuthServer.providerByName cfg providerName with
      | none => (σ, .answered (.error "provider not configured for login" 400))
      | some provider =>
        if provider.clientID = "" then (σ, .answered (.error "provider not configured for login" 400))
        else (σ, .resave { sess with providerName := provider.name } provider)
  | .oidcCallback sessionID code =>
    if sessionID = "" ∨ code = "" then (σ, .answered (.error "missing code/state" 400))
    else
      let (oauth, taken) := σ.oauth.takeLoginSession env.toEnv sessionID
      let σ := { σ with oauth := oauth }
      match taken with
      | none => (σ, .answered (.error "login session expired" 400))
      | some sess =>
        match OAuthServer.providerByName cfg sess.providerName with
        | none => (σ, .answered (.error "unknown provider" 400))
        | some provider =>
          match cfg.oidcPrincipal provider code with
          | .error (e, status) => (σ, .answered (.error e status))
          | .ok p => (σ, .ensure sess p)

/-- The password way takes the session without looking at what it got. -/
def next : LoginPhase → AuthState × LoginPhase
  | .idle => (σ, .idle)
  | .answered response => (σ, .answered response)
  | .start req => first cfg env σ req
  | .findClient form sess =>
    match σ.oauth.getClient sess.clientID with
    | none => (σ, .answered (.error "invalid_client" 400))
    | some client => (σ, .authenticate form sess client)
  | .authenticate form sess client =>
    match authenticateInternal cfg.web env.choose σ.access (GoStrings.trimSpace form.username) form.password with
    | .error _ => (σ, .answered (OAuthServer.renderLogin sess client "invalid credentials"))
    | .ok p => (σ, .take form.loginSessionID sess p)
  | .take sessionID sess p =>
    ({ σ with oauth := (σ.oauth.takeLoginSession env.toEnv sessionID).1 }, .ensure sess p)
  | .resave sess provider =>
    let (oauth, sess) := σ.oauth.saveLoginSession env.toEnv sess
    ({ σ with oauth := oauth }, .answered (.toProvider provider sess.id))
  | .ensure sess p => ({ σ with access := (ensurePrincipal env.toEnv σ.access p cfg.bucket).1 }, .save sess p)
  | .save sess p =>
    match env.fault with
    | some e => (σ, .answered (.error e 500))
    | none =>
      ({ σ with oauth := σ.oauth.saveAuthorizationCode env.toEnv (OAuthServer.newCode cfg env sess p) },
        .answered (match GoLib.parseURL sess.redirectURI with
          | none => .error "invalid redirect_uri" 400
          | some u => .codeRedirect (codeLocation u env.random sess.state)))

def issues : LoginPhase → Option String
  | .save sess _ => if env.fault = none then some sess.id else none
  | _ => none

def alone : Nat → AuthState → LoginPhase → AuthState × LoginPhase
  | 0, σ, phase => (σ, phase)
  | n + 1, σ, phase => alone n (next cfg env σ phase).1 (next cfg env σ phase).2

/-- The flight comes to an answer in that many phases, and leaves the state that comes with it. -/
def Answers (n : Nat) (phase : LoginPhase) (result : AuthState × AuthResponse) : Prop :=
  alone cfg env n σ phase = (result.1, .answered result.2)

variable {cfg env σ}

theorem Answers.done {n r} : Answers cfg env σ n (.answered r) (σ, r) := by
  unfold Answers
  induction n with
  | zero => rfl
  | succ n ih => exact ih

theorem answers_ensure {p n} :
    Answers cfg env σ (n + 2) (.ensure sess p) (OAuthServer.completeAuthorize cfg env σ sess p) := by
  unfold Answers
  simp only [alone, next, OAuthServer.completeAuthorize]
  cases env.fault with
  | none | some e => exact Answers.done

theorem answers_login {form} :
    Answers cfg env σ 6 (.start (.login (.ok form))) (OAuthServer.authorizeLogin cfg env σ (.ok form)) := by
  unfold Answers
  simp only [OAuthServer.authorizeLogin]
  rw [alone, next, first]
  cases σ.oauth.getLoginSession env.toEnv form.loginSessionID with
  | none => exact Answers.done
  | some sess =>
    simp only
    rw [alone, next]
    cases σ.oauth.getClient sess.clientID with
    | none => exact Answers.done
    | some =>
      simp only
      rw [alone, next]
      cases authenticateInternal cfg.web env.choose σ.access (GoStrings.trimSpace form.username) form.password with
      | error => exact Answers.done
      | ok => exact answers_ensure

theorem answers_oidcStart {name} : Answers cfg env σ 6 (.start (.oidcStart sessionID name))
      (OAuthServer.authorizeOIDCStart cfg env σ sessionID name) := by
  unfold Answers
  simp only [OAuthServer.authorizeOIDCStart]
  rw [alone, next, first]
  cases σ.oauth.getLoginSession env.toEnv sessionID with
  | none => exact Answers.done
  | some =>
    cases OAuthServer.providerByName cfg name with
    | none => exact Answers.done
    | some =>
      simp only
      split
      · exact Answers.done
      · exact Answers.done

theorem answers_oidcCallback {state code} :
    Answers cfg env σ 6 (.start (.oidcCallback state code)) (OAuthServer.oidcCallback cfg env σ state code) := by
  unfold Answers
  simp only [OAuthServer.oidcCallback]
  rw [alone, next, first]
  split
  · exact Answers.done
  · obtain ⟨_, taken⟩ := σ.oauth.takeLoginSession env.toEnv state
    cases taken with
    | none => exact Answers.done
    | some sess =>
      simp only
      cases OAuthServer.providerByName cfg sess.providerName with
      | none => exact Answers.done
      | some provider =>
        simp only
        cases cfg.oidcPrincipal provider code with
        | error => exact Answers.done
        | ok => exact answers_ensure

/-- The phases of a request that nothing interrupts are the request as one step. -/
theorem answers_serve (req : LoginRequest) : Answers cfg env σ 6 (.start req) (OAuthServer.serve cfg env σ req) := by
  cases req with
  | register body | authorize query => exact .done
  | login form =>
    cases form with
    | error => exact .done
    | ok => exact answers_login
  | oidcStart => exact answers_oidcStart
  | oidcCallback => exact answers_oidcCallback

variable (cfg env σ)

/-- What a phase does to the sessions and the codes, and from which session it issues one. -/
inductive Move (phase : LoginPhase) (σ' : AuthState) : LoginPhase → Option String → Prop where
  /-- Sessions are dropped at most, and the flight holds none. -/
  | dropped {phase'} (sub : ∀ id, σ'.oauth.logins.Has id → σ.oauth.logins.Has id)
      (codes : σ'.oauth.codes = σ.oauth.codes) (free : phase'.holds = none) (own : phase.Own → phase'.Own) :
      Move phase σ' phase' none
  /-- A session is stored under a new id. -/
  | opened {r} (logins : ∀ id, σ'.oauth.logins.Has id → σ.oauth.logins.Has id ∨ id = (env.uuid 0).val)
      (codes : σ'.oauth.codes = σ.oauth.codes) : Move phase σ' (.answered r) none
  | resaved {sess provider r} (was : phase = .resave sess provider)
      (logins : ∀ id, σ'.oauth.logins.Has id → σ.oauth.logins.Has id ∨ id = sess.id)
      (codes : σ'.oauth.codes = σ.oauth.codes) : Move phase σ' (.answered r) none
  | taken {sessionID sess p}
      (was : phase = .take sessionID sess p ∨ sess.id = sessionID ∧ σ.oauth.logins.Has sessionID)
      (logins : ∀ id, σ'.oauth.logins.Has id → σ.oauth.logins.Has id ∧ id ≠ sessionID)
      (codes : σ'.oauth.codes = σ.oauth.codes) : Move phase σ' (.ensure sess p) none
  | ensured {sess p} (was : phase = .ensure sess p)
      (oauth : σ'.oauth = σ.oauth) : Move phase σ' (.save sess p) none
  | issued {sess p r} (was : phase = .save sess p)
      (logins : σ'.oauth.logins = σ.oauth.logins)
      (codes : σ'.oauth.codes = σ.oauth.codes.put { OAuthServer.newCode cfg env sess p with createdAt := env.now }) :
      Move phase σ' (.answered r) (some sess.id)

variable {cfg env σ}

omit [GoLib] in
theorem Move.same {phase phase'} (free : phase'.holds = none) (own : phase.Own → phase'.Own) :
    Move cfg env σ phase σ phase' none :=
  .dropped (fun _ h => h) rfl free own

omit [Digests] [GoLib] in
theorem takeLoginSession_has (h : (σ.oauth.takeLoginSession env.toEnv sessionID).1.logins.Has id) :
    σ.oauth.logins.Has id ∧ id ≠ sessionID := by
  unfold OAuthStore.takeLoginSession at h
  split at h
  · next missing =>
    refine ⟨h, ?_⟩
    rintro rfl
    rw [← isSome_get?_iff, missing] at h
    cases h
  · exact Table.has_delete.mp h

omit [Digests] [GoLib] in
theorem saveLoginSession_has (h : (σ.oauth.saveLoginSession env.toEnv sess).1.logins.Has id) :
    σ.oauth.logins.Has id ∨ id = orNew sess.id (env.uuid 0) :=
  (Table.has_put.mp h).symm.imp_right Eq.symm

omit [Digests] in
theorem register_has {body} : (OAuthServer.register cfg env σ body).1.oauth.logins = σ.oauth.logins ∧
      (OAuthServer.register cfg env σ body).1.oauth.codes = σ.oauth.codes := by
  unfold OAuthServer.register
  split
  · exact ⟨rfl, rfl⟩
  · split
    · exact ⟨rfl, rfl⟩
    · split <;> exact ⟨rfl, rfl⟩

theorem authorize_move (query : AuthorizeQuery) :
    Move cfg env σ (.start (.authorize query)) (OAuthServer.authorize cfg env σ query).1
      (.answered (OAuthServer.authorize cfg env σ query).2) none := by
  unfold OAuthServer.authorize
  split
  · exact .same rfl id
  · split
    · exact .same rfl id
    · split
      · exact .same rfl id
      · split
        · exact .same rfl id
        · split
          · exact .same rfl id
          · exact .opened (fun id h => saveLoginSession_has h) rfl

theorem callback_move (state code : String) :
    Move cfg env σ (.start (.oidcCallback state code)) (first cfg env σ (.oidcCallback state code)).1
      (first cfg env σ (.oidcCallback state code)).2 none := by
  simp only [first]
  split
  · exact .same rfl id
  · have has : ∀ id, (σ.oauth.takeLoginSession env.toEnv state).1.logins.Has id →
        σ.oauth.logins.Has id ∧ id ≠ state := fun _ => takeLoginSession_has
    obtain ⟨⟨logins, after, _⟩, found⟩ := OAuthStore.takeLoginSession_cases env.toEnv σ.oauth state
    have kept : ∀ r, Move cfg env σ (.start (.oidcCallback state code))
        { σ with oauth := { σ.oauth with logins := logins } } (.answered r) none := by
      intro r
      rw [after] at has
      exact .dropped (fun id h => (has id h).1) rfl rfl id
    simp only [after] at has ⊢
    split
    · exact kept _
    · next sess taken =>
      split
      · exact kept _
      · split
        · exact kept _
        · have stored := found sess taken
          refine .taken (.inr ⟨key_of_get? stored, ?_⟩) has rfl
          exact isSome_get?_iff.mp (by rw [stored]; rfl)

theorem first_move (req : LoginRequest) :
    Move cfg env σ (.start req) (first cfg env σ req).1 (first cfg env σ req).2 none := by
  cases req with
  | register =>
    refine .dropped (fun id h => ?_) register_has.2 rfl id
    rw [← register_has.1]
    exact h
  | authorize query => exact authorize_move query
  | login form =>
    cases form with
    | error => exact .same rfl id
    | ok =>
      simp only [first]
      split
      · exact .same rfl id
      · next found => exact .same rfl fun _ => key_of_get? (OAuthStore.getLoginSession_some found)
  | oidcStart =>
    simp only [first]
    split
    · exact .same rfl id
    · split
      · exact .same rfl id
      · split
        · exact .same rfl id
        · exact .same rfl id
  | oidcCallback state code => exact callback_move state code

theorem next_move (phase : LoginPhase) :
    Move cfg env σ phase (next cfg env σ phase).1 (next cfg env σ phase).2 (phase.issues env) := by
  cases phase with
  | idle | answered r => exact .same rfl id
  | start req => exact first_move req
  | findClient form sess | authenticate form sess client =>
    simp only [next]
    split
    · exact .same rfl fun _ => trivial
    · exact .same rfl id
  | take sessionID =>
    refine .taken (.inl rfl) (fun _ => takeLoginSession_has) ?_
    obtain ⟨⟨_, after, _⟩, _⟩ := OAuthStore.takeLoginSession_cases env.toEnv σ.oauth sessionID
    simp only [next, after]
  | resave sess =>
    by_cases unnamed : sess.id = ""
    · refine .opened (fun id h => ?_) rfl
      simpa [orNew, unnamed] using saveLoginSession_has h
    · refine .resaved rfl (fun id h => ?_) rfl
      simpa [orNew, unnamed] using saveLoginSession_has h
  | ensure => exact .ensured rfl rfl
  | save =>
    simp only [next, issues]
    split
    · next fault =>
      rw [if_neg (by simp [fault])]
      exact .same rfl fun _ => trivial
    · next fine =>
      rw [if_pos fine]
      exact .issued rfl rfl rfl

end

def expects : LoginPhase → Option String
  | .take sessionID _ _ => some sessionID
  | .resave sess _ => some sess.id
  | _ => none

end LoginPhase

/-- The stores and the flights. The last two fields are history: the session and the
code of every code that was stored, and the uuids drawn so far. -/
structure LoginServer extends AuthState where
  flights : Nat → LoginPhase
  issued : List (String × String)
  drawn : List String

inductive LoginEvent where
  | access (call : StoreCall)
  | arrive (i : Nat) (req : LoginRequest)
  | advance (i : Nat)

/-- What carries a session: the store, a flight that took it, a code issued from it. -/
inductive Carrier where
  | store
  | flight (i : Nat)
  | code

namespace LoginServer

def start (access : Store) : LoginServer where
  access := access
  oauth := .empty
  flights _ := .idle
  issued := []
  drawn := []

def moved (env : AuthEnv) (σ : LoginServer) (i : Nat) (after : AuthState) (phase : LoginPhase)
    (made : Option String) : LoginServer :=
  { σ with
    toAuthState := after
    flights := update σ.flights i phase
    issued := made.toList.map (·, env.random) ++ σ.issued }

section
variable [Digests] [GoLib] (cfg : OAuthConfig) (env : AuthEnv) (σ : LoginServer)

def advance (i : Nat) : LoginServer :=
  let (after, phase) := LoginPhase.next cfg env σ.toAuthState (σ.flights i)
  moved env σ i after phase ((σ.flights i).issues env)

def arrive (σ : LoginServer) (i : Nat) (req : LoginRequest) : LoginServer :=
  match σ.flights i with
  | .idle => { σ with flights := update σ.flights i (.start req) }
  | _ => σ

def apply : LoginEvent → LoginServer
  | .access call => { σ with access := σ.access.call env.toEnv call }
  | .arrive i req => arrive σ i req
  | .advance i => advance cfg env σ i

def step (σ : LoginServer) (input : AuthEnv × LoginEvent) : LoginServer :=
  { apply cfg input.1 σ input.2 with drawn := (input.1.uuid 0).val :: σ.drawn }

end

def Fresh (σ : LoginServer) (input : AuthEnv × LoginEvent) : Prop := (input.1.uuid 0).val ∉ σ.drawn

instance (σ : LoginServer) (input : AuthEnv × LoginEvent) : Decidable (Fresh σ input) :=
  inferInstanceAs (Decidable (_ ∉ _))

/-- A session that the step takes with a password or writes back is still stored. -/
def Stands (σ : LoginServer) (input : AuthEnv × LoginEvent) : Prop :=
  match input.2 with
  | .advance i => ∀ id ∈ (σ.flights i).expects, (σ.oauth.logins.get? id).isSome = true
  | _ => True

instance (σ : LoginServer) : (input : AuthEnv × LoginEvent) → Decidable (Stands σ input)
  | (_, .access _) => .isTrue trivial
  | (_, .arrive _ _) => .isTrue trivial
  | (_, .advance i) =>
    inferInstanceAs (Decidable (∀ id ∈ (σ.flights i).expects, (σ.oauth.logins.get? id).isSome = true))

def Issued (σ : LoginServer) (id : String) : Prop := id ∈ σ.issued.map Prod.fst

def Carries (σ : LoginServer) (id : String) : Carrier → Option Unit → Prop
  | .store, k => σ.oauth.logins.Has id ∧ k = none
  | .flight i, k => (σ.flights i).holds = some id ∧ k = none
  | .code, k => σ.Issued id ∧ k = some ()

/-- Every session has one carrier at most, and was drawn; every stored code is on record. -/
structure Carried (σ : LoginServer) : Prop where
  linear : Baton.Linear σ.Carries fun id _ => σ.Issued id
  once : (σ.issued.map Prod.fst).Nodup
  drawn : ∀ id a k, σ.Carries id a k → id ∈ σ.drawn
  own : ∀ i, (σ.flights i).Own
  codes : ∀ code ∈ σ.oauth.codes.rows, ∃ id, (id, code.code) ∈ σ.issued

theorem start_carries {access id a k} : ¬ (start access).Carries id a k := by
  cases a with
  | store =>
    rintro ⟨⟨_, mem, _⟩, _⟩
    cases mem
  | flight =>
    rintro ⟨holds, _⟩
    cases holds
  | code =>
    rintro ⟨issued, _⟩
    cases issued

theorem carried_start (access : Store) : Carried (start access) where
  linear := .empty (fun _ _ _ => start_carries) fun id _ issued => by cases issued
  once := nodup_nil
  drawn id a k carries := absurd carries start_carries
  own _ := trivial
  codes code mem := by cases mem

section
variable {env : AuthEnv} {σ : LoginServer} {i : Nat} {after : AuthState} {phase : LoginPhase} {made : Option String}
  {r : AuthResponse} {sess : LoginSession}

theorem moved_carries {id a k} (carries : (moved env σ i after phase made).Carries id a k) :
    (a = .store ∧ k = none ∧ after.oauth.logins.Has id) ∨ (a = .flight i ∧ k = none ∧ phase.holds = some id) ∨
      (a = .code ∧ k = some () ∧ made = some id) ∨ (a ≠ .store ∧ a ≠ .flight i ∧ σ.Carries id a k) := by
  cases a with
  | store => exact .inl ⟨rfl, carries.2, carries.1⟩
  | flight j =>
    by_cases same : j = i
    · subst same
      simp only [Carries, moved, update_self] at carries
      exact .inr (.inl ⟨rfl, carries.2, carries.1⟩)
    · simp only [Carries, moved, update_of_ne same] at carries
      exact .inr (.inr (.inr ⟨by simp, by simpa using same, carries⟩))
  | code =>
    obtain ⟨issued, rfl⟩ := carries
    simp only [Issued, moved, map_append, mem_append] at issued
    rcases issued with new | old
    · obtain ⟨_, pair, rfl⟩ := List.mem_map.mp new
      obtain ⟨_, mem, rfl⟩ := List.mem_map.mp pair
      exact .inr (.inr (.inl ⟨rfl, rfl, Option.mem_toList.mp mem⟩))
    · exact .inr (.inr (.inr ⟨by simp, by simp, old, rfl⟩))

section
variable (h : Carried σ)
include h

theorem Carried.moved (own : phase.Own)
    (linear : Baton.Linear (LoginServer.moved env σ i after phase made).Carries
      fun id _ => (LoginServer.moved env σ i after phase made).Issued id)
    (once : ∀ id ∈ made, ¬ σ.Issued id)
    (known : ∀ id, after.oauth.logins.Has id ∨ phase.holds = some id ∨ made = some id →
      id ∈ (env.uuid 0).val :: σ.drawn)
    (codes : ∀ code ∈ after.oauth.codes.rows, code ∈ σ.oauth.codes.rows ∨ made.isSome ∧ code.code = env.random) :
    Carried { LoginServer.moved env σ i after phase made with drawn := (env.uuid 0).val :: σ.drawn } where
  linear := linear
  once := by
    cases made with
    | none => exact h.once
    | some id => exact List.nodup_cons.mpr ⟨once id rfl, h.once⟩
  drawn id a k carries := by
    rcases moved_carries carries with ⟨_, _, has⟩ | ⟨_, _, holds⟩ | ⟨_, _, issues⟩ | ⟨_, _, old⟩
    · exact known id (.inl has)
    · exact known id (.inr (.inl holds))
    · exact known id (.inr (.inr issues))
    · exact mem_cons_of_mem _ (h.drawn id a k old)
  own := (forall_update_iff _ fun _ => LoginPhase.Own).mpr ⟨own, fun j _ => h.own j⟩
  codes code mem := by
    rcases codes code mem with old | ⟨issues, new⟩
    · obtain ⟨id, known⟩ := h.codes code old
      exact ⟨id, mem_append_right _ known⟩
    · obtain ⟨id, rfl⟩ := Option.isSome_iff_exists.mp issues
      exact ⟨id, by rw [new]; exact mem_cons_self⟩

theorem Carried.fewer (own : phase.Own) (codes : after.oauth.codes = σ.oauth.codes)
    (logins : ∀ id, after.oauth.logins.Has id → σ.oauth.logins.Has id)
    (holds : ∀ id, phase.holds = some id → (σ.flights i).holds = some id) :
    Carried { LoginServer.moved env σ i after phase none with drawn := (env.uuid 0).val :: σ.drawn } := by
  have before : ∀ id a k, (LoginServer.moved env σ i after phase none).Carries id a k → σ.Carries id a k := by
    intro id a k carries
    rcases moved_carries carries with ⟨rfl, rfl, has⟩ | ⟨rfl, rfl, held⟩ | ⟨_, _, issues⟩ | ⟨_, _, old⟩
    · exact ⟨logins id has, rfl⟩
    · exact ⟨holds id held, rfl⟩
    · cases issues
    · exact old
  refine h.moved own (h.linear.mono before fun _ _ issued => issued) (fun id mem => by cases mem) ?_ ?_
  · rintro id (has | held | issues)
    · exact mem_cons_of_mem _ (h.drawn id .store none ⟨logins id has, rfl⟩)
    · exact mem_cons_of_mem _ (h.drawn id (.flight i) none ⟨holds id held, rfl⟩)
    · cases issues
  · intro code mem
    rw [codes] at mem
    exact .inl mem

theorem Carried.grown {access uuid} :
    Carried { σ with access := access, drawn := uuid :: σ.drawn } where
  linear := h.linear
  once := h.once
  drawn id a k carries := mem_cons_of_mem _ (h.drawn id a k carries)
  own := h.own
  codes := h.codes

theorem Carried.opened (new : (env.uuid 0).val ∉ σ.drawn) (codes : after.oauth.codes = σ.oauth.codes)
    (logins : ∀ id, after.oauth.logins.Has id → σ.oauth.logins.Has id ∨ id = (env.uuid 0).val) : Carried
      { LoginServer.moved env σ i after (.answered r) none with drawn := (env.uuid 0).val :: σ.drawn } := by
  have unheld : ∀ a k, ¬ σ.Carries (env.uuid 0).val a k := fun a k carries => new (h.drawn _ a k carries)
  refine h.moved trivial ?_ (fun id mem => by cases mem) ?_ ?_
  · refine @Baton.Linear.start _ _ _ _ _ _ _ h.linear _ .store unheld
      (fun _ issued => unheld .code _ ⟨issued, rfl⟩) ?_ fun _ _ issued => issued
    intro id a k carries
    rcases moved_carries carries with ⟨rfl, rfl, has⟩ | ⟨_, _, held⟩ | ⟨_, _, issues⟩ | ⟨_, _, old⟩
    · rcases logins id has with old | rfl
      · exact .inl ⟨old, rfl⟩
      · exact .inr ⟨rfl, rfl, rfl⟩
    · cases held
    · cases issues
    · exact .inl old
  · rintro id (has | held | issues)
    · rcases logins id has with old | rfl
      · exact mem_cons_of_mem _ (h.drawn id .store none ⟨old, rfl⟩)
      · exact mem_cons_self
    · cases held
    · cases issues
  · intro code mem
    rw [codes] at mem
    exact .inl mem

theorem Carried.taken {p} (stored : σ.oauth.logins.Has sess.id) (codes : after.oauth.codes = σ.oauth.codes)
    (logins : ∀ id, after.oauth.logins.Has id → σ.oauth.logins.Has id ∧ id ≠ sess.id) : Carried
      { LoginServer.moved env σ i after (.ensure sess p) none with drawn := (env.uuid 0).val :: σ.drawn } := by
  have had : σ.Carries sess.id .store none := ⟨stored, rfl⟩
  refine h.moved trivial ?_ (fun id mem => by cases mem) ?_ ?_
  · refine @Baton.Linear.pass _ _ _ _ _ _ _ h.linear sess.id .store (.flight i) none none had ?_
      (fun _ _ _ issued => issued) fun _ issued => h.linear.answers had issued
    intro id a k carries
    rcases moved_carries carries with ⟨rfl, rfl, has⟩ | ⟨rfl, rfl, held⟩ | ⟨_, _, issues⟩ | ⟨other, _, old⟩
    · exact .inl ⟨⟨(logins id has).1, rfl⟩, fun same => (logins id has).2 same.1⟩
    · cases held
      exact .inr ⟨rfl, rfl, rfl⟩
    · cases issues
    · exact .inl ⟨old, fun same => other same.2⟩
  · rintro id (has | held | issues)
    · exact mem_cons_of_mem _ (h.drawn id .store none ⟨(logins id has).1, rfl⟩)
    · cases held
      exact mem_cons_of_mem _ (h.drawn _ _ _ had)
    · cases issues
  · intro code mem
    rw [codes] at mem
    exact .inl mem

theorem Carried.issued {code}
    (holds : (σ.flights i).holds = some sess.id) (logins : after.oauth.logins = σ.oauth.logins)
    (drawn : code.code = env.random) (codes : after.oauth.codes = σ.oauth.codes.put code) : Carried
      { LoginServer.moved env σ i after (.answered r) (some sess.id) with drawn := (env.uuid 0).val :: σ.drawn } := by
  have had : σ.Carries sess.id (.flight i) none := ⟨holds, rfl⟩
  refine h.moved trivial ?_ (fun id mem issued => ?_) ?_ ?_
  · refine @Baton.Linear.pass _ _ _ _ _ _ _ h.linear sess.id (.flight i) .code none (some ()) had ?_ ?_ fun _ _ => rfl
    · intro id a k carries
      rcases moved_carries carries with ⟨rfl, rfl, has⟩ | ⟨_, _, held⟩ | ⟨rfl, rfl, issues⟩ | ⟨_, other, old⟩
      · rw [logins] at has
        exact .inl ⟨⟨has, rfl⟩, fun same => by cases same.2⟩
      · cases held
      · exact .inr ⟨(Option.some.inj issues).symm, rfl, rfl⟩
      · exact .inl ⟨old, fun same => other same.2⟩
    · intro id _ other issued
      exact (List.mem_cons.mp issued).resolve_left other
  · cases mem
    cases h.linear.answers had (t := ()) issued
  · rintro id (has | held | issues)
    · rw [logins] at has
      exact mem_cons_of_mem _ (h.drawn id .store none ⟨has, rfl⟩)
    · cases held
    · cases issues
      exact mem_cons_of_mem _ (h.drawn _ _ _ had)
  · intro stored mem
    rw [codes] at mem
    rcases Table.mem_put.mp mem with rfl | ⟨old, _⟩
    · exact .inr ⟨rfl, drawn⟩
    · exact .inl old

end

end
section
variable [Digests] [GoLib] {cfg : OAuthConfig} {σ : LoginServer}

theorem Carried.advance {env i} (h : Carried σ) (new : (env.uuid 0).val ∉ σ.drawn)
    (stands : ∀ id ∈ (σ.flights i).expects, σ.oauth.logins.Has id) :
    Carried { LoginServer.advance cfg env σ i with drawn := (env.uuid 0).val :: σ.drawn } := by
  have move := @LoginPhase.next_move _ _ cfg env σ.toAuthState (σ.flights i)
  simp only [LoginServer.advance]
  generalize LoginPhase.next cfg env σ.toAuthState (σ.flights i) = result at move ⊢
  generalize (σ.flights i).issues env = made at move ⊢
  obtain ⟨_, _⟩ := result
  cases move with
  | dropped sub codes free own =>
    exact h.fewer (own (h.own i)) codes sub fun id held => by cases free.symm.trans held
  | opened logins codes => exact h.opened new codes logins
  | @resaved _ _ _ was logins codes =>
    refine h.fewer trivial codes (fun id has => ?_) fun id held => by cases held
    rcases logins id has with old | rfl
    · exact old
    · exact stands _ (by rw [was]; rfl)
  | @taken sessionID sess _ was logins codes =>
    have stored : sess.id = sessionID ∧ σ.oauth.logins.Has sessionID := by
      rcases was with was | found
      · have own := h.own i
        rw [was] at own
        exact ⟨own, stands _ (by rw [was]; rfl)⟩
      · exact found
    obtain ⟨rfl, has⟩ := stored
    exact h.taken has codes logins
  | ensured was oauth =>
    refine h.fewer trivial (congrArg OAuthStore.codes oauth) (fun id has => oauth ▸ has) fun id held => ?_
    rw [was]
    exact held
  | issued was logins codes =>
    refine h.issued ?_ logins rfl codes
    rw [was]
    rfl

theorem carried_step (input : AuthEnv × LoginEvent) (h : Carried σ) (fresh : Fresh σ input)
    (stands : Stands σ input) : Carried (step cfg σ input) := by
  obtain ⟨_, event⟩ := input
  cases event with
  | access => exact h.grown
  | arrive =>
    simp only [step, apply, arrive]
    split
    · exact h.fewer trivial rfl (fun _ has => has) fun id held => by cases held
    · exact h.grown
  | advance => exact h.advance fresh fun id mem => isSome_get?_iff.mp (stands id mem)

end
end LoginServer

/-- In every run whose uuids are new, and in which a session that a login takes or that
is written back is still stored then, no two codes were issued from one session, and
every stored code was issued from one. -/
theorem one_code_from_standing_session [Digests] [GoLib] (cfg : OAuthConfig) (access : Store)
    (inputs : List (AuthEnv × LoginEvent))
    (fresh : Runs.Guarded LoginServer.Fresh (LoginServer.step cfg) (.start access) inputs)
    (stands : Runs.Guarded LoginServer.Stands (LoginServer.step cfg) (.start access) inputs) :
    ((Runs.run (LoginServer.step cfg) (.start access) inputs).issued.map Prod.fst).Nodup ∧
      ∀ code ∈ (Runs.run (LoginServer.step cfg) (.start access) inputs).oauth.codes.rows,
        ∃ id, (id, code.code) ∈ (Runs.run (LoginServer.step cfg) (.start access) inputs).issued := by
  have carried : LoginServer.Carried (Runs.run (LoginServer.step cfg) (.start access) inputs) := by
    refine Runs.run_invariant ?_ (fresh.and stands) (LoginServer.carried_start access)
    intro σ input h ok
    exact LoginServer.carried_step input h ok.1 ok.2
  exact ⟨carried.once, carried.codes⟩

/-- A client is registered and a session opened; then logins with the password arrive
and move in the order that is given. -/
def adminEnters (flights moves : List Nat) : List (AuthEnv × LoginEvent) :=
  [({ toEnv := draws "0" }, .arrive 0 (.register (.ok { redirectURIs := ["cb"] }))),
   ({ toEnv := draws "c" }, .advance 0),
   ({ toEnv := draws "1" }, .arrive 1
     (.authorize { clientID := "c", redirectURI := "cb", responseType := "code", codeChallenge := "s256:v" })),
   ({ toEnv := draws "s" }, .advance 1)] ++
  flights.map (fun i => ({ toEnv := draws ("a" ++ toString i) },
    .arrive i (.login (.ok { loginSessionID := "s", username := "root", password := "pw" })))) ++
  moves.mapIdx fun n i => ({ toEnv := draws ("k" ++ toString n) }, .advance i)

theorem admin_gets_one_code :
    (Runs.run (@LoginServer.step .plain .plain adminConfig) (.start Store.empty)
        (adminEnters [2] [2, 2, 2, 2, 2, 2])).issued = [("s", "k5")] ∧
      ((Runs.run (@LoginServer.step .plain .plain adminConfig) (.start Store.empty)
        (adminEnters [2] [2, 2, 2, 2, 2, 2])).issued.map Prod.fst).Nodup :=
  ⟨by decide, (@one_code_from_standing_session .plain .plain adminConfig Store.empty
    (adminEnters [2] [2, 2, 2, 2, 2, 2]) (by decide) (by decide)).1⟩

/-- Two logins that both read the session before one takes it both store a code. -/
theorem admin_gets_two_codes :
    Runs.Guarded LoginServer.Fresh (@LoginServer.step .plain .plain adminConfig) (.start Store.empty)
        (adminEnters [2, 3] [2, 3, 2, 3, 2, 3, 2, 3, 2, 3, 2, 3]) ∧
      (Runs.run (@LoginServer.step .plain .plain adminConfig) (.start Store.empty)
        (adminEnters [2, 3] [2, 3, 2, 3, 2, 3, 2, 3, 2, 3, 2, 3])).issued = [("s", "k11"), ("s", "k10")] ∧
      ((Runs.run (@LoginServer.step .plain .plain adminConfig) (.start Store.empty)
        (adminEnters [2, 3] [2, 3, 2, 3, 2, 3, 2, 3, 2, 3, 2, 3])).oauth.codes.rows.map
          AuthorizationCode.code) = ["k11", "k10"] := by
  decide

end SynaMcp
