import SynaMcp.Auth.CodeDelivery
import SynaMcp.Auth.Codes
import SynaMcp.Lib.RowLocks

/-! Authorization codes in Postgres, where a transaction selects the row for update. Of
the minting behind it, which does not touch the codes, only the result is modelled. -/
namespace SynaMcp
open Keyed RowLocks Function Runs

/-- The database and the exchanges; the flight `i` consumes its code in the session `i`. -/
structure PgServer where
  db : Db AuthorizationCode.code Time
  flights : Nat → Option (CodeRequest × Phase)

inductive PgEvent where
  /-- A request arrives and its transaction begins. -/
  | arrive (i : Nat) (req : CodeRequest) (now : Time)
  | database (event : Event AuthorizationCode)
  /-- What the transaction returned is checked. -/
  | verify (i : Nat)
  | mint (i : Nat) (result : Except String TokenResponse)

namespace PgServer

def quiet (codes : Table AuthorizationCode.code) : PgServer where
  db := .quiet codes
  flights _ := none

def setFlight (σ : PgServer) (i : Nat) (req : CodeRequest) (phase : Phase) : PgServer :=
  { σ with flights := update σ.flights i (some (req, phase)) }

def afterConsume [GoLib] (req : CodeRequest) : Stage AuthorizationCode → Phase
  | .done code => TokenServer.afterExchange req code
  | .refused error => .failed 400 "invalid_grant" error
  | _ => .consume

def afterMint : Except String TokenResponse → Phase
  | .ok response => .answered response
  | .error e => .failed 500 "server_error" e

def step [GoLib] (σ : PgServer) : PgEvent → PgServer
  | .arrive i req now =>
    match σ.flights i with
    | none => { σ with db := σ.db.start i req.code now }.setFlight i req .consume
    | some _ => σ
  | .database event => { σ with db := σ.db.step authorizationCodes event }
  | .verify i =>
    match σ.flights i, σ.db.sessions i with
    | some (req, .consume), some s => σ.setFlight i req (afterConsume req s.stage)
    | _, _ => σ
  | .mint i result =>
    match σ.flights i with
    | some (req, .ensure _) => σ.setFlight i req (afterMint result)
    | _ => σ

def exchanged (σ : PgServer) (i : Nat) : Option CodeRequest :=
  match σ.flights i with
  | some (req, .answered _) => some req
  | _ => none

variable [GoLib]

/-- The session of a flight is for the code of its request; past the checks it is
done, and the request presents what the code was issued for. -/
def FlightSound (db : Db AuthorizationCode.code Time) (i : Nat) (req : CodeRequest) (phase : Phase) : Prop :=
  ∃ s, db.sessions i = some s ∧ s.key = req.code ∧
    (phase.granted = true → ∃ code, s.stage = .done code ∧ req.Presents code)

structure Sound (σ : PgServer) : Prop where
  db : σ.db.Exclusive authorizationCodes
  flights : ∀ i req phase, σ.flights i = some (req, phase) → FlightSound σ.db i req phase
  idle : ∀ i, σ.flights i = none → σ.db.sessions i = none

theorem sound_quiet (codes : Table AuthorizationCode.code) : Sound (quiet codes) where
  db := Db.exclusive_quiet codes
  flights _ _ _ started := by cases started
  idle _ _ := rfl

variable {σ : PgServer} {i : Nat} {req : CodeRequest} {phase : Phase}

theorem Sound.setFlight (h : Sound σ) {db}
    (exclusive : db.Exclusive authorizationCodes) (others : ∀ j, j ≠ i → db.sessions j = σ.db.sessions j)
    (own : FlightSound db i req phase) : Sound ({ σ with db := db }.setFlight i req phase) where
  db := exclusive
  flights j req' phase' started := by
    by_cases same : j = i
    · subst same
      simp only [PgServer.setFlight, update_self, Option.some.injEq, Prod.mk.injEq] at started
      obtain ⟨rfl, rfl⟩ := started
      exact own
    · simp only [PgServer.setFlight, update_of_ne same] at started
      obtain ⟨s, session, rest⟩ := h.flights j req' phase' started
      exact ⟨s, (others j same).trans session, rest⟩
  idle j quiet := by
    by_cases same : j = i
    · subst same
      simp [PgServer.setFlight] at quiet
    · simp only [PgServer.setFlight, update_of_ne same] at quiet
      exact (others j same).trans (h.idle j quiet)

theorem Sound.arrive (h : Sound σ) (new : σ.flights i = none) (now : Time) :
    Sound ({ σ with db := σ.db.start i req.code now }.setFlight i req .consume) := by
  have started : (σ.db.start i req.code now).sessions =
      update σ.db.sessions i (some { key := req.code, now := now }) := by
    unfold Db.start
    rw [h.idle i new]
    rfl
  apply h.setFlight (h.db.start req.code now)
  · intro j other
    rw [started, update_of_ne other]
  · exact ⟨_, by rw [started, update_self], rfl, fun past => by cases past⟩

theorem Sound.database (h : Sound σ) (event : Event AuthorizationCode) :
    Sound { σ with db := σ.db.step authorizationCodes event } where
  db := h.db.step event
  flights j req phase started := by
    obtain ⟨_, session, key, past⟩ := h.flights j req phase started
    obtain ⟨s', session', key', done⟩ := Db.step_session_some session event
    refine ⟨s', session', key'.trans key, fun granted => ?_⟩
    obtain ⟨code, stage, presents⟩ := past granted
    rw [done code stage]
    exact ⟨code, stage, presents⟩
  idle j quiet := Db.step_session_none (h.idle j quiet) event

theorem afterConsume_granted {stage} (h : (afterConsume req stage).granted = true) :
    ∃ code, stage = .done code ∧ req.Presents code := by
  cases stage with
  | done code => exact ⟨code, rfl, TokenServer.afterExchange_granted h⟩
  | begun | locked row | marked row | refused error => cases h

theorem sound_step (h : Sound σ) (event : PgEvent) : Sound (step σ event) := by
  cases event with
  | arrive i req now =>
    simp only [step]
    split
    · next new => exact h.arrive new now
    · exact h
  | database event => exact h.database event
  | verify i =>
    simp only [step]
    split
    · next req s flight session =>
      obtain ⟨_, session', key, _⟩ := h.flights i req .consume flight
      cases session.symm.trans session'
      exact h.setFlight h.db (fun _ _ => rfl) ⟨s, session, key, afterConsume_granted⟩
    · exact h
  | mint i =>
    simp only [step]
    split
    · next req input flight =>
      obtain ⟨s, session, key, past⟩ := h.flights i req (.ensure input) flight
      exact h.setFlight h.db (fun _ _ => rfl) ⟨s, session, key, fun _ => past rfl⟩
    · exact h

theorem Sound.redeemedOnce (h : Sound σ) : RedeemedOnce σ.exchanged σ.db.rows := by
  have answered : ∀ {i req}, σ.exchanged i = some req →
      ∃ s code, σ.db.sessions i = some s ∧ s.key = req.code ∧ s.stage = .done code ∧ req.Presents code := by
    intro i req success
    unfold exchanged at success
    split at success
    · next response flight =>
      cases success
      obtain ⟨s, session, key, past⟩ := h.flights i req (.answered response) flight
      obtain ⟨code, stage, presents⟩ := past rfl
      exact ⟨s, code, session, key, stage, presents⟩
    · cases success
  constructor
  · intro i j req req' si sj same
    obtain ⟨_, _, session, key, stage, _⟩ := answered si
    obtain ⟨_, _, session', key', stage', _⟩ := answered sj
    exact h.db.once session session' stage stage' (key.trans (same.trans key'.symm))
  · intro i req success
    obtain ⟨s, _, session, key, stage, presents⟩ := answered success
    have valid := h.db.valid session
    simp only [Db.Valid, stage, key] at valid
    obtain ⟨stored, _, live, rfl⟩ := valid
    exact ⟨_, stored, presents, s.now, rfl, not_lt.mp live⟩

theorem redeemedOnce_run (codes : Table AuthorizationCode.code) (events : List PgEvent) :
    RedeemedOnce (run step (quiet codes) events).exchanged (run step (quiet codes) events).db.rows := by
  have sound : Sound (run step (quiet codes) events) :=
    @Runs.run_preserves _ _ step Sound (fun _ event h => sound_step h event) _ events (sound_quiet codes)
  exact sound.redeemedOnce

end PgServer

/-- In every interleaving of token requests, logins and calls of the access store in
memory, where no login draws a code that is stored, and of token requests against
Postgres, with transactions that wait, fail or lose their answer: of the exchanges of
one code at most one is answered, which presented what is stored with the code and
consumed it in time. -/
theorem authorization_codes_redeemed_once [Digests] [GoLib] :
    (∀ (cfg : OAuthConfig) (σ : TokenServer) (inputs : List (AuthEnv × TokenEvent)),
      (∀ i, σ.flights i = {}) → Runs.Guarded TokenServer.NewCode (TokenServer.step cfg) σ inputs →
      RedeemedOnce (Runs.run (TokenServer.step cfg) σ inputs).exchanged
        (Runs.run (TokenServer.step cfg) σ inputs).oauth.codes) ∧
    ∀ (codes : Table AuthorizationCode.code) (events : List PgEvent),
      RedeemedOnce (Runs.run PgServer.step (PgServer.quiet codes) events).exchanged
        (Runs.run PgServer.step (PgServer.quiet codes) events).db.rows :=
  ⟨fun _ _ _ idle new => TokenServer.redeemedOnce_run idle new, PgServer.redeemedOnce_run⟩

/-- The client of `adminLogin` presents its code. -/
def adminExchange : CodeRequest where
  code := "k"
  redirectURI := "cb"
  clientID := "c"
  codeVerifier := "v"

def adminExchanges : List (AuthEnv × TokenEvent) :=
  adminLogin.map (fun step => (step.1, .login step.2)) ++
    ([.arrive 0 (.exchange adminExchange), .arrive 1 (.exchange adminExchange), .advance 0, .advance 1,
      .advance 0, .advance 0, .advance 0, .advance 0] : List TokenEvent).map ({ toEnv := draws "t" }, ·)

/-- The code of `adminLogin` as a row. -/
def adminCode : AuthorizationCode where
  code := "k"
  clientID := "c"
  subjectKey := "user:internal:root"
  principal := { userID := "root" }
  redirectURI := "cb"
  codeChallenge := "s256:v"
  expiresAt := 60

def pgExchanges : List PgEvent :=
  [.arrive 0 adminExchange 1, .arrive 1 adminExchange 2, .database (.select 0), .database (.select 1),
   .database (.mark 0), .database (.commit 0 .done), .database (.select 1), .database (.mark 1),
   .verify 0, .verify 1, .mint 0 (.ok { accessToken := "a", refreshToken := "r", expiresIn := 1, scope := "mcp" })]

def adminServed : TokenServer := run (@TokenServer.step .plain .plain adminConfig) (.start .empty) adminExchanges

def pgServed : PgServer := run (@PgServer.step .plain) (.quiet (Table.empty.put adminCode)) pgExchanges

/-- In both the first request is answered and the second is refused. -/
theorem admin_code_redeemed_once :
    (adminServed.exchanged 0 = some adminExchange ∧ adminServed.exchanged 1 = none ∧
        @RedeemedOnce .plain adminServed.exchanged adminServed.oauth.codes) ∧
      pgServed.exchanged 0 = some adminExchange ∧ pgServed.exchanged 1 = none ∧
        @RedeemedOnce .plain pgServed.exchanged pgServed.db.rows :=
  ⟨⟨by decide, by decide,
      (@authorization_codes_redeemed_once .plain .plain).1 adminConfig (.start .empty) adminExchanges
        (fun _ => rfl)
        ⟨rfl, rfl, rfl, trivial, trivial, trivial, trivial, trivial, trivial, trivial, trivial, trivial⟩⟩,
    ⟨by decide, by decide, (@authorization_codes_redeemed_once .plain .plain).2 _ pgExchanges⟩⟩

end SynaMcp
