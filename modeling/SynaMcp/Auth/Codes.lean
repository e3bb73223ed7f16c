import SynaMcp.Auth.TokenEndpoint
import SynaMcp.Lib.Run

/-! Authorization codes in the in-memory store: of the requests for one code at most one
consumes it, and only one that presents what the code was issued for gets past the
checks. -/
namespace SynaMcp
open Keyed SingleUse

def Phase.granted : Phase → Bool
  | .idle | .consume | .failed _ _ _ => false
  | _ => true

def AuthorizationCode.UsedInTime (code : AuthorizationCode) : Prop := ∃ t, code.usedAt = some t ∧ t ≤ code.expiresAt

structure CodeRequest.Presents [GoLib] (req : CodeRequest) (code : AuthorizationCode) : Prop where
  clientID : req.clientID = code.clientID
  redirectURI : req.redirectURI = code.redirectURI
  verifier : GoLib.s256 req.codeVerifier = code.codeChallenge

/-- No two of the successful requests are for one code, and each presents what is
stored with its code, which it used in time. -/
structure RedeemedOnce [GoLib] (success : Nat → Option CodeRequest) (codes : Table AuthorizationCode.code) :
    Prop where
  once : ∀ i j req req', success i = some req → success j = some req' → req.code = req'.code → i = j
  bound : ∀ i req, success i = some req →
    ∃ code, codes.get? req.code = some code ∧ req.Presents code ∧ code.UsedInTime

def UsedKept (codes codes' : Table AuthorizationCode.code) : Prop :=
  ∀ c code, codes.get? c = some code → code.usedAt.isSome = true → codes'.get? c = some code

section
variable {codes codes' : Table AuthorizationCode.code} {code : AuthorizationCode} {now : Time} {raw : String}

section
variable (used : SingleUse.consume authorizationCodes now codes raw = .ok (codes', code))
include used

theorem usedKept_of_consume : UsedKept codes codes' := by
  intro c old stored spent
  have other : c ≠ raw := by
    rintro rfl
    obtain ⟨_, found, unused⟩ := unused_of_consume_ok used
    cases found.symm.trans stored
    rw [show old.usedAt = none from unused] at spent
    cases spent
  exact (get?_consume_of_ne used other).trans stored

theorem usedInTime_of_consume : code.UsedInTime := by
  obtain ⟨_, _, _, live, rfl, _⟩ := consume_ok used
  exact ⟨now, rfl, not_lt.mp live⟩

end

theorem usedKept_put (new : codes.get? code.code = none) : UsedKept codes (codes.put code) := by
  intro c old stored _
  rw [← stored]
  apply Table.get?_put_of_ne
  rintro rfl
  cases new.symm.trans stored

end

namespace TokenServer
section
variable [GoLib] {code : AuthorizationCode} {phase : Phase}

/-- A flight that exchanges a code and has consumed one has consumed its own, in
time; past the checks it presents what the code was issued for. -/
structure Exchanges (codes : Table AuthorizationCode.code) (f : Flight) (req : CodeRequest) : Prop where
  consumed : ∀ c, f.origin = some c → c = req.code ∧ ∃ code, codes.get? c = some code ∧ code.UsedInTime ∧
    (f.phase.granted = true → req.Presents code)
  granted : f.phase.granted = true → f.origin = some req.code

structure CodesSpent (σ : TokenServer) : Prop where
  flights : ∀ i req, (σ.flights i).request = .exchange req → Exchanges σ.oauth.codes (σ.flights i) req
  once : ∀ i j c req req', (σ.flights i).request = .exchange req → (σ.flights j).request = .exchange req' →
    (σ.flights i).origin = some c → (σ.flights j).origin = some c → i = j

def exchanged (σ : TokenServer) (i : Nat) : Option CodeRequest :=
  match (σ.flights i).request, (σ.flights i).phase with
  | .exchange req, .answered _ => some req
  | _, _ => none

theorem afterExchange_granted {req} (h : (afterExchange req code).granted = true) : req.Presents code := by
  unfold afterExchange at h
  split at h
  · cases h
  · next client =>
    split at h
    · cases h
    · next redirect =>
      split at h
      · cases h
      · next pkce =>
        simp only [Bool.not_eq_true', Bool.not_eq_false, verifyPKCES256] at pkce
        split at pkce
        · cases pkce
        · exact ⟨(not_not.mp client).symm, (not_not.mp redirect).symm, of_decide_eq_true pkce⟩

variable {σ : TokenServer} {i : Nat} {f : Flight} {codes : Table AuthorizationCode.code}
  {req : CodeRequest}

theorem Exchanges.mono {codes'} (h : Exchanges codes f req)
    (kept : UsedKept codes codes') : Exchanges codes' f req where
  consumed c origin := by
    obtain ⟨own, code, found, ⟨t, used, live⟩, presents⟩ := h.consumed c origin
    exact ⟨own, code, kept c code found (by rw [used]; rfl), ⟨t, used, live⟩, presents⟩
  granted := h.granted

theorem Exchanges.advance (h : Exchanges codes f req)
    (behind : phase.granted = true → f.phase.granted = true) : Exchanges codes { f with phase := phase } req where
  consumed c origin := by
    obtain ⟨own, code, found, used, presents⟩ := h.consumed c origin
    exact ⟨own, code, found, used, fun past => presents (behind past)⟩
  granted past := h.granted (behind past)

theorem CodesSpent.mono {σ'} (h : CodesSpent σ) (flights : σ'.flights = σ.flights)
    (kept : UsedKept σ.oauth.codes σ'.oauth.codes) : CodesSpent σ' where
  flights i req request := by
    rw [flights] at request ⊢
    exact (h.flights i req request).mono kept
  once := by
    rw [flights]
    exact h.once

section
variable (h : CodesSpent σ)
include h

theorem CodesSpent.setFlight (own : ∀ req, f.request = .exchange req → Exchanges σ.oauth.codes f req)
    (alone : ∀ j c req req', j ≠ i → f.request = .exchange req → f.origin = some c →
      (σ.flights j).request = .exchange req' → (σ.flights j).origin ≠ some c) : CodesSpent (σ.setFlight i f) := by
  constructor
  · intro j
    by_cases ji : j = i
    · subst ji
      rw [setFlight_flights_self]
      exact own
    · rw [setFlight_flights_of_ne ji]
      exact h.flights j
  · intro j k c req req'
    by_cases ji : j = i
    · by_cases ki : k = i
      · exact fun _ _ _ _ => ji.trans ki.symm
      · subst ji
        rw [setFlight_flights_self, setFlight_flights_of_ne ki]
        intro request request' origin origin'
        exact absurd origin' (alone k c req req' ki request origin request')
    · rw [setFlight_flights_of_ne ji]
      by_cases ki : k = i
      · subst ki
        rw [setFlight_flights_self]
        intro request request' origin origin'
        exact absurd origin (alone j c req' req ji request' origin' request)
      · rw [setFlight_flights_of_ne ki]
        exact h.once j k c req req'

theorem CodesSpent.advance (behind : phase.granted = true → (σ.flights i).phase.granted = true) :
    CodesSpent (σ.setFlight i { σ.flights i with phase := phase }) := by
  apply h.setFlight
  · intro req request
    exact Exchanges.advance (h.flights i req request) behind
  · intro j c req req' other request origin request' origin'
    exact other (h.once j i c req' req request' request origin' origin)

theorem CodesSpent.exchange {now codes'} (request : (σ.flights i).request = .exchange req)
    (used : SingleUse.consume authorizationCodes now σ.oauth.codes req.code = .ok (codes', code)) :
    CodesSpent ({ σ with oauth := { σ.oauth with codes := codes' } }.setFlight i
      { σ.flights i with origin := some req.code, phase := afterExchange req code }) := by
  have after : CodesSpent { σ with oauth := { σ.oauth with codes := codes' } } :=
    h.mono rfl (usedKept_of_consume used)
  apply after.setFlight
  · intro req' request'
    cases request.symm.trans request'
    refine ⟨fun c origin => ?_, fun _ => rfl⟩
    cases origin
    exact ⟨rfl, code, get?_consume_self used, usedInTime_of_consume used, afterExchange_granted⟩
  · intro j c req₁ req₂ _ _ origin request' origin'
    cases origin
    -- whoever had consumed the code would have left it used
    obtain ⟨_, _, found, ⟨_, usedAt, _⟩, _⟩ := (h.flights j req₂ request').consumed _ origin'
    obtain ⟨_, stored, unused⟩ := unused_of_consume_ok used
    cases found.symm.trans stored
    cases usedAt.symm.trans unused

theorem CodesSpent.arrive (req : TokenRequest) : CodesSpent (.arrive σ i req) := by
  unfold TokenServer.arrive
  split
  · apply h.setFlight
    · intro req' _
      constructor
      · intro c origin
        cases origin
      · intro past
        cases past
    · intro j c req req' _ _ origin
      cases origin
  · exact h

end

theorem codesSpent_of_idle (idle : ∀ i, σ.flights i = {}) : CodesSpent σ where
  flights i req request := by
    rw [idle] at request
    cases request
  once i j c req req' request := by
    rw [idle] at request
    cases request

theorem CodesSpent.redeemedOnce (h : CodesSpent σ) : RedeemedOnce σ.exchanged σ.oauth.codes := by
  have answered : ∀ {i req}, σ.exchanged i = some req →
      (σ.flights i).request = .exchange req ∧ (σ.flights i).phase.granted = true := by
    intro i req success
    unfold exchanged at success
    split at success
    · next request phase =>
      cases success
      exact ⟨request, by rw [phase]; rfl⟩
    · cases success
  constructor
  · intro i j req req' si sj same
    obtain ⟨request, past⟩ := answered si
    obtain ⟨request', past'⟩ := answered sj
    have origin := (h.flights i req request).granted past
    have origin' := (h.flights j req' request').granted past'
    exact h.once i j req.code req req' request request' origin (same ▸ origin')
  · intro i req success
    obtain ⟨request, past⟩ := answered success
    have flight := h.flights i req request
    obtain ⟨_, code, found, inTime, presents⟩ := flight.consumed req.code (flight.granted past)
    exact ⟨code, found, presents past, inTime⟩

end

section
variable [Digests] [GoLib] {cfg : OAuthConfig} {env : AuthEnv} {σ σ' : TokenServer} {i : Nat}

theorem CodesSpent.move (h : CodesSpent σ) (move : Move cfg env σ i σ') : CodesSpent σ' := by
  have kept : ∀ τ : TokenServer, τ.flights = σ.flights → τ.oauth.codes = σ.oauth.codes → CodesSpent τ := by
    intro τ flights codes
    apply h.mono flights
    rw [codes]
    exact fun _ _ found _ => found
  cases move with
  | still => exact h
  | failed => exact h.advance (fun past => by cases past)
  | exchanged phase request used =>
    obtain ⟨_, consumed, rfl⟩ := OAuthStore.consumeAuthorizationCode_ok used
    exact h.exchange request consumed
  | rotated phase request used =>
    obtain ⟨_, _, rfl⟩ := OAuthStore.consumeRefreshToken_ok used
    refine CodesSpent.setFlight (kept _ rfl rfl) (fun req request' => ?_) fun j c req req' _ request' => ?_
    · cases request.symm.trans request'
    · cases request.symm.trans request'
  | revoked phase | ensured phase | created phase made | saved phase =>
    exact CodesSpent.advance (kept _ rfl rfl) (fun _ => by simp only [phase, Phase.granted])
  | lookedUp phase | listed phase => exact h.advance (fun _ => by rw [phase]; rfl)

end

def NewCode (σ : TokenServer) (input : AuthEnv × TokenEvent) : Prop :=
  match input.2 with
  | .login _ => σ.oauth.codes.get? input.1.random = none
  | _ => True

section
variable [Digests] [GoLib] {cfg : OAuthConfig} {σ : TokenServer}

theorem codesSpent_step (input : AuthEnv × TokenEvent) (h : CodesSpent σ) (new : NewCode σ input) :
    CodesSpent (step cfg σ input) := by
  obtain ⟨env, event⟩ := input
  have applied : CodesSpent (apply cfg env σ event) := by
    cases event with
    | login req =>
      refine @CodesSpent.mono _ σ _ h rfl ?_
      obtain ⟨_, _, same | ⟨_, drawn, put⟩⟩ := @serve_records _ _ cfg env σ req
      · simp only [apply, same]
        exact fun _ _ found _ => found
      · simp only [apply, put]
        exact usedKept_put (drawn ▸ new)
    | access => exact h.mono rfl (fun _ _ found _ => found)
    | arrive i req => exact h.arrive req
    | advance => exact h.move advance_move
  exact applied.mono rfl (fun _ _ found _ => found)

theorem redeemedOnce_run (idle : ∀ i, σ.flights i = {}) {inputs} (new : Runs.Guarded NewCode (step cfg) σ inputs) :
    RedeemedOnce (Runs.run (step cfg) σ inputs).exchanged (Runs.run (step cfg) σ inputs).oauth.codes :=
  (Runs.run_invariant (fun _ input h ok => codesSpent_step input h ok) new (codesSpent_of_idle idle)).redeemedOnce

end
end TokenServer
end SynaMcp
