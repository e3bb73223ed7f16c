import SynaMcp.Auth.Server
import SynaMcp.Lib.Run

/-! Where authorization codes are sent. The redirect URI is checked at registration and
when a session is opened; the redirect is built later from the stored session. -/
namespace SynaMcp
open Keyed Table

namespace OAuthServer
section
variable [GoLib]

/-- Every session was opened by a client that exists, for a URI that this client
registered and that is allowed. -/
def SessionsRegistered (cfg : OAuthConfig) (o : OAuthStore) : Prop :=
  ∀ sess ∈ o.logins.rows, ∃ client, o.clients.get? sess.clientID = some client ∧
    sess.redirectURI ∈ client.redirectURIs ∧ ∃ u, AllowedURI cfg.allowedRedirectURIPatterns sess.redirectURI u

theorem SessionsRegistered.mono {cfg o} (h : SessionsRegistered cfg o)
    {logins} (sub : ∀ sess ∈ logins.rows, sess ∈ o.logins.rows)
    (codes : Table AuthorizationCode.code) : SessionsRegistered cfg { o with logins := logins, codes := codes } :=
  fun sess mem => h sess (sub sess mem)

theorem SessionsRegistered.save {cfg env o sess} (h : SessionsRegistered cfg o) {client}
    (known : o.clients.get? sess.clientID = some client) (has : sess.redirectURI ∈ client.redirectURIs)
    (allowed : ∃ u, AllowedURI cfg.allowedRedirectURIPatterns sess.redirectURI u) :
    SessionsRegistered cfg (o.saveLoginSession env sess).1 := by
  intro x mem
  rcases Table.mem_put.mp mem with rfl | ⟨old, _⟩
  · exact ⟨client, known, has, allowed⟩
  · exact h x old

variable [Digests] (cfg : OAuthConfig) (σ : AuthState) (input : AuthEnv × LoginRequest)

def step : AuthState :=
  (serve cfg input.1 σ input.2).1

/-- A redirect with a code leads to the URI of the session, which the client of the
session registered, with another query. -/
def SentToRegistered (_ : AuthState) : Prop :=
  ∀ location, (serve cfg input.1 σ input.2).2 = .codeRedirect location →
    ∃ sessionID sess client u query,
      input.2.session = some sessionID ∧ σ.oauth.logins.get? sessionID = some sess ∧
      σ.oauth.clients.get? sess.clientID = some client ∧ sess.redirectURI ∈ client.redirectURIs ∧
      AllowedURI cfg.allowedRedirectURIPatterns sess.redirectURI u ∧
      location = GoLib.renderURL { u with rawQuery := query }

end

def FreshClient (σ : AuthState) (input : AuthEnv × LoginRequest) : Prop :=
  match input.2 with
  | .register _ => ¬ σ.oauth.clients.Has (input.1.uuid 0).val
  | _ => True

section
variable [Digests] [GoLib] {cfg : OAuthConfig} {env : AuthEnv} {σ : AuthState} {sess : LoginSession}
  {p : Principal}

theorem completeAuthorize_oauth :
    ∃ codes, (completeAuthorize cfg env σ sess p).1.oauth = { σ.oauth with codes := codes } := by
  unfold completeAuthorize
  split
  · exact ⟨σ.oauth.codes, rfl⟩
  · exact ⟨_, rfl⟩

theorem completeAuthorize_redirect {location} (h : (completeAuthorize cfg env σ sess p).2 = .codeRedirect location) :
    ∃ u query, GoLib.parseURL sess.redirectURI = some u ∧
      location = GoLib.renderURL { u with rawQuery := query } := by
  unfold completeAuthorize at h
  split at h
  · cases h
  · simp only at h
    split at h
    · cases h
    · next u parsed =>
      cases h
      exact ⟨u, _, parsed, rfl⟩

section
variable (input : AuthEnv × LoginRequest) (h : SessionsRegistered cfg σ.oauth)
include input h

theorem sessionsRegistered_step (fresh : FreshClient σ input) : SessionsRegistered cfg (step cfg σ input).oauth := by
  obtain ⟨env, req⟩ := input
  unfold step
  generalize after : serve cfg env σ req = result
  have effect : LoginEffect cfg env σ req result.1 result.2 := after ▸ serve_effect req
  obtain ⟨σ', _⟩ := result
  cases effect with
  | kept sub => exact h.mono sub σ.oauth.codes
  | @registered _ _ unnamed =>
    -- the sessions there are name clients that are there already
    intro sess mem
    obtain ⟨owner, known, rest⟩ := h sess mem
    refine ⟨owner, ?_, rest⟩
    have other : (env.uuid 0).val ≠ sess.clientID := by
      intro same
      exact fresh ⟨owner, mem_of_get? known, (key_of_get? known).trans same.symm⟩
    rw [← known]
    apply get?_put_of_ne
    simpa [orNew, unnamed] using other
  | opened known has allowed => exact h.save known has (allowedURI_of_redirectURIAllowed allowed)
  | resumed row =>
    obtain ⟨_, known, has, allowed⟩ := h _ (mem_of_get? row)
    exact h.save known has allowed
  | entered session row sub =>
    obtain ⟨codes, same⟩ := @completeAuthorize_oauth _ _ cfg env { σ with oauth := { σ.oauth with logins := _ } } _ _
    rw [same]
    exact h.mono sub codes

theorem sentToRegistered_step : SentToRegistered cfg σ input (step cfg σ input) := by
  obtain ⟨env, req⟩ := input
  intro location redirect
  simp only at redirect
  generalize after : serve cfg env σ req = result at redirect
  have effect : LoginEffect cfg env σ req result.1 result.2 := after ▸ serve_effect req
  obtain ⟨σ', _⟩ := result
  cases effect with
  | kept _ plain | opened _ _ _ plain | resumed _ plain => exact absurd redirect (plain location)
  | registered => cases redirect
  | @entered _ sessionID sess _ _ session row =>
    obtain ⟨client, known, has, u, allowed⟩ := h sess (mem_of_get? row)
    obtain ⟨parsed, query, same, built⟩ := completeAuthorize_redirect redirect
    obtain rfl : u = parsed := Option.some.inj (allowed.parsed.symm.trans same)
    exact ⟨sessionID, sess, client, u, query, session, row, known, has, allowed, built⟩

end

end
end OAuthServer

def adminConfig : OAuthConfig where
  allowedRedirectURIPatterns := ["cb*"]
  authorizationCodeTTLSeconds := 60
  web := { enabled := true, username := "root", passwordEnvRef := "literal:pw" }

def adminLogin : List (AuthEnv × LoginRequest) :=
  [({ toEnv := draws "c" }, .register (.ok { redirectURIs := ["cb"] })),
   ({ toEnv := draws "s" },
    .authorize { clientID := "c", redirectURI := "cb", responseType := "code", codeChallenge := "s256:v" }),
   ({ toEnv := draws "k" }, .login (.ok { loginSessionID := "s", username := "root", password := "pw" }))]

end SynaMcp
