import SynaMcp.Lib.SingleUse
import SynaMcp.Store.State

/-! The in-memory store of the OAuth server. Every method holds the mutex for all of its
work and so is one step; the clock is read just before it. -/
namespace SynaMcp
open Keyed

structure OAuthClient where
  clientID : String := ""
  clientSecretHash : String := ""
  clientName : String := ""
  redirectURIs : List String := []
  tokenEndpointAuthMethod : String := ""
  createdAt : Time := 0
  deriving DecidableEq, Repr

structure AuthorizationCode where
  code : String
  clientID : String
  subjectKey : String
  principal : Principal
  redirectURI : String
  scope : String := ""
  codeChallenge : String
  codeChallengeMethod : String := ""
  expiresAt : Time
  usedAt : Option Time := none
  createdAt : Time := 0
  deriving DecidableEq, Repr

structure RefreshToken where
  tokenHash : String
  clientID : String
  subjectKey : String
  accessTokenID : String
  expiresAt : Time
  revokedAt : Option Time := none
  createdAt : Time := 0
  deriving DecidableEq, Repr

structure LoginSession where
  id : String := ""
  clientID : String
  redirectURI : String
  scope : String := ""
  state : String := ""
  codeChallenge : String
  codeChallengeMethod : String := ""
  providerName : String := ""
  expiresAt : Time
  createdAt : Time := 0
  deriving DecidableEq, Repr

structure OAuthStore where
  clients : Table OAuthClient.clientID
  codes : Table AuthorizationCode.code
  refresh : Table RefreshToken.tokenHash
  logins : Table LoginSession.id

def authorizationCodes : SingleUse.Kind AuthorizationCode.code Time where
  usedAt := AuthorizationCode.usedAt
  expiresAt := AuthorizationCode.expiresAt
  mark now code := { code with usedAt := some now }
  unknown := "invalid authorization code"
  used := "authorization code already used"
  expired := "authorization code expired"
  key_mark _ _ := rfl
  usedAt_mark _ _ := rfl

def refreshTokens : SingleUse.Kind RefreshToken.tokenHash Time where
  usedAt := RefreshToken.revokedAt
  expiresAt := RefreshToken.expiresAt
  mark now token := { token with revokedAt := some now }
  unknown := "invalid refresh token"
  used := "refresh token revoked"
  expired := "refresh token expired"
  key_mark _ _ := rfl
  usedAt_mark _ _ := rfl

namespace OAuthStore

def empty : OAuthStore where
  clients := .empty
  codes := .empty
  refresh := .empty
  logins := .empty

variable (env : Env) (o : OAuthStore)

def createClient (c : OAuthClient) : OAuthStore × OAuthClient :=
  let c : OAuthClient :=
    { c with
      clientID := orNew c.clientID (env.uuid 0)
      tokenEndpointAuthMethod := orElse "" c.tokenEndpointAuthMethod "none"
      createdAt := env.now }
  ({ o with clients := o.clients.put c }, c)

def getClient (o : OAuthStore) (clientID : String) : Option OAuthClient := o.clients.get? clientID

def saveAuthorizationCode (code : AuthorizationCode) : OAuthStore :=
  { o with codes := o.codes.put { code with createdAt := zeroTime code.createdAt env.now } }

def consumeAuthorizationCode (rawCode : String) : Except String (OAuthStore × AuthorizationCode) :=
  (SingleUse.consume authorizationCodes env.now o.codes rawCode).map
    fun (codes, code) => ({ o with codes := codes }, code)

def saveRefreshToken (token : RefreshToken) : OAuthStore :=
  { o with refresh := o.refresh.put { token with createdAt := zeroTime token.createdAt env.now } }

def consumeRefreshToken (tokenHash : String) : Except String (OAuthStore × RefreshToken) :=
  (SingleUse.consume refreshTokens env.now o.refresh tokenHash).map
    fun (refresh, token) => ({ o with refresh := refresh }, token)

def saveLoginSession (sess : LoginSession) : OAuthStore × LoginSession :=
  let sess : LoginSession :=
    { sess with id := orNew sess.id (env.uuid 0), createdAt := zeroTime sess.createdAt env.now }
  ({ o with logins := o.logins.put sess }, sess)

/-- An expired session is dropped and not returned. -/
def takeLoginSession (id : String) : OAuthStore × Option LoginSession :=
  match o.logins.get? id with
  | none => (o, none)
  | some sess =>
    ({ o with logins := o.logins.delete id }, if sess.expiresAt < env.now then none else some sess)

def getLoginSession (id : String) : Option LoginSession :=
  match o.logins.get? id with
  | none => none
  | some sess => if sess.expiresAt < env.now then none else some sess

variable {env} {o o' : OAuthStore}

theorem consumeAuthorizationCode_ok {raw code} (h : consumeAuthorizationCode env o raw = .ok (o', code)) :
    ∃ codes, SingleUse.consume authorizationCodes env.now o.codes raw = .ok (codes, code) ∧
      o' = { o with codes := codes } := by
  unfold consumeAuthorizationCode at h
  cases used : SingleUse.consume authorizationCodes env.now o.codes raw with
  | error =>
    rw [used] at h
    cases h
  | ok result =>
    rw [used] at h
    cases h
    exact ⟨result.1, rfl, rfl⟩

theorem consumeRefreshToken_ok {hash token} (h : consumeRefreshToken env o hash = .ok (o', token)) :
    ∃ refresh, SingleUse.consume refreshTokens env.now o.refresh hash = .ok (refresh, token) ∧
      o' = { o with refresh := refresh } := by
  unfold consumeRefreshToken at h
  cases used : SingleUse.consume refreshTokens env.now o.refresh hash with
  | error =>
    rw [used] at h
    cases h
  | ok result =>
    rw [used] at h
    cases h
    exact ⟨result.1, rfl, rfl⟩

theorem getLoginSession_some {id sess} (h : getLoginSession env o id = some sess) : o.logins.get? id = some sess := by
  unfold getLoginSession at h
  split at h
  · cases h
  · next found =>
    split at h
    · cases h
    · cases h
      exact found

theorem takeLoginSession_cases (env : Env) (o : OAuthStore) (id : String) :
    (∃ logins, (takeLoginSession env o id).1 = { o with logins := logins } ∧
      ∀ sess ∈ logins.rows, sess ∈ o.logins.rows) ∧
    ∀ sess, (takeLoginSession env o id).2 = some sess → o.logins.get? id = some sess := by
  unfold takeLoginSession
  split
  · exact ⟨⟨o.logins, rfl, fun _ h => h⟩, fun _ h => by cases h⟩
  · next found stored =>
    refine ⟨⟨_, rfl, fun _ h => (Table.mem_delete.mp h).1⟩, fun sess h => ?_⟩
    split at h
    · cases h
    · cases h
      exact stored

end OAuthStore
end SynaMcp
