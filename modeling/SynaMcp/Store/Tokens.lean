import SynaMcp.Store.State

/-! Access tokens and their scopes. Reading the object scopes of a token falls back to
its storage scopes when it has none. -/
namespace SynaMcp
open Option

def AccessTokenStorage.toObject (sc : AccessTokenStorage) : AccessTokenObject :=
  { tokenID := sc.tokenID, objectID := sc.storageID, maxMode := sc.maxMode,
    methodAllowlist := sc.toolAllowlist, createdAt := sc.createdAt }

structure CreateTokenInput where
  ownerSubjectKey : String
  name : String := ""
  mode : AccessMode := .unset
  storageScopes : List AccessTokenStorage := []
  rateLimit : RateLimitPolicy := {}
  expiresAt : Option Time := none
  createdBy : String := ""

structure TokenStorageAccess where
  tokenID : String
  tokenName : String
  ownerSubjectKey : String
  tokenMode : AccessMode
  storageID : String
  maxMode : AccessMode
  toolAllowlist : List String
  createdAt : Time
  deriving DecidableEq, Repr

/-- `time.Minute` in nanoseconds. -/
def minute : Time := 60 * 1000000000

namespace Store
open Keyed
section
variable [Digests] (env : Env)

def rawToken : String := "syna_" ++ env.random

def newToken (input : CreateTokenInput) : AccessToken :=
  { id := (env.uuid 0).val
    ownerSubjectKey := input.ownerSubjectKey
    tokenHash := hashToken (rawToken env)
    name := orElse "" input.name "MCP token"
    mode := orElse .unset input.mode .read
    rateLimit := input.rateLimit
    expiresAt := input.expiresAt
    createdBy := input.createdBy
    createdAt := env.now }

/-- A requested scope as `CreateToken` stores it. -/
def tokenScope (token : AccessToken) (scope : AccessTokenStorage) : AccessTokenStorage :=
  { scope with
    tokenID := token.id
    createdAt := zeroTime scope.createdAt env.now
    maxMode := orElse .unset scope.maxMode token.mode }

def createToken (s : Store) (input : CreateTokenInput) : Except String (Store × AccessToken × String) :=
  if input.ownerSubjectKey = "" then .error "owner subject key is required"
  else
    let token := newToken env input
    let scopes := input.storageScopes.map (tokenScope env token)
    .ok ({ s with
            tokens := s.tokens.put token
            tokenByHash := s.tokenByHash.put (token.tokenHash, token.id)
            tokenScopes := s.tokenScopes ++ scopes
            tokenObjectScopes := s.tokenObjectScopes ++ scopes.map AccessTokenStorage.toObject },
          token, rawToken env)

end

variable (s : Store) (tokenID : String)

def updateToken (f : AccessToken → AccessToken) : Store :=
  { s with
    tokens :=
      match s.tokens.get? tokenID with
      | none => s.tokens
      | some t => s.tokens.put (f t) }

variable (env : Env) (s : Store) (tokenID : String)

def revokeToken : Store :=
  s.updateToken tokenID fun t => { t with revokedAt := some env.now }

def updateTokenRateLimit (policy : RateLimitPolicy) : Store :=
  s.updateToken tokenID fun t => { t with rateLimit := policy }

def markTokenUsed : Store :=
  s.updateToken tokenID fun t => { t with lastUsedAt := some env.now }

def getToken : Option AccessToken :=
  if tokenID = "" then none else s.tokens.get? tokenID

def listTokens (s : Store) : List AccessToken :=
  s.tokens.rows.mergeSort (fun a b => decide (b.createdAt ≤ a.createdAt))

def tokenStorages : List AccessTokenStorage :=
  s.tokenScopes.filter (fun scope => scope.tokenID = tokenID)

def tokenObjects : List AccessTokenObject :=
  let out := s.tokenObjectScopes.filter (fun sc => sc.tokenID = tokenID)
  if out = [] then (s.tokenStorages tokenID).map AccessTokenStorage.toObject else out

/-- Storage scopes only; the object scopes of the token stay. -/
def replaceTokenStorages (scopes : List AccessTokenStorage) : Store :=
  { s with
    tokenScopes := s.tokenScopes.filter (fun scope => scope.tokenID ≠ tokenID) ++
      scopes.map fun scope =>
        { scope with tokenID := tokenID, createdAt := zeroTime scope.createdAt env.now } }

/-- The scopes are appended as they are given, whatever token they name. -/
def replaceTokenObjects (scopes : List AccessTokenObject) : Store :=
  { s with
    tokenObjectScopes := s.tokenObjectScopes.filter (fun sc => sc.tokenID ≠ tokenID) ++ scopes }

def deleteToken : Store :=
  { s with
    tokenByHash :=
      match s.tokens.get? tokenID with
      | some t => s.tokenByHash.delete t.tokenHash
      | none => s.tokenByHash
    tokens := s.tokens.delete tokenID
    tokenScopes := s.tokenScopes.filter (fun scope => scope.tokenID ≠ tokenID) }

def tokenAccessByStorage (s : Store) (storageID : String) : List TokenStorageAccess :=
  ((s.tokenScopes.filter (fun scope => scope.storageID = storageID)).filterMap fun scope =>
    (s.tokens.get? scope.tokenID).map fun t =>
      { tokenID := t.id, tokenName := t.name, ownerSubjectKey := t.ownerSubjectKey,
        tokenMode := t.mode, storageID := scope.storageID, maxMode := scope.maxMode,
        toolAllowlist := scope.toolAllowlist, createdAt := scope.createdAt }).mergeSort
    (fun a b => decide (b.createdAt ≤ a.createdAt))

variable (now : Time) (token : AccessToken)

/-- Revoked, or past its expiry. -/
def tokenRefused : Bool :=
  token.revokedAt.isSome ||
    match token.expiresAt with
    | none => false
    | some t => decide (t < now)

/-- The use mark is missing or older than a minute. -/
def useMarkStale : Bool :=
  match token.lastUsedAt with
  | none => true
  | some used => decide (minute < now - used)

/-- `ok none` is a token that is not known; an error is one that is known and
refused. A stale use mark is refreshed. -/
def resolveToken [Digests] (env : Env) (s : Store) (raw : String) :
    Store × Except String (Option (AccessToken × List AccessTokenStorage)) :=
  match (s.tokenByHash.get? (hashToken raw)).bind (fun entry => s.tokens.get? entry.2) with
  | none => (s, .ok none)
  | some token =>
    if tokenRefused env.now token then (s, .error "token is revoked or expired")
    else
      (if useMarkStale env.now token then markTokenUsed env s token.id else s,
        .ok (some (token, s.tokenStorages token.id)))

section
variable {env} {s} {tokenID raw : String} {s' : Store} {t : AccessToken} {entry : String × String}

theorem get?_updateToken {f} (keeps : ∀ t, (f t).id = t.id) (k : String) :
    (updateToken s tokenID f).tokens.get? k = if k = tokenID then (s.tokens.get? k).map f else s.tokens.get? k := by
  by_cases same : k = tokenID
  · subst same
    rw [if_pos rfl]
    cases found : s.tokens.get? k with
    | none => simp only [updateToken, found, map_none]
    | some t =>
      have own : (f t).id = k := (keeps t).trans (Table.key_of_get? found)
      simp only [updateToken, found, map_some]
      conv_lhs => rw [← own]
      exact Table.get?_put_self s.tokens (f t)
  · rw [if_neg same]
    cases found : s.tokens.get? tokenID with
    | none => simp only [updateToken, found]
    | some t =>
      have own : (f t).id = tokenID := (keeps t).trans (Table.key_of_get? found)
      simp only [updateToken, found]
      apply Table.get?_put_of_ne
      rw [own]
      exact Ne.symm same

variable [Digests]

theorem createToken_ok {input}
    (h : createToken env s input = .ok (s', t, raw)) :
    t = newToken env input ∧ raw = rawToken env ∧
      s' = { s with
        tokens := s.tokens.put t
        tokenByHash := s.tokenByHash.put (t.tokenHash, t.id)
        tokenScopes := s.tokenScopes ++ input.storageScopes.map (tokenScope env t)
        tokenObjectScopes := s.tokenObjectScopes ++
          (input.storageScopes.map (tokenScope env t)).map AccessTokenStorage.toObject } := by
  unfold createToken at h
  split at h
  · cases h
  · simp only [Except.ok.injEq, Prod.mk.injEq] at h
    obtain ⟨rfl, rfl, rfl⟩ := h
    exact ⟨rfl, rfl, rfl⟩

/-- The one way a raw token resolves: it is known by its hash and not refused; the
store changes by a use mark at most. -/
theorem resolveToken_some {scopes} (h : resolveToken env s raw = (s', .ok (some (t, scopes)))) :
    (∃ entry, s.tokenByHash.get? (hashToken raw) = some entry ∧ s.tokens.get? entry.2 = some t) ∧
      tokenRefused env.now t = false ∧ scopes = s.tokenStorages t.id ∧ (s' = s ∨ s' = markTokenUsed env s t.id) := by
  unfold resolveToken at h
  split at h
  · cases h
  · next token found =>
    split at h
    · cases h
    · next live =>
      obtain ⟨entry, known, row⟩ := Option.bind_eq_some_iff.mp found
      simp only [Prod.mk.injEq, Except.ok.injEq, Option.some.injEq] at h
      obtain ⟨store, rfl, rfl⟩ := h
      refine ⟨⟨entry, known, row⟩, by simpa using live, rfl, ?_⟩
      split at store
      · exact .inr store.symm
      · exact .inl store.symm

theorem resolveToken_store_of_not_some
    (h : ∀ r, (resolveToken env s raw).2 ≠ .ok (some r)) : (resolveToken env s raw).1 = s := by
  unfold resolveToken at h ⊢
  split
  · rfl
  · next token found =>
    split
    · rfl
    · next live =>
      rw [found] at h
      simp only [live] at h
      exact absurd rfl (h _)

section
variable (known : s.tokenByHash.get? (hashToken raw) = some entry) (row : s.tokens.get? entry.2 = some t)
include known row

theorem token_found : (s.tokenByHash.get? (hashToken raw)).bind (fun entry => s.tokens.get? entry.2) = some t := by
  rw [known, bind_some, row]

theorem resolveToken_of_refused (refused : tokenRefused env.now t = true) :
    resolveToken env s raw = (s, .error "token is revoked or expired") := by
  unfold resolveToken
  rw [token_found known row]
  simp only [refused, if_true]

theorem resolveToken_of_live
    (live : tokenRefused env.now t = false) : (resolveToken env s raw).2 = .ok (some (t, s.tokenStorages t.id)) := by
  unfold resolveToken
  rw [token_found known row]
  simp only [live, Bool.false_eq_true, if_false]

end

end

end Store
end SynaMcp
