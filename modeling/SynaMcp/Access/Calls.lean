import SynaMcp.Access.Accounts

/-! The calls that write the access store, as one type. What a call can do to an account
and to a token is said once. -/
namespace SynaMcp
open Keyed Store

inductive StoreCall where
  | upsertUserFromPrincipal (p : Principal)
  | createUser (user : User)
  | updateUser (userID : String) (patch : User)
  | setUserPassword (userID password : String)
  | deleteUser (userID : String)
  | createGroup (g : Group)
  | deleteGroup (groupID : String)
  | addGroupMember (groupID userID source : String)
  | removeGroupMember (groupID userID : String)
  | createStorage (storage : Storage) (actor : String)
  | deleteStorage (storageID : String)
  | upsertACL (b : ACLBinding)
  | deleteACL (storageID subjectKey : String) (role : StorageRole)
  | createObject (obj : DataObject) (actor : String)
  | deleteObject (objectID : String)
  | updateObjectConfig (objectID : String) (config : Config)
  | upsertObjectACL (b : ObjectACLBinding)
  | createToken (input : CreateTokenInput)
  | resolveToken (raw : String)
  | revokeToken (tokenID : String)
  | updateTokenRateLimit (tokenID : String) (policy : RateLimitPolicy)
  | deleteToken (tokenID : String)
  | replaceTokenStorages (tokenID : String) (scopes : List AccessTokenStorage)
  | replaceTokenObjects (tokenID : String) (scopes : List AccessTokenObject)
  | ensurePrincipal (p : Principal) (bucket : String)

namespace Store

/-- A call that fails leaves the store as it was. -/
def orSame {α : Type} (s : Store) : Except String (Store × α) → Store
  | .ok (s', _) => s'
  | .error _ => s

def call [Digests] (env : Env) (s : Store) : StoreCall → Store
  | .upsertUserFromPrincipal p => (s.upsertUserFromPrincipal env p).1
  | .createUser user => (s.createUser env user).1
  | .updateUser userID patch => s.orSame (s.updateUser userID patch)
  | .setUserPassword userID password => s.orSame ((s.setUserPassword env userID password).map (·, ()))
  | .deleteUser userID => s.deleteUser userID
  | .createGroup g => (s.createGroup env g).1
  | .deleteGroup groupID => s.deleteGroup groupID
  | .addGroupMember groupID userID source => s.addGroupMember env groupID userID source
  | .removeGroupMember groupID userID => s.removeGroupMember groupID userID
  | .createStorage storage actor => (s.createStorage env storage actor).1
  | .deleteStorage storageID => s.deleteStorage storageID
  | .upsertACL b => (s.upsertACL env b).1
  | .deleteACL storageID subjectKey role => s.deleteACL storageID subjectKey role
  | .createObject obj actor => s.orSame (s.createObject env obj actor)
  | .deleteObject objectID => s.deleteObject objectID
  | .updateObjectConfig objectID config => s.orSame (s.updateObjectConfig env objectID config)
  | .upsertObjectACL b => (s.upsertObjectACL env b).1
  | .createToken input => s.orSame (s.createToken env input)
  | .resolveToken raw => (s.resolveToken env raw).1
  | .revokeToken tokenID => s.revokeToken env tokenID
  | .updateTokenRateLimit tokenID policy => s.updateTokenRateLimit tokenID policy
  | .deleteToken tokenID => s.deleteToken tokenID
  | .replaceTokenStorages tokenID scopes => s.replaceTokenStorages env tokenID scopes
  | .replaceTokenObjects tokenID scopes => s.replaceTokenObjects tokenID scopes
  | .ensurePrincipal p bucket => (SynaMcp.ensurePrincipal env s p bucket).1

end Store

structure AccessToken.LaterThan (t' t : AccessToken) : Prop where
  id : t'.id = t.id
  owner : t'.ownerSubjectKey = t.ownerSubjectKey
  revoked : t.revokedAt.isSome = true → t'.revokedAt.isSome = true

theorem AccessToken.LaterThan.refl (t : AccessToken) : t.LaterThan t := ⟨rfl, rfl, fun h => h⟩

def TokensAge (s s' : Store) : Prop := ∀ t' ∈ s'.tokens.rows, ∃ t ∈ s.tokens.rows, t'.LaterThan t

def TokensFrom (R : AccessToken → AccessToken → Prop) (s s' : Store) : Prop :=
  ∀ t' ∈ s'.tokens.rows, ∃ t ∈ s.tokens.rows, R t' t

structure AccessToken.Updates (R : AccessToken → AccessToken → Prop) : Prop where
  refl : ∀ t, R t t
  used : ∀ (t : AccessToken) now, R { t with lastUsedAt := some now } t
  revoked : ∀ (t : AccessToken) now, R { t with revokedAt := some now } t
  limited : ∀ (t : AccessToken) policy, R { t with rateLimit := policy } t

theorem AccessToken.LaterThan.updates : AccessToken.Updates AccessToken.LaterThan where
  refl := .refl
  used _ _ := ⟨rfl, rfl, fun h => h⟩
  revoked _ _ := ⟨rfl, rfl, fun _ => rfl⟩
  limited _ _ := ⟨rfl, rfl, fun h => h⟩

section
variable {R : AccessToken → AccessToken → Prop} {s s' : Store}

theorem TokensFrom.of_eq (refl : ∀ t, R t t) (same : s'.tokens = s.tokens) : TokensFrom R s s' := by
  intro t mem
  rw [same] at mem
  exact ⟨t, mem, refl t⟩

theorem tokensFrom_updateToken {tokenID f} (refl : ∀ t, R t t)
    (update : ∀ t, R (f t) t) : TokensFrom R s (s.updateToken tokenID f) := by
  intro t' mem
  unfold updateToken at mem
  split at mem
  · exact ⟨t', mem, refl t'⟩
  · next t found =>
    rcases Table.mem_put.mp mem with rfl | ⟨old, _⟩
    · exact ⟨t, Table.mem_of_get? found, update t⟩
    · exact ⟨t', old, refl t'⟩

end

theorem TokensAge.of_eq {s s'} (same : s'.tokens = s.tokens) : TokensAge s s' := TokensFrom.of_eq .refl same

theorem tokensAge_updateToken {s tokenID f}
    (later : ∀ t, (f t).LaterThan t) : TokensAge s (s.updateToken tokenID f) :=
  tokensFrom_updateToken .refl later

structure User.PatchedBy (u' u patch : User) : Prop where
  subjectKey : u'.subjectKey = u.subjectKey
  status : u'.status = if patch.status ≠ "" then patch.status else u.status

section
variable {env : Env} {s : Store}

theorem updateUser_orSame (userID : String) (patch : User) :
    ∃ users, s.orSame (s.updateUser userID patch) = { s with users := users } ∧ ∀ u' ∈ users.rows, u' ∈ s.users.rows ∨
        ∃ u, s.users.get? userID = some u ∧ u'.PatchedBy u patch := by
  unfold updateUser getUser
  split
  · exact ⟨s.users, rfl, fun _ mem => .inl mem⟩
  · next u found =>
    refine ⟨_, rfl, fun u' mem => ?_⟩
    rcases Table.mem_put.mp mem with rfl | ⟨old, _⟩
    · exact .inr ⟨u, found, rfl, rfl⟩
    · exact .inl old

theorem createObject_orSame (obj : DataObject) (actor : String) :
    (s.orSame (s.createObject env obj actor)).tokens = s.tokens ∧
      (s.orSame (s.createObject env obj actor)).users = s.users := by
  unfold createObject
  simp only
  split
  · exact ⟨rfl, rfl⟩
  · split <;> exact ⟨rfl, rfl⟩

theorem updateObjectConfig_orSame (objectID : String) (config : Config) :
    (s.orSame (s.updateObjectConfig env objectID config)).tokens = s.tokens ∧
      (s.orSame (s.updateObjectConfig env objectID config)).users = s.users := by
  unfold updateObjectConfig
  split <;> exact ⟨rfl, rfl⟩

theorem deleteObject_records (objectID : String) :
    (s.deleteObject objectID).tokens = s.tokens ∧ (s.deleteObject objectID).users = s.users := by
  unfold deleteObject
  split
  · exact ⟨rfl, rfl⟩
  · simp only
    split <;> exact ⟨rfl, rfl⟩

variable [Digests]

theorem setUserPassword_orSame (userID password : String) :
    ∃ users, s.orSame ((s.setUserPassword env userID password).map (·, ())) = { s with users := users } ∧
      ∀ u' ∈ users.rows, u' ∈ s.users.rows ∨ ∃ u, s.users.get? userID = some u ∧ u'.PatchedBy u {} := by
  unfold setUserPassword
  split
  · exact ⟨s.users, rfl, fun _ mem => .inl mem⟩
  · split
    · exact ⟨s.users, rfl, fun _ mem => .inl mem⟩
    · split
      · exact ⟨s.users, rfl, fun _ mem => .inl mem⟩
      · next u found =>
        refine ⟨_, rfl, fun u' mem => ?_⟩
        rcases Table.mem_put.mp mem with rfl | ⟨old, _⟩
        · exact .inr ⟨u, found, rfl, rfl⟩
        · exact .inl old

theorem createToken_orSame (input : CreateTokenInput) : (s.orSame (s.createToken env input)).users = s.users ∧
      ((s.orSame (s.createToken env input)).tokens = s.tokens ∨ (input.ownerSubjectKey ≠ "" ∧
          (s.orSame (s.createToken env input)).tokens = s.tokens.put (newToken env input))) := by
  unfold createToken
  split
  · exact ⟨rfl, .inl rfl⟩
  · next owned => exact ⟨rfl, .inr ⟨owned, rfl⟩⟩

theorem ensurePrincipal_tokens {p bucket} : (ensurePrincipal env s p bucket).1.tokens = s.tokens := by
  obtain ⟨_, _, ⟨_, _, store, _⟩ | ⟨_, store, _⟩⟩ := ensurePrincipal_cases env s p bucket
  · rw [store]
  · rw [store]
    rfl

def StoreCall.Writes (env : Env) (s : Store) : StoreCall → User → Prop
  | .upsertUserFromPrincipal p, u' => u' = (s.upsertUserFromPrincipal env p).2
  | .ensurePrincipal p _, u' => u' = (s.upsertUserFromPrincipal env p).2
  | .createUser user, u' => u' = (s.createUser env user).2
  | .updateUser userID patch, u' => ∃ u, s.users.get? userID = some u ∧ u'.PatchedBy u patch
  | .setUserPassword userID _, u' => ∃ u, s.users.get? userID = some u ∧ u'.PatchedBy u {}
  | _, _ => False

/-- Of the tokens a call may make one; those that are there are updated or go. -/
theorem call_tokens_from {R} (updates : AccessToken.Updates R) (c : StoreCall) :
    TokensFrom R s (s.call env c) ∨ ∃ input, c = .createToken input ∧ input.ownerSubjectKey ≠ "" ∧
        (s.call env c).tokens = s.tokens.put (newToken env input) := by
  have same : ∀ {s' : Store}, s'.tokens = s.tokens → TokensFrom R s s' := TokensFrom.of_eq updates.refl
  cases c with
  | createToken input =>
    rcases (createToken_orSame input).2 with kept | ⟨owned, made⟩
    · exact .inl (same kept)
    · exact .inr ⟨input, rfl, owned, made⟩
  | resolveToken raw =>
    left
    rcases resolveToken_store env s raw with kept | ⟨_, marked⟩
    · exact same (congrArg tokens kept)
    · simp only [call, marked]
      exact tokensFrom_updateToken updates.refl fun t => updates.used t env.now
  | revokeToken => exact .inl (tokensFrom_updateToken updates.refl fun t => updates.revoked t env.now)
  | updateTokenRateLimit tokenID policy =>
    exact .inl (tokensFrom_updateToken updates.refl fun t => updates.limited t policy)
  | deleteToken => exact .inl fun t mem => ⟨t, (Table.mem_delete.mp mem).1, updates.refl t⟩
  | updateUser userID patch =>
    obtain ⟨_, after, _⟩ := @updateUser_orSame s userID patch
    simp only [call, after]
    exact .inl (same rfl)
  | setUserPassword userID password =>
    obtain ⟨_, after, _⟩ := @setUserPassword_orSame env s _ userID password
    simp only [call, after]
    exact .inl (same rfl)
  | createObject obj actor => exact .inl (same (createObject_orSame obj actor).1)
  | deleteObject objectID => exact .inl (same (deleteObject_records objectID).1)
  | updateObjectConfig objectID config => exact .inl (same (updateObjectConfig_orSame objectID config).1)
  | ensurePrincipal => exact .inl (same ensurePrincipal_tokens)
  | _ => exact .inl (same rfl)

theorem call_tokens (c : StoreCall) : TokensAge s (s.call env c) ∨
    ∃ input, c = .createToken input ∧ input.ownerSubjectKey ≠ "" ∧
      (s.call env c).tokens = s.tokens.put (newToken env input) :=
  call_tokens_from AccessToken.LaterThan.updates c

theorem mem_users_call {c u} (h : u ∈ (s.call env c).users.rows) : u ∈ s.users.rows ∨ c.Writes env s u := by
  have written : ∀ {w : User}, u ∈ (s.users.put w).rows → u ∈ s.users.rows ∨ u = w := by
    intro w mem
    rcases Table.mem_put.mp mem with new | ⟨old, _⟩
    · exact .inr new
    · exact .inl old
  cases c with
  | upsertUserFromPrincipal p | createUser user => exact written h
  | ensurePrincipal =>
    simp only [call, ensurePrincipal_users] at h
    exact written h
  | updateUser userID patch =>
    obtain ⟨_, after, effect⟩ := @updateUser_orSame s userID patch
    simp only [call, after] at h
    exact effect u h
  | setUserPassword userID password =>
    obtain ⟨_, after, effect⟩ := @setUserPassword_orSame env s _ userID password
    simp only [call, after] at h
    exact effect u h
  | deleteUser => exact .inl (Table.mem_delete.mp h).1
  | createObject obj actor =>
    simp only [call, (createObject_orSame obj actor).2] at h
    exact .inl h
  | deleteObject objectID =>
    simp only [call, (deleteObject_records objectID).2] at h
    exact .inl h
  | updateObjectConfig objectID config =>
    simp only [call, (updateObjectConfig_orSame objectID config).2] at h
    exact .inl h
  | createToken input =>
    simp only [call, (createToken_orSame input).1] at h
    exact .inl h
  | resolveToken raw =>
    rcases resolveToken_store env s raw with same | ⟨_, marked⟩
    · simp only [call, same] at h
      exact .inl h
    · simp only [call, marked] at h
      exact .inl h
  | _ => exact .inl h

end
end SynaMcp
