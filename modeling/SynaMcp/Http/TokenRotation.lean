import SynaMcp.Http.Confinement

/-! What the rotation of a token keeps of it. -/
namespace SynaMcp
open Keyed List Store AdminHandler Function Table

def AdminState.servers (σ : AdminState) (tokenID : String) : List AccessTokenMCPServer :=
  (σ.mcp.map fun m => m.tokenMCPServers tokenID).getD []

/-- A token without its id, hash, name and marks. -/
structure TokenRights where
  ownerSubjectKey : String
  mode : AccessMode
  allowedPermissions : List StoragePermission
  rateLimit : RateLimitPolicy
  expiresAt : Option Time
  storages : List AccessTokenStorage
  objects : List AccessTokenObject
  servers : List AccessTokenMCPServer
  deriving DecidableEq

def tokenRights (σ : AdminState) (t : AccessToken) : TokenRights where
  ownerSubjectKey := t.ownerSubjectKey
  mode := t.mode
  allowedPermissions := t.allowedPermissions
  rateLimit := t.rateLimit
  expiresAt := t.expiresAt
  storages := (σ.store.tokenStorages t.id).map fun l => { l with tokenID := "", createdAt := 0 }
  objects := (σ.store.tokenObjects t.id).map fun o => { o with tokenID := "", createdAt := 0 }
  servers := (σ.servers t.id).map fun l => { l with tokenID := "", createdAt := 0 }

/-- What a rotation makes of the rights: read-only, without a limit or an expiry, with the
storage scopes for object scopes. -/
def TokenRights.rotated (r : TokenRights) : TokenRights :=
  let storages := r.storages.map fun l => { l with maxMode := orElse .unset l.maxMode .read }
  { r with
    mode := .read, allowedPermissions := [], rateLimit := {}, expiresAt := none, storages := storages
    objects := storages.map AccessTokenStorage.toObject }

section
variable [Digests] {env : Env} {σ σ' : AdminState} {p : Principal} {path raw : String} {t u : AccessToken}

/-- The two tokens allow the same on storages, objects and servers. -/
def AllowSame (p : Principal) (σ' : AdminState) (u : AccessToken) (σ : AdminState) (t : AccessToken) : Prop :=
  (∀ acl id q, (evaluateStorageAccess p (some u) (σ'.store.tokenStorages u.id) acl id q).2 =
    (evaluateStorageAccess p (some t) (σ.store.tokenStorages t.id) acl id q).2) ∧
  (∀ acl obj m, (evaluateObjectAccess p (some u) (σ'.store.tokenObjects u.id) acl obj m).2 =
    (evaluateObjectAccess p (some t) (σ.store.tokenObjects t.id) acl obj m).2) ∧
  ∀ acl id q, evaluateMCPServerAccess p (some u) (σ'.servers u.id) acl id q =
    evaluateMCPServerAccess p (some t) (σ.servers t.id) acl id q

theorem allowSame_of_tokenRights (same : tokenRights σ' u = tokenRights σ t) : AllowSame p σ' u σ t := by
  simp only [tokenRights, TokenRights.mk.injEq] at same
  obtain ⟨_, _, permissions, _, _, storages, objects, servers⟩ := same
  refine ⟨fun acl id q => ?_, fun acl obj m => ?_, fun acl id q => ?_⟩
  · have found := congrArg (find? fun l => l.storageID = id) storages
    simp only [find?_map, comp_def] at found
    have modes : storageTokenMode u (σ'.store.tokenStorages u.id) id =
        storageTokenMode t (σ.store.tokenStorages t.id) id := by
      unfold storageTokenMode
      split <;> split <;> simp_all
    rw [Bool.eq_iff_iff, evaluateStorageAccess_some_iff, evaluateStorageAccess_some_iff, AccessToken.Admits,
      AccessToken.Admits, permissions, modes]
  · have found := congrArg (find? fun o => o.objectID = obj.id) objects
    simp only [find?_map, comp_def] at found
    rw [Bool.eq_iff_iff, evaluateObjectAccess_some, evaluateObjectAccess_some, AccessToken.AdmitsObject,
      AccessToken.AdmitsObject]
    cases h : find? (fun o => decide (o.objectID = obj.id)) (σ'.store.tokenObjects u.id) <;>
      cases h' : find? (fun o => decide (o.objectID = obj.id)) (σ.store.tokenObjects t.id) <;> simp_all [allowlisted]
  · have listed := congrArg (any · fun l => l.serverID = id) servers
    simp only [any_map, comp_def] at listed
    simp only [evaluateMCPServerAccess, Option.isSome_some, listed]

variable (found : σ.store.tokens.get? (tokenIDFromPath path) = some t)
  (own : t.ownerSubjectKey = subjectKeyForPrincipal p) (unknown : ¬ σ.store.tokens.Has (env.uuid 0).val)
  (storages : ∀ l ∈ σ.store.tokenScopes, l.tokenID ≠ (env.uuid 0).val)
  (objects : ∀ o ∈ σ.store.tokenObjectScopes, o.tokenID ≠ (env.uuid 0).val)
  (servers : σ.servers (env.uuid 0).val = [])
  (done : rotateToken env σ p path = (σ', writeJSON (.minted u raw) 201))

include done in
theorem rotateToken_minted : (σ.store.revokeToken env (tokenIDFromPath path)).createToken env
      (rotateInput p σ.store (tokenIDFromPath path)) = .ok (σ'.store, u, raw) ∧
    σ'.mcp = saveTokenMCPServers env σ.mcp u.id (σ.servers (tokenIDFromPath path)) := by
  unfold rotateToken at done
  simp only at done
  split at done
  · cases done
  · split at done
    · cases done
    · next made =>
      cases done
      exact ⟨made, rfl⟩

include found own storages objects servers done in
theorem tokenRights_rotateToken : tokenRights σ' u = (tokenRights σ t).rotated := by
  obtain ⟨made, mcp⟩ := rotateToken_minted done
  obtain ⟨token, _, store⟩ := createToken_ok made
  have id : u.id = (env.uuid 0).val := by rw [token, newToken]
  rw [← id] at storages objects servers
  rw [← key_of_get? found] at mcp store
  have read : σ'.store.tokenStorages u.id = (σ.store.tokenStorages t.id).map (tokenScope env u) := by
    have none : filter (fun l => decide (l.tokenID = u.id)) σ.store.tokenScopes = [] := by simpa using storages
    rw [store, tokenStorages, filter_append, show filter _ (Store.revokeToken env σ.store t.id).tokenScopes = [] from none,
      nil_append, filter_eq_self.mpr (by simp [tokenScope]), rotateInput]
  have reads : σ'.store.tokenObjects u.id = (σ'.store.tokenStorages u.id).map AccessTokenStorage.toObject := by
    have none : filter (fun o => decide (o.tokenID = u.id)) σ.store.tokenObjectScopes = [] := by simpa using objects
    rw [tokenObjects, read, store, filter_append,
      show filter _ (Store.revokeToken env σ.store t.id).tokenObjectScopes = [] from none, nil_append,
      filter_eq_self.mpr (by simp [tokenScope, AccessTokenStorage.toObject]), rotateInput, ite_self]
  have kept : (σ'.servers u.id).map (fun l => { l with tokenID := "", createdAt := 0 }) =
      (σ.servers t.id).map fun l => { l with tokenID := "", createdAt := 0 } := by
    rw [saveTokenMCPServers] at mcp
    rw [AdminState.servers, mcp]
    cases is : σ.mcp with
    | none => simp [AdminState.servers, is]
    | some m =>
      by_cases empty : σ.servers t.id = []
      · have none : m.tokenMCPServers u.id = [] := by simpa [AdminState.servers, is] using servers
        simp [empty, none]
      · simp [empty, MCPStore.replaceTokenMCPServers, MCPStore.tokenMCPServers, filter_map, comp_def]
  simp only [tokenRights, TokenRights.rotated, kept, read, reads, own]
  simp [token, newToken, tokenScope, rotateInput, orElse, AccessTokenStorage.toObject, comp_def]

end

end SynaMcp
