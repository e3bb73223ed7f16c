import SynaMcp.Http.Admin

/-! Every admin handler reduced to its effect on the access store, with the checks it
made on the way. Results about the API are case analyses over these effects. -/
namespace SynaMcp

structure SameTokens (s s' : Store) : Prop where
  tokens : s'.tokens = s.tokens
  tokenByHash : s'.tokenByHash = s.tokenByHash
  tokenScopes : s'.tokenScopes = s.tokenScopes

structure SameAccess (s s' : Store) : Prop extends SameTokens s s' where
  storages : s'.storages = s.storages
  acl : s'.acl = s.acl

theorem SameAccess.refl (s : Store) : SameAccess s s := ⟨⟨rfl, rfl, rfl⟩, rfl, rfl⟩

theorem eq_true_of_not_refused {ok} (h : ¬ (!ok) = true) : ok = true := by
  simpa using h

section
variable [Digests] {env : Env} {s : Store}

def requestedStorage (cfg : AdminConfig) (p : Principal) (st : Storage) : Storage :=
  { st with
    ownerSubjectKey := orElse "" st.ownerSubjectKey (subjectKeyForPrincipal p)
    s3Bucket := orElse "" st.s3Bucket cfg.bucket }

inductive AdminEffect (cfg : AdminConfig) (env : Env) (p : Principal) (req : Request) (s : Store) :
    AdminRoute → Store → Prop where
  | records {route s'} (same : SameAccess s s') : AdminEffect cfg env p req s route s'
  | ensured {route} : AdminEffect cfg env p req s route (ensurePrincipal env s p cfg.bucket).1
  | created {st} (decoded : req.body.storage = .ok st) :
      AdminEffect cfg env p req s .createStorage
        (s.createStorage env (requestedStorage cfg p st) (subjectKeyForPrincipal p)).1
  | dropped (allowed : storageAllowed s p none [] (idFromPath req.adminPath 1) .storageDelete = true) :
      AdminEffect cfg env p req s .deleteStorage (s.deleteStorage (idFromPath req.adminPath 1))
  | bound {b b'} (decoded : req.body.binding = .ok b)
      (allowed : storageAllowed s p none [] (storageIDFromACLPath req.adminPath) .aclManage = true) :
      AdminEffect cfg env p req s .upsertACL (s.upsertACL env b').1
  | minted {r s' t raw}
      (decoded : req.body.token = .ok r) (done : mintToken env s p cfg.bucket r = .ok (s', t, raw)) :
      AdminEffect cfg env p req s .createToken s'
  | rotated {s' t raw}
      (own : canManageToken s p (tokenIDFromPath req.adminPath) = true)
      (done : (s.revokeToken env (tokenIDFromPath req.adminPath)).createToken env
        (AdminHandler.rotateInput p s (tokenIDFromPath req.adminPath)) = .ok (s', t, raw)) :
      AdminEffect cfg env p req s .rotateToken s'
  | limited {policy} (own : canManageToken s p (tokenIDFromPath req.adminPath) = true) :
      AdminEffect cfg env p req s .patchRateLimit (s.updateTokenRateLimit (tokenIDFromPath req.adminPath) policy)
  | revoked : AdminEffect cfg env p req s .revokeToken (s.revokeToken env (tokenIDFromPath req.adminPath))
  | removed : AdminEffect cfg env p req s .deleteToken (s.deleteToken (idFromPath req.adminPath 1))

theorem AdminEffect.of_eq {cfg p req s' route} (h : s' = s) : AdminEffect cfg env p req s route s' := by
  rw [h]
  exact .records (.refl s)

theorem storageAllowed_of_requireStorage {p id q}
    (h : requireStorage s p id q = none) : storageAllowed s p none [] id q = true := by
  unfold requireStorage at h
  unfold storageAllowed
  split at h
  · cases h
  · next eff ok checked =>
    rw [checked]
    split at h
    · assumption
    · cases h

theorem createToken_ne_error {p input e}
    (own : input.ownerSubjectKey = subjectKeyForPrincipal p) : s.createToken env input ≠ .error e := by
  unfold Store.createToken
  rw [own, if_neg (subjectKeyForPrincipal_ne_empty p)]
  simp

end

namespace AdminHandler
section
variable {env : Env} {σ : AdminState} {s : Store} {p : Principal} {path : String}

theorem onStore_store (result : Store × Response) : (onStore σ result).1.store = result.1 := rfl

theorem adminOnly_sameAccess {result} (h : SameAccess σ.store result.1) :
    SameAccess σ.store (adminOnly σ p result).1 := by
  unfold adminOnly
  split
  · exact .refl _
  · exact h

theorem changeMember_sameAccess {change}
    (h : ∀ groupID userID, SameAccess s (change groupID userID)) : SameAccess s (changeMember s path change).1 := by
  unfold changeMember
  split
  · exact h _ _
  · exact .refl _

theorem handleMCPServers_store {cfg req} : (handleMCPServers cfg env σ p req).1.store = σ.store := by
  unfold handleMCPServers
  split <;> rfl

variable [Digests]

theorem createUser_sameAccess (body : Decoded User) : SameAccess s (createUser s env body).1 := by
  unfold createUser
  split <;> exact ⟨⟨rfl, rfl, rfl⟩, rfl, rfl⟩

theorem updateUser_sameAccess (body : Decoded User) : SameAccess s (updateUser s p path body).1 := by
  unfold updateUser
  simp only
  split
  · exact .refl _
  · split
    · exact .refl _
    · split
      · exact .refl _
      · split
        · exact .refl _
        · next s' updated done =>
          unfold Store.updateUser at done
          split at done
          · cases done
          · simp only [Except.ok.injEq, Prod.mk.injEq] at done
            rw [← done.1]
            exact ⟨⟨rfl, rfl, rfl⟩, rfl, rfl⟩

theorem setUserPassword_sameAccess {s' userID password}
    (h : s.setUserPassword env userID password = .ok s') : SameAccess s s' := by
  unfold Store.setUserPassword at h
  split at h
  · cases h
  · split at h
    · cases h
    · split at h
      · cases h
      · cases h
        exact ⟨⟨rfl, rfl, rfl⟩, rfl, rfl⟩

theorem changeUserPassword_sameAccess (body : Decoded PasswordChange) :
    SameAccess s (changeUserPassword s p path env body).1 := by
  unfold changeUserPassword
  simp only
  split
  · exact .refl _
  · split
    · exact .refl _
    · split
      · exact .refl _
      · split
        · exact .refl _
        · split
          · exact .refl _
          · split
            · exact .refl _
            · next s' done => exact setUserPassword_sameAccess done

theorem createGroup_sameAccess (body : Decoded Group) : SameAccess s (createGroup s env body).1 := by
  unfold createGroup
  split <;> exact ⟨⟨rfl, rfl, rfl⟩, rfl, rfl⟩

variable {cfg : AdminConfig} {ac : APIAccessContext} {req : Request} {route : AdminRoute}

theorem saveDocument_effect (input : SaveInput) :
    AdminEffect cfg env p req s route (saveDocument s p cfg env ac input).1 := by
  unfold saveDocument
  by_cases personal : input.storageID = ""
  · simp only [personal, if_true]
    split
    · exact .ensured
    · split
      · exact .ensured
      · split <;> exact .ensured
  · simp only [personal, if_false]
    split
    · exact .records (.refl _)
    · split
      · exact .records (.refl _)
      · split
        · exact .records (.refl _)
        · split <;> exact .records (.refl _)

theorem createKnowledge_effect (body : Decoded SaveInput) :
    AdminEffect cfg env p req s route (createKnowledge s p cfg env ac body).1 := by
  unfold createKnowledge
  split
  · exact .records (.refl _)
  · split
    · exact .records (.refl _)
    · next req' =>
      have saved : AdminEffect cfg env p req s route
          (saveDocument s p cfg env ac { req' with channel := "admin" }).1 := saveDocument_effect _
      split
      · next s' e status done =>
        rw [done] at saved
        exact saved
      · next s' doc done =>
        rw [done] at saved
        exact saved

theorem patchTokenMCPScopes_store (tokenID : String) (body : Decoded (List AccessTokenMCPServer)) :
    (patchTokenMCPScopes cfg env σ p tokenID body).1.store = σ.store := by
  unfold patchTokenMCPScopes
  split
  · rfl
  · split
    · rfl
    · split
      · rfl
      · simp only
        split <;> rfl

theorem createStorage_effect : AdminEffect cfg env p req s .createStorage
    (createStorage s p env cfg.bucket req.body.storage).1 := by
  unfold createStorage
  split
  · exact .records (.refl _)
  · next st decoded => exact .created decoded

theorem deleteStorage_effect : AdminEffect cfg env p req s .deleteStorage (deleteStorage s p req.adminPath).1 := by
  unfold deleteStorage
  simp only
  split
  · exact .records (.refl _)
  · next checked => exact .dropped (storageAllowed_of_requireStorage checked)

theorem upsertACL_effect :
    AdminEffect cfg env p req s .upsertACL (upsertACL s p req.adminPath env req.body.binding).1 := by
  unfold upsertACL
  simp only
  split
  · exact .records (.refl _)
  · next checked =>
    split
    · exact .records (.refl _)
    · next b decoded => exact .bound decoded (storageAllowed_of_requireStorage checked)

theorem createToken_effect :
    AdminEffect cfg env p req σ.store .createToken (createToken cfg env σ p req.body.token).1.store := by
  unfold createToken
  split
  · exact .records (.refl _)
  · next r decoded =>
    split
    · next e failed => exact absurd failed (createToken_ne_error rfl)
    · next s' token raw done => exact .minted decoded done

theorem deleteToken_effect :
    AdminEffect cfg env p req σ.store .deleteToken (deleteToken env σ p req.adminPath).1.store := by
  unfold deleteToken
  simp only
  split
  · exact .records (.refl _)
  · exact .removed

theorem patchRateLimit_effect :
    AdminEffect cfg env p req s .patchRateLimit (patchRateLimit s p req.adminPath req.body.rateLimit).1 := by
  unfold patchRateLimit
  simp only
  split
  · exact .records (.refl _)
  · next own =>
    split
    · exact .records (.refl _)
    · exact .limited (eq_true_of_not_refused own)

theorem revokeToken_effect : AdminEffect cfg env p req s .revokeToken (revokeToken s p req.adminPath env).1 := by
  unfold revokeToken
  simp only
  split
  · exact .records (.refl _)
  · exact .revoked

theorem rotateToken_effect :
    AdminEffect cfg env p req σ.store .rotateToken (rotateToken env σ p req.adminPath).1.store := by
  unfold rotateToken
  simp only
  split
  · exact .records (.refl _)
  · next own =>
    split
    · next e failed => exact absurd failed (createToken_ne_error rfl)
    · next s' token raw done => exact .rotated (eq_true_of_not_refused own) done

theorem handle_effect : AdminEffect cfg env p req σ.store route (handle cfg env σ p ac req route).1.store := by
  cases route with
  | status | listUsers | listGroups | listGroupMembers => exact .records (adminOnly_sameAccess (.refl _))
  | createKnowledge =>
    simp only [handle, onStore_store]
    exact createKnowledge_effect _
  | currentUser | getUser => exact .records (.refl _)
  | createUser => exact .records (adminOnly_sameAccess (createUser_sameAccess _))
  | updateUser => exact .records (updateUser_sameAccess _)
  | changeUserPassword => exact .records (changeUserPassword_sameAccess _)
  | deleteUser | deleteGroup => exact .records (adminOnly_sameAccess ⟨⟨rfl, rfl, rfl⟩, rfl, rfl⟩)
  | createGroup => exact .records (adminOnly_sameAccess (createGroup_sameAccess _))
  | addGroupMember | removeGroupMember =>
    exact .records (adminOnly_sameAccess (changeMember_sameAccess fun _ _ => ⟨⟨rfl, rfl, rfl⟩, rfl, rfl⟩))
  | listStorages | getStorageDetails => exact .records (.refl _)
  | createStorage =>
    simp only [handle, onStore_store]
    exact createStorage_effect
  | deleteStorage =>
    simp only [handle, onStore_store]
    exact deleteStorage_effect
  | storageACL => exact .records (.refl _)
  | upsertACL =>
    simp only [handle, onStore_store]
    exact upsertACL_effect
  | listTokens => exact .records (.refl _)
  | createToken =>
    simp only [handle]
    exact createToken_effect
  | deleteToken =>
    simp only [handle]
    exact deleteToken_effect
  | patchRateLimit =>
    simp only [handle, onStore_store]
    exact patchRateLimit_effect
  | revokeToken =>
    simp only [handle, onStore_store]
    exact revokeToken_effect
  | rotateToken =>
    simp only [handle]
    exact rotateToken_effect
  | connectOptions | usageSeries | usageSummary => exact .records (.refl _)
  | handleMCPServers => exact .of_eq handleMCPServers_store
  | patchTokenMCPScopes => exact .of_eq (patchTokenMCPScopes_store _ _)
  | notFound => exact .records (.refl _)

end
end AdminHandler
end SynaMcp
