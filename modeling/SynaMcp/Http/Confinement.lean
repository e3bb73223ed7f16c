import SynaMcp.Http.AdminEffects
import SynaMcp.Lib.Run

/-! What a run of admin requests with one access token can do. The handlers check the
owner of the token and never the token itself, so confinement is a condition on the
requests. -/
namespace SynaMcp
open Keyed Runs List Store Table AdminHandler

def AccessToken.Within (t' : AccessToken) (scopes' : List AccessTokenStorage) (t : AccessToken)
    (scopes : List AccessTokenStorage) : Prop :=
  ∀ id q, t'.Admits scopes' id q → t.Admits scopes id q

section
variable {t' t'' t : AccessToken} {scopes' scopes : List AccessTokenStorage}

theorem AccessToken.within_iff : t'.Within scopes' t scopes ↔
    ∀ l ∈ scopes', ∀ q ∈ modePermissions (storageTokenMode t' scopes' l.storageID),
      t'.Admits scopes' l.storageID q → t.Admits scopes l.storageID q := by
  constructor
  · intro within l _ q _ admits
    exact within l.storageID q admits
  · intro listed id q admits
    obtain ⟨l, hl, rfl⟩ := admits.named
    exact listed l hl q admits.1 admits

instance : Decidable (t'.Within scopes' t scopes) := decidable_of_iff _ AccessToken.within_iff.symm

theorem AccessToken.Within.congr (h : t'.Within scopes' t scopes) (mode : t''.mode = t'.mode)
    (allowed : t''.allowedPermissions = t'.allowedPermissions) : t''.Within scopes' t scopes := by
  intro id q admits
  apply h id q
  simpa only [AccessToken.Admits, storageTokenMode, mode, allowed] using admits

end

def Keeps (s s' : Store) : Prop :=
  ∀ id, s.storages.Has id →
    s'.storages.Has id ∧ ∀ b : ACLBinding, b.storageID = id → (b ∈ s'.acl.rows ↔ b ∈ s.acl.rows)

section
variable {s s' s'' : Store}

theorem Keeps.of_same (storages : s'.storages = s.storages) (acl : s'.acl = s.acl) : Keeps s s' := by
  intro id has
  rw [storages, acl]
  exact ⟨has, fun _ _ => Iff.rfl⟩

theorem Keeps.trans (h : Keeps s s') (h' : Keeps s' s'') : Keeps s s'' := by
  intro id has
  obtain ⟨has', acl⟩ := h id has
  obtain ⟨has'', acl'⟩ := h' id has'
  exact ⟨has'', fun b onIt => (acl' b onIt).trans (acl b onIt)⟩

theorem Keeps.createStorage {env st actor}
    (new : ¬ s.storages.Has (st.withDefaults env).id) (free : ¬ s.acl.Has (env.uuid 1).val) :
    Keeps s (s.createStorage env st actor).1 := by
  intro id has
  refine ⟨by simp [has], ?_⟩
  intro b onIt
  have other : b ≠ ownerBinding env (st.withDefaults env) actor := by
    intro same
    apply new
    rw [same] at onIt
    rw [← onIt] at has
    exact has
  simp only [createStorage_acl, mem_put, other, false_or]
  constructor
  · intro kept
    exact kept.1
  · intro old
    refine ⟨old, fun clash => free ?_⟩
    rw [← show b.id = (env.uuid 1).val from clash]
    exact has_of_mem old

end

theorem Keeps.createToken [Digests] {env s s' input t raw} (done : s.createToken env input = .ok (s', t, raw)) : Keeps s s' := by
  obtain ⟨_, _, rfl⟩ := createToken_ok done
  exact .of_same rfl rfl

def FreshID (s : Store) (id : String) : Prop :=
  ¬ s.storages.Has id ∧ ¬ s.acl.Has id ∧ ¬ s.tokens.Has id ∧
    (∀ e ∈ s.tokenByHash.rows, e.2 ≠ id) ∧ ∀ l ∈ s.tokenScopes, l.tokenID ≠ id

instance (s : Store) (id : String) : Decidable (FreshID s id) := inferInstanceAs (Decidable (_ ∧ _))

section
variable {s : Store} {id : String} {f : AccessToken → AccessToken}

theorem mem_updateToken (keeps : ∀ u, (f u).id = u.id) {t'} (row : t' ∈ (s.updateToken id f).tokens.rows) :
    t' ∈ s.tokens.rows ∨ ∃ u, s.tokens.get? id = some u ∧ f u = t' := by
  have found := get?_of_mem row
  rw [get?_updateToken keeps] at found
  split at found
  · next same =>
    rw [same] at found
    obtain ⟨u, found', rfl⟩ := Option.map_eq_some_iff.mp found
    exact .inr ⟨u, found', rfl⟩
  · exact .inl (mem_of_get? found)

theorem FreshID.updateToken {k} (h : FreshID s k)
    (keeps : ∀ u, (f u).id = u.id) : FreshID (s.updateToken id f) k := by
  obtain ⟨storages, acl, tokens, rest⟩ := h
  refine ⟨storages, acl, ?_, rest⟩
  rintro ⟨t', row, key⟩
  rcases mem_updateToken keeps row with old | ⟨u, found, rfl⟩
  · exact tokens ⟨t', old, key⟩
  · exact tokens ⟨u, mem_of_get? found, (keeps u).symm.trans key⟩

end

/-- The first `n` draws are fresh and pairwise distinct. -/
def FreshDraws (n : Nat) (env : Env) (s : Store) : Prop :=
  ∀ i < n, FreshID s (env.uuid i).val ∧ ∀ j < i, (env.uuid j).val ≠ (env.uuid i).val

instance (n : Nat) (env : Env) (s : Store) : Decidable (FreshDraws n env s) :=
  inferInstanceAs (Decidable (∀ i < n, _))

section
variable {n : Nat} {env : Env} {s s' : Store}

theorem FreshDraws.mono (h : FreshDraws n env s)
    (keeps : ∀ i < n, FreshID s (env.uuid i).val → FreshID s' (env.uuid i).val) : FreshDraws n env s' := by
  intro i hi
  exact ⟨keeps i hi (h i hi).1, (h i hi).2⟩

theorem FreshDraws.after {m} (h : FreshDraws (n + m) env s) : FreshDraws n (env.after m) s := by
  intro i hi
  obtain ⟨fresh, distinct⟩ := h (i + m) (by omega)
  exact ⟨fresh, fun j hj => distinct (j + m) (by omega)⟩

theorem FreshDraws.of_same (h : FreshDraws n env s) (same : SameAccess s s') : FreshDraws n env s' := by
  apply h.mono
  intro i _ fresh
  simpa only [FreshID, same.storages, same.acl, same.tokens, same.tokenByHash, same.tokenScopes] using fresh

variable [Digests] {p : Principal} {bucket : String}

theorem ensurePrincipal_step (fresh : FreshDraws (n + 3) env s) :
    Keeps s (ensurePrincipal env s p bucket).1 ∧ SameTokens s (ensurePrincipal env s p bucket).1 ∧
      FreshDraws n (env.after 3) (ensurePrincipal env s p bucket).1 := by
  obtain ⟨users, groups, ⟨_, _, after, _⟩ | ⟨_, after, _⟩⟩ := ensurePrincipal_cases env s p bucket
  · rw [after]
    exact ⟨.of_same rfl rfl, ⟨rfl, rfl, rfl⟩, fresh.after.of_same ⟨⟨rfl, rfl, rfl⟩, rfl, rfl⟩⟩
  · rw [after]
    refine ⟨?_, ⟨rfl, rfl, rfl⟩, ?_⟩
    · have base : Keeps s ({ s with users := users, groups := groups } : Store) := .of_same rfl rfl
      exact base.trans (.createStorage (fresh 0 (by omega)).1.1 (fresh 1 (by omega)).1.2.1)
    · apply fresh.after.mono
      intro i hi ⟨storages, acl, tokens⟩
      obtain ⟨_, distinct⟩ := fresh (i + 3) (by omega)
      refine ⟨?_, ?_, tokens⟩
      · rw [createStorage_storages, has_put]
        exact not_or.mpr ⟨distinct 0 (by omega), storages⟩
      · rw [createStorage_acl, has_put]
        exact not_or.mpr ⟨distinct 1 (by omega), acl⟩

theorem resolveStorageIDs_step (ids : List String) (fresh : FreshDraws (n + 3) env s) :
    Keeps s (resolveStorageIDs env s p bucket ids).1 ∧ SameTokens s (resolveStorageIDs env s p bucket ids).1 ∧
      FreshDraws n (env.after 3) (resolveStorageIDs env s p bucket ids).1 := by
  unfold resolveStorageIDs
  split
  · exact ensurePrincipal_step fresh
  · exact ⟨.of_same rfl rfl, ⟨rfl, rfl, rfl⟩, fresh.after⟩

end

section
variable {s : Store} {id : String}

theorem tokenStorages_of_append {old new} (written : s.tokenScopes = old ++ new)
    (own : ∀ l ∈ new, l.tokenID = id) (k : String) :
    s.tokenStorages k = old.filter (fun l => l.tokenID = k) ++ if k = id then new else [] := by
  simp only [Store.tokenStorages, written, filter_append]
  congr 1
  split
  · next same =>
    rw [filter_eq_self, same]
    simpa using own
  · next other =>
    rw [filter_eq_nil_iff]
    intro l hl
    simpa [own l hl] using Ne.symm other

end

def mintedScopes [Digests] (env : Env) (input : CreateTokenInput) : List AccessTokenStorage :=
  input.storageScopes.map (tokenScope env (newToken env input))

theorem intersectMode_orElse (a b : AccessMode) : intersectMode a (orElse .unset b a) = intersectMode a b := by
  unfold orElse
  split
  · next unset =>
    rw [unset]
    simp [intersectMode]
  · rfl

section
variable [Digests] {env : Env} {input : CreateTokenInput} {t : AccessToken} {scopes : List AccessTokenStorage}

theorem storageTokenMode_mintedScopes (id : String) :
    storageTokenMode (newToken env input) (mintedScopes env input) id =
      storageTokenMode { mode := (newToken env input).mode } input.storageScopes id := by
  unfold storageTokenMode mintedScopes
  rw [find?_map]
  have same : (fun scope : AccessTokenStorage => decide (scope.storageID = id)) ∘
      tokenScope env (newToken env input) = fun scope => decide (scope.storageID = id) := rfl
  rw [same]
  cases input.storageScopes.find? (fun scope => scope.storageID = id) with
  | none => rfl
  | some => exact intersectMode_orElse _ _

theorem newToken_within
    (asked : ({ mode := (newToken env input).mode } : AccessToken).Within input.storageScopes t scopes) :
    (newToken env input).Within (mintedScopes env input) t scopes := by
  intro id q admits
  apply asked id q
  refine ⟨?_, .inl rfl⟩
  rw [← storageTokenMode_mintedScopes]
  exact admits.1

theorem newToken_mintInput_within {p req ids} (asked : ({ mode := req.askedMode } : AccessToken).Within
      (ids.map fun id => { storageID := id, maxMode := req.askedMode }) t scopes) :
    (newToken env (mintInput p req ids)).Within (mintedScopes env (mintInput p req ids)) t scopes := by
  apply newToken_within
  rw [newToken_mintInput_mode]
  exact asked

end

/-- Where a token stands in a run that began in `start`: it was there and has the
rate limit it had, or it belongs to the owner of `t` and admits no more than `t`. -/
def Accounted [Digests] (start : Store) (t : AccessToken) (scopes : List AccessTokenStorage) (s : Store)
    (t' : AccessToken) : Prop :=
  (∃ t₁ ∈ start.tokens.rows, t₁.id = t'.id ∧ t₁.rateLimit = t'.rateLimit) ∨
    (t'.ownerSubjectKey = subjectKeyForPrincipal (tokenPrincipal t) ∧ t'.Within (s.tokenStorages t'.id) t scopes)

/-- The invariant of a run with the raw form of `t`: it leads to a token of the
same owner if to any, and every token is accounted for. -/
structure Confined [Digests] (start : Store) (raw : String) (t : AccessToken)
    (scopes : List AccessTokenStorage) (s : Store) : Prop where
  holder : ∀ entry t', s.tokenByHash.get? (hashToken raw) = some entry → s.tokens.get? entry.2 = some t' →
    t'.ownerSubjectKey = t.ownerSubjectKey
  tokens : ∀ t' ∈ s.tokens.rows, Accounted start t scopes s t'

section
variable [Digests] {start s s' : Store} {raw id : String} {t : AccessToken} {scopes : List AccessTokenStorage}
  {env : Env} {t' : AccessToken} {f : AccessToken → AccessToken}

theorem Accounted.congr {t''} (h : Accounted start t scopes s t') (same : t''.id = t'.id)
    (owner : t''.ownerSubjectKey = t'.ownerSubjectKey) (rateLimit : t''.rateLimit = t'.rateLimit)
    (mode : t''.mode = t'.mode) (allowed : t''.allowedPermissions = t'.allowedPermissions)
    (read : s'.tokenStorages t'.id = s.tokenStorages t'.id) : Accounted start t scopes s' t'' := by
  rcases h with ⟨t₁, row, id₁, limit⟩ | ⟨own, within⟩
  · exact .inl ⟨t₁, row, id₁.trans same.symm, limit.trans rateLimit.symm⟩
  · refine .inr ⟨owner.trans own, ?_⟩
    rw [same, read]
    exact within.congr mode allowed

section
variable (h : Confined start raw t scopes s)
include h

theorem Confined.of_same (same : SameTokens s s') :
    Confined start raw t scopes s' where
  holder := by
    rw [same.tokens, same.tokenByHash]
    exact h.holder
  tokens := by
    intro t' row
    rw [same.tokens] at row
    have read : s'.tokenStorages t'.id = s.tokenStorages t'.id := by
      simp only [Store.tokenStorages, same.tokenScopes]
    exact (h.tokens t' row).congr rfl rfl rfl rfl rfl read

section
variable (keeps : ∀ u, (f u).id = u.id) (owner : ∀ u, (f u).ownerSubjectKey = u.ownerSubjectKey)
include keeps owner

theorem Confined.holder_updateToken : ∀ entry t', (s.updateToken id f).tokenByHash.get? (hashToken raw) = some entry →
      (s.updateToken id f).tokens.get? entry.2 = some t' → t'.ownerSubjectKey = t.ownerSubjectKey := by
  intro entry t' known row
  rw [get?_updateToken keeps] at row
  split at row
  · obtain ⟨u, found, rfl⟩ := Option.map_eq_some_iff.mp row
    exact (owner u).trans (h.holder entry u known found)
  · exact h.holder entry t' known row

theorem Confined.updateToken
    (rateLimit : ∀ u, (f u).rateLimit = u.rateLimit) (mode : ∀ u, (f u).mode = u.mode)
    (allowed : ∀ u, (f u).allowedPermissions = u.allowedPermissions) :
    Confined start raw t scopes (s.updateToken id f) where
  holder := h.holder_updateToken keeps owner
  tokens := by
    intro t' row
    rcases mem_updateToken keeps row with old | ⟨u, found, rfl⟩
    · exact (h.tokens t' old).congr rfl rfl rfl rfl rfl rfl
    · have before := h.tokens u (mem_of_get? found)
      exact before.congr (keeps u) (owner u) (rateLimit u) (mode u) (allowed u) rfl

end

theorem Confined.revokeToken : Confined start raw t scopes (s.revokeToken env id) :=
  h.updateToken (fun _ => rfl) (fun _ => rfl) (fun _ => rfl) (fun _ => rfl) (fun _ => rfl)

theorem Confined.updateTokenRateLimit {policy}
    (own : ∀ u, s.tokens.get? id = some u → u.ownerSubjectKey = subjectKeyForPrincipal (tokenPrincipal t) ∧
      u.Within (s.tokenStorages id) t scopes) :
    Confined start raw t scopes (s.updateTokenRateLimit id policy) where
  holder := h.holder_updateToken (fun _ => rfl) (fun _ => rfl)
  tokens := by
    intro t' row
    have keeps : ∀ u : AccessToken, ({ u with rateLimit := policy } : AccessToken).id = u.id := fun _ => rfl
    rcases mem_updateToken keeps row with old | ⟨u, found, rfl⟩
    · exact (h.tokens t' old).congr rfl rfl rfl rfl rfl rfl
    · obtain ⟨owner, within⟩ := own u found
      refine .inr ⟨owner, ?_⟩
      have same : u.id = id := key_of_get? found
      rw [← same] at within
      exact within.congr rfl rfl

theorem Confined.deleteToken :
    Confined start raw t scopes (s.deleteToken id) where
  holder := by
    intro entry t' known row
    have row' : s.tokens.get? entry.2 = some t' := by
      obtain ⟨mem, key⟩ := get?_eq_some_iff.mp row
      exact get?_eq_some_iff.mpr ⟨(Table.mem_delete.mp mem).1, key⟩
    have known' : s.tokenByHash.get? (hashToken raw) = some entry := by
      simp only [Store.deleteToken] at known
      split at known
      · obtain ⟨mem, key⟩ := get?_eq_some_iff.mp known
        exact get?_eq_some_iff.mpr ⟨(Table.mem_delete.mp mem).1, key⟩
      · exact known
    exact h.holder entry t' known' row'
  tokens := by
    intro t' row
    obtain ⟨old, other⟩ := Table.mem_delete.mp row
    refine (h.tokens t' old).congr rfl rfl rfl rfl rfl ?_
    simp only [Store.tokenStorages, Store.deleteToken, filter_filter]
    apply filter_congr
    intro l _
    by_cases same : l.tokenID = t'.id
    · simp [same, other]
    · simp [same]

/-- A new token under fresh identifiers that admits no more than `t`. -/
theorem Confined.createToken {input raw'} (done : s.createToken env input = .ok (s', t', raw'))
    (owner : input.ownerSubjectKey = subjectKeyForPrincipal (tokenPrincipal t))
    (within : (newToken env input).Within (mintedScopes env input) t scopes)
    (fresh : FreshID s (env.uuid 0).val) (other : hashToken (rawToken env) ≠ hashToken raw) :
    Confined start raw t scopes s' := by
  obtain ⟨token, _, store⟩ := createToken_ok done
  obtain ⟨_, _, _, untargeted, unscoped⟩ := fresh
  have newID : t'.id = (env.uuid 0).val := by
    rw [token]
    rfl
  have newHash : (t'.tokenHash, t'.id).1 ≠ hashToken raw := by
    rw [token]
    exact other
  have tokens : s'.tokens = s.tokens.put t' := by rw [store]
  have hashes : s'.tokenByHash = s.tokenByHash.put (t'.tokenHash, t'.id) := by rw [store]
  have written : s'.tokenScopes = s.tokenScopes ++ mintedScopes env input := by
    rw [store, token]
    rfl
  have own : ∀ l ∈ mintedScopes env input, l.tokenID = t'.id := by
    intro l hl
    obtain ⟨_, _, rfl⟩ := List.mem_map.mp hl
    rw [token]
    rfl
  have read := tokenStorages_of_append written own
  refine ⟨?_, ?_⟩
  · intro entry u known row
    rw [hashes, get?_put_of_ne _ newHash] at known
    have target : t'.id ≠ entry.2 := by
      rw [newID]
      exact (untargeted entry (mem_of_get? known)).symm
    rw [tokens, get?_put_of_ne _ target] at row
    exact h.holder entry u known row
  · intro u row
    rw [tokens] at row
    rcases Table.mem_put.mp row with rfl | ⟨old, differs⟩
    · -- the new token reads its own scopes only, since nothing was filed under its id
      have none : s.tokenScopes.filter (fun l => l.tokenID = u.id) = [] := by
        rw [filter_eq_nil_iff, newID]
        simpa using unscoped
      refine .inr ⟨by rw [token]; exact owner, ?_⟩
      rw [read, none, if_pos rfl, nil_append, token]
      exact within
    · refine (h.tokens u old).congr rfl rfl rfl rfl rfl ?_
      rw [read, if_neg differs, append_nil]
      rfl

end

end

open AdminHandler in
/-- The requests that keep within a token: deleting a storage or writing an ACL is
refused to the owner as well, a storage is created under an id of its own, and what is
asked for a new, rotated or limited token admits nothing that `t` does not. -/
def StaysWithin [Digests] (t : AccessToken) (scopes : List AccessTokenStorage) (env : Env) (p : Principal)
    (req : Request) (s : Store) : AdminRoute → Prop
  | .deleteStorage => storageAllowed s p none [] (idFromPath req.adminPath 1) .storageDelete = false
  | .upsertACL =>
    req.body.binding.Holds fun _ =>
      storageAllowed s p none [] (storageIDFromACLPath req.adminPath) .aclManage = false
  | .createStorage => req.body.storage.Holds fun st => ¬ s.storages.Has (st.withDefaults env).id
  | .createToken =>
    req.body.token.Holds fun r =>
      ({ mode := r.askedMode } : AccessToken).Within
        ((requestedStorages env s p r.storageIDs).map fun id => { storageID := id, maxMode := r.askedMode })
        t scopes
  | .rotateToken =>
    canManageToken s p (tokenIDFromPath req.adminPath) = true →
      ({ mode := .read } : AccessToken).Within (s.tokenStorages (tokenIDFromPath req.adminPath)) t scopes
  | .patchRateLimit =>
    ∀ t' ∈ s.tokens.get? (tokenIDFromPath req.adminPath),
      canManageToken s p (tokenIDFromPath req.adminPath) = true →
        t'.Within (s.tokenStorages (tokenIDFromPath req.adminPath)) t scopes
  | _ => True

instance [Digests] (t : AccessToken) (scopes : List AccessTokenStorage) (env : Env) (p : Principal)
    (req : Request) (s : Store) : (route : AdminRoute) → Decidable (StaysWithin t scopes env p req s route)
  | .deleteStorage => inferInstanceAs (Decidable (_ = false))
  | .upsertACL => inferInstanceAs (Decidable (req.body.binding.Holds fun _ => _ = false))
  | .createStorage => inferInstanceAs (Decidable (req.body.storage.Holds fun _ => ¬ s.storages.Has _))
  | .createToken => inferInstanceAs (Decidable (req.body.token.Holds fun _ => AccessToken.Within _ _ t scopes))
  | .rotateToken => inferInstanceAs (Decidable (_ = true → AccessToken.Within _ _ t scopes))
  | .patchRateLimit =>
    inferInstanceAs (Decidable (∀ t' ∈ s.tokens.get? _, _ = true → AccessToken.Within t' _ t scopes))
  | .status | .createKnowledge | .currentUser | .listUsers | .getUser | .createUser | .updateUser
  | .changeUserPassword | .deleteUser | .listGroups | .createGroup | .deleteGroup | .listGroupMembers
  | .addGroupMember | .removeGroupMember | .listStorages | .getStorageDetails | .storageACL | .listTokens
  | .deleteToken | .revokeToken | .connectOptions | .usageSeries | .usageSummary | .handleMCPServers
  | .patchTokenMCPScopes | .notFound => .isTrue trivial

section
variable [Digests] {start s s' : Store} {raw : String} {t : AccessToken} {scopes : List AccessTokenStorage}
  {cfg : AdminConfig} {env : Env} {req : Request} {route : AdminRoute} {p : Principal}

theorem AdminEffect.keeps (effect : AdminEffect cfg env p req s route s')
    (within : StaysWithin t scopes env p req s route) (fresh : FreshDraws 4 env s) : Keeps s s' := by
  cases effect with
  | records same => exact .of_same same.storages same.acl
  | ensured =>
    have draws : FreshDraws (1 + 3) env s := fresh
    exact (ensurePrincipal_step draws).1
  | created decoded =>
    simp only [StaysWithin, decoded, Decoded.Holds] at within
    exact .createStorage within (fresh 1 (by omega)).1.2.1
  | dropped allowed =>
    rw [StaysWithin, allowed] at within
    cases within
  | bound decoded allowed =>
    rw [StaysWithin, decoded, Decoded.Holds, allowed] at within
    cases within
  | minted decoded done =>
    have draws : FreshDraws (1 + 3) env s := fresh
    exact (resolveStorageIDs_step _ draws).1.trans (.createToken done)
  | rotated own done =>
    have revoked : Keeps s (s.revokeToken env (tokenIDFromPath req.adminPath)) := .of_same rfl rfl
    exact revoked.trans (.createToken done)
  | limited own | revoked | removed => exact .of_same rfl rfl

theorem owner_of_canManageToken {id u}
    (manages : canManageToken s (tokenPrincipal t) id = true) (row : s.tokens.get? id = some u) :
    u.ownerSubjectKey = subjectKeyForPrincipal (tokenPrincipal t) := by
  have plain : isPlatformAdmin (tokenPrincipal t) = false := by
    simp [isPlatformAdmin, tokenPrincipal]
  by_cases unnamed : id = ""
  · simp [canManageToken, plain, getToken, unnamed] at manages
  · simpa [canManageToken, plain, getToken, unnamed, row] using manages

theorem AdminEffect.confined (effect : AdminEffect cfg env (tokenPrincipal t) req s route s')
    (within : StaysWithin t scopes env (tokenPrincipal t) req s route) (fresh : FreshDraws 4 env s)
    (other : hashToken (rawToken env) ≠ hashToken raw) (inv : Confined start raw t scopes s) :
    Confined start raw t scopes s' := by
  cases effect with
  | records same => exact inv.of_same same.toSameTokens
  | ensured =>
    have draws : FreshDraws (1 + 3) env s := fresh
    exact inv.of_same (ensurePrincipal_step draws).2.1
  | created decoded | bound decoded allowed => exact inv.of_same ⟨rfl, rfl, rfl⟩
  | dropped allowed =>
    rw [StaysWithin, allowed] at within
    cases within
  | minted decoded done =>
    simp only [StaysWithin, decoded, Decoded.Holds] at within
    have draws : FreshDraws (1 + 3) env s := fresh
    obtain ⟨_, same, later⟩ := resolveStorageIDs_step _ draws
    rw [← resolveStorageIDs_ids cfg.bucket] at within
    exact (inv.of_same same).createToken done rfl (newToken_mintInput_within within) (later 0 (by omega)).1 other
  | rotated own done =>
    have unused : FreshID (s.revokeToken env (tokenIDFromPath req.adminPath)) (env.uuid 0).val :=
      (fresh 0 (by omega)).1.updateToken fun _ => rfl
    exact inv.revokeToken.createToken done rfl (newToken_within (within own)) unused other
  | limited own =>
    apply inv.updateTokenRateLimit
    intro u row
    exact ⟨owner_of_canManageToken own row, within u row own⟩
  | revoked => exact inv.revokeToken
  | removed => exact inv.deleteToken

end

section
variable [Digests] {start s s' : Store} {raw : String} {t : AccessToken} {scopes : List AccessTokenStorage}
  {cfg : AdminConfig} {env : Env} {mcp : Option MCPStore} {ac : APIAccessContext} {σ : AdminState}

theorem resolveBearer_store : (resolveBearer env s mcp raw).1 = (s.resolveToken env raw).1 := by
  unfold resolveBearer
  generalize s.resolveToken env raw = result
  obtain ⟨_, resolved⟩ := result
  cases resolved with
  | error => rfl
  | ok found =>
    cases found with
    | none | some pair => rfl

theorem resolveBearer_some (h : resolveBearer env s mcp raw = (s', .ok (some ac))) :
    ∃ entry u, s.tokenByHash.get? (hashToken raw) = some entry ∧ s.tokens.get? entry.2 = some u ∧
      ac.principal = tokenPrincipal u := by
  unfold resolveBearer at h
  cases result : s.resolveToken env raw with
  | mk s₁ resolved =>
    rw [result] at h
    cases resolved with
    | error => cases h
    | ok found =>
      cases found with
      | none => cases h
      | some pair =>
        obtain ⟨⟨entry, known, row⟩, _⟩ := resolveToken_some result
        simp only [Prod.mk.injEq, Except.ok.injEq, Option.some.injEq] at h
        refine ⟨entry, pair.1, known, row, ?_⟩
        rw [← h.2]
        rfl

theorem resolveBearer_step {n} (mcp : Option MCPStore) (fresh : FreshDraws n env s)
    (inv : Confined start raw t scopes s) :
    Keeps s (resolveBearer env s mcp raw).1 ∧ FreshDraws n env (resolveBearer env s mcp raw).1 ∧
      Confined start raw t scopes (resolveBearer env s mcp raw).1 := by
  rw [resolveBearer_store]
  rcases resolveToken_store env s raw with same | ⟨_, marked⟩
  · rw [same]
    exact ⟨.of_same rfl rfl, fresh, inv⟩
  · rw [marked]
    refine ⟨.of_same rfl rfl, fresh.mono fun _ _ unused => unused.updateToken fun _ => rfl, ?_⟩
    exact inv.updateToken (fun _ => rfl) (fun _ => rfl) (fun _ => rfl) (fun _ => rfl) (fun _ => rfl)

theorem enter_step {n p route} (fresh : FreshDraws (n + 3) env σ.store) :
    Keeps σ.store (enter cfg env σ p route).store ∧ SameTokens σ.store (enter cfg env σ p route).store ∧
      FreshDraws n (env.after 3) (enter cfg env σ p route).store := by
  unfold enter
  split
  · exact ⟨.of_same rfl rfl, ⟨rfl, rfl, rfl⟩, fresh.after⟩
  · simp only
    split
    · exact ensurePrincipal_step fresh
    · exact ⟨.of_same rfl rfl, ⟨rfl, rfl, rfl⟩, fresh.after⟩

def entryState (cfg : AdminConfig) (raw : String) (t : AccessToken) (σ : AdminState) (input : Env × Request) :
    AdminState :=
  enter cfg input.1 { σ with store := (resolveBearer input.1 σ.store σ.mcp raw).1 }
    (tokenPrincipal t) (routeOf input.2)

def RequestWithin (raw : String) (t : AccessToken) (scopes : List AccessTokenStorage) (cfg : AdminConfig)
    (σ : AdminState) (input : Env × Request) : Prop :=
  FreshDraws 7 input.1 σ.store ∧ hashToken (rawToken input.1) ≠ hashToken raw ∧
    StaysWithin t scopes (input.1.after 3) (tokenPrincipal t) input.2 (entryState cfg raw t σ input).store
      (routeOf input.2)

theorem dispatch_within {req} (fresh : FreshDraws 7 env σ.store)
    (other : hashToken (rawToken env) ≠ hashToken raw) (inv : Confined start raw t scopes σ.store)
    (stays : StaysWithin t scopes (env.after 3) (tokenPrincipal t) req
      (enter cfg env σ (tokenPrincipal t) (routeOf req)).store (routeOf req)) :
    Keeps σ.store (dispatch cfg env σ (tokenPrincipal t) ac req).1.store ∧
      Confined start raw t scopes (dispatch cfg env σ (tokenPrincipal t) ac req).1.store := by
  have draws : FreshDraws (4 + 3) env σ.store := fresh
  obtain ⟨keeps, same, fresh'⟩ : _ ∧ SameTokens σ.store
      (enter cfg env σ (tokenPrincipal t) (routeOf req)).store ∧ _ := enter_step draws
  have effect : AdminEffect cfg (env.after 3) (tokenPrincipal t) req
      (enter cfg env σ (tokenPrincipal t) (routeOf req)).store (routeOf req)
      (dispatch cfg env σ (tokenPrincipal t) ac req).1.store := handle_effect
  refine ⟨keeps.trans (effect.keeps stays fresh'), ?_⟩
  exact effect.confined stays fresh' other (inv.of_same same)

instance (raw : String) (t : AccessToken) (scopes : List AccessTokenStorage) (cfg : AdminConfig)
    (σ : AdminState) (input : Env × Request) : Decidable (RequestWithin raw t scopes cfg σ input) :=
  inferInstanceAs (Decidable (_ ∧ _ ∧ _))

theorem step_within {input} (notJWT : ∀ p, cfg.verify raw ≠ .ok p)
    (inv : Confined start raw t scopes σ.store) (within : RequestWithin raw t scopes cfg σ input) :
    Keeps σ.store (step cfg raw σ input).store ∧ Confined start raw t scopes (step cfg raw σ input).store := by
  obtain ⟨env, req⟩ := input
  obtain ⟨fresh, other, stays⟩ := within
  obtain ⟨keeps, fresh', inv'⟩ := resolveBearer_step σ.mcp fresh inv
  unfold step serve
  split
  · exact ⟨.of_same rfl rfl, inv⟩
  · simp only [entryState] at stays
    cases resolved : resolveBearer env σ.store σ.mcp raw with
    | mk s₁ result =>
      rw [resolved] at keeps fresh' inv' stays
      cases result with
      | error => exact ⟨keeps, inv'⟩
      | ok found =>
        cases found with
        | none =>
          simp only
          split
          · exact ⟨keeps, inv'⟩
          · next p verified => exact absurd verified (notJWT p)
        | some ac =>
          obtain ⟨entry, u, known, row, principal⟩ := resolveBearer_some resolved
          have same : ac.principal = tokenPrincipal t := by
            rw [principal]
            simp only [tokenPrincipal, inv.holder entry u known row]
          simp only [same]
          have done : Keeps s₁ (dispatch cfg env { σ with store := s₁ }
              (tokenPrincipal t) ac req).1.store ∧ _ := dispatch_within fresh' other inv' stays
          exact ⟨keeps.trans done.1, done.2⟩

/-- What an accounted token adds to the ones there were is within the token: both
are decided on the bindings of one owner. -/
theorem storageAllowed_of_within {t' scopes' id q} (owner : t'.ownerSubjectKey = subjectKeyForPrincipal (tokenPrincipal t))
    (within : t'.Within scopes' t scopes)
    (allowed : storageAllowed s (tokenPrincipal t') (some t') scopes' id q = true) :
    storageAllowed s (tokenPrincipal t) (some t) scopes id q = true := by
  rw [storageAllowed_some_iff] at allowed ⊢
  obtain ⟨named, admits, b, row, key, onIt, grants⟩ := allowed
  refine ⟨named, within id q admits, b, row, ?_, onIt, grants⟩
  have owned : t'.ownerSubjectKey ≠ "" := by
    rw [owner]
    exact subjectKeyForPrincipal_ne_empty _
  obtain ⟨nonempty, own | all⟩ := (mem_subjectKeys_tokenPrincipal owned).mp key
  · rw [owner] at own
    exact mem_subjectKeys.mpr ⟨nonempty, .inl own⟩
  · exact mem_subjectKeys.mpr ⟨nonempty, .inr (.inl all)⟩

end

def numbered (c : Char) : Env where
  now := 1
  uuid n := ⟨String.ofList (c :: List.replicate n 'x'), by simp⟩
  random := c.toString

/-- What `u` asks for when minting a token that reads `a`. -/
def readerRequest : CreateTokenInput :=
  { ownerSubjectKey := "user:internal:u", mode := .read, storageScopes := [{ storageID := "a", maxMode := .read }] }

/-- Two storages `a` and `b` of `u`, and a token of `u` that reads `a`. -/
def readerState : AdminState :=
  let (s, _) := Store.empty.createStorage (draws "x") { id := "a", ownerSubjectKey := "user:internal:u" } "u"
  let (s, _) := s.createStorage (draws "y") { id := "b", ownerSubjectKey := "user:internal:u" } "u"
  { store :=
      match @Store.createToken .plain (draws "t") s readerRequest with
      | .ok (s, _) => s
      | .error _ => s }

def readerToken : AccessToken := @Store.newToken .plain (draws "t") readerRequest

/-- A second token that reads `a`, and a new storage. -/
def readerRequests : List (Env × Request) :=
  [(numbered 'p',
      { method := .post, path := "/api/admin/tokens", body := { token := .ok { storageIDs := ["a"] } } }),
    (numbered 'q', { method := .post, path := "/api/admin/storages", body := { storage := .ok { name := "new" } } })]

end SynaMcp
