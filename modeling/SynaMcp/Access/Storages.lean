import SynaMcp.Lib.Decision
import SynaMcp.Rights
import SynaMcp.Store.Storages

/-! Effective access to a storage. The evaluator computes a `Bindings.Decision`: the
token is the gate, the roles grant, and a platform administrator without a token falls
back to everything while no binding carries a permission. -/
namespace SynaMcp
open Bindings List Store
variable (t : AccessToken) (scopes : List AccessTokenStorage) (storageID : String)

def storageTokenMode : AccessMode :=
  match scopes.find? (fun scope => scope.storageID = storageID) with
  | none => .none
  | some scope => intersectMode t.mode scope.maxMode

def aclPermissions (acl : List ACLBinding) (storageID : String) : List StoragePermission :=
  collect (fun b => b.storageID = storageID) (fun b => rolePermissions b.role) acl

def evaluateStorageAccess [Digests] (p : Principal) (token : Option AccessToken)
    (tokenScopes : List AccessTokenStorage) (acl : List ACLBinding) (storageID : String)
    (permission : StoragePermission) : EffectiveAccess × Bool :=
  let userPerms := aclPermissions acl storageID
  match token with
  | none =>
    let effective := if userPerms = [] ∧ "platform_admin" ∈ p.scopes then [permission] else userPerms
    ({ storageID := storageID, subjectKey := subjectKeyForPrincipal p, mode := .readWrite,
       permissions := effective }, decide (permission ∈ effective))
  | some t =>
    let mode := storageTokenMode t tokenScopes storageID
    let byMode := userPerms.filter (fun perm => perm ∈ modePermissions mode)
    let effective :=
      if t.allowedPermissions ≠ [] then byMode.filter (fun perm => perm ∈ t.allowedPermissions)
      else byMode
    ({ tokenID := t.id, storageID := storageID, subjectKey := subjectKeyForPrincipal p,
       mode := mode, permissions := effective }, decide (permission ∈ effective))

/-- What the token itself lets through on a storage, whatever the bindings say. -/
def AccessToken.Admits (q : StoragePermission) : Prop :=
  q ∈ modePermissions (storageTokenMode t scopes storageID) ∧ (t.allowedPermissions = [] ∨ q ∈ t.allowedPermissions)

instance (t : AccessToken) (scopes : List AccessTokenStorage) (id : String) (q : StoragePermission) :
    Decidable (t.Admits scopes id q) := inferInstanceAs (Decidable (_ ∧ _))

def storageDecision (p : Principal) (token : Option AccessToken) (scopes : List AccessTokenStorage)
    (storageID : String) (q : StoragePermission) : Decision ACLBinding where
  gate := ∀ t, token = some t → t.Admits scopes storageID q
  fallback := token = none ∧ "platform_admin" ∈ p.scopes
  grants b := b.storageID = storageID ∧ q ∈ rolePermissions b.role
  engages b := b.storageID = storageID ∧ rolePermissions b.role ≠ []
  engages_of_grants := by
    intro b h
    exact ⟨h.1, ne_nil_of_mem h.2⟩

section
variable {p : Principal} {token : Option AccessToken} {t : AccessToken}
  {scopes : List AccessTokenStorage} {acl : List ACLBinding} {id : String} {q : StoragePermission}

theorem storageDecision_gate_some : (storageDecision p (some t) scopes id q).gate ↔ t.Admits scopes id q := by
  simp [storageDecision]

theorem storageDecision_gate_none : (storageDecision p none scopes id q).gate := by
  intro t h
  cases h

theorem storageDecision_no_fallback : ¬ (storageDecision p (some t) scopes id q).fallback := by
  intro h
  cases h.1

theorem mem_aclPermissions : q ∈ aclPermissions acl id ↔
    (storageDecision p token scopes id q).Granted {b | b ∈ acl} := by
  simp only [aclPermissions, mem_collect, decide_eq_true_eq, Decision.Granted, storageDecision, Set.mem_ofPred_eq]

theorem aclPermissions_eq_nil_iff : aclPermissions acl id = [] ↔
    ¬ (storageDecision p token scopes id q).Engaged {b | b ∈ acl} := by
  simp [aclPermissions, collect_eq_nil_iff, decide_eq_true_eq, Decision.Engaged, storageDecision,
    Set.mem_ofPred_eq, not_exists, not_and]

theorem evaluateStorageAccess_iff [Digests] : (evaluateStorageAccess p token scopes acl id q).2 = true ↔
      (storageDecision p token scopes id q).Allows {b | b ∈ acl} := by
  cases token with
  | none =>
    simp only [evaluateStorageAccess, decide_eq_true_eq, Decision.Allows]
    rw [← mem_aclPermissions, ← aclPermissions_eq_nil_iff]
    by_cases empty : aclPermissions acl id = []
    · by_cases admin : "platform_admin" ∈ p.scopes
      · simp [empty, admin, storageDecision]
      · simp [empty, admin, storageDecision]
    · simp [empty, storageDecision_gate_none]
  | some t =>
    rw [Decision.allows_iff_granted storageDecision_no_fallback, ← mem_aclPermissions, storageDecision_gate_some]
    simp only [evaluateStorageAccess, decide_eq_true_eq, AccessToken.Admits]
    by_cases all : t.allowedPermissions = []
    · simp [all, and_comm]
    · simp [all, and_left_comm, and_comm]

theorem evaluateStorageAccess_some_iff [Digests] : (evaluateStorageAccess p (some t) scopes acl id q).2 = true ↔
      t.Admits scopes id q ∧ ∃ b ∈ acl, b.storageID = id ∧ q ∈ rolePermissions b.role := by
  rw [evaluateStorageAccess_iff, Decision.allows_iff_granted storageDecision_no_fallback, storageDecision_gate_some]
  rfl

/-- On standard modes the mode of a token on a storage is that of a single scope
and carries what both modes carry. -/
theorem mem_modePermissions_storageTokenMode (standardToken : t.mode.Standard)
    (standardScopes : ∀ scope ∈ scopes, scope.maxMode.Standard) : q ∈ modePermissions (storageTokenMode t scopes id) ↔
      ∃ scope, scopes.find? (fun scope => scope.storageID = id) = some scope ∧
        q ∈ modePermissions t.mode ∧ q ∈ modePermissions scope.maxMode := by
  unfold storageTokenMode
  cases first : scopes.find? (fun scope => scope.storageID = id) with
  | none => simp [modePermissions]
  | some scope =>
    have standard := standardScopes scope (mem_of_find?_eq_some first)
    simp [mem_modePermissions_intersectMode standardToken standard]

theorem AccessToken.Admits.named (h : t.Admits scopes id q) : ∃ scope ∈ scopes, scope.storageID = id := by
  cases found : scopes.find? (fun scope => scope.storageID = id) with
  | none =>
    have closed : storageTokenMode t scopes id = .none := by simp [storageTokenMode, found]
    have carried := h.1
    rw [closed] at carried
    exact absurd carried not_mem_nil
  | some scope =>
    have onIt := find?_some found
    exact ⟨scope, mem_of_find?_eq_some found, of_decide_eq_true onIt⟩

end

/-- A token on a storage is an exact intersection: a role of the ACL grants the
permission, the first scope naming the storage and the token's mode carry it, and the
token's permission list does not exclude it. -/
theorem evaluateStorageAccess_token_exact [Digests] (p : Principal) (t : AccessToken)
    (scopes : List AccessTokenStorage) (acl : List ACLBinding) (storageID : String)
    (q : StoragePermission) (standardToken : t.mode.Standard)
    (standardScopes : ∀ scope ∈ scopes, scope.maxMode.Standard) :
    ((evaluateStorageAccess p (some t) scopes acl storageID q).2 = true ↔
      (∃ b ∈ acl, b.storageID = storageID ∧ q ∈ rolePermissions b.role) ∧
      (∃ scope, scopes.find? (fun scope => scope.storageID = storageID) = some scope ∧
        q ∈ modePermissions t.mode ∧ q ∈ modePermissions scope.maxMode) ∧
      (t.allowedPermissions = [] ∨ q ∈ t.allowedPermissions)) ∧
    ((evaluateStorageAccess p (some t) scopes acl storageID q).2 = true →
      ∀ owner : Principal, (evaluateStorageAccess owner none [] acl storageID q).2 = true) := by
  constructor
  · rw [evaluateStorageAccess_some_iff, AccessToken.Admits,
      mem_modePermissions_storageTokenMode standardToken standardScopes, and_comm]
  · intro allowed owner
    obtain ⟨_, granted⟩ := evaluateStorageAccess_some_iff.mp allowed
    rw [evaluateStorageAccess_iff]
    exact ⟨storageDecision_gate_none, .inl granted⟩

theorem evaluateStorageAccess_token_exact_reader :
    (@evaluateStorageAccess .plain { subjectKey := "user:internal:u" }
      (some { id := "t", ownerSubjectKey := "user:internal:u", mode := .readWrite })
      [{ storageID := "s", maxMode := .read }, { storageID := "s", maxMode := .readWrite }]
      [{ id := "b", storageID := "s", subjectKey := "user:internal:u", role := .storageOwner }]
      "s" .documentRead).2 = true :=
  ((@evaluateStorageAccess_token_exact .plain _ _ _ _ "s" .documentRead (.inr (.inr rfl))
      (by simp [AccessMode.Standard])).1).mpr (by decide)

section
variable [Digests] (s : Store) (p : Principal) (token : Option AccessToken) (tokenScopes : List AccessTokenStorage)
  (storageID : String) (permission : StoragePermission)

def canAccessStorage : Except String (EffectiveAccess × Bool) :=
  if storageID = "" then .error "storage id is required"
  else .ok (evaluateStorageAccess p token tokenScopes (s.aclForSubject (subjectKeys p)) storageID permission)

/-- The answer of `canAccessStorage` as its callers use it: an error refuses. -/
def storageAllowed : Bool :=
  match canAccessStorage s p token tokenScopes storageID permission with
  | .ok (_, ok) => ok
  | .error _ => false

def storageFilter (p : Principal) (token : Option AccessToken) (tokenScopes : List AccessTokenStorage) :
    Store.AccessibleStorageFilter :=
  { subjectKeys := subjectKeys p
    platformAdmin := token.isNone && decide ("platform_admin" ∈ p.scopes)
    hasToken := token.isSome
    tokenStorageIDs := if token.isSome then tokenScopes.map AccessTokenStorage.storageID else [] }

variable (now : Time) (s : Store) (p : Principal) (token : Option AccessToken) (tokenScopes : List AccessTokenStorage)

def storageCandidates : List Storage × List ACLBinding :=
  (s.listAccessibleStorages now (storageFilter p token tokenScopes), s.aclForSubject (subjectKeys p))

def availableStorages : List (Storage × EffectiveAccess) :=
  let (candidates, acl) := storageCandidates now s p token tokenScopes
  candidates.filterMap fun st =>
    let (eff, ok) := evaluateStorageAccess p token tokenScopes acl st.id .storageRead
    if ok then some (st, eff) else none

def readableStorageIDs : List String :=
  let (candidates, acl) := storageCandidates now s p token tokenScopes
  (candidates.filter fun st =>
    (evaluateStorageAccess p token tokenScopes acl st.id .documentRead).2).map Storage.id

variable {s} {p} {token} {t : AccessToken}
  {scopes : List AccessTokenStorage} {id : String} {q : StoragePermission}

theorem storageFilter_subjectKeys : (storageFilter p token scopes).subjectKeys = subjectKeys p := by
  simp [storageFilter]

def ownACL (s : Store) (p : Principal) : Set ACLBinding := {b | b ∈ s.acl.rows ∧ b.subjectKey ∈ subjectKeys p}

theorem storageAllowed_iff : storageAllowed s p token scopes id q = true ↔
    id ≠ "" ∧ (storageDecision p token scopes id q).Allows (ownACL s p) := by
  have acl : {b | b ∈ s.aclForSubject (subjectKeys p)} = ownACL s p := by
    ext b
    exact mem_aclForSubject
  by_cases unnamed : id = ""
  · simp [storageAllowed, canAccessStorage, unnamed]
  · rw [← acl, ← evaluateStorageAccess_iff]
    simp [storageAllowed, canAccessStorage, unnamed]

theorem storageAllowed_some_iff : storageAllowed s p (some t) scopes id q = true ↔
    id ≠ "" ∧ t.Admits scopes id q ∧ ∃ b ∈ s.acl.rows, b.subjectKey ∈ subjectKeys p ∧
      b.storageID = id ∧ q ∈ rolePermissions b.role := by
  rw [storageAllowed_iff, Decision.allows_iff_granted storageDecision_no_fallback, storageDecision_gate_some]
  simp [Decision.Granted, ownACL, storageDecision, and_assoc]

/-- While no binding is expired, the readable storages are those that exist and
whose documents the caller may read: the candidate filter loses none of them. -/
theorem mem_readableStorageIDs {now} (unexpired : ∀ b ∈ s.acl.rows, expired now b.expiresAt = false) :
    id ∈ readableStorageIDs now s p token scopes ↔
      s.storages.Has id ∧ storageAllowed s p token scopes id .documentRead = true := by
  have acl : {b | b ∈ s.aclForSubject (subjectKeys p)} = ownACL s p := by
    ext b
    exact mem_aclForSubject
  simp only [readableStorageIDs, storageCandidates, mem_map, mem_filter,
    evaluateStorageAccess_iff, acl, mem_listAccessibleStorages]
  constructor
  · rintro ⟨st, ⟨⟨_, row, _⟩, allows⟩, rfl⟩
    exact ⟨Keyed.Table.has_of_mem row, storageAllowed_iff.mpr ⟨s.storages_named st row, allows⟩⟩
  · rintro ⟨⟨st, row, rfl⟩, allowed⟩
    obtain ⟨_, allows⟩ := storageAllowed_iff.mp allowed
    refine ⟨st, ⟨⟨?_, row, ?_⟩, allows⟩, rfl⟩
    · cases token with
      | none => simp [storageFilter]
      | some =>
        intro _ none
        obtain ⟨_, mem, _⟩ := (storageDecision_gate_some.mp allows.gate).named
        have empty : scopes = [] := by simpa [storageFilter] using none
        rw [empty] at mem
        exact absurd mem not_mem_nil
    · by_cases admin : (!(storageFilter p token scopes).hasToken &&
          (storageFilter p token scopes).platformAdmin) = true
      · simp only [candidateIDs, admin, if_true]
        exact mem_map_of_mem row
      · rw [mem_candidateIDs_of_bindings (by simpa using admin), storageFilter_subjectKeys]
        have granted : (storageDecision p token scopes st.id .documentRead).Granted (ownACL s p) := by
          rcases allows.2 with granted | ⟨⟨none, platform⟩, _⟩
          · exact granted
          · exact absurd (by simp [storageFilter, none, platform]) admin
        obtain ⟨b, ⟨hb, key⟩, onIt, _⟩ := granted
        refine ⟨b, hb, onIt, key, unexpired b hb, ?_⟩
        cases token with
        | none => simp [storageFilter]
        | some =>
          intro _
          have named := (storageDecision_gate_some.mp allows.gate).named
          simpa [storageFilter] using named

end

end SynaMcp
