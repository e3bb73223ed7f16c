import SynaMcp.Access.Objects
import SynaMcp.Access.McpServers

/-! Laws the three evaluators share because each computes a `Bindings.Decision`: what
further bindings and expired ones do to an answer, and what a token in `read` mode
allows. -/
namespace SynaMcp
open Bindings

/-- More bindings never turn a grant into a refusal; what they can end is a fallback. An
answer stays positive exactly when the larger ACL grants it or still has no binding that
engages the decision. -/
theorem evaluators_extend_acl [Digests] (p : Principal) (token : Option AccessToken)
    (storageScopes : List AccessTokenStorage) (objectScopes : List AccessTokenObject)
    (serverScopes : List AccessTokenMCPServer) (storageID : String) (obj : DataObject)
    (serverID : String) (q : StoragePermission) (m : String) (sq : MCPServerPermission)
    {acl acl' : List ACLBinding} {objectACL objectACL' : List ObjectACLBinding}
    {serverACL serverACL' : List MCPServerACLBinding} (more : acl ⊆ acl')
    (moreObject : objectACL ⊆ objectACL') (moreServer : serverACL ⊆ serverACL') :
    ((evaluateStorageAccess p token storageScopes acl storageID q).2 = true →
      ((evaluateStorageAccess p token storageScopes acl' storageID q).2 = true ↔
        (∃ b ∈ acl', b.storageID = storageID ∧ q ∈ rolePermissions b.role) ∨
        ∀ b ∈ acl', b.storageID = storageID → rolePermissions b.role = [])) ∧
    ((evaluateObjectAccess p token objectScopes objectACL obj m).2 = true →
      ((evaluateObjectAccess p token objectScopes objectACL' obj m).2 = true ↔
        (∃ b ∈ objectACL', b.objectID = obj.id ∧ m ∈ methodsForRole obj.kind b.role) ∨
        ∀ b ∈ objectACL', b.objectID = obj.id → token ≠ none ∧ methodsForRole obj.kind b.role = [])) ∧
    (evaluateMCPServerAccess p token serverScopes serverACL serverID sq = true →
      (evaluateMCPServerAccess p token serverScopes serverACL' serverID sq = true ↔
        (∃ b ∈ serverACL', b.serverID = serverID ∧ sq ∈ mcpServerRolePermissions b.role) ∨
        ∀ b ∈ serverACL', b.serverID = serverID → mcpServerRolePermissions b.role = [])) := by
  refine ⟨?_, ?_, ?_⟩
  · intro before
    have sub : {b | b ∈ acl} ⊆ {b | b ∈ acl'} := fun b hb => more hb
    rw [evaluateStorageAccess_iff] at before ⊢
    rw [Decision.allows_extend_iff sub before]
    simp [Decision.Granted, Decision.Engaged, storageDecision]
  · intro before
    have sub : {b | b ∈ objectACL} ⊆ {b | b ∈ objectACL'} := fun b hb => moreObject hb
    rw [evaluateObjectAccess_iff] at before ⊢
    rw [Decision.allows_extend_iff sub before]
    simp [Decision.Granted, Decision.Engaged, objectDecision]
  · intro before
    have sub : {b | b ∈ serverACL} ⊆ {b | b ∈ serverACL'} := fun b hb => moreServer hb
    rw [evaluateMCPServerAccess_iff] at before ⊢
    rw [Decision.allows_extend_iff sub before]
    simp [Decision.Granted, Decision.Engaged, serverDecision]

/-- A reader of a storage who also becomes its owner keeps the right to read. -/
theorem evaluators_extend_acl_reader :
    (@evaluateStorageAccess .plain {} none []
      [{ id := "b", storageID := "s", subjectKey := "k", role := .storageReader },
       { id := "c", storageID := "s", subjectKey := "k", role := .storageOwner }] "s" .documentRead).2 = true :=
  ((@evaluators_extend_acl .plain {} none [] [] [] "s" { id := "o", kind := .variable } "m" .documentRead
      "get" .use [{ id := "b", storageID := "s", subjectKey := "k", role := .storageReader }] _ [] [] [] []
      (by decide) (by decide) (by decide)).1 (by decide)).mpr (.inl ⟨_, List.mem_cons_self, by decide⟩)

/-- A reader binding takes `set` on a variable away from a read-write token, and
administration of a storage or a server away from a platform administrator. -/
theorem evaluators_not_monotone :
    ((@evaluateObjectAccess .plain {} (some { id := "t", mode := .readWrite })
        [{ objectID := "o", maxMode := .readWrite }] [] { id := "o", kind := .variable } "set").2 = true ∧
      (@evaluateObjectAccess .plain {} (some { id := "t", mode := .readWrite })
        [{ objectID := "o", maxMode := .readWrite }]
        [{ id := "b", objectID := "o", subjectKey := "k", role := .storageReader }]
        { id := "o", kind := .variable } "set").2 = false) ∧
    ((@evaluateStorageAccess .plain { scopes := ["platform_admin"] } none [] [] "s" .storageDelete).2 = true ∧
      (@evaluateStorageAccess .plain { scopes := ["platform_admin"] } none []
        [{ id := "b", storageID := "s", subjectKey := "k", role := .storageReader }] "s"
        .storageDelete).2 = false) ∧
    (evaluateMCPServerAccess { scopes := ["platform_admin"] } none [] [] "m" .manage = true ∧
      evaluateMCPServerAccess { scopes := ["platform_admin"] } none []
        [{ id := "b", serverID := "m", subjectKey := "k", role := .user }] "m" .manage = false) := by
  decide

/-- The store without the bindings whose `ExpiresAt` is not after `now`. -/
def Store.dropExpired (now : Time) (s : Store) : Store :=
  { s with
    acl := s.acl.deleteWhere (fun b => expired now b.expiresAt)
    objectACL := s.objectACL.deleteWhere (fun b => expired now b.expiresAt) }

def MCPStore.dropExpired (now : Time) (s : MCPStore) : MCPStore :=
  { s with acl := s.acl.deleteWhere (fun b => Store.expired now b.expiresAt) }

/-- The expired bindings make no difference to a decision: past its gate, what one of
them grants is allowed without them, and where one engages a fallback that the live ones
leave open, an expired one grants. -/
def ExpiryHarmless {β : Type} (now : Time) (expiresAt : β → Option Time) (D : Decision β)
    (acl : Set β) : Prop :=
  let live := {b ∈ acl | Store.expired now (expiresAt b) = false}
  let past := {b ∈ acl | Store.expired now (expiresAt b) = true}
  D.gate → (D.Granted past → D.Granted live ∨ (D.fallback ∧ ¬ D.Engaged live)) ∧
    (D.Engaged past → D.fallback → D.Engaged live ∨ D.Granted past)

theorem allows_live_iff {β now expiresAt D} {acl : Set β} :
    (D.Allows acl ↔ D.Allows {b ∈ acl | Store.expired now (expiresAt b) = false}) ↔
      ExpiryHarmless now expiresAt D acl := by
  have split : acl = {b ∈ acl | Store.expired now (expiresAt b) = false} ∪
      {b ∈ acl | Store.expired now (expiresAt b) = true} := by
    ext b
    cases h : Store.expired now (expiresAt b) <;> simp [h]
  have agree : (D.Allows ({b ∈ acl | Store.expired now (expiresAt b) = false} ∪
      {b ∈ acl | Store.expired now (expiresAt b) = true}) ↔ _) ↔ _ := Decision.allows_union_iff
  rw [← split] at agree
  exact agree

section Expiry
variable [Digests] {s : Store} {p : Principal} {now : Time}

theorem ownACL_dropExpired :
    ownACL (s.dropExpired now) p = {b ∈ ownACL s p | Store.expired now b.expiresAt = false} := by
  ext b
  simp only [ownACL, Store.dropExpired, Keyed.Table.mem_deleteWhere, Set.mem_ofPred_eq]
  exact and_right_comm

theorem ownObjectACL_dropExpired :
    ownObjectACL (s.dropExpired now) p = {b ∈ ownObjectACL s p | Store.expired now b.expiresAt = false} := by
  ext b
  simp only [ownObjectACL, Store.dropExpired, Keyed.Table.mem_deleteWhere, Set.mem_ofPred_eq]
  constructor
  · rintro ⟨key, ⟨row, live⟩ | ⟨a, ⟨row, live⟩, rfl⟩⟩
    · exact ⟨⟨key, .inl row⟩, live⟩
    · exact ⟨⟨key, .inr ⟨a, row, rfl⟩⟩, live⟩
  · rintro ⟨⟨key, row | ⟨a, row, rfl⟩⟩, live⟩
    · exact ⟨key, .inl ⟨row, live⟩⟩
    · exact ⟨key, .inr ⟨a, ⟨row, live⟩, rfl⟩⟩

theorem ownServerACL_dropExpired {s} :
    ownServerACL (s.dropExpired now) p = {b ∈ ownServerACL s p | Store.expired now b.expiresAt = false} := by
  ext b
  simp only [ownServerACL, MCPStore.dropExpired, Keyed.Table.mem_deleteWhere, Set.mem_ofPred_eq]
  exact and_right_comm

end Expiry

/-- The three access checks never look at an expiry: each answers as it would
without the expired bindings exactly when those are harmless to its decision. -/
theorem access_ignores_expired_iff [Digests] (s : Store) (mcp : MCPStore) (now : Time) (p : Principal)
    (token : Option AccessToken) (storageScopes : List AccessTokenStorage)
    (objectScopes : List AccessTokenObject) (serverScopes : List AccessTokenMCPServer)
    (storageID objectID serverID : String) (q : StoragePermission) (m : String)
    (sq : MCPServerPermission) :
    (storageAllowed s p token storageScopes storageID q =
        storageAllowed (s.dropExpired now) p token storageScopes storageID q ↔
      (storageID ≠ "" → ExpiryHarmless now ACLBinding.expiresAt
        (storageDecision p token storageScopes storageID q) (ownACL s p))) ∧
    (objectAllowed s p token objectScopes objectID m =
        objectAllowed (s.dropExpired now) p token objectScopes objectID m ↔
      ∀ obj, s.getObject objectID = some obj → m ∈ methods obj.kind →
        ExpiryHarmless now ObjectACLBinding.expiresAt
          (objectDecision p token objectScopes obj m) (ownObjectACL s p)) ∧
    (canAccessMCPServer mcp p token serverScopes serverID sq =
        canAccessMCPServer (mcp.dropExpired now) p token serverScopes serverID sq ↔
      ExpiryHarmless now MCPServerACLBinding.expiresAt
        (serverDecision p token serverScopes serverID sq) (ownServerACL mcp p)) := by
  refine ⟨?_, ?_, ?_⟩
  · rw [Bool.eq_iff_iff, storageAllowed_iff, storageAllowed_iff, and_congr_right_iff, ownACL_dropExpired,
      allows_live_iff]
  · have same : (s.dropExpired now).getObject objectID = s.getObject objectID := rfl
    rw [Bool.eq_iff_iff, objectAllowed_iff, objectAllowed_iff, same, ownObjectACL_dropExpired]
    cases s.getObject objectID with
    | none => simp
    | some =>
      simp only [Option.some.injEq, exists_eq_left', forall_eq', and_congr_right_iff]
      rw [allows_live_iff]
  · rw [Bool.eq_iff_iff, canAccessMCPServer_iff, canAccessMCPServer_iff, ownServerACL_dropExpired, allows_live_iff]

/-- A storage `s`, a variable `o` and a server `m` of owner `a`, each shared with
`u` until time 5. -/
def lentStore : Store × MCPStore :=
  let env := draws "x"
  let (s, _) := Store.empty.createStorage env { id := "s", ownerSubjectKey := "user:internal:a" } "user:internal:a"
  let (s, _) := s.upsertACL env
    { id := "lend", storageID := "s", subjectKey := "user:internal:u", role := .storageWriter, expiresAt := some 5 }
  let s := { s with
    objects := s.objects.put { id := "o", kind := .variable, ownerSubjectKey := "user:internal:a" } }
  let (s, _) := s.upsertObjectACL env
    { id := "lend", objectID := "o", subjectKey := "user:internal:u", role := .storageWriter, expiresAt := some 5 }
  (s, { MCPStore.empty with
        acl := MCPStore.empty.acl.put
          { id := "lend", serverID := "m", subjectKey := "user:internal:u", role := .user, expiresAt := some 5 } })

/-- At time 9 the shares of `lentStore` still open all three resources. -/
theorem access_after_expiry :
    (@storageAllowed .plain lentStore.1 { userID := "u" } none [] "s" .documentUpdate = true ∧
      @storageAllowed .plain (lentStore.1.dropExpired 9) { userID := "u" } none [] "s" .documentUpdate = false) ∧
    (@objectAllowed .plain lentStore.1 { userID := "u" } none [] "o" "set" = true ∧
      @objectAllowed .plain (lentStore.1.dropExpired 9) { userID := "u" } none [] "o" "set" = false) ∧
    (@canAccessMCPServer .plain lentStore.2 { userID := "u" } none [] "m" .use = true ∧
      @canAccessMCPServer .plain (lentStore.2.dropExpired 9) { userID := "u" } none [] "m" .use = false) := by
  decide

section
variable {t : AccessToken} {id : String} {q : StoragePermission} {obj : DataObject} {m : String}

theorem AccessToken.Admits.reads {scopes} (h : t.Admits scopes id q) (read : t.mode = .read ∨
      ∃ scope, scopes.find? (fun scope => scope.storageID = id) = some scope ∧ scope.maxMode = .read) :
    q ∈ rolePermissions .storageReader := by
  have carried := h.1
  unfold storageTokenMode at carried
  cases first : scopes.find? (fun scope => scope.storageID = id) with
  | none =>
    rw [first] at carried
    exact absurd carried List.not_mem_nil
  | some scope =>
    rw [first] at carried
    have narrow : t.mode = .read ∨ scope.maxMode = .read := by simpa [first] using read
    rcases intersectMode_of_read narrow with closed | reading
    · simp only [closed] at carried
      exact absurd carried List.not_mem_nil
    · simp only [reading] at carried
      exact carried

theorem AccessToken.AdmitsObject.not_mutating {scopes} (h : t.AdmitsObject scopes obj m) (read : t.mode = .read ∨
      ∃ scope, scopes.find? (fun scope => scope.objectID = obj.id) = some scope ∧ scope.maxMode = .read) :
    isMutating m = false := by
  obtain ⟨scope, first, _, carried⟩ := h
  obtain ⟨_, opened, reading⟩ := mem_methodsForMode.mp carried
  have narrow : t.mode = .read ∨ scope.maxMode = .read := by simpa [first] using read
  rcases intersectMode_of_read narrow with closed | reads
  · exact absurd closed opened
  · exact reading reads

end

/-- A token that is `read`, by its mode or its first scope on the resource, is allowed
nothing on a storage that a reader is not, and no method of an object that mutates. -/
theorem read_token_only_reads [Digests] (p : Principal) (t : AccessToken) :
    (∀ (scopes : List AccessTokenStorage) (acl : List ACLBinding) (storageID : String)
        (q : StoragePermission),
      (t.mode = .read ∨ ∃ scope, scopes.find? (fun scope => scope.storageID = storageID) = some scope ∧
        scope.maxMode = .read) →
      (evaluateStorageAccess p (some t) scopes acl storageID q).2 = true →
      q ∈ rolePermissions .storageReader) ∧
    (∀ (scopes : List AccessTokenObject) (acl : List ObjectACLBinding) (obj : DataObject) (m : String),
      (t.mode = .read ∨ ∃ scope, scopes.find? (fun scope => scope.objectID = obj.id) = some scope ∧
        scope.maxMode = .read) →
      isMutating m = true → (evaluateObjectAccess p (some t) scopes acl obj m).2 = false) := by
  constructor
  · intro scopes acl storageID q read allowed
    exact (evaluateStorageAccess_some_iff.mp allowed).1.reads read
  · intro scopes acl obj m read mutating
    rw [Bool.eq_false_iff]
    intro allowed
    have harmless := (evaluateObjectAccess_some.mp allowed).1.not_mutating read
    rw [mutating] at harmless
    cases harmless

/-- The owner of a storage reads it through a `read` token, and through a scope
that is `read` nobody enqueues, the empty ACL included. -/
theorem read_token_only_reads_owner :
    StoragePermission.documentRead ∈ rolePermissions .storageReader ∧
      (@evaluateObjectAccess .plain {} (some { id := "t", mode := .readWrite })
        [{ objectID := "o", maxMode := .read }] [] { id := "o", kind := .queue } "enqueue").2 = false :=
  ⟨(@read_token_only_reads .plain {} { id := "t", mode := .read }).1 [{ storageID := "s", maxMode := .readWrite }]
      [{ storageID := "s", subjectKey := "k", role := .storageOwner }] "s" .documentRead (.inl rfl) (by decide),
    (@read_token_only_reads .plain {} { id := "t", mode := .readWrite }).2 [{ objectID := "o", maxMode := .read }] []
      { id := "o", kind := .queue } "enqueue" (.inr ⟨_, rfl, rfl⟩) (by decide)⟩

end SynaMcp
