import SynaMcp.Access.Objects
import SynaMcp.Access.McpServers
import SynaMcp.Store.Users

/-! The access service around the evaluators: what a bearer token is turned into,
and the records made for a principal that is seen for the first time. -/
namespace SynaMcp
open Keyed

section
variable [Digests]

/-- The principal rebuilt from a token: the owner's key and no groups. -/
def tokenPrincipal (token : AccessToken) : Principal :=
  { userID := token.ownerSubjectKey, subjectKey := token.ownerSubjectKey,
    authSource := "access_token", scopes := ["mcp.token"] }

def tokenContext (s : Store) (mcp : Option MCPStore) (token : AccessToken)
    (scopes : List AccessTokenStorage) : APIAccessContext :=
  { principal := tokenPrincipal token
    authMode := "access_token"
    tokenID := token.id
    accessToken := some token
    allowedStorage := scopes
    allowedObjects := s.tokenObjects token.id
    allowedMCPServers :=
      match mcp with
      | none => []
      | some mcp => mcp.tokenMCPServers token.id }

variable (env : Env) (s : Store) (mcp : Option MCPStore)

/-- `ok none` is an unknown token. -/
def resolveBearer (raw : String) : Store × Except String (Option APIAccessContext) :=
  let (s', resolved) := s.resolveToken env raw
  match resolved with
  | .error e => (s', .error e)
  | .ok none => (s', .ok none)
  | .ok (some (token, scopes)) => (s', .ok (some (tokenContext s' mcp token scopes)))

def bearerAllows (raw storageID : String) (q : StoragePermission) : Bool :=
  match resolveBearer env s mcp raw with
  | (s', .ok (some ac)) => storageAllowed s' ac.principal ac.accessToken ac.allowedStorage storageID q
  | _ => false

def bearerOpens (raw objectID method : String) : Bool :=
  match resolveBearer env s mcp raw with
  | (s', .ok (some ac)) => opens s' ac.principal ac objectID method
  | _ => false

def personalSlug (subject : String) : String := "personal-" ++ subjectID subject

variable (p : Principal) (bucket : String)

def personalStorage : Storage :=
  { slug := personalSlug (subjectKeyForPrincipal p), name := "Personal storage",
    ownerSubjectKey := subjectKeyForPrincipal p, visibility := .personal, defaultAccess := .none,
    s3Bucket := bucket }

def ensurePersonalStorage : Store × Storage :=
  match s.storageBySlug (personalSlug (subjectKeyForPrincipal p)) with
  | some existing => (s, existing)
  | none => s.createStorage env (personalStorage p bucket) (subjectKeyForPrincipal p)

def claimGroup (p : Principal) (groupKey : String) : Group :=
  let name := (GoStrings.split groupKey ':').getLastD groupKey
  { id := subjectID groupKey, subjectKey := groupKey, source := p.authSource, issuer := p.issuer,
    externalGroupID := name, name := name, managedBy := "external", syncStatus := "claims" }

/-- The draws are the id and the owner binding of a personal storage; a group has
the digest of its key for id and draws one only where that is empty. -/
def ensurePrincipal : Store × User × Storage :=
  let (s, user) := s.upsertUserFromPrincipal env p
  let s := (groupSubjectKeysForPrincipal p).foldl (fun s key => (s.createGroup (env.after 2) (claimGroup p key)).1) s
  let (s, storage) := ensurePersonalStorage env s p bucket
  (s, user, storage)

end

section
variable [Digests]

theorem subjectKeyForPrincipal_ne_empty (p : Principal) : subjectKeyForPrincipal p ≠ "" := by
  unfold subjectKeyForPrincipal
  split
  · assumption
  · exact SubjectRef.key_ne_empty _

theorem subjectKeyForPrincipal_subjectKey (p : Principal) :
    subjectKeyForPrincipal { subjectKey := subjectKeyForPrincipal p } = subjectKeyForPrincipal p :=
  if_pos (subjectKeyForPrincipal_ne_empty p)

theorem subjectKeyForPrincipal_tokenPrincipal {t} (h : t.ownerSubjectKey ≠ "") :
    subjectKeyForPrincipal (tokenPrincipal t) = t.ownerSubjectKey := by
  simp [subjectKeyForPrincipal, tokenPrincipal, h]

theorem groupSubjectKeysForPrincipal_tokenPrincipal (t : AccessToken) :
    groupSubjectKeysForPrincipal (tokenPrincipal t) = [] := by
  simp [groupSubjectKeysForPrincipal, tokenPrincipal]

theorem mem_subjectKeys_tokenPrincipal {t} (h : t.ownerSubjectKey ≠ "") {k} : k ∈ subjectKeys (tokenPrincipal t) ↔
      k ≠ "" ∧ (GoStrings.trimSpace t.ownerSubjectKey = k ∨ k = "all:authenticated") := by
  rw [mem_subjectKeys, subjectKeyForPrincipal_tokenPrincipal h, groupSubjectKeysForPrincipal_tokenPrincipal]
  simp

structure LiveToken (now : Time) (s : Store) (raw : String) (t : AccessToken) : Prop where
  known : ∃ entry, s.tokenByHash.get? (hashToken raw) = some entry ∧ s.tokens.get? entry.2 = some t
  live : Store.tokenRefused now t = false

theorem resolveToken_store (env : Env) (s : Store) (raw : String) :
    (s.resolveToken env raw).1 = s ∨ ∃ id, (s.resolveToken env raw).1 = s.markTokenUsed env id := by
  cases result : (s.resolveToken env raw).2 with
  | error => exact .inl (Store.resolveToken_store_of_not_some (by simp [result]))
  | ok found =>
    cases found with
    | none => exact .inl (Store.resolveToken_store_of_not_some (by simp [result]))
    | some r =>
      have pair : s.resolveToken env raw = ((s.resolveToken env raw).1, .ok (some (r.1, r.2))) := Prod.ext rfl result
      obtain ⟨_, _, _, same | marked⟩ := Store.resolveToken_some pair
      · exact .inl same
      · exact .inr ⟨r.1.id, marked⟩

theorem resolveBearer_of_live {env s raw t}
    (h : LiveToken env.now s raw t) (mcp : Option MCPStore) : resolveBearer env s mcp raw =
      ((s.resolveToken env raw).1, .ok (some (tokenContext s mcp t (s.tokenStorages t.id)))) := by
  obtain ⟨_, known, row⟩ := h.known
  have pair : s.resolveToken env raw =
      ((s.resolveToken env raw).1, .ok (some (t, s.tokenStorages t.id))) :=
    Prod.ext rfl (Store.resolveToken_of_live known row h.live)
  have context : tokenContext (s.resolveToken env raw).1 mcp t (s.tokenStorages t.id) =
      tokenContext s mcp t (s.tokenStorages t.id) := by
    rcases resolveToken_store env s raw with same | ⟨_, marked⟩
    · rw [same]
    · rw [marked]
      rfl
  unfold resolveBearer
  rw [← context]
  rw [pair]

theorem bearerAllows_of_live {env s raw t}
    (h : LiveToken env.now s raw t) (mcp : Option MCPStore) (storageID : String) (q : StoragePermission) :
    bearerAllows env s mcp raw storageID q =
      storageAllowed s (tokenPrincipal t) (some t) (s.tokenStorages t.id) storageID q := by
  unfold bearerAllows
  rw [resolveBearer_of_live h]
  rcases resolveToken_store env s raw with same | ⟨_, marked⟩
  · rw [same]
    rfl
  · rw [marked]
    rfl

theorem bearerOpens_of_live {env s raw t}
    (h : LiveToken env.now s raw t) (mcp : Option MCPStore) (objectID m : String) :
    bearerOpens env s mcp raw objectID m =
      opens s (tokenPrincipal t) (tokenContext s mcp t (s.tokenStorages t.id)) objectID m := by
  unfold bearerOpens
  rw [resolveBearer_of_live h]
  rcases resolveToken_store env s raw with same | ⟨_, marked⟩
  · rw [same]
    rfl
  · rw [marked]
    rfl

end

section
variable [Digests]

theorem foldl_createGroup (env : Env) (p : Principal) (keys : List String) (s : Store) :
    ∃ groups, keys.foldl (fun s key => (s.createGroup env (claimGroup p key)).1) s = { s with groups := groups } := by
  induction keys generalizing s with
  | nil => exact ⟨s.groups, rfl⟩
  | cons key rest ih =>
    obtain ⟨groups, after⟩ := ih (s.createGroup env (claimGroup p key)).1
    exact ⟨groups, after⟩

/-- Besides users and groups, a principal seen for the first time gets a personal
storage and a principal seen before gets nothing. -/
theorem ensurePrincipal_cases (env : Env) (s : Store) (p : Principal) (bucket : String) :
    ∃ users groups, let base : Store := { s with users := users, groups := groups }
      (∃ st, s.storageBySlug (personalSlug (subjectKeyForPrincipal p)) = some st ∧
        (ensurePrincipal env s p bucket).1 = base ∧ (ensurePrincipal env s p bucket).2.2 = st) ∨
      (s.storageBySlug (personalSlug (subjectKeyForPrincipal p)) = none ∧
        (ensurePrincipal env s p bucket).1 =
          (base.createStorage env (personalStorage p bucket) (subjectKeyForPrincipal p)).1 ∧
        (ensurePrincipal env s p bucket).2.2 = (personalStorage p bucket).withDefaults env) := by
  obtain ⟨groups, grouped⟩ := foldl_createGroup (env.after 2) p (groupSubjectKeysForPrincipal p)
    (s.upsertUserFromPrincipal env p).1
  refine ⟨(s.upsertUserFromPrincipal env p).1.users, groups, ?_⟩
  simp only [ensurePrincipal, grouped, ensurePersonalStorage]
  cases found : s.storageBySlug (personalSlug (subjectKeyForPrincipal p)) with
  | some st =>
    refine .inl ⟨st, rfl, ?_⟩
    have found' : ({ (s.upsertUserFromPrincipal env p).1 with groups := groups } : Store).storageBySlug
        (personalSlug (subjectKeyForPrincipal p)) = some st := found
    rw [found']
    exact ⟨rfl, rfl⟩
  | none =>
    refine .inr ⟨rfl, ?_⟩
    have found' : ({ (s.upsertUserFromPrincipal env p).1 with groups := groups } : Store).storageBySlug
        (personalSlug (subjectKeyForPrincipal p)) = none := found
    rw [found']
    exact ⟨rfl, rfl⟩

end

/-- With a read-write scope on a storage somewhere in the list of a read-write token,
the first scope on it decides: it may not be `none`, and `read` only for what reading
carries. -/
theorem mem_modePermissions_first_scope {t scopes id q} (readWrite : t.mode = .readWrite) (carried : q ∈ modePermissions .readWrite)
    (inScope : ∃ scope ∈ scopes, scope.storageID = id ∧ scope.maxMode = .readWrite) :
    q ∈ modePermissions (storageTokenMode t scopes id) ↔
      ∀ first, scopes.find? (fun scope => scope.storageID = id) = some first →
        first.maxMode ≠ .none ∧ (first.maxMode = .read → q ∈ modePermissions .read) := by
  obtain ⟨scope, mem, onIt, _⟩ := inScope
  unfold storageTokenMode
  cases found : scopes.find? (fun scope => scope.storageID = id) with
  | none =>
    have := List.find?_eq_none.mp found scope mem
    simp [onIt] at this
  | some first =>
    simp only [Option.some.injEq, forall_eq', intersectMode, readWrite, reduceCtorEq, false_or]
    by_cases closed : first.maxMode = .none
    · simp [closed, modePermissions]
    · by_cases narrow : first.maxMode = .read
      · simp [narrow]
      · simp [closed, narrow, carried]

/-- What the owner's bindings allow, the owner's read-write token is allowed exactly
when no narrower scope on the storage comes first in its list and a binding that grants
it is written for the owner's own key or for all users: the principal rebuilt from a
token has lost the groups. -/
theorem bearer_keeps_owner_access_iff [Digests] (env : Env) (s : Store) (mcp : Option MCPStore)
    (owner : Principal) (raw storageID : String) (q : StoragePermission) (t : AccessToken)
    (carried : q ∈ modePermissions .readWrite) (named : storageID ≠ "")
    (live : LiveToken env.now s raw t) (own : t.ownerSubjectKey = subjectKeyForPrincipal owner)
    (readWrite : t.mode = .readWrite) (unrestricted : t.allowedPermissions = [])
    (inScope : ∃ scope ∈ s.tokenStorages t.id, scope.storageID = storageID ∧ scope.maxMode = .readWrite) :
    ((∃ b ∈ s.acl.rows, b.subjectKey ∈ subjectKeys owner ∧ b.storageID = storageID ∧
        q ∈ rolePermissions b.role) → bearerAllows env s mcp raw storageID q = true) ↔
    ((∃ b ∈ s.acl.rows, b.subjectKey ∈ subjectKeys owner ∧ b.storageID = storageID ∧
        q ∈ rolePermissions b.role) →
      (∀ first, (s.tokenStorages t.id).find? (fun scope => scope.storageID = storageID) = some first →
        first.maxMode ≠ .none ∧ (first.maxMode = .read → q ∈ modePermissions .read)) ∧
      ∃ b ∈ s.acl.rows, b.subjectKey ≠ "" ∧
        (GoStrings.trimSpace (subjectKeyForPrincipal owner) = b.subjectKey ∨ b.subjectKey = "all:authenticated") ∧
        b.storageID = storageID ∧ q ∈ rolePermissions b.role) := by
  have owned : t.ownerSubjectKey ≠ "" := by
    rw [own]
    exact subjectKeyForPrincipal_ne_empty owner
  have admits : t.Admits (s.tokenStorages t.id) storageID q ↔
      ∀ first, (s.tokenStorages t.id).find? (fun scope => scope.storageID = storageID) = some first →
        first.maxMode ≠ .none ∧ (first.maxMode = .read → q ∈ modePermissions .read) := by
    rw [← mem_modePermissions_first_scope readWrite carried inScope]
    simp [AccessToken.Admits, unrestricted]
  rw [bearerAllows_of_live live, storageAllowed_some_iff, and_iff_right named, admits]
  simp only [mem_subjectKeys_tokenPrincipal owned, own, and_assoc]

/-- What `u` asks for when minting a read-write token on `s`. -/
def mintRequest : CreateTokenInput :=
  { ownerSubjectKey := "user:internal:u", mode := .readWrite
    storageScopes := [{ storageID := "s", maxMode := .readWrite }] }

/-- A storage `s` of `a`, shared for writing with a subject, and a token of `u` on it. -/
def sharedWith (subject : String) : Store :=
  let (s, _) := Store.empty.createStorage (draws "x") { id := "s", ownerSubjectKey := "user:internal:a" } "a"
  let (s, _) := s.upsertACL (draws "y") { storageID := "s", subjectKey := subject, role := .storageWriter }
  match @Store.createToken .plain (draws "t") s mintRequest with
  | .ok (s, _) => s
  | .error _ => s

/-- A share written for the owner itself reaches through the token. -/
theorem bearer_keeps_personal_share :
    @bearerAllows .plain (draws "z") (sharedWith "user:internal:u") none "syna_t" "s" .documentUpdate = true :=
  (@bearer_keeps_owner_access_iff .plain (draws "z") (sharedWith "user:internal:u") none { userID := "u" }
    "syna_t" "s" .documentUpdate (@Store.newToken .plain (draws "t") mintRequest) (by decide) (by decide)
    (@LiveToken.mk .plain _ _ _ _ ⟨("syna_t", "t"), by decide, by decide⟩ (by decide)) (by decide) rfl rfl
    (by decide)).mpr
    (fun _ => ⟨by decide, by decide⟩) (by decide)

/-- A share written for a group of `u` is lost through the token. -/
theorem bearer_loses_group_share :
    @storageAllowed .plain (sharedWith "group:internal:g") { userID := "u", groups := ["g"] } none [] "s"
        .documentUpdate = true ∧
      @bearerAllows .plain (draws "z") (sharedWith "group:internal:g") none "syna_t" "s" .documentUpdate = false := by
  decide

end SynaMcp
