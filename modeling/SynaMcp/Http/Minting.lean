import SynaMcp.Http.Messages
import SynaMcp.Store.TokenScopes

/-! Minting a token over the admin API and opening data objects with it. The ids of
the request become scopes unchecked; what the token opens is compared with what
its minter opens without it. -/
namespace SynaMcp
open Bindings Keyed List Store

section
variable [Digests] (env : Env) (s : Store) (p : Principal)

/-- The ids a request names; an empty list stands for the personal storage, which
is made where missing. -/
def resolveStorageIDs (bucket : String) (ids : List String) : Store × List String :=
  if ids = [] then
    let (s, _, st) := ensurePrincipal env s p bucket
    (s, [st.id])
  else (s, ids)

def mintInput (p : Principal) (req : CreateTokenRequest) (ids : List String) : CreateTokenInput :=
  let mode := orElse .unset req.mode .read
  { ownerSubjectKey := subjectKeyForPrincipal p
    name := req.name
    mode := mode
    storageScopes := ids.map fun id => { storageID := id, maxMode := mode }
    rateLimit := req.rateLimit
    expiresAt := req.expiresAt
    createdBy := subjectKeyForPrincipal p }

/-- `createToken` of the admin handler on a decoded request, up to the scopes on
MCP servers. The first draws belong to the personal storage. -/
def mintToken (bucket : String) (req : CreateTokenRequest) : Except String (Store × AccessToken × String) :=
  let (s, ids) := resolveStorageIDs env s p bucket req.storageIDs
  s.createToken (env.after 3) (mintInput p req ids)

/-- The ids that a request stands for, as they can be told from the store: those
it names, else the personal storage there is or the one that will be drawn. -/
def requestedStorages (ids : List String) : List String :=
  if ids = [] then
    match s.storageBySlug (personalSlug (subjectKeyForPrincipal p)) with
    | some st => [st.id]
    | none => [(env.uuid 0).val]
  else ids

def CreateTokenRequest.askedMode (req : CreateTokenRequest) : AccessMode := orElse .unset req.mode .read

variable {env} {s s' : Store} {p : Principal} {bucket raw : String} {req : CreateTokenRequest}
  {t : AccessToken}

theorem resolveStorageIDs_ids (bucket : String) (ids : List String) :
    (resolveStorageIDs env s p bucket ids).2 = requestedStorages env s p ids := by
  unfold resolveStorageIDs requestedStorages
  split
  · obtain ⟨_, _, ⟨_, found, _, same⟩ | ⟨missing, _, made⟩⟩ := ensurePrincipal_cases env s p bucket
    · simp [same, found]
    · simp only [made, missing]
      rfl
  · rfl

section
variable (ids : List String)
include ids

theorem resolveStorageIDs_ne_nil : (resolveStorageIDs env s p bucket ids).2 ≠ [] := by
  unfold resolveStorageIDs
  split
  · simp
  · assumption

theorem resolveStorageIDs_tokenObjectScopes :
    (resolveStorageIDs env s p bucket ids).1.tokenObjectScopes = s.tokenObjectScopes := by
  unfold resolveStorageIDs
  split
  · obtain ⟨_, _, ⟨_, _, after, _⟩ | ⟨_, after, _⟩⟩ := ensurePrincipal_cases env s p bucket
    · simp [after]
    · simp only [after]
      rfl
  · rfl

theorem newToken_mintInput_mode : (newToken env (mintInput p req ids)).mode = req.askedMode := by
  simp only [newToken, mintInput, CreateTokenRequest.askedMode, orElse]
  split <;> simp_all

theorem tokenScope_mintInput : (mintInput p req ids).storageScopes.map
        (tokenScope env (newToken env (mintInput p req ids))) = ids.map fun id =>
        { tokenID := (env.uuid 0).val, storageID := id, maxMode := req.askedMode, createdAt := env.now } := by
  have unset : orElse AccessMode.unset req.mode .read ≠ .unset := by
    unfold orElse
    split <;> simp_all
  rw [mintInput, map_map]
  apply map_congr_left
  intro id _
  simp only [Function.comp, tokenScope, newToken, CreateTokenRequest.askedMode, orElse, zeroTime] at unset ⊢
  simp [unset]

end

def scopeOn (t : AccessToken) (created : Time) (id : String) : AccessTokenObject :=
  { tokenID := t.id, objectID := id, maxMode := t.mode, createdAt := created }

/-- A minted token is known under its raw form, and its object scopes are the
requested ids, each with the token's own mode. -/
structure Minted (s : Store) (p : Principal) (req : CreateTokenRequest) (ids : List String)
    (t : AccessToken) (raw : String) : Prop where
  owner : t.ownerSubjectKey = subjectKeyForPrincipal p
  mode : t.mode = req.askedMode
  unrevoked : t.revokedAt = none
  expires : t.expiresAt = req.expiresAt
  known : ∃ entry, s.tokenByHash.get? (hashToken raw) = some entry ∧ s.tokens.get? entry.2 = some t
  asked : ids ≠ []
  scopes : ∃ created, s.tokenObjects t.id = ids.map (scopeOn t created)

theorem minted_of_mintToken (h : mintToken env s p bucket req = .ok (s', t, raw))
    (fresh : ∀ o ∈ s.tokenObjectScopes, o.tokenID ≠ t.id) :
    Minted s' p req (requestedStorages env s p req.storageIDs) t raw := by
  unfold mintToken at h
  rw [← resolveStorageIDs_ids bucket]
  have asked : (resolveStorageIDs env s p bucket req.storageIDs).2 ≠ [] := resolveStorageIDs_ne_nil _
  have kept : (resolveStorageIDs env s p bucket req.storageIDs).1.tokenObjectScopes =
      s.tokenObjectScopes := resolveStorageIDs_tokenObjectScopes _
  generalize resolveStorageIDs env s p bucket req.storageIDs = resolved at h asked kept ⊢
  obtain ⟨_, ids⟩ := resolved
  obtain ⟨token, rfl, rfl⟩ := createToken_ok h
  have hash : hashToken (rawToken (env.after 3)) = t.tokenHash := by
    rw [token]
    rfl
  have mode : t.mode = req.askedMode := by
    rw [token]
    exact newToken_mintInput_mode _
  have written : (mintInput p req ids).storageScopes.map (tokenScope (env.after 3) t) =
      ids.map fun id =>
        { tokenID := t.id, storageID := id, maxMode := t.mode, createdAt := (env.after 3).now } := by
    rw [mode, token]
    exact tokenScope_mintInput _
  have mirrored : ((mintInput p req ids).storageScopes.map (tokenScope (env.after 3) t)).map
      AccessTokenStorage.toObject = ids.map (scopeOn t (env.after 3).now) := by
    rw [written, map_map]
    rfl
  refine ⟨by rw [token]; rfl, mode, by rw [token]; rfl, by rw [token]; rfl,
    ⟨(t.tokenHash, t.id), ?_, Table.get?_put_self _ t⟩, asked, (env.after 3).now, ?_⟩
  · rw [hash]
    exact Table.get?_put_self _ (t.tokenHash, t.id)
  · rw [mirrored, kept]
    apply tokenObjects_of_append rfl fresh
    · intro o ho
      obtain ⟨_, _, rfl⟩ := List.mem_map.mp ho
      rfl
    · simpa using asked

section
variable {ids : List String} {obj : DataObject} {m : String}

theorem Minted.objectScopes (h : Minted s p req ids t raw) (mcp : Option MCPStore)
    (l : List AccessTokenStorage) : (tokenContext s mcp t l).objectScopes = s.tokenObjects t.id := by
  obtain ⟨_, scopes⟩ := h.scopes
  have some : s.tokenObjects t.id ≠ [] := by
    rw [scopes]
    simpa using h.asked
  exact if_neg some

/-- A minted token admits on an object what its mode carries, if the object's id
was in the request. -/
theorem Minted.admitsObject_iff (h : Minted s p req ids t raw) : t.AdmitsObject (s.tokenObjects t.id) obj m ↔
      obj.id ∈ ids ∧ m ∈ methodsForMode obj.kind (intersectMode req.askedMode req.askedMode) := by
  obtain ⟨created, scopes⟩ := h.scopes
  rw [scopes, ← h.mode]
  unfold AccessToken.AdmitsObject
  constructor
  · intro ⟨scope, found, _, hm⟩
    obtain ⟨_, hid, rfl⟩ := List.mem_map.mp (mem_of_find?_eq_some found)
    have onIt := find?_some found
    simp only [decide_eq_true_eq] at onIt
    rw [← onIt]
    exact ⟨hid, hm⟩
  · intro ⟨hid, hm⟩
    cases found : (ids.map (scopeOn t created)).find? (fun scope => scope.objectID = obj.id) with
    | none =>
      have := List.find?_eq_none.mp found (scopeOn t created obj.id) (mem_map_of_mem hid)
      simp [scopeOn] at this
    | some =>
      obtain ⟨_, _, rfl⟩ := List.mem_map.mp (mem_of_find?_eq_some found)
      exact ⟨_, rfl, rfl, hm⟩

theorem Minted.tokenRefused_iff {now} (h : Minted s p req ids t raw) :
    tokenRefused now t = false ↔ ∀ e, req.expiresAt = some e → now ≤ e := by
  simp only [tokenRefused, h.unrevoked, h.expires]
  cases req.expiresAt with
  | none | some e => simp

theorem Minted.ownObjectACL_tokenPrincipal (h : Minted s p req ids t raw) :
    ownObjectACL s (tokenPrincipal t) = ownObjectACL s { subjectKey := subjectKeyForPrincipal p } := by
  have owned : t.ownerSubjectKey ≠ "" := by
    rw [h.owner]
    exact subjectKeyForPrincipal_ne_empty p
  have keys : subjectKeys (tokenPrincipal t) = subjectKeys { subjectKey := subjectKeyForPrincipal p } := by
    rw [subjectKeys, subjectKeys, subjectKeyForPrincipal_tokenPrincipal owned,
      groupSubjectKeysForPrincipal_tokenPrincipal, h.owner, subjectKeyForPrincipal_subjectKey]
    simp [groupSubjectKeysForPrincipal]
  simp [ownObjectACL, keys]

theorem ownObjectACL_ownKey_subset :
    ownObjectACL s { subjectKey := subjectKeyForPrincipal p } ⊆ ownObjectACL s p := by
  intro b hb
  obtain ⟨named, own⟩ := mem_subjectKeys.mp hb.1
  refine ⟨mem_subjectKeys.mpr ⟨named, ?_⟩, hb.2⟩
  rw [subjectKeyForPrincipal_subjectKey] at own
  rcases own with own | all | ⟨_, hg, _⟩
  · exact .inl own
  · exact .inr (.inl all)
  · simp [groupSubjectKeysForPrincipal] at hg

/-- What a minted token opens: it has not expired, the object's id was in the
request, its mode carries the method, and the bindings for the minter's own key
carry the method or carry none at all. -/
theorem Minted.bearerOpens_iff {env mcp id} (h : Minted s p req ids t raw) : bearerOpens env s mcp raw id m = true ↔
      (∀ e, req.expiresAt = some e → env.now ≤ e) ∧ ∃ obj, s.getObject id = some obj ∧ id ∈ ids ∧
        m ∈ methodsForMode obj.kind (intersectMode req.askedMode req.askedMode) ∧
        ((∃ b ∈ ownObjectACL s { subjectKey := subjectKeyForPrincipal p },
            b.objectID = id ∧ m ∈ methodsForRole obj.kind b.role) ∨
          ∀ b ∈ ownObjectACL s { subjectKey := subjectKeyForPrincipal p },
            b.objectID = id → methodsForRole obj.kind b.role = []) := by
  rw [← h.tokenRefused_iff, ← h.ownObjectACL_tokenPrincipal]
  cases refused : tokenRefused env.now t with
  | true =>
    obtain ⟨_, known, row⟩ := h.known
    simp only [bearerOpens, resolveBearer, resolveToken_of_refused known row refused]
    simp
  | false =>
    have live : LiveToken env.now s raw t := ⟨h.known, refused⟩
    rw [bearerOpens_of_live live, opens_iff, h.objectScopes, and_iff_right rfl]
    apply exists_congr
    intro obj
    apply and_congr_right
    intro found
    have decided : (objectDecision (tokenPrincipal t)
        (tokenContext s mcp t (s.tokenStorages t.id)).accessToken (s.tokenObjects t.id) obj m).Allows
        (ownObjectACL s (tokenPrincipal t)) ↔ _ := objectDecision_some_allows
    rw [decided, h.admitsObject_iff, getObject_id found, and_assoc]
    constructor
    · intro allowed
      exact allowed.2
    · intro allowed
      exact ⟨(mem_methodsForMode.mp allowed.2.1).1, allowed⟩

theorem session_opens_iff {id} (obj : DataObject) (found : s.getObject id = some obj)
    (known : m ∈ methods obj.kind) : opens s p { principal := p } id m = true ↔
      (∃ b ∈ ownObjectACL s p, b.objectID = id ∧ m ∈ methodsForRole obj.kind b.role) ∨
        ("platform_admin" ∈ p.scopes ∧ ∀ b ∈ ownObjectACL s p, b.objectID ≠ id) := by
  rw [opens_iff]
  simp [found, known, objectDecision_none_allows, getObject_id found]

end
end

/-- What a minted token opens its minter opens without it exactly when some
binding for the minter's own key or for all users carries a method, or the
minter's bindings grant the method, or the minter is a platform administrator
without a binding on the object. -/
theorem minted_opens_iff [Digests] (env later : Env) (s s' : Store) (p : Principal) (bucket : String)
    (req : CreateTokenRequest) (t : AccessToken) (raw : String) (mcp : Option MCPStore) (id m : String)
    (minted : mintToken env s p bucket req = .ok (s', t, raw))
    (fresh : ∀ o ∈ s.tokenObjectScopes, o.tokenID ≠ t.id) :
    (bearerOpens later s' mcp raw id m = true → opens s' p { principal := p } id m = true) ↔
      ∀ obj, s'.getObject id = some obj → (∀ e, req.expiresAt = some e → later.now ≤ e) →
        id ∈ requestedStorages env s p req.storageIDs →
        m ∈ methodsForMode obj.kind (intersectMode req.askedMode req.askedMode) →
        (∃ b ∈ ownObjectACL s' { subjectKey := subjectKeyForPrincipal p },
          b.objectID = id ∧ methodsForRole obj.kind b.role ≠ []) ∨
        (∃ b ∈ ownObjectACL s' p, b.objectID = id ∧ m ∈ methodsForRole obj.kind b.role) ∨
        ("platform_admin" ∈ p.scopes ∧ ∀ b ∈ ownObjectACL s' p, b.objectID ≠ id) := by
  have token := minted_of_mintToken minted fresh
  rw [token.bearerOpens_iff]
  constructor
  · intro narrows obj found live asked carried
    have known : m ∈ methods obj.kind := (mem_methodsForMode.mp carried).1
    by_cases engaged : ∃ b ∈ ownObjectACL s' { subjectKey := subjectKeyForPrincipal p },
        b.objectID = id ∧ methodsForRole obj.kind b.role ≠ []
    · exact .inl engaged
    · have none : ∀ b ∈ ownObjectACL s' { subjectKey := subjectKeyForPrincipal p },
          b.objectID = id → methodsForRole obj.kind b.role = [] := by
        intro b hb onIt
        by_contra some
        exact engaged ⟨b, hb, onIt, some⟩
      exact .inr ((session_opens_iff obj found known).mp (narrows ⟨live, obj, found, asked, carried, .inr none⟩))
  · intro covered ⟨live, obj, found, asked, carried, decided⟩
    have known : m ∈ methods obj.kind := (mem_methodsForMode.mp carried).1
    apply (session_opens_iff obj found known).mpr
    rcases covered obj found live asked carried with ⟨b, hb, onIt, some⟩ | own
    · -- the bindings for the own key engage, so they must have granted the method
      rcases decided with ⟨b', hb', onIt', granted⟩ | none
      · exact .inl ⟨b', ownObjectACL_ownKey_subset hb', onIt', granted⟩
      · exact absurd (none b hb onIt) some
    · exact own

/-- A variable `v` of `a`, and the request of a read-write token on it. -/
def variableStore : Store :=
  match Store.empty.createObject (draws "x")
      { id := "v", kind := .variable, ownerSubjectKey := "user:internal:a" } "user:internal:a" with
  | .ok (s, _) => s
  | .error _ => .empty

def variableRequest : CreateTokenRequest := { mode := .readWrite, storageIDs := ["v"] }

def mintedBy (user : String) : Store × AccessToken × String :=
  match @mintToken .plain (draws "t") variableStore { userID := user } "" variableRequest with
  | .ok r => r
  | .error _ => (.empty, {}, "")

theorem minted_opens_own_variable :
    @bearerOpens .plain (draws "z") (mintedBy "a").1 none "syna_t" "v" "set" = true ∧
      @opens .plain (mintedBy "a").1 { userID := "a" } { principal := { userID := "a" } } "v" "set" = true := by
  have used : @bearerOpens .plain (draws "z") (mintedBy "a").1 none "syna_t" "v" "set" = true := by decide
  refine ⟨used, ?_⟩
  refine (@minted_opens_iff .plain (draws "t") (draws "z") variableStore (mintedBy "a").1 { userID := "a" } ""
    variableRequest (mintedBy "a").2.1 "syna_t" none "v" "set" rfl (by decide)).mpr ?_ used
  intro obj _ _ _ carried
  have bound : ∃ b ∈ (mintedBy "a").1.objectACL.rows, b.objectID = "v" ∧ b.role = .storageOwner ∧
      b.subjectKey ∈ @subjectKeys .plain { subjectKey := "user:internal:a" } := by decide
  obtain ⟨b, hb, onIt, role, key⟩ := bound
  refine .inl ⟨b, ⟨key, .inl hb⟩, onIt, ?_⟩
  rw [role]
  exact ne_nil_of_mem (mem_methodsForMode.mp carried).1

/-- A token of `u` on the variable of `a` opens it; `u` does not. -/
theorem minted_opens_foreign_variable :
    @bearerOpens .plain (draws "z") (mintedBy "u").1 none "syna_t" "v" "set" = true ∧
      @opens .plain (mintedBy "u").1 { userID := "u" } { principal := { userID := "u" } } "v" "set" = false := by
  decide

end SynaMcp
