import SynaMcp.Http.Minting

/-! The admin API: authentication, the routes of `ServeHTTP` in the order of its switch,
and their handlers. MCP servers, usage figures, the ingest pipeline and JWT verification
are parameters. -/
namespace SynaMcp
open Keyed GoStrings

structure AdminConfig where
  bucket : String := ""
  /-- `VerifyAndParseClaims` and `ToPrincipal`, for a bearer that is no access token. -/
  verify : String → Except Response Principal := fun _ => .error (httpError "invalid token" 401)
  /-- The rate limiter in front of document creation: an answer refuses. -/
  rateLimited : Env → Option AccessToken → Option Response := fun _ _ => none
  /-- `pipeline.Save` for a storage id and S3 prefix; an error comes with its status. -/
  ingest : Principal → String → String → SaveInput → Except (String × Nat) String := fun _ _ _ _ => .ok ""
  /-- `handleMCPServers` behind its check that the proxy is configured. -/
  mcpServers : Env → MCPStore → Principal → Request → MCPStore × Response := fun _ m _ _ => (m, notFound)
  /-- `ValidateScopeNames`; without a manager every scope passes. -/
  validateScopeNames : AccessTokenMCPServer → Except String Unit := fun _ => .ok ()
  status : Request → String := fun _ => ""
  usageSeries : Request → String := fun _ => ""
  usageSummary : Request → String := fun _ => ""
  connectOptions : Request → String := fun _ => ""

structure AdminState where
  store : Store
  mcp : Option MCPStore := none
  /-- When a subject was last ensured. -/
  ensured : Table (Prod.fst : String × Time → String) := .empty

/-- The cases of the switch in `ServeHTTP`, and the two routes that the mux takes
out of `/api/admin/` before it. -/
inductive AdminRoute where
  | status
  | createKnowledge
  | currentUser
  | listUsers
  | getUser
  | createUser
  | updateUser
  | changeUserPassword
  | deleteUser
  | listGroups
  | createGroup
  | deleteGroup
  | listGroupMembers
  | addGroupMember
  | removeGroupMember
  | listStorages
  | getStorageDetails
  | createStorage
  | deleteStorage
  | storageACL
  | upsertACL
  | listTokens
  | createToken
  | deleteToken
  | patchRateLimit
  | revokeToken
  | rotateToken
  | connectOptions
  | usageSeries
  | usageSummary
  | handleMCPServers
  | patchTokenMCPScopes
  | notFound
  deriving DecidableEq, Repr

open GoStrings in
/-- The switch of `ServeHTTP`: the first case that matches. -/
def adminRoute (method : HttpMethod) (path : String) : AdminRoute :=
  if method = .get ∧ path = "/me" then .currentUser
  else if method = .get ∧ path = "/users" then .listUsers
  else if method = .get ∧ hasPrefix path "/users/" then .getUser
  else if method = .post ∧ path = "/users" then .createUser
  else if method = .patch ∧ hasPrefix path "/users/" then .updateUser
  else if method = .post ∧ hasSuffix path "/password" then .changeUserPassword
  else if method = .delete ∧ hasPrefix path "/users/" then .deleteUser
  else if method = .get ∧ path = "/groups" then .listGroups
  else if method = .post ∧ path = "/groups" then .createGroup
  else if method = .delete ∧ hasPrefix path "/groups/" ∧ !contains path "/members/" then .deleteGroup
  else if method = .get ∧ hasSuffix path "/members" then .listGroupMembers
  else if method = .put ∧ contains path "/members/" then .addGroupMember
  else if method = .delete ∧ contains path "/members/" then .removeGroupMember
  else if method = .get ∧ path = "/storages" then .listStorages
  else if method = .get ∧ hasPrefix path "/storages/" ∧ !contains path "/acl" ∧ !contains path "/usage" then
    .getStorageDetails
  else if method = .post ∧ path = "/storages" then .createStorage
  else if method = .delete ∧ hasPrefix path "/storages/" ∧ !contains path "/acl" then .deleteStorage
  else if method = .get ∧ hasSuffix path "/acl" then .storageACL
  else if method = .put ∧ hasSuffix path "/acl" then .upsertACL
  else if method = .get ∧ path = "/tokens" then .listTokens
  else if method = .post ∧ path = "/tokens" then .createToken
  else if method = .delete ∧ hasPrefix path "/tokens/" ∧ !contains path "/connect-options" ∧
      !contains path "/mcp-scopes" ∧ !contains path "/rate-limit" ∧ !contains path "/revoke" ∧
      !contains path "/rotate" then .deleteToken
  else if method = .patch ∧ hasSuffix path "/rate-limit" then .patchRateLimit
  else if method = .post ∧ hasSuffix path "/revoke" then .revokeToken
  else if method = .post ∧ hasSuffix path "/rotate" then .rotateToken
  else if method = .get ∧ hasSuffix path "/connect-options" then .connectOptions
  else if method = .post ∧ hasSuffix path "/connect-options" then .connectOptions
  else if method = .get ∧ hasPrefix path "/usage/series" then .usageSeries
  else if method = .get ∧ hasPrefix path "/usage/summary" then .usageSummary
  else if method = .get ∧ contains path "/usage" then .usageSeries
  else if hasPrefix path "/mcp-servers" then .handleMCPServers
  else if method = .patch ∧ hasSuffix path "/mcp-scopes" then .patchTokenMCPScopes
  else .notFound

/-- The path that `ServeHTTP` matches and takes ids from. -/
def Request.adminPath (req : Request) : String := trimPrefix req.path "/api/admin"

/-- The mux in front: two exact patterns, else `/api/admin/`. -/
def routeOf (req : Request) : AdminRoute :=
  if req.method = .get ∧ req.path = "/api/admin/status" then .status
  else if req.method = .post ∧ req.path = "/api/admin/knowledge" then .createKnowledge
  else adminRoute req.method req.adminPath

def pathParts (path : String) : List String := split (trimFunc (· == '/') path) '/'

def idFromPath (path : String) (idx : Nat) : String := (pathParts path).getD idx ""

def storageIDFromACLPath (path : String) : String := idFromPath path 1

def tokenIDFromPath (path : String) : String := idFromPath path 1

section
open GoStrings

/-- What the cases of the switch before `/mcp-servers` take, whatever the path starts with. -/
def takenBefore : HttpMethod → String → Bool
  | .get, path => hasSuffix path "/members" || hasSuffix path "/acl" || hasSuffix path "/connect-options" ||
      contains path "/usage"
  | .post, path => hasSuffix path "/password" || hasSuffix path "/revoke" || hasSuffix path "/rotate" ||
      hasSuffix path "/connect-options"
  | .put, path => contains path "/members/" || hasSuffix path "/acl"
  | .patch, path => hasSuffix path "/rate-limit"
  | .delete, path => contains path "/members/"
  | .other _, _ => false

/-- A request on an MCP server reaches the handler of MCP servers exactly where no earlier
case takes its path. -/
theorem mcp_server_routes_iff (req : Request) (rest : String) :
    routeOf { req with path := "/api/admin/mcp-servers" ++ rest } = .handleMCPServers ↔
      takenBefore req.method ("/mcp-servers" ++ rest) = false := by
  have trimmed : trimPrefix ("/api/admin/mcp-servers" ++ rest) "/api/admin" = "/mcp-servers" ++ rest := by
    apply String.toList_injective
    simp [trimPrefix, hasPrefix]
  have starts : hasPrefix ("/mcp-servers" ++ rest) "/mcp-servers" = true := by
    simp [hasPrefix]
  have prefixes : ∀ text ∈ ["/users/", "/groups/", "/storages/", "/tokens/", "/usage/series", "/usage/summary"],
      hasPrefix ("/mcp-servers" ++ rest) text = false := by
    simp [hasPrefix, List.isPrefixOf]
  have texts : ∀ text ∈ ["/me", "/users", "/groups", "/storages", "/tokens"], "/mcp-servers" ++ rest ≠ text := by
    simp only [List.forall_mem_cons]
    simp [String.ext_iff]
  have mux : "/api/admin/mcp-servers" ++ rest ≠ "/api/admin/status" ∧
      "/api/admin/mcp-servers" ++ rest ≠ "/api/admin/knowledge" := by
    simp [String.ext_iff]
  simp only [List.forall_mem_cons] at prefixes texts
  obtain ⟨method, _, _⟩ := req
  rw [routeOf, if_neg fun h => mux.1 h.2, if_neg fun h => mux.2 h.2, Request.adminPath, trimmed, adminRoute]
  cases method with
  | get | post | put | patch | delete | other raw =>
    simp [ite_eq_iff, starts, prefixes, texts, takenBefore, and_assoc]

/-- The ACL of a server is read and written as that of the storage of its id. -/
theorem server_acl_is_storage_acl :
    routeOf { method := .get, path := "/api/admin/mcp-servers/s1/acl" } = .storageACL ∧
    routeOf { method := .put, path := "/api/admin/mcp-servers/s1/acl" } = .upsertACL ∧
    storageIDFromACLPath (Request.adminPath { method := .put, path := "/api/admin/mcp-servers/s1/acl" }) = "s1" := by
  decide

end

def isPlatformAdmin (p : Principal) : Bool :=
  p.scopes.any fun scope => decide (scope = "platform_admin") || decide (scope = "admin")

def ensurePrincipalTTL : Time := 5 * minute

def shouldEnsurePrincipal (now : Time) (ensured : Table (Prod.fst : String × Time → String))
    (subjectKey : String) : Bool × Table (Prod.fst : String × Time → String) :=
  match ensured.get? subjectKey with
  | some (_, t) =>
    if now - t < ensurePrincipalTTL then (false, ensured) else (true, ensured.put (subjectKey, now))
  | none => (true, ensured.put (subjectKey, now))

def canWriteVisibility (p : Principal) (visibility : Visibility) (groupIDs : List String) : Bool :=
  match visibility with
  | .public => decide ("knowledge.write.public" ∈ p.scopes) || decide ("platform_admin" ∈ p.scopes)
  | .personal => true
  | .group => groupIDs.any (fun g => g ∈ p.groups)
  | _ => false

section
variable [Digests]

def canEditUser (p : Principal) (user : User) : Bool :=
  isPlatformAdmin p || decide (user.subjectKey = subjectKeyForPrincipal p)

def canManageToken (s : Store) (p : Principal) (tokenID : String) : Bool :=
  isPlatformAdmin p ||
    match s.getToken tokenID with
    | none => false
    | some t => decide (t.ownerSubjectKey = subjectKeyForPrincipal p)

/-- The check on a storage that four handlers begin with, always without the
token; an answer refuses. -/
def requireStorage (s : Store) (p : Principal) (storageID : String) (q : StoragePermission) : Option Response :=
  match canAccessStorage s p none [] storageID q with
  | .error e => some (badRequest e)
  | .ok (_, ok) => if ok then none else some forbidden

namespace AdminHandler
variable (s : Store) (p : Principal) (path : String)

def currentUser : Response :=
  match s.userBySubjectKey (subjectKeyForPrincipal p) with
  | none => notFound
  | some user => writeJSON (.user user) 200

def getUser : Response :=
  match s.getUser (idFromPath path 1) with
  | none => notFound
  | some user => if !canEditUser p user then forbidden else writeJSON (.user user) 200

variable (env : Env)

def createUser (body : Decoded User) : Store × Response :=
  match body with
  | .error e => (s, badRequest e)
  | .ok req =>
    let (s, user) := s.createUser env req
    (s, writeJSON (.user user) 201)

/-- Only a platform administrator sets the status. -/
def updateUser (body : Decoded User) : Store × Response :=
  let userID := idFromPath path 1
  match s.getUser userID with
  | none => (s, notFound)
  | some existing =>
    if !canEditUser p existing then (s, forbidden)
    else
      match body with
      | .error e => (s, badRequest e)
      | .ok req =>
        let req := if !isPlatformAdmin p then { req with status := "" } else req
        match s.updateUser userID req with
        | .error e => (s, badRequest e)
        | .ok (s, updated) => (s, writeJSON (.user updated) 200)

/-- The current password of a user that has one, checked unless an administrator asks. -/
def currentPasswordRefused (userID : String) (req : PasswordChange) : Option Response :=
  if isPlatformAdmin p then none
  else
    match s.hasUserPassword userID with
    | .error e => some (badRequest e)
    | .ok false => none
    | .ok true =>
      match s.checkUserPassword userID req.currentPassword with
      | .error e => some (badRequest e)
      | .ok ok => if ok then none else some (httpError "current password is invalid" 403)

def changeUserPassword (body : Decoded PasswordChange) : Store × Response :=
  let userID := idFromPath path 1
  match s.getUser userID with
  | none => (s, notFound)
  | some existing =>
    if !canEditUser p existing then (s, forbidden)
    else
      match body with
      | .error e => (s, badRequest e)
      | .ok req =>
        if req.newPassword.utf8ByteSize < 8 then (s, httpError "new password must be at least 8 characters" 422)
        else
          match currentPasswordRefused s p userID req with
          | some refusal => (s, refusal)
          | none =>
            match s.setUserPassword env userID req.newPassword with
            | .error e => (s, badRequest e)
            | .ok s => (s, writeJSON (.fields [("status", "password_updated")]) 200)

def createGroup (body : Decoded Group) : Store × Response :=
  match body with
  | .error e => (s, badRequest e)
  | .ok req =>
    let (s, group) := s.createGroup env req
    (s, writeJSON (.group group) 201)

/-- The two membership handlers: a path `/groups/{id}/members/{user}`. -/
def changeMember (change : String → String → Store) : Store × Response :=
  match pathParts path with
  | _ :: groupID :: _ :: userID :: _ => (change groupID userID, noContent)
  | _ => (s, badRequest "invalid member path")

def addGroupMember : Store × Response :=
  changeMember s path fun groupID userID => s.addGroupMember env groupID userID "internal"

def removeGroupMember : Store × Response :=
  changeMember s path fun groupID userID => s.removeGroupMember groupID userID

def listStorages (now : Time) : Response :=
  writeJSON (.storages ((availableStorages now s p none []).map Prod.fst)) 200

def getStorageDetails : Response :=
  let storageID := idFromPath path 1
  match s.getStorage storageID with
  | none => notFound
  | some st =>
    match requireStorage s p storageID .storageRead with
    | some refusal => refusal
    | none =>
      writeJSON (.storageDetails st (s.aclForStorage storageID) (s.tokenAccessByStorage storageID)) 200

/-- A request may name the id, and so a storage that exists. -/
def createStorage (bucket : String) (body : Decoded Storage) : Store × Response :=
  match body with
  | .error e => (s, badRequest e)
  | .ok req =>
    let (s, st) := s.createStorage env
      { req with
        ownerSubjectKey := orElse "" req.ownerSubjectKey (subjectKeyForPrincipal p)
        s3Bucket := orElse "" req.s3Bucket bucket }
      (subjectKeyForPrincipal p)
    (s, writeJSON (.storage st) 201)

def deleteStorage : Store × Response :=
  let storageID := idFromPath path 1
  match requireStorage s p storageID .storageDelete with
  | some refusal => (s, refusal)
  | none => (s.deleteStorage storageID, noContent)

def storageACL : Response :=
  let storageID := storageIDFromACLPath path
  match requireStorage s p storageID .aclManage with
  | some refusal => refusal
  | none => writeJSON (.acl (s.aclForStorage storageID)) 200

/-- The binding keeps the id the caller chose for it. -/
def upsertACL (body : Decoded ACLBinding) : Store × Response :=
  let storageID := storageIDFromACLPath path
  match requireStorage s p storageID .aclManage with
  | some refusal => (s, refusal)
  | none =>
    match body with
    | .error e => (s, badRequest e)
    | .ok req =>
      let (s, b) := s.upsertACL env
        { req with
          storageID := storageID
          grantedBy := orElse "" req.grantedBy (subjectKeyForPrincipal p) }
      (s, writeJSON (.binding b) 200)

def listTokens : Response :=
  let tokens := s.listTokens
  writeJSON (.tokens
    (if !isPlatformAdmin p then tokens.filter (fun t => t.ownerSubjectKey = subjectKeyForPrincipal p)
     else tokens)) 200

def patchRateLimit (body : Decoded RateLimitPolicy) : Store × Response :=
  let tokenID := tokenIDFromPath path
  if !canManageToken s p tokenID then (s, forbidden)
  else
    match body with
    | .error e => (s, badRequest e)
    | .ok req =>
      (s.updateTokenRateLimit tokenID req, writeJSON (.fields [("status", "updated"), ("tokenId", tokenID)]) 200)

def revokeToken : Store × Response :=
  let tokenID := tokenIDFromPath path
  if !canManageToken s p tokenID then (s, forbidden)
  else (s.revokeToken env tokenID, noContent)

variable (cfg : AdminConfig) (env : Env) (ac : APIAccessContext)

/-- `knowledge.Save` up to the ingest pipeline; an error comes with its status. -/
def saveDocument (input : SaveInput) : Store × Except (String × Nat) String :=
  let visibility := orElse .unset input.visibility .personal
  let (s, target) :=
    if input.storageID = "" then
      let (s, _, st) := ensurePrincipal env s p cfg.bucket
      (s, some st)
    else (s, s.getStorage input.storageID)
  match target with
  | none => (s, .error ("not found", 404))
  | some st =>
    match canAccessStorage s p ac.accessToken ac.allowedStorage st.id .documentCreate with
    | .error e => (s, .error (e, 400))
    | .ok (_, ok) =>
      if !ok then (s, .error ("forbidden", 403))
      else if !canWriteVisibility p visibility input.groupIDs then (s, .error ("forbidden", 403))
      else (s, cfg.ingest p st.id st.s3Prefix { input with visibility := visibility })

def createKnowledge (body : Decoded SaveInput) : Store × Response :=
  match cfg.rateLimited env ac.accessToken with
  | some refusal => (s, refusal)
  | none =>
    match body with
    | .error e => (s, badRequest e)
    | .ok req =>
      match saveDocument s p cfg env ac { req with channel := "admin" } with
      | (s, .error (e, status)) => (s, httpError e status)
      | (s, .ok doc) => (s, writeJSON (.other doc) 201)

end AdminHandler

namespace AdminHandler
variable (cfg : AdminConfig) (env : Env) (σ : AdminState) (p : Principal)

def saveTokenMCPServers (mcp : Option MCPStore) (tokenID : String) (scopes : List AccessTokenMCPServer) :
    Option MCPStore :=
  mcp.map fun m => if scopes = [] then m else m.replaceTokenMCPServers env tokenID scopes

def createToken (body : Decoded CreateTokenRequest) : AdminState × Response :=
  match body with
  | .error e => (σ, badRequest e)
  | .ok req =>
    match mintToken env σ.store p cfg.bucket req with
    | .error e =>
      ({ σ with store := (resolveStorageIDs env σ.store p cfg.bucket req.storageIDs).1 }, badRequest e)
    | .ok (s, token, raw) =>
      ({ σ with store := s, mcp := saveTokenMCPServers env σ.mcp token.id req.mcpServers },
        writeJSON (.minted token raw) 201)

def deleteToken (path : String) : AdminState × Response :=
  let tokenID := idFromPath path 1
  if !canManageToken σ.store p tokenID then (σ, forbidden)
  else
    ({ σ with
        store := σ.store.deleteToken tokenID
        mcp := σ.mcp.map fun m => m.replaceTokenMCPServers env tokenID [] }, noContent)

/-- The new token has the scopes of the old one and the mode `read`. -/
def rotateInput (s : Store) (oldID : String) : CreateTokenInput :=
  { ownerSubjectKey := subjectKeyForPrincipal p
    name := "Rotated MCP token"
    mode := .read
    storageScopes := s.tokenStorages oldID
    createdBy := subjectKeyForPrincipal p }

def rotateToken (path : String) : AdminState × Response :=
  let oldID := tokenIDFromPath path
  if !canManageToken σ.store p oldID then (σ, forbidden)
  else
    let mcpScopes := (σ.mcp.map fun m => m.tokenMCPServers oldID).getD []
    let revoked := σ.store.revokeToken env oldID
    match revoked.createToken env (rotateInput p σ.store oldID) with
    | .error e => ({ σ with store := revoked }, badRequest e)
    | .ok (s, token, raw) =>
      ({ σ with store := s, mcp := saveTokenMCPServers env σ.mcp token.id mcpScopes },
        writeJSON (.minted token raw) 201)

def handleMCPServers (req : Request) : AdminState × Response :=
  match σ.mcp with
  | none => (σ, httpError "mcp proxy is not configured" 503)
  | some m =>
    let (m, answer) := cfg.mcpServers env m p req
    ({ σ with mcp := some m }, answer)

def patchTokenMCPScopes (tokenID : String) (body : Decoded (List AccessTokenMCPServer)) :
    AdminState × Response :=
  match σ.mcp with
  | none => (σ, httpError "mcp proxy is not configured" 503)
  | some m =>
    if !canManageToken σ.store p tokenID then (σ, forbidden)
    else
      match body with
      | .error e => (σ, badRequest e)
      | .ok scopes =>
        let scopes := scopes.map fun scope => { scope with tokenID := tokenID }
        match scopes.findSome? (fun scope =>
            match cfg.validateScopeNames scope with
            | .error e => some e
            | .ok _ => none) with
        | some e => (σ, badRequest e)
        | none =>
          ({ σ with mcp := some (m.replaceTokenMCPServers env tokenID scopes) },
            writeJSON (.fields [("status", "updated")]) 200)

def adminOnly (result : Store × Response) : Store × Response :=
  if !isPlatformAdmin p then (σ.store, forbidden) else result

def onStore (result : Store × Response) : AdminState × Response := ({ σ with store := result.1 }, result.2)

variable (ac : APIAccessContext) (req : Request)

def handle (route : AdminRoute) : AdminState × Response :=
  match route with
  | .status => onStore σ (adminOnly σ p (σ.store, writeJSON (.other (cfg.status req)) 200))
  | .createKnowledge => onStore σ (createKnowledge σ.store p cfg env ac req.body.document)
  | .currentUser => (σ, currentUser σ.store p)
  | .listUsers => onStore σ (adminOnly σ p (σ.store, writeJSON (.users σ.store.listUsers) 200))
  | .getUser => (σ, getUser σ.store p req.adminPath)
  | .createUser => onStore σ (adminOnly σ p (createUser σ.store env req.body.user))
  | .updateUser => onStore σ (updateUser σ.store p req.adminPath req.body.user)
  | .changeUserPassword => onStore σ (changeUserPassword σ.store p req.adminPath env req.body.password)
  | .deleteUser => onStore σ (adminOnly σ p (σ.store.deleteUser (idFromPath req.adminPath 1), noContent))
  | .listGroups => onStore σ (adminOnly σ p (σ.store, writeJSON (.groups σ.store.listGroups) 200))
  | .createGroup => onStore σ (adminOnly σ p (createGroup σ.store env req.body.group))
  | .deleteGroup => onStore σ (adminOnly σ p (σ.store.deleteGroup (idFromPath req.adminPath 1), noContent))
  | .listGroupMembers =>
    onStore σ (adminOnly σ p
      (σ.store, writeJSON (.members (σ.store.listGroupMembers (idFromPath req.adminPath 1))) 200))
  | .addGroupMember => onStore σ (adminOnly σ p (addGroupMember σ.store req.adminPath env))
  | .removeGroupMember => onStore σ (adminOnly σ p (removeGroupMember σ.store req.adminPath))
  | .listStorages => (σ, listStorages σ.store p env.now)
  | .getStorageDetails => (σ, getStorageDetails σ.store p req.adminPath)
  | .createStorage => onStore σ (createStorage σ.store p env cfg.bucket req.body.storage)
  | .deleteStorage => onStore σ (deleteStorage σ.store p req.adminPath)
  | .storageACL => (σ, storageACL σ.store p req.adminPath)
  | .upsertACL => onStore σ (upsertACL σ.store p req.adminPath env req.body.binding)
  | .listTokens => (σ, listTokens σ.store p)
  | .createToken => createToken cfg env σ p req.body.token
  | .deleteToken => deleteToken env σ p req.adminPath
  | .patchRateLimit => onStore σ (patchRateLimit σ.store p req.adminPath req.body.rateLimit)
  | .revokeToken => onStore σ (revokeToken σ.store p req.adminPath env)
  | .rotateToken => rotateToken env σ p req.adminPath
  | .connectOptions => (σ, writeJSON (.other (cfg.connectOptions req)) 200)
  | .usageSeries => (σ, writeJSON (.other (cfg.usageSeries req)) 200)
  | .usageSummary => (σ, writeJSON (.other (cfg.usageSummary req)) 200)
  | .handleMCPServers => handleMCPServers cfg env σ p req
  | .patchTokenMCPScopes =>
    patchTokenMCPScopes cfg env σ p
      (trimSuffix (trimPrefix req.adminPath "/tokens/") "/mcp-scopes") req.body.mcpServers
  | .notFound => (σ, httpError "404 page not found" 404)

/-- What `ServeHTTP` does before its switch; the routes of the mux skip it. -/
def enter (route : AdminRoute) : AdminState :=
  if route = .status ∨ route = .createKnowledge then σ
  else
    let (due, ensured) := shouldEnsurePrincipal env.now σ.ensured (subjectKeyForPrincipal p)
    if due then { σ with store := (ensurePrincipal env σ.store p cfg.bucket).1, ensured := ensured }
    else { σ with ensured := ensured }

/-- A request past authentication. The draws of `enter` come first. -/
def dispatch : AdminState × Response :=
  handle cfg (env.after 3) (enter cfg env σ p (routeOf req)) p ac req (routeOf req)

variable (raw : String) (σ : AdminState) (input : Env × Request)

/-- A request with a bearer: an access token first, else the claims of a JWT. -/
def serve : AdminState × Response :=
  if raw = "" then (σ, httpError "missing bearer token" 401)
  else
    match resolveBearer input.1 σ.store σ.mcp raw with
    | (s, .error e) => ({ σ with store := s }, httpError e 401)
    | (s, .ok (some ac)) => dispatch cfg input.1 { σ with store := s } ac.principal ac input.2
    | (s, .ok none) =>
      match cfg.verify raw with
      | .error refusal => ({ σ with store := s }, refusal)
      | .ok p =>
        dispatch cfg input.1 { σ with store := s } p { principal := p, authMode := "bearer_jwt" } input.2

def step : AdminState := (serve cfg raw σ input).1

end AdminHandler
end
end SynaMcp
