import SynaMcp.Lib.Decision
import SynaMcp.Lib.GoMaps
import SynaMcp.Rights
import SynaMcp.Store.State

/-! Effective access to a proxied MCP server. Unlike the other two evaluators, the
platform administrator's fallback applies with a token as well. -/
namespace SynaMcp
open Bindings Keyed

/-- The tables of the MCP proxy store that access decisions read. -/
structure MCPStore where
  acl : Table MCPServerACLBinding.id
  tokenScopes : List AccessTokenMCPServer

namespace MCPStore

def empty : MCPStore := { acl := .empty, tokenScopes := [] }

def aclForSubject (s : MCPStore) (subjectKeys : List String) : List MCPServerACLBinding :=
  if subjectKeys = [] then [] else s.acl.rows.filter (fun b => b.subjectKey ∈ subjectKeys)

def tokenMCPServers (s : MCPStore) (tokenID : String) : List AccessTokenMCPServer :=
  s.tokenScopes.filter (fun scope => scope.tokenID = tokenID)

def replaceTokenMCPServers (env : Env) (s : MCPStore) (tokenID : String)
    (scopes : List AccessTokenMCPServer) : MCPStore :=
  { s with
    tokenScopes := s.tokenScopes.filter (fun scope => scope.tokenID ≠ tokenID) ++
      scopes.map fun scope =>
        { scope with tokenID := tokenID, createdAt := zeroTime scope.createdAt env.now } }

@[simp] theorem mem_aclForSubject {s : MCPStore} {keys b} :
    b ∈ s.aclForSubject keys ↔ b ∈ s.acl.rows ∧ b.subjectKey ∈ keys := by
  unfold aclForSubject
  split
  · next none => simp [none]
  · simp

end MCPStore

def aclServerPermissions (acl : List MCPServerACLBinding) (serverID : String) : List MCPServerPermission :=
  collect (fun b => b.serverID = serverID) (fun b => mcpServerRolePermissions b.role) acl

variable (p : Principal) (token : Option AccessToken)

def evaluateMCPServerAccess
    (tokenScopes : List AccessTokenMCPServer) (acl : List MCPServerACLBinding) (serverID : String)
    (permission : MCPServerPermission) : Bool :=
  if token.isSome && !tokenScopes.any (fun scope => scope.serverID = serverID) then false
  else
    let perms := aclServerPermissions acl serverID
    let perms := if perms = [] ∧ "platform_admin" ∈ p.scopes then [permission] else perms
    decide (permission ∈ perms)

def serverDecision (scopes : List AccessTokenMCPServer)
    (serverID : String) (q : MCPServerPermission) : Decision MCPServerACLBinding where
  gate := token ≠ none → ∃ scope ∈ scopes, scope.serverID = serverID
  fallback := "platform_admin" ∈ p.scopes
  grants b := b.serverID = serverID ∧ q ∈ mcpServerRolePermissions b.role
  engages b := b.serverID = serverID ∧ mcpServerRolePermissions b.role ≠ []
  engages_of_grants := by
    intro b h
    exact ⟨h.1, List.ne_nil_of_mem h.2⟩

section
variable {p} {token} {scopes : List AccessTokenMCPServer}
  {acl : List MCPServerACLBinding} {id : String} {q : MCPServerPermission}

theorem mem_aclServerPermissions : q ∈ aclServerPermissions acl id ↔
    (serverDecision p token scopes id q).Granted {b | b ∈ acl} := by
  simp only [aclServerPermissions, mem_collect, decide_eq_true_eq, Decision.Granted, serverDecision,
    Set.mem_ofPred_eq]

theorem aclServerPermissions_eq_nil_iff : aclServerPermissions acl id = [] ↔
    ¬ (serverDecision p token scopes id q).Engaged {b | b ∈ acl} := by
  simp only [aclServerPermissions, collect_eq_nil_iff, decide_eq_true_eq, Decision.Engaged,
    serverDecision, Set.mem_ofPred_eq, not_exists, not_and, not_not]

theorem evaluateMCPServerAccess_iff : evaluateMCPServerAccess p token scopes acl id q = true ↔
      (serverDecision p token scopes id q).Allows {b | b ∈ acl} := by
  have gate : (token.isSome && !scopes.any (fun scope => scope.serverID = id)) = false ↔
      (serverDecision p token scopes id q).gate := by
    cases token <;> simp [serverDecision]
  have perms : q ∈ (if aclServerPermissions acl id = [] ∧ "platform_admin" ∈ p.scopes then [q]
      else aclServerPermissions acl id) ↔
      q ∈ aclServerPermissions acl id ∨ ("platform_admin" ∈ p.scopes ∧ aclServerPermissions acl id = []) := by
    by_cases empty : aclServerPermissions acl id = []
    · by_cases admin : "platform_admin" ∈ p.scopes <;> simp [empty, admin]
    · simp [empty]
  unfold evaluateMCPServerAccess
  rw [Decision.Allows, ← gate, ← mem_aclServerPermissions, ← aclServerPermissions_eq_nil_iff]
  cases closed : token.isSome && !scopes.any (fun scope => scope.serverID = id) with
  | true => simp
  | false =>
    simp only [Bool.false_eq_true, if_false, decide_eq_true_eq, true_and]
    exact perms

end

def canAccessMCPServer [Digests] (s : MCPStore) (p : Principal) (token : Option AccessToken)
    (tokenScopes : List AccessTokenMCPServer) (serverID : String) (permission : MCPServerPermission) : Bool :=
  evaluateMCPServerAccess p token tokenScopes (s.aclForSubject (subjectKeys p)) serverID permission

def ownServerACL [Digests] (s : MCPStore) (p : Principal) : Set MCPServerACLBinding :=
  {b | b ∈ s.acl.rows ∧ b.subjectKey ∈ subjectKeys p}

theorem canAccessMCPServer_iff [Digests] {s : MCPStore} {p token scopes id q} :
    canAccessMCPServer s p token scopes id q = true ↔
      (serverDecision p token scopes id q).Allows (ownServerACL s p) := by
  have acl : {b | b ∈ s.aclForSubject (subjectKeys p)} = ownServerACL s p := by
    ext b
    exact MCPStore.mem_aclForSubject
  rw [canAccessMCPServer, evaluateMCPServerAccess_iff, acl]

inductive MCPAuthType where
  | unset
  | bearer
  | apiKey
  | customHeader
  | other (text : String)
  deriving DecidableEq, Repr

structure MCPServer where
  id : String
  slug : String
  url : String
  headersJSON : String
  authType : MCPAuthType
  authHeaderName : String
  deriving DecidableEq, Repr

structure AccessibleServer where
  server : MCPServer
  scope : AccessTokenMCPServer
  deriving DecidableEq, Repr

section
variable [Digests] (choose : Nat → Nat) (servers : Table MCPServer.id) (s : MCPStore) (p : Principal)
  (token : Option AccessToken) (tokenScopes : List AccessTokenMCPServer)

/-- `choose` is the order in which `ListServers` ranges over the servers. -/
def availableMCPServers : List AccessibleServer :=
  let acl := s.aclForSubject (subjectKeys p)
  if token.isSome then
    tokenScopes.filterMap fun scope =>
      match servers.get? scope.serverID with
      | none => none
      | some srv =>
        if evaluateMCPServerAccess p token tokenScopes acl srv.id .use then some ⟨srv, scope⟩ else none
  else
    ((GoMaps.range choose servers.rows).filter fun srv =>
      evaluateMCPServerAccess p none [] acl srv.id .use).map fun srv => ⟨srv, { serverID := srv.id }⟩

/-- A caller lists the stored servers that they may use, each with a token scope that names
it; and a token allows nothing that is not allowed without it. -/
theorem listed_servers_are_usable :
    (∀ srv, (∃ scope, ⟨srv, scope⟩ ∈ availableMCPServers choose servers s p token tokenScopes) ↔
      srv ∈ servers.rows ∧ canAccessMCPServer s p token tokenScopes srv.id .use = true) ∧
    ∀ id q, canAccessMCPServer s p token tokenScopes id q = true → canAccessMCPServer s p none [] id q = true := by
  refine ⟨fun srv => ?_, fun id q allowed => ?_⟩
  · cases token with
    | none => simp [availableMCPServers, canAccessMCPServer, evaluateMCPServerAccess]
    | some t =>
      simp only [availableMCPServers, Option.isSome_some, if_true, List.mem_filterMap]
      constructor
      · rintro ⟨_, scope, _, made⟩
        split at made
        · cases made
        · next row =>
          split at made
          · next allowed =>
            cases made
            exact ⟨Table.mem_of_get? row, allowed⟩
          · cases made
      · rintro ⟨row, allowed⟩
        obtain ⟨scope, mem, named⟩ := (canAccessMCPServer_iff.mp allowed).gate (Option.some_ne_none t)
        refine ⟨scope, scope, mem, ?_⟩
        rw [named, Table.get?_of_mem row]
        exact if_pos allowed
  · rw [canAccessMCPServer_iff] at allowed ⊢
    exact ⟨fun some => absurd rfl some, allowed.2⟩

end

end SynaMcp
