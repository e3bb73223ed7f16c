import SynaMcp.Access.Storages
import SynaMcp.Store.Objects
import SynaMcp.Store.Tokens

/-! Effective access to a data object and its checked opening. There is a fallback on
both sides: without a token for platform administrators, and with one for every caller
whose bindings carry no method of the object. -/
namespace SynaMcp
open Bindings

def aclMethods (acl : List ObjectACLBinding) (obj : DataObject) : List String :=
  collect (fun b => b.objectID = obj.id) (fun b => methodsForRole obj.kind b.role) acl

/-- A nonempty allowlist names the method plainly or as `kind_method`. -/
def allowlisted (scope : AccessTokenObject) (kind : ObjectKind) (method : String) : Bool :=
  scope.methodAllowlist.isEmpty || decide (method ∈ scope.methodAllowlist) ||
    decide (kind.text ++ "_" ++ method ∈ scope.methodAllowlist)

def evaluateObjectAccess [Digests] (p : Principal) (token : Option AccessToken)
    (scopes : List AccessTokenObject) (acl : List ObjectACLBinding) (obj : DataObject)
    (method : String) : EffectiveObjectAccess × Bool :=
  let userMethods := aclMethods acl obj
  let hasACL := acl.any (fun b => b.objectID = obj.id)
  match token with
  | none =>
    let userMethods := if !hasACL && decide ("platform_admin" ∈ p.scopes) then methods obj.kind else userMethods
    ({ objectID := obj.id, kind := obj.kind, subjectKey := subjectKeyForPrincipal p,
       mode := .readWrite, methods := userMethods }, decide (method ∈ userMethods))
  | some t =>
    match scopes.find? (fun scope => scope.objectID = obj.id) with
    | none => ({}, false)
    | some scope =>
      let mode := intersectMode t.mode scope.maxMode
      if !allowlisted scope obj.kind method then ({}, false)
      else if mode = .none then ({}, false)
      else if isMutating method && decide (mode = .read) then ({}, false)
      else
        let allowedByMode := methodsForMode obj.kind mode
        -- bindings that carry no method leave the token with all its mode admits
        let userMethods :=
          if userMethods = [] then allowedByMode
          else userMethods.filter (fun m => m ∈ allowedByMode)
        ({ objectID := obj.id, kind := obj.kind, subjectKey := subjectKeyForPrincipal p,
           tokenID := t.id, mode := mode, methods := userMethods }, decide (method ∈ userMethods))

/-- What a token lets through on an object: the first scope naming it has the
method on its allowlist and a mode that carries it. -/
def AccessToken.AdmitsObject (t : AccessToken) (scopes : List AccessTokenObject) (obj : DataObject)
    (m : String) : Prop :=
  ∃ scope, scopes.find? (fun scope => scope.objectID = obj.id) = some scope ∧
    allowlisted scope obj.kind m = true ∧
    m ∈ methodsForMode obj.kind (intersectMode t.mode scope.maxMode)

def objectDecision (p : Principal) (token : Option AccessToken) (scopes : List AccessTokenObject)
    (obj : DataObject) (m : String) : Decision ObjectACLBinding where
  gate := ∀ t, token = some t → t.AdmitsObject scopes obj m
  fallback := token = none → "platform_admin" ∈ p.scopes ∧ m ∈ methods obj.kind
  grants b := b.objectID = obj.id ∧ m ∈ methodsForRole obj.kind b.role
  engages b := b.objectID = obj.id ∧ (token ≠ none → methodsForRole obj.kind b.role ≠ [])
  engages_of_grants := by
    intro b h
    exact ⟨h.1, fun _ => List.ne_nil_of_mem h.2⟩

section
variable {p : Principal} {token : Option AccessToken} {t : AccessToken}
  {scopes : List AccessTokenObject} {acl : List ObjectACLBinding} {obj : DataObject} {m : String}
  {A : Set ObjectACLBinding}

theorem mem_aclMethods : m ∈ aclMethods acl obj ↔
    ∃ b ∈ acl, b.objectID = obj.id ∧ m ∈ methodsForRole obj.kind b.role := by
  simp only [aclMethods, mem_collect, decide_eq_true_eq]

theorem aclMethods_eq_nil_iff : aclMethods acl obj = [] ↔
    ∀ b ∈ acl, b.objectID = obj.id → methodsForRole obj.kind b.role = [] := by
  simp only [aclMethods, collect_eq_nil_iff, decide_eq_true_eq]

/-- The evaluator with a token: past the checks on the scope, the method is one
the mode admits and the bindings either carry it or carry nothing. -/
theorem evaluateObjectAccess_some [Digests] : (evaluateObjectAccess p (some t) scopes acl obj m).2 = true ↔
      t.AdmitsObject scopes obj m ∧ (m ∈ aclMethods acl obj ∨ aclMethods acl obj = []) := by
  simp only [evaluateObjectAccess, AccessToken.AdmitsObject]
  cases scopes.find? (fun scope => scope.objectID = obj.id) with
  | none => simp
  | some scope =>
    simp only [Option.some.injEq, exists_eq_left', mem_methodsForMode]
    by_cases listed : allowlisted scope obj.kind m = true
    · by_cases closed : intersectMode t.mode scope.maxMode = .none
      · simp [listed, closed]
      · by_cases barred : isMutating m = true ∧ intersectMode t.mode scope.maxMode = .read
        · simp [listed, barred.1, barred.2]
        · by_cases empty : aclMethods acl obj = []
          · simp only [listed, closed, barred, empty, mem_methodsForMode, Bool.not_true,
              Bool.false_eq_true, if_false, if_true, Bool.and_eq_true, decide_eq_true_eq,
              List.not_mem_nil, ne_eq, not_false_eq_true, true_and, or_true, and_true]
          · simp only [listed, closed, barred, empty, Bool.not_true, Bool.false_eq_true, if_false,
              Bool.and_eq_true, decide_eq_true_eq, List.mem_filter, ne_eq, not_false_eq_true,
              true_and, or_false]
            exact and_comm
    · simp [listed]

theorem objectDecision_none_allows : (objectDecision p none scopes obj m).Allows A ↔
      (∃ b ∈ A, b.objectID = obj.id ∧ m ∈ methodsForRole obj.kind b.role) ∨
        (("platform_admin" ∈ p.scopes ∧ m ∈ methods obj.kind) ∧ ∀ b ∈ A, b.objectID ≠ obj.id) := by
  simp [Decision.Allows, Decision.Granted, Decision.Engaged, objectDecision]

theorem objectDecision_some_allows : (objectDecision p (some t) scopes obj m).Allows A ↔ t.AdmitsObject scopes obj m ∧
        ((∃ b ∈ A, b.objectID = obj.id ∧ m ∈ methodsForRole obj.kind b.role) ∨
          ∀ b ∈ A, b.objectID = obj.id → methodsForRole obj.kind b.role = []) := by
  simp [Decision.Allows, Decision.Granted, Decision.Engaged, objectDecision]

theorem evaluateObjectAccess_iff [Digests] : (evaluateObjectAccess p token scopes acl obj m).2 = true ↔
      (objectDecision p token scopes obj m).Allows {b | b ∈ acl} := by
  cases token with
  | none =>
    rw [objectDecision_none_allows]
    simp only [evaluateObjectAccess, decide_eq_true_eq, Set.mem_ofPred_eq]
    cases bound : acl.any (fun b => b.objectID = obj.id) with
    | true =>
      have some : ¬ ∀ b ∈ acl, b.objectID ≠ obj.id := by simpa using bound
      simp only [Bool.not_true, Bool.false_and, Bool.false_eq_true, if_false, some, and_false, or_false]
      exact mem_aclMethods
    | false =>
      have none : ∀ b ∈ acl, b.objectID ≠ obj.id := by simpa using bound
      have ungranted : ¬ ∃ b ∈ acl, b.objectID = obj.id ∧ m ∈ methodsForRole obj.kind b.role := by
        rintro ⟨b, hb, onIt, _⟩
        exact none b hb onIt
      have without : m ∉ aclMethods acl obj := fun h => ungranted (mem_aclMethods.mp h)
      by_cases admin : "platform_admin" ∈ p.scopes
      · simp only [Bool.not_false, admin, decide_true, Bool.and_self, if_true, ungranted, true_and, false_or]
        exact ⟨fun h => ⟨h, none⟩, fun h => h.1⟩
      · simp [admin, without, ungranted]
  | some =>
    rw [objectDecision_some_allows, evaluateObjectAccess_some, mem_aclMethods, aclMethods_eq_nil_iff]
    rfl

end

section
variable [Digests]

def canAccessObject (s : Store) (p : Principal) (token : Option AccessToken)
    (scopes : List AccessTokenObject) (objectID method : String) : EffectiveObjectAccess × Bool :=
  match s.getObject objectID with
  | none => ({}, false)
  | some obj =>
    if !hasMethod obj.kind method then ({}, false)
    else evaluateObjectAccess p token scopes (s.objectACLForSubject (subjectKeys p)) obj method

def objectAllowed (s : Store) (p : Principal) (token : Option AccessToken)
    (scopes : List AccessTokenObject) (objectID method : String) : Bool :=
  (canAccessObject s p token scopes objectID method).2

/-- Probes readability with the first method that does not mutate, else the first. -/
def availableObjects (s : Store) (p : Principal) (token : Option AccessToken)
    (scopes : List AccessTokenObject) (kind : Option ObjectKind) :
    List (DataObject × EffectiveObjectAccess) :=
  let filter : Store.AccessibleStorageFilter :=
    { subjectKeys := subjectKeys p
      platformAdmin := token.isNone && decide ("platform_admin" ∈ p.scopes)
      hasToken := token.isSome
      tokenStorageIDs := if token.isSome then scopes.map AccessTokenObject.objectID else [] }
  let acl := s.objectACLForSubject (subjectKeys p)
  (s.listAccessibleObjects kind filter).filterMap fun obj =>
    match methods obj.kind with
    | [] => none
    | first :: rest =>
      let probe := ((first :: rest).find? (fun m => !isMutating m)).getD first
      let (eff, ok) := evaluateObjectAccess p token scopes acl obj probe
      if ok then some (obj, eff) else none

/-- The errors of `internal/policy`. -/
inductive OpenError where
  | forbidden
  | unknownMethod
  | objectNotFound
  deriving DecidableEq, Repr

def OpenError.text : OpenError → String
  | .forbidden => "forbidden"
  | .unknownMethod => "unknown method for object kind"
  | .objectNotFound => "object not found"

/-- A checked session on one object and method; in memory it holds no transaction. -/
structure Scope where
  object : DataObject
  method : String
  access : EffectiveObjectAccess
  principal : Principal
  deriving DecidableEq, Repr

/-- The object scopes of a request; a token without any is read by its storage scopes. -/
def APIAccessContext.objectScopes (ac : APIAccessContext) : List AccessTokenObject :=
  if ac.allowedObjects = [] then ac.allowedStorage.map AccessTokenStorage.toObject
  else ac.allowedObjects

variable (s : Store) (p : Principal) (ac : APIAccessContext) (objectID method : String)

/-- `Opener.Open` on the in-memory store. -/
def openObject : Except OpenError Scope :=
  match s.getObject objectID with
  | none => .error .objectNotFound
  | some obj =>
    if !hasMethod obj.kind method then .error .unknownMethod
    else
      let (eff, allowed) := canAccessObject s p ac.accessToken ac.objectScopes objectID method
      if !allowed then .error .forbidden
      else .ok { object := obj, method := method, access := eff, principal := p }

def opens : Bool :=
  (openObject s p ac objectID method).isOk

/-- The object bindings that speak for a principal, storage bindings bridged. -/
def ownObjectACL (s : Store) (p : Principal) : Set ObjectACLBinding :=
  {b | b.subjectKey ∈ subjectKeys p ∧ (b ∈ s.objectACL.rows ∨ ∃ a ∈ s.acl.rows, a.toObject = b)}

variable {s} {p} {token : Option AccessToken} {t : AccessToken}
  {scopes : List AccessTokenObject} {ac} {id m : String}

theorem objectAllowed_iff : objectAllowed s p token scopes id m = true ↔
    ∃ obj, s.getObject id = some obj ∧ m ∈ methods obj.kind ∧
      (objectDecision p token scopes obj m).Allows (ownObjectACL s p) := by
  have acl : {b | b ∈ s.objectACLForSubject (subjectKeys p)} = ownObjectACL s p := by
    ext b
    exact Store.mem_objectACLForSubject
  unfold objectAllowed canAccessObject
  cases s.getObject id with
  | none => simp
  | some obj =>
    simp only [Option.some.injEq, exists_eq_left', ← hasMethod_iff]
    cases known : hasMethod obj.kind m with
    | false => simp
    | true =>
      rw [← acl, ← evaluateObjectAccess_iff]
      simp

theorem opens_iff_objectAllowed :
    opens s p ac id m = true ↔ objectAllowed s p ac.accessToken ac.objectScopes id m = true := by
  cases found : s.getObject id with
  | none => simp [opens, openObject, objectAllowed, canAccessObject, found, Except.isOk, Except.toBool]
  | some obj =>
    cases known : hasMethod obj.kind m with
    | false =>
      simp [opens, openObject, objectAllowed, canAccessObject, found, known, Except.isOk, Except.toBool]
    | true =>
      simp only [opens, openObject, objectAllowed, found, known, Bool.not_true, Bool.false_eq_true, if_false]
      cases (canAccessObject s p ac.accessToken ac.objectScopes id m).2 with
      | false | true => simp [Except.isOk, Except.toBool]

theorem opens_iff : opens s p ac id m = true ↔ ∃ obj, s.getObject id = some obj ∧ m ∈ methods obj.kind ∧
      (objectDecision p ac.accessToken ac.objectScopes obj m).Allows (ownObjectACL s p) := by
  rw [opens_iff_objectAllowed, objectAllowed_iff]

/-- The objects listed are those that the probe opens, with the access it is opened with: nothing
that is left out beforehand would pass. -/
theorem mem_availableObjects {kind obj eff} : (obj, eff) ∈ availableObjects s p token scopes kind ↔
    (s.getObject obj.id = some obj ∧ (kind = none ∨ kind = some obj.kind)) ∧ ∃ first rest,
      methods obj.kind = first :: rest ∧ canAccessObject s p token scopes obj.id
        (((first :: rest).find? fun m => !isMutating m).getD first) = (eff, true) := by
  have opened : ∀ {o m}, o ∈ s.listObjects kind → m ∈ methods o.kind → canAccessObject s p token scopes o.id m =
      evaluateObjectAccess p token scopes (s.objectACLForSubject (subjectKeys p)) o m := by
    intro o m listed known
    simp [canAccessObject, (Store.mem_listObjects.mp listed).1, hasMethod_iff.mpr known]
  have probe : ∀ {first : String} {rest}, ((first :: rest).find? fun m => !isMutating m).getD first ∈ first :: rest := by
    intro first rest
    cases found : (first :: rest).find? fun m => !isMutating m with
    | none => exact List.mem_cons_self
    | some => exact List.mem_of_find?_eq_some found
  rw [← Store.mem_listObjects, availableObjects, List.mem_filterMap]
  constructor
  · rintro ⟨o, mem, made⟩
    have listed : o ∈ s.listObjects kind := by grind [Store.listAccessibleObjects]
    split at made
    · cases made
    · next first rest all =>
      obtain ⟨ok, same⟩ := Option.ite_none_right_eq_some.mp made
      cases same
      exact ⟨listed, first, rest, all, (opened listed (all ▸ probe)).trans (Prod.ext rfl ok)⟩
  · rintro ⟨listed, first, rest, all, allowed⟩
    rw [opened listed (all ▸ probe)] at allowed
    refine ⟨obj, ?_, by simp [all, allowed]⟩
    have decided := evaluateObjectAccess_iff.mp (congrArg Prod.snd allowed)
    cases token with
    | none =>
      rw [objectDecision_none_allows] at decided
      grind [Store.listAccessibleObjects]
    | some t =>
      obtain ⟨⟨scope, found, _⟩, _⟩ := objectDecision_some_allows.mp decided
      have named := List.mem_of_find?_eq_some found
      grind [Store.listAccessibleObjects]

end

end SynaMcp
