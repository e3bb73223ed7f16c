import SynaMcp.Http.Messages
import SynaMcp.Lib.Run

/-! The management endpoints of data objects: record, ACL and secure-bus policy. Only
the policy endpoints ask who is calling. -/
namespace SynaMcp
open Bindings Keyed Runs Store Table

/-- `cfg[k] = v` for every entry of the patch. -/
def Config.merge (cfg patch : Config) : Config :=
  patch.foldl (fun cfg entry => cfg.filter (fun e => e.1 ≠ entry.1) ++ [entry]) cfg

/-- The policy side of the secure bus over a state of its own; documents and
signed policies are kept as texts, an error comes with its HTTP status. -/
structure PolicyService (π : Type) where
  configured : Bool
  getPolicy : π → Scope → Int → Except (String × Nat) String
  putPolicy : Env → π → Scope → String → String → π × Except (String × Nat) String

structure ObjectState (π : Type) where
  store : Store
  policies : π

inductive ObjectRequest where
  | getObject (id : String)
  | patchObject (id : String) (body : Decoded ObjectPatch)
  | deleteObject (id : String)
  | getACL (id : String)
  | putACL (id : String) (body : Decoded ObjectACLBinding)
  | getObjectPolicy (id : String) (version : Int)
  | putObjectPolicy (id : String) (body : Decoded String)

def OpenError.status : OpenError → Nat
  | .forbidden => 403
  | .objectNotFound => 404
  | .unknownMethod => 400

namespace DataObjectHandler
variable (s : Store) (id : String)

def getObject : Response :=
  match s.getObject id with
  | none => notFound
  | some obj => writeJSON (.object obj) 200

def deleteObject : Store × Response :=
  (s.deleteObject id, writeJSON (.fields [("status", "deleted")]) 200)

/-- A new name is shown in the answer and not stored. -/
def patchObject (env : Env) (s : Store) (id : String) (body : Decoded ObjectPatch) : Store × Response :=
  match body with
  | .error e => (s, badRequest e)
  | .ok req =>
    match s.getObject id with
    | none => (s, notFound)
    | some obj =>
      match s.updateObjectConfig env id (obj.config.merge req.config) with
      | .error e => (s, badRequest e)
      | .ok (s, updated) =>
        let name := if req.name ≠ "" ∧ req.name ≠ updated.name then req.name else updated.name
        (s, writeJSON (.object { updated with name := name }) 200)

def getACL : Response := writeJSON (.objectACL (s.objectACLForObject id)) 200

section
variable [Digests]

/-- The binding keeps the id the caller chose for it. -/
def putACL (env : Env) (s : Store) (p : Principal) (id : String) (body : Decoded ObjectACLBinding) :
    Store × Response :=
  match body with
  | .error e => (s, badRequest e)
  | .ok req =>
    let (s, b) := s.upsertObjectACL env { req with objectID := id, grantedBy := subjectKeyForPrincipal p }
    (s, writeJSON (.objectBinding b) 200)

def canManageObject (s : Store) (p : Principal) (objectID : String) : Bool :=
  decide ("platform_admin" ∈ p.scopes) ||
    (s.objectACLForObject objectID).any fun b =>
      decide (b.subjectKey = subjectKeyForPrincipal p) &&
        (decide (b.role = .storageOwner) || decide (b.role = .storageAdmin))

variable {π : Type} (service : PolicyService π) (p : Principal) (ac : APIAccessContext)

def getObjectPolicy (σ : ObjectState π) (id : String) (version : Int) : Response :=
  if !service.configured then httpError "securebus not configured" 503
  else
    match openObject σ.store p ac id "policy" with
    | .error e => httpError e.text e.status
    | .ok scope =>
      match service.getPolicy σ.policies scope version with
      | .error (e, status) => httpError e status
      | .ok signed => writeJSON (.other signed) 200

def putObjectPolicy (env : Env) (σ : ObjectState π) (id : String) (body : Decoded String) :
    ObjectState π × Response :=
  if !service.configured then (σ, httpError "securebus not configured" 503)
  else if (σ.store.getObject id).map DataObject.kind ≠ some .securebus then
    (σ, httpError "securebus object not found" 404)
  else if !canManageObject σ.store p id then (σ, forbidden)
  else
    match body with
    | .error e => (σ, badRequest e)
    | .ok doc =>
      match openObject σ.store p ac id "publish" with
      | .error e => (σ, httpError e.text e.status)
      | .ok scope =>
        let (policies, answer) := service.putPolicy env σ.policies scope doc (subjectKeyForPrincipal p)
        ({ σ with policies := policies },
          match answer with
          | .error (e, status) => httpError e status
          | .ok signed => writeJSON (.other signed) 200)

variable (σ : ObjectState π) (input : Env × ObjectRequest)

def serve : ObjectState π × Response :=
  match input.2 with
  | .getObject id => (σ, getObject σ.store id)
  | .patchObject id body =>
    let (s, answer) := patchObject input.1 σ.store id body
    ({ σ with store := s }, answer)
  | .deleteObject id =>
    let (s, answer) := deleteObject σ.store id
    ({ σ with store := s }, answer)
  | .getACL id => (σ, getACL σ.store id)
  | .putACL id body =>
    let (s, answer) := putACL input.1 σ.store p id body
    ({ σ with store := s }, answer)
  | .getObjectPolicy id version => (σ, getObjectPolicy service p ac σ id version)
  | .putObjectPolicy id body => putObjectPolicy service p ac input.1 σ id body

def step : ObjectState π := (serve service p ac σ input).1

end
end DataObjectHandler

def Payload.Discloses (objectID : String) : Payload → Prop
  | .object obj => obj.id = objectID
  | .objectACL bindings => ∃ b ∈ bindings, b.objectID = objectID
  | .objectBinding b => b.objectID = objectID
  | _ => False

/-- An object is the same in two stores: its record and every binding on it. -/
structure SameObject (id : String) (s s' : Store) : Prop where
  record : s'.getObject id = s.getObject id
  bindings : ∀ b, b.objectID = id → (b ∈ s'.objectACL.rows ↔ b ∈ s.objectACL.rows)
  storageBindings : s'.acl = s.acl

section
variable {env : Env} {s s' s'' : Store} {id other : String}

theorem SameObject.refl (id : String) (s : Store) : SameObject id s s := ⟨rfl, fun _ _ => Iff.rfl, rfl⟩

theorem SameObject.trans (h : SameObject id s s') (h' : SameObject id s' s'') : SameObject id s s'' where
  record := h'.record.trans h.record
  bindings b onIt := (h'.bindings b onIt).trans (h.bindings b onIt)
  storageBindings := h'.storageBindings.trans h.storageBindings

theorem deleteObject_same (ne : other ≠ id) : SameObject id s (s.deleteObject other) := by
  unfold Store.deleteObject
  cases found : s.getObject other with
  | none => exact .refl id s
  | some =>
    have objects : (s.objects.delete other).get? id = s.objects.get? id := get?_delete_of_ne _ ne.symm
    have bindings : ∀ b : ObjectACLBinding, b.objectID = id →
        (b ∈ (s.objectACL.deleteWhere (fun b => b.objectID = other)).rows ↔ b ∈ s.objectACL.rows) := by
      intro b onIt
      have kept : decide (b.objectID = other) = false := by
        rw [onIt]
        exact decide_eq_false ne.symm
      rw [mem_deleteWhere, and_iff_left kept]
    simp only
    split
    · refine ⟨getObject_congr objects ?_, bindings, rfl⟩
      exact get?_delete_of_ne _ ne.symm
    · exact ⟨getObject_congr objects rfl, bindings, rfl⟩

theorem updateObjectConfig_same {config obj} (h : s.updateObjectConfig env other config = .ok (s', obj)) :
    obj.id = other ∧ (other ≠ id → SameObject id s s') := by
  unfold Store.updateObjectConfig at h
  split at h
  · cases h
  · next row found =>
    simp only [Except.ok.injEq, Prod.mk.injEq] at h
    obtain ⟨rfl, rfl⟩ := h
    have own : row.id = other := getObject_id found
    refine ⟨own, fun ne => ⟨getObject_congr ?_ rfl, fun _ _ => Iff.rfl, rfl⟩⟩
    apply get?_put_of_ne
    rw [← own] at ne
    exact ne

/-- A binding on another object is harmless unless its id is taken from one on this object. -/
theorem upsertObjectACL_same {b} (ne : b.objectID ≠ id)
    (free : ∀ b' ∈ s.objectACL.rows, b'.objectID = id → b'.id ≠ orNew b.id (env.uuid 0)) :
    SameObject id s (s.upsertObjectACL env b).1 := by
  refine ⟨rfl, ?_, rfl⟩
  intro b' onIt
  simp only [Store.upsertObjectACL, mem_put]
  constructor
  · rintro (rfl | ⟨old, _⟩)
    · exact absurd onIt ne
    · exact old
  · intro old
    exact .inr ⟨old, free b' old onIt⟩

end

/-- A request that leaves the object alone. A record or ACL request on it must fail
before it does anything, and a binding written elsewhere does not take the id of one on
the object. -/
def Harmless {π : Type} (objectID : String) (σ : ObjectState π) (input : Env × ObjectRequest) : Prop :=
  match input.2 with
  | .getObject id | .deleteObject id => id = objectID → σ.store.getObject objectID = none
  | .patchObject id body => body.Holds fun _ => id = objectID → σ.store.getObject objectID = none
  | .getACL id => id = objectID → σ.store.objectACLForObject objectID = []
  | .putACL id body =>
    body.Holds fun b => id ≠ objectID ∧
      ∀ b' ∈ σ.store.objectACL.rows, b'.objectID = objectID → b'.id ≠ orNew b.id (input.1.uuid 0)
  | .getObjectPolicy _ _ | .putObjectPolicy _ _ => True

instance {π : Type} (objectID : String) (σ : ObjectState π) :
    (input : Env × ObjectRequest) → Decidable (Harmless objectID σ input)
  | (_, .getObject id) | (_, .deleteObject id) =>
    inferInstanceAs (Decidable (id = objectID → σ.store.getObject objectID = none))
  | (_, .patchObject id body) =>
    inferInstanceAs (Decidable (body.Holds fun _ => id = objectID → σ.store.getObject objectID = none))
  | (_, .getACL id) => inferInstanceAs (Decidable (id = objectID → σ.store.objectACLForObject objectID = []))
  | (env, .putACL id body) =>
    inferInstanceAs (Decidable (body.Holds fun b => id ≠ objectID ∧
      ∀ b' ∈ σ.store.objectACL.rows, b'.objectID = objectID → b'.id ≠ orNew b.id (env.uuid 0)))
  | (_, .getObjectPolicy _ _) | (_, .putObjectPolicy _ _) => .isTrue trivial

theorem httpError_quiet {objectID message status} :
    ¬ (httpError message status).payload.Discloses objectID := fun shown => shown

namespace DataObjectHandler
section
variable {s : Store} {id objectID : String}

theorem getObject_quiet (h : id = objectID → s.getObject objectID = none) :
    ¬ (getObject s id).payload.Discloses objectID := by
  unfold getObject
  split
  · exact httpError_quiet
  · next obj found =>
    intro shown
    have same : id = objectID := (getObject_id found).symm.trans shown
    rw [same, h same] at found
    cases found

theorem getACL_quiet (h : id = objectID → s.objectACLForObject objectID = []) :
    ¬ (getACL s id).payload.Discloses objectID := by
  rintro ⟨b, hb, shown⟩
  have onIt : b.objectID = id := (Store.mem_objectACLForObject.mp hb).2
  have same : id = objectID := onIt.symm.trans shown
  rw [same, h same] at hb
  exact List.not_mem_nil hb

theorem patchObject_spec (env : Env) (body : Decoded ObjectPatch)
    (h : body.isOk → id = objectID → s.getObject objectID = none) :
    SameObject objectID s (patchObject env s id body).1 ∧
      ¬ (patchObject env s id body).2.payload.Discloses objectID := by
  unfold patchObject
  split
  · exact ⟨.refl _ _, httpError_quiet⟩
  · next req =>
    split
    · exact ⟨.refl _ _, httpError_quiet⟩
    · next obj found =>
      have ne : id ≠ objectID := by
        intro same
        rw [same, h rfl same] at found
        cases found
      split
      · exact ⟨.refl _ _, httpError_quiet⟩
      · next s' updated written =>
        obtain ⟨own, same⟩ := updateObjectConfig_same written
        exact ⟨same ne, fun shown => ne (own.symm.trans shown)⟩

variable [Digests] {π : Type} {service : PolicyService π} {p : Principal} {ac : APIAccessContext}
  {σ : ObjectState π}

theorem putACL_spec (env : Env) (body : Decoded ObjectACLBinding) (h : ∀ b, body = .ok b → id ≠ objectID ∧
      ∀ b' ∈ s.objectACL.rows, b'.objectID = objectID → b'.id ≠ orNew b.id (env.uuid 0)) :
    SameObject objectID s (putACL env s p id body).1 ∧ ¬ (putACL env s p id body).2.payload.Discloses objectID := by
  unfold putACL
  split
  · exact ⟨.refl _ _, httpError_quiet⟩
  · next b =>
    obtain ⟨ne, free⟩ := h b rfl
    exact ⟨upsertObjectACL_same ne free, ne⟩

theorem getObjectPolicy_quiet (id : String) (version : Int) :
    ¬ (getObjectPolicy service p ac σ id version).payload.Discloses objectID := by
  unfold getObjectPolicy
  split
  · exact httpError_quiet
  · split
    · exact httpError_quiet
    · split
      · exact httpError_quiet
      · exact fun shown => shown

theorem putObjectPolicy_spec (env : Env) (id : String) (body : Decoded String) :
    (putObjectPolicy service p ac env σ id body).1.store = σ.store ∧
      ¬ (putObjectPolicy service p ac env σ id body).2.payload.Discloses objectID := by
  unfold putObjectPolicy
  split
  · exact ⟨rfl, httpError_quiet⟩
  · split
    · exact ⟨rfl, httpError_quiet⟩
    · split
      · exact ⟨rfl, httpError_quiet⟩
      · split
        · exact ⟨rfl, httpError_quiet⟩
        · split
          · exact ⟨rfl, httpError_quiet⟩
          · refine ⟨rfl, ?_⟩
            simp only
            split
            · exact httpError_quiet
            · exact fun shown => shown

theorem serve_harmless (input : Env × ObjectRequest) (harmless : Harmless objectID σ input) :
    SameObject objectID σ.store (serve service p ac σ input).1.store ∧
      ¬ (serve service p ac σ input).2.payload.Discloses objectID := by
  obtain ⟨env, req⟩ := input
  cases req with
  | getObject => exact ⟨.refl _ _, getObject_quiet harmless⟩
  | patchObject id body =>
    apply patchObject_spec
    intro decoded
    cases body with
    | error => cases decoded
    | ok => exact harmless
  | deleteObject id =>
    refine ⟨?_, fun shown => shown⟩
    by_cases same : id = objectID
    · have missing : σ.store.deleteObject id = σ.store := by
        have gone := harmless same
        rw [← same] at gone
        simp only [Store.deleteObject, gone]
      simp only [serve, deleteObject, missing]
      exact .refl _ _
    · exact deleteObject_same same
  | getACL => exact ⟨.refl _ _, getACL_quiet harmless⟩
  | putACL =>
    apply putACL_spec
    intro b decoded
    rw [decoded] at harmless
    exact harmless
  | getObjectPolicy id version => exact ⟨.refl _ _, getObjectPolicy_quiet id version⟩
  | putObjectPolicy id body =>
    obtain ⟨store, quiet⟩ : (putObjectPolicy service p ac env σ id body).1.store = σ.store ∧
        ¬ (putObjectPolicy service p ac env σ id body).2.payload.Discloses objectID :=
      putObjectPolicy_spec env id body
    refine ⟨?_, quiet⟩
    simp only [serve, store]
    exact .refl _ _

end
end DataObjectHandler

section
variable [Digests] {s s' : Store} {p : Principal} {ac : APIAccessContext} {objectID : String}

theorem SameObject.unbound (h : SameObject objectID s s') (unbound : ∀ b ∈ ownObjectACL s p, b.objectID ≠ objectID) :
    ∀ b ∈ ownObjectACL s' p, b.objectID ≠ objectID := by
  intro b hb onIt
  refine unbound b ⟨hb.1, ?_⟩ onIt
  rcases hb.2 with row | bridged
  · exact .inl ((h.bindings b onIt).mp row)
  · rw [h.storageBindings] at bridged
    exact .inr bridged

/-- Without a binding, an administrator scope or an open token scope there is no
method to open the object with. -/
theorem opens_eq_false (unbound : ∀ b ∈ ownObjectACL s p, b.objectID ≠ objectID) (plain : "platform_admin" ∉ p.scopes)
    (closed : ∀ t obj m, ac.accessToken = some t → s.getObject objectID = some obj →
      ¬ t.AdmitsObject ac.objectScopes obj m) (m : String) : opens s p ac objectID m = false := by
  rw [Bool.eq_false_iff, ne_eq, opens_iff]
  rintro ⟨obj, found, _, allowed⟩
  have own : obj.id = objectID := getObject_id found
  cases token : ac.accessToken with
  | none =>
    rw [token, objectDecision_none_allows] at allowed
    rcases allowed with ⟨b, hb, onIt, _⟩ | ⟨admin, _⟩
    · exact unbound b hb (onIt.trans own)
    · exact plain admin.1
  | some t =>
    rw [token, objectDecision_some_allows] at allowed
    exact closed t obj m token found allowed.1

end

open DataObjectHandler in
/-- Runs of object requests by a caller without a binding on an object, without the
administrator scope and without a token that admits a method on it. Where every request
is harmless to the object, its record and ACL stay, no answer shows them, and the caller
opens it with no method. -/
theorem object_untouched_along_run [Digests] {π : Type} (service : PolicyService π) (p : Principal)
    (ac : APIAccessContext) (objectID : String) (σ : ObjectState π) (inputs : List (Env × ObjectRequest))
    (unbound : ∀ b ∈ ownObjectACL σ.store p, b.objectID ≠ objectID) (plain : "platform_admin" ∉ p.scopes)
    (closed : ∀ t obj m, ac.accessToken = some t → σ.store.getObject objectID = some obj →
      ¬ t.AdmitsObject ac.objectScopes obj m)
    (harmless : Guarded (Harmless objectID) (step service p ac) σ inputs) :
    SameObject objectID σ.store (run (step service p ac) σ inputs).store ∧
      Along (fun before input _ => ¬ (serve service p ac before input).2.payload.Discloses objectID)
        (step service p ac) σ inputs ∧
      ∀ m, opens (run (step service p ac) σ inputs).store p ac objectID m = false := by
  have preserves : ∀ before input, SameObject objectID σ.store before.store → Harmless objectID before input →
      SameObject objectID σ.store (step service p ac before input).store := by
    intro before input same ok
    exact same.trans (serve_harmless input ok).1
  have same : SameObject objectID σ.store (run (step service p ac) σ inputs).store :=
    run_invariant preserves harmless (.refl _ _)
  refine ⟨same, ?_, ?_⟩
  · exact along_of_guarded preserves (fun _ input _ ok => (serve_harmless input ok).2) harmless (.refl _ _)
  · apply opens_eq_false (same.unbound unbound) plain
    intro t obj m token found
    rw [same.record] at found
    exact closed t obj m token found

/-- A secure bus `o` of `a` and a variable `v` of `u`. -/
def busStore : Store :=
  let s := match Store.empty.createObject (draws "x")
      { id := "o", kind := .securebus, ownerSubjectKey := "user:internal:a", config := [("k", "1")] } "a" with
    | .ok (s, _) => s
    | .error _ => .empty
  match s.createObject (draws "y") { id := "v", kind := .variable, ownerSubjectKey := "user:internal:u" } "u" with
  | .ok (s, _) => s
  | .error _ => .empty

def noPolicies : PolicyService Unit where
  configured := true
  getPolicy _ _ _ := .error ("not found", 404)
  putPolicy _ _ _ _ _ := ((), .error ("policy rejected", 400))

/-- `u` asks for the policy of `o`, tries to replace it, and shares `v`. -/
def policyRequests : List (Env × ObjectRequest) :=
  [(draws "p", .getObjectPolicy "o" 0), (draws "p", .putObjectPolicy "o" (.ok "doc")),
    (draws "p", .getObject "v"),
    (draws "p", .putACL "v" (.ok { objectID := "", subjectKey := "user:internal:b", role := .storageReader }))]

open DataObjectHandler in
theorem object_untouched_by_policy_requests :
    (run (@step .plain _ noPolicies { userID := "u" } {}) ⟨busStore, ()⟩ policyRequests).store.getObject "o" =
        busStore.getObject "o" ∧
      @opens .plain (run (@step .plain _ noPolicies { userID := "u" } {}) ⟨busStore, ()⟩ policyRequests).store
        { userID := "u" } {} "o" "publish" = false := by
  have unbound : ∀ b ∈ busStore.objectACLForSubject (@subjectKeys .plain { userID := "u" }),
      b.objectID ≠ "o" := by decide
  obtain ⟨same, _, none⟩ := @object_untouched_along_run .plain _ noPolicies { userID := "u" } {} "o"
    ⟨busStore, ()⟩ policyRequests (fun b hb => unbound b (Store.mem_objectACLForSubject.mpr hb)) (by decide)
    (fun _ _ _ token => by cases token) (by decide)
  exact ⟨same.record, none "publish"⟩

open DataObjectHandler in
/-- Without a binding on `o`, `u` reads its configuration and makes itself its owner. -/
theorem object_taken_over :
    (∀ b ∈ busStore.objectACLForSubject (@subjectKeys .plain { userID := "u" }), b.objectID ≠ "o") ∧
      (@serve .plain _ noPolicies { userID := "u" } {} ⟨busStore, ()⟩ (draws "p", .getObject "o")).2.payload =
        .object { (busStore.getObject "o").getD { kind := .securebus } with config := [("k", "1")] } ∧
      @opens .plain busStore { userID := "u" } {} "o" "publish" = false ∧
      @opens .plain (@step .plain _ noPolicies { userID := "u" } {} ⟨busStore, ()⟩ (draws "p", .putACL "o" (.ok
          { objectID := "", subjectKey := "user:internal:u", role := .storageOwner }))).store
        { userID := "u" } {} "o" "publish" = true := by
  decide

end SynaMcp
