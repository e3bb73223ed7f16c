import Mathlib.Data.List.Dedup
import SynaMcp.Store.State

/-! Storages and their ACL. Creating a storage writes four tables at once: the
storage, its owner binding, and the mirror of both in the object tables. -/
namespace SynaMcp
open List

def objectFromStorage (st : Storage) : DataObject :=
  { id := st.id, kind := .storage, slug := st.slug, name := st.name,
    ownerSubjectKey := st.ownerSubjectKey, visibility := st.visibility,
    defaultAccess := st.defaultAccess, status := st.status, backend := "postgres", config := [],
    s3Bucket := st.s3Bucket, s3Prefix := st.s3Prefix, createdAt := st.createdAt,
    updatedAt := st.updatedAt, archivedAt := st.archivedAt }

def ACLBinding.toObject (b : ACLBinding) : ObjectACLBinding :=
  { id := b.id, objectID := b.storageID, subjectKey := b.subjectKey, role := b.role,
    grantedBy := b.grantedBy, expiresAt := b.expiresAt, createdAt := b.createdAt }

variable (env : Env)

/-- The record `CreateStorage` writes for a request: first draw for a missing id. -/
def Storage.withDefaults (st : Storage) : Storage :=
  let id := orNew st.id (env.uuid 0)
  let slug := orElse "" st.slug id
  { st with
    id := id
    slug := slug
    name := orElse "" st.name slug
    kind := orElse .unset st.kind .knowledge
    defaultAccess := orElse .unset st.defaultAccess .none
    status := orElse .unset st.status .active
    s3Prefix := orElse "" st.s3Prefix ("storages/" ++ id ++ "/")
    createdAt := zeroTime st.createdAt env.now
    updatedAt := env.now }

def ownerBinding (st : Storage) (actor : String) : ACLBinding :=
  { id := (env.uuid 1).val, storageID := st.id, subjectKey := st.ownerSubjectKey,
    role := .storageOwner, grantedBy := actor, createdAt := env.now }

namespace Store
open Keyed

def createStorage (s : Store) (storage : Storage) (actor : String) : Store × Storage :=
  let st := storage.withDefaults env
  let owner := ownerBinding env st actor
  ({ s.putStorage st (orNew_ne_empty storage.id (env.uuid 0)) with
      acl := s.acl.put owner
      objects := s.objects.put (objectFromStorage st)
      objectACL := s.objectACL.put owner.toObject }, st)

def getStorage (s : Store) (id : String) : Option Storage := s.storages.get? id

def storageBySlug (s : Store) (slug : String) : Option Storage := s.storages.rows.find? (fun st => st.slug = slug)

structure AccessibleStorageFilter where
  subjectKeys : List String
  platformAdmin : Bool
  hasToken : Bool
  tokenStorageIDs : List String := []

/-- `ExpiresAt` set and not after `now`. -/
def expired (now : Time) (expiresAt : Option Time) : Bool :=
  match expiresAt with
  | none => false
  | some t => decide (t ≤ now)

variable (now : Time) (s : Store) (f : AccessibleStorageFilter)

def candidateIDs : List String :=
  if !f.hasToken && f.platformAdmin then s.storages.rows.map Storage.id
  else ((s.acl.rows.filter fun b =>
      decide (b.subjectKey ∈ f.subjectKeys) && !expired now b.expiresAt &&
        (!f.hasToken || decide (b.storageID ∈ f.tokenStorageIDs))).map ACLBinding.storageID).dedup

def listAccessibleStoragesMemory : List Storage :=
  ((candidateIDs now s f).filterMap s.storages.get?).mergeSort (fun a b => decide (b.updatedAt ≤ a.updatedAt))

def listAccessibleStorages : List Storage :=
  if f.hasToken && f.tokenStorageIDs.isEmpty then [] else listAccessibleStoragesMemory now s f

/-- Drops the storage, its bindings and the token scopes that name it; the object
tables and the object scopes of tokens are left as they are. -/
def deleteStorage (s : Store) (storageID : String) : Store :=
  { s.dropStorage storageID with
    acl := s.acl.deleteWhere (fun b => b.storageID = storageID)
    tokenScopes := s.tokenScopes.filter (fun scope => scope.storageID ≠ storageID) }

def upsertACL (s : Store) (b : ACLBinding) : Store × ACLBinding :=
  let b : ACLBinding := { b with id := orNew b.id (env.uuid 0), createdAt := zeroTime b.createdAt env.now }
  ({ s with acl := s.acl.put b }, b)

def deleteACL (s : Store) (storageID subjectKey : String) (role : StorageRole) : Store :=
  { s with
    acl := s.acl.deleteWhere fun b =>
      decide (b.storageID = storageID ∧ b.subjectKey = subjectKey ∧ b.role = role) }

def aclForStorage (s : Store) (storageID : String) : List ACLBinding :=
  s.acl.rows.filter (fun b => b.storageID = storageID)

def aclForSubject (s : Store) (subjectKeys : List String) : List ACLBinding :=
  if subjectKeys = [] then [] else s.acl.rows.filter (fun b => b.subjectKey ∈ subjectKeys)

section
variable {env} {s} {st : Storage} {actor id : String} {now : Time} {f : AccessibleStorageFilter}

@[simp] theorem mem_aclForSubject {keys b} : b ∈ s.aclForSubject keys ↔ b ∈ s.acl.rows ∧ b.subjectKey ∈ keys := by
  unfold aclForSubject
  split
  · next none => simp [none]
  · simp

@[simp] theorem createStorage_storages :
    (createStorage env s st actor).1.storages = s.storages.put (st.withDefaults env) := rfl

@[simp] theorem createStorage_acl : (createStorage env s st actor).1.acl =
    s.acl.put (ownerBinding env (st.withDefaults env) actor) := rfl

@[simp] theorem deleteStorage_storages : (deleteStorage s id).storages = s.storages.delete id := rfl

theorem mem_listAccessibleStorages : st ∈ s.listAccessibleStorages now f ↔
      (f.hasToken = true → f.tokenStorageIDs ≠ []) ∧ st ∈ s.storages.rows ∧ st.id ∈ candidateIDs now s f := by
  have memory : st ∈ listAccessibleStoragesMemory now s f ↔
      st ∈ s.storages.rows ∧ st.id ∈ candidateIDs now s f := by
    simp only [listAccessibleStoragesMemory, mem_mergeSort, mem_filterMap]
    constructor
    · rintro ⟨x, hx, found⟩
      obtain ⟨row, rfl⟩ := Table.get?_eq_some_iff.mp found
      exact ⟨row, hx⟩
    · rintro ⟨row, hx⟩
      exact ⟨st.id, hx, Table.get?_of_mem row⟩
  unfold listAccessibleStorages
  cases token : f.hasToken with
  | false => simp [memory]
  | true =>
    cases ids : f.tokenStorageIDs with
    | nil => simp
    | cons => simp [memory]

theorem mem_candidateIDs_of_bindings {x} (h : (!f.hasToken && f.platformAdmin) = false) :
    x ∈ candidateIDs now s f ↔ ∃ b ∈ s.acl.rows, b.storageID = x ∧ b.subjectKey ∈ f.subjectKeys ∧
      expired now b.expiresAt = false ∧ (f.hasToken = true → x ∈ f.tokenStorageIDs) := by
  simp only [candidateIDs, h, Bool.false_eq_true, if_false, mem_dedup, mem_map,
    mem_filter, Bool.and_eq_true, decide_eq_true_eq, Bool.not_eq_true', Bool.or_eq_true]
  constructor
  · rintro ⟨b, ⟨hb, ⟨hk, he⟩, ht⟩, rfl⟩
    refine ⟨b, hb, rfl, hk, he, fun tok => ?_⟩
    rcases ht with none | named
    · exact absurd tok (by simp [none])
    · exact named
  · rintro ⟨b, hb, rfl, hk, he, ht⟩
    refine ⟨b, ⟨hb, ⟨hk, he⟩, ?_⟩, rfl⟩
    cases tok : f.hasToken with
    | false => exact .inl rfl
    | true => exact .inr (ht tok)

end

end Store
end SynaMcp
