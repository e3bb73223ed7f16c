import SynaMcp.Rights
import SynaMcp.Store.Storages

/-! Data objects and their ACL. An object of kind `storage` is written to the
storage tables as well; deleting one leaves its bindings in the storage ACL. -/
namespace SynaMcp

def storageFromObject (obj : DataObject) : Storage :=
  { id := obj.id, slug := obj.slug, name := obj.name, ownerSubjectKey := obj.ownerSubjectKey,
    visibility := obj.visibility, defaultAccess := obj.defaultAccess, kind := .knowledge,
    s3Bucket := obj.s3Bucket, s3Prefix := obj.s3Prefix, status := obj.status,
    createdAt := obj.createdAt, updatedAt := obj.updatedAt, archivedAt := obj.archivedAt }

def ObjectACLBinding.toStorage (b : ObjectACLBinding) : ACLBinding :=
  { id := b.id, storageID := b.objectID, subjectKey := b.subjectKey, role := b.role,
    grantedBy := b.grantedBy, createdAt := b.createdAt }

variable (env : Env)

def DataObject.withDefaults (obj : DataObject) : DataObject :=
  let id := orNew obj.id (env.uuid 0)
  let slug := orElse "" obj.slug id
  { obj with
    id := id
    slug := slug
    name := orElse "" obj.name slug
    status := orElse .unset obj.status .active
    visibility := orElse .unset obj.visibility .personal
    defaultAccess := orElse .unset obj.defaultAccess .none
    backend := orElse "" obj.backend "postgres"
    s3Prefix := orElse "" obj.s3Prefix ("objects/" ++ id ++ "/")
    createdAt := env.now
    updatedAt := env.now }

def ownerObjectBinding (obj : DataObject) (actor : String) : ObjectACLBinding :=
  { id := (env.uuid 1).val, objectID := obj.id, subjectKey := obj.ownerSubjectKey,
    role := .storageOwner, grantedBy := actor, createdAt := env.now }

namespace Store
open Keyed

def createObject (s : Store) (obj : DataObject) (actor : String) : Except String (Store × DataObject) :=
  let o := obj.withDefaults env
  let binding := ownerObjectBinding env o actor
  if !validKind o.kind then .error ("invalid object kind " ++ o.kind.text.quote)
  else
    let s' : Store := { s with objects := s.objects.put o, objectACL := s.objectACL.put binding }
    if o.kind = .storage then
      .ok ({ s'.putStorage (storageFromObject o) (orNew_ne_empty obj.id (env.uuid 0)) with
              acl := s.acl.put binding.toStorage }, o)
    else .ok (s', o)

variable (s : Store)

/-- The object table first, then a storage that has no object row. -/
def getObject (id : String) : Option DataObject :=
  match s.objects.get? id with
  | some o => some o
  | none => (s.storages.get? id).map objectFromStorage

/-- `none` stands for the empty kind, which lists all kinds. -/
def listObjects (kind : Option ObjectKind) : List DataObject :=
  s.objects.rows.filter (fun o => kind = none ∨ kind = some o.kind) ++
    if kind = none ∨ kind = some .storage then
      (s.storages.rows.filter (fun st => (s.objects.get? st.id).isNone)).map objectFromStorage
    else []

def deleteObject (objectID : String) : Store :=
  match s.getObject objectID with
  | none => s
  | some obj =>
    let s' : Store :=
      { s with
        objects := s.objects.delete objectID
        objectACL := s.objectACL.deleteWhere (fun b => b.objectID = objectID) }
    if obj.kind = .storage then s'.dropStorage objectID else s'

def updateObjectConfig (s : Store) (objectID : String) (config : Config) : Except String (Store × DataObject) :=
  match s.getObject objectID with
  | none => .error "object not found"
  | some obj =>
    let obj : DataObject := { obj with config := config, updatedAt := env.now }
    .ok ({ s with objects := s.objects.put obj }, obj)

def upsertObjectACL (s : Store) (b : ObjectACLBinding) : Store × ObjectACLBinding :=
  let b : ObjectACLBinding := { b with id := orNew b.id (env.uuid 0), createdAt := zeroTime b.createdAt env.now }
  ({ s with objectACL := s.objectACL.put b }, b)

/-- Object bindings and, bridged, the storage bindings of the same subjects. -/
def objectACLForSubject (subjectKeys : List String) : List ObjectACLBinding :=
  s.objectACL.rows.filter (fun b => b.subjectKey ∈ subjectKeys) ++
    (s.acl.rows.filter (fun b => b.subjectKey ∈ subjectKeys)).map ACLBinding.toObject

def objectACLForObject (objectID : String) : List ObjectACLBinding :=
  s.objectACL.rows.filter (fun b => b.objectID = objectID)

def listAccessibleObjects (kind : Option ObjectKind) (f : AccessibleStorageFilter) : List DataObject :=
  let all := s.listObjects kind
  if f.platformAdmin then all
  else if f.hasToken then all.filter (fun o => o.id ∈ f.tokenStorageIDs)
  else
    let allowed := (s.objectACLForSubject f.subjectKeys).map ObjectACLBinding.objectID
    all.filter (fun o => o.id ∈ allowed)

section
variable {s} {id : String} {b : ObjectACLBinding} {o : DataObject}

@[simp] theorem mem_objectACLForSubject {keys} : b ∈ s.objectACLForSubject keys ↔ b.subjectKey ∈ keys ∧
      (b ∈ s.objectACL.rows ∨ ∃ a ∈ s.acl.rows, a.toObject = b) := by
  simp only [objectACLForSubject, List.mem_append, List.mem_filter, decide_eq_true_eq, List.mem_map]
  constructor
  · rintro (⟨hb, hk⟩ | ⟨a, ⟨ha, hk⟩, rfl⟩)
    · exact ⟨hk, .inl hb⟩
    · exact ⟨hk, .inr ⟨a, ha, rfl⟩⟩
  · rintro ⟨hk, hb | ⟨a, ha, rfl⟩⟩
    · exact .inl ⟨hb, hk⟩
    · exact .inr ⟨a, ⟨ha, hk⟩, rfl⟩

@[simp] theorem mem_objectACLForObject : b ∈ s.objectACLForObject id ↔ b ∈ s.objectACL.rows ∧ b.objectID = id := by
  simp [objectACLForObject]

section
variable {env : Env} {obj : DataObject} {actor : String}

theorem createObject_invalid (h : validKind obj.kind = false) :
    createObject env s obj actor = .error ("invalid object kind " ++ obj.kind.text.quote) := by
  have kind : validKind (obj.withDefaults env).kind = false := h
  simp only [createObject, kind, Bool.not_false, if_true]
  rfl

theorem createObject_other (valid : validKind obj.kind = true) (other : obj.kind ≠ .storage) :
    createObject env s obj actor =
      .ok ({ s with
              objects := s.objects.put (obj.withDefaults env)
              objectACL := s.objectACL.put (ownerObjectBinding env (obj.withDefaults env) actor) },
        obj.withDefaults env) := by
  have kind : validKind (obj.withDefaults env).kind = true := valid
  have kind' : (obj.withDefaults env).kind ≠ .storage := other
  simp only [createObject, kind, kind', Bool.not_true, Bool.false_eq_true, if_false]

theorem createObject_storage (env : Env) (s : Store) (actor : String) (storage : obj.kind = .storage) :
    ∃ s', createObject env s obj actor = .ok (s', obj.withDefaults env) ∧
      s'.storages = s.storages.put (storageFromObject (obj.withDefaults env)) ∧
      s'.objects = s.objects.put (obj.withDefaults env) ∧
      s'.acl = s.acl.put (ownerObjectBinding env (obj.withDefaults env) actor).toStorage ∧
      s'.objectACL = s.objectACL.put (ownerObjectBinding env (obj.withDefaults env) actor) := by
  have kind : (obj.withDefaults env).kind = .storage := storage
  simp only [createObject, kind, if_true]
  exact ⟨_, rfl, rfl, rfl, rfl, rfl⟩

end

theorem getObject_id (h : s.getObject id = some o) : o.id = id := by
  unfold getObject at h
  split at h
  · next row found =>
    cases h
    exact Table.key_of_get? found
  · obtain ⟨st, found, rfl⟩ := Option.map_eq_some_iff.mp h
    have same : st.id = id := Table.key_of_get? found
    exact same

theorem getObject_of_objects (h : s.objects.get? id = some o) : s.getObject id = some o := by
  simp [getObject, h]

theorem getObject_of_not_objects (h : s.objects.get? id = none) :
    s.getObject id = (s.storages.get? id).map objectFromStorage := by
  simp [getObject, h]

theorem mem_listObjects {kind} :
    o ∈ s.listObjects kind ↔ s.getObject o.id = some o ∧ (kind = none ∨ kind = some o.kind) := by
  have fields : ∀ st, (objectFromStorage st).id = st.id ∧ (objectFromStorage st).kind = .storage := by
    exact fun _ => ⟨rfl, rfl⟩
  simp only [listObjects, List.mem_append, List.mem_filter, decide_eq_true_eq]
  grind [getObject, Table.get?_of_mem, Table.mem_of_get?, Table.key_of_get?, Option.map_eq_some_iff]

theorem getObject_congr {s' : Store} (objects : s'.objects.get? id = s.objects.get? id)
    (storages : s'.storages.get? id = s.storages.get? id) : s'.getObject id = s.getObject id := by
  simp only [getObject, objects, storages]

end

end Store
end SynaMcp
