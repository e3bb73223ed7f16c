import SynaMcp.Lib.Run
import SynaMcp.Access.Objects

/-! One storage, two views: as a storage through the storage tables, and as an object of
kind `storage` through the object tables and the bridged storage ACL. They agree while
the tables stay in step. -/
namespace SynaMcp
open Bindings Keyed Store Table Runs

inductive StoreOp where
  | createStorage (env : Env) (storage : Storage) (actor : String)
  | createObject (env : Env) (obj : DataObject) (actor : String)
  | upsertACL (env : Env) (b : ACLBinding)
  | deleteACL (storageID subjectKey : String) (role : StorageRole)
  | deleteStorage (storageID : String)
  | deleteObject (objectID : String)

def StoreOp.apply (s : Store) : StoreOp → Store
  | .createStorage env storage actor => (s.createStorage env storage actor).1
  | .createObject env obj actor =>
    match s.createObject env obj actor with
    | .ok (s', _) => s'
    | .error _ => s
  | .upsertACL env b => (s.upsertACL env b).1
  | .deleteACL storageID subjectKey role => s.deleteACL storageID subjectKey role
  | .deleteStorage storageID => s.deleteStorage storageID
  | .deleteObject objectID => s.deleteObject objectID

def MirroredBy (b : ObjectACLBinding) (a : ACLBinding) : Prop :=
  a.id = b.id ∧ a.storageID = b.objectID ∧ a.subjectKey = b.subjectKey ∧ a.role = b.role

structure InStep (s : Store) : Prop where
  /-- A storage object is a storage. -/
  stored : ∀ o ∈ s.objects.rows, o.kind = .storage → s.storages.Has o.id
  /-- A binding belongs to an object. -/
  bound : ∀ b ∈ s.objectACL.rows, s.objects.Has b.objectID
  /-- The bindings of a storage object are storage bindings as well. -/
  mirrored : ∀ b ∈ s.objectACL.rows, s.storages.Has b.objectID → ∃ a ∈ s.acl.rows, MirroredBy b a

/-- A new storage does not take the id of an object of another kind, nor such an
object that of a storage; a storage binding that mirrors an object binding is
neither rewritten nor removed alone; and a storage that is an object is deleted
through the object tables. -/
def StoreOp.KeepsStep (s : Store) : StoreOp → Prop
  | .createStorage env storage _ =>
    ∀ o ∈ s.objects.rows, o.id = (storage.withDefaults env).id → o.kind = .storage
  | .createObject env obj _ =>
    if obj.kind = .storage then ∀ o ∈ s.objects.rows, o.id = (obj.withDefaults env).id → o.kind = .storage
    else ¬ s.storages.Has (obj.withDefaults env).id
  | .upsertACL env b =>
    ∀ o ∈ s.objectACL.rows, o.id = orNew b.id (env.uuid 0) →
      o.objectID = b.storageID ∧ o.subjectKey = b.subjectKey ∧ o.role = b.role
  | .deleteACL storageID subjectKey role =>
    ∀ o ∈ s.objectACL.rows, ¬ (o.objectID = storageID ∧ o.subjectKey = subjectKey ∧ o.role = role)
  | .deleteStorage storageID => ∀ o ∈ s.objects.rows, o.id = storageID → o.kind ≠ .storage
  | .deleteObject _ => True

instance (s : Store) (op : StoreOp) : Decidable (op.KeepsStep s) :=
  match op with
  | .createStorage env storage _ =>
    inferInstanceAs (Decidable (∀ o ∈ s.objects.rows, o.id = (storage.withDefaults env).id → o.kind = .storage))
  | .createObject env obj _ =>
    inferInstanceAs (Decidable (if obj.kind = .storage then
      ∀ o ∈ s.objects.rows, o.id = (obj.withDefaults env).id → o.kind = .storage
      else ¬ s.storages.Has (obj.withDefaults env).id))
  | .upsertACL env b =>
    inferInstanceAs (Decidable (∀ o ∈ s.objectACL.rows, o.id = orNew b.id (env.uuid 0) →
      o.objectID = b.storageID ∧ o.subjectKey = b.subjectKey ∧ o.role = b.role))
  | .deleteACL storageID subjectKey role =>
    inferInstanceAs (Decidable (∀ o ∈ s.objectACL.rows,
      ¬ (o.objectID = storageID ∧ o.subjectKey = subjectKey ∧ o.role = role)))
  | .deleteStorage storageID =>
    inferInstanceAs (Decidable (∀ o ∈ s.objects.rows, o.id = storageID → o.kind ≠ .storage))
  | .deleteObject _ => .isTrue trivial

namespace InStep
variable {s : Store} {s' : Store} {o : DataObject} {env : Env} {actor storageID : String}

theorem empty : InStep .empty where
  stored := by simp [Store.empty]
  bound := by simp [Store.empty]
  mirrored := by simp [Store.empty]

theorem create {st a b}
    (h : InStep s) (storages : s'.storages = s.storages.put st) (objects : s'.objects = s.objects.put o)
    (acl : s'.acl = s.acl.put a) (objectACL : s'.objectACL = s.objectACL.put b) (same : o.id = st.id)
    (onIt : b.objectID = st.id) (mirror : MirroredBy b a)
    (free : ∀ x ∈ s.objects.rows, x.id = st.id → x.kind = .storage) : InStep s' := by
  refine ⟨?_, ?_, ?_⟩
  · intro x hx kind
    rw [objects, mem_put] at hx
    rw [storages, has_put]
    rcases hx with rfl | ⟨hx, _⟩
    · exact .inl same.symm
    · exact .inr (h.stored x hx kind)
  · intro x hx
    rw [objectACL, mem_put] at hx
    rw [objects, has_put]
    rcases hx with rfl | ⟨hx, _⟩
    · exact .inl (same.trans onIt.symm)
    · exact .inr (h.bound x hx)
  · intro x hx stored
    rw [objectACL, mem_put] at hx
    rw [storages, has_put] at stored
    rw [acl]
    rcases hx with rfl | ⟨hx, other⟩
    · exact ⟨a, Table.mem_put.mpr (.inl rfl), mirror⟩
    · have before : s.storages.Has x.objectID := by
        rcases stored with onNew | before
        · -- an old binding on the new id belongs to an object that was a storage before
          obtain ⟨z, hz, hzx⟩ := h.bound x hx
          have kind := free z hz (hzx.trans onNew.symm)
          rw [← hzx]
          exact h.stored z hz kind
        · exact before
      obtain ⟨y, hy, my⟩ := h.mirrored x hx before
      refine ⟨y, Table.mem_put.mpr (.inr ⟨hy, ?_⟩), my⟩
      intro clash
      exact other (my.1.symm.trans (clash.trans mirror.1))

theorem createStorage {storage} (h : InStep s)
    (free : ∀ o ∈ s.objects.rows, o.id = (storage.withDefaults env).id → o.kind = .storage) :
    InStep (s.createStorage env storage actor).1 :=
  h.create rfl rfl rfl rfl rfl rfl ⟨rfl, rfl, rfl, rfl⟩ free

theorem addObject {b} (h : InStep s) (storages : s'.storages = s.storages) (objects : s'.objects = s.objects.put o)
    (acl : s'.acl = s.acl) (objectACL : s'.objectACL = s.objectACL.put b) (onIt : b.objectID = o.id)
    (kind : o.kind ≠ .storage) (free : ¬ s.storages.Has o.id) : InStep s' := by
  refine ⟨?_, ?_, ?_⟩
  · intro x hx isStorage
    rw [objects, mem_put] at hx
    rw [storages]
    rcases hx with rfl | ⟨hx, _⟩
    · exact absurd isStorage kind
    · exact h.stored x hx isStorage
  · intro x hx
    rw [objectACL, mem_put] at hx
    rw [objects, has_put]
    rcases hx with rfl | ⟨hx, _⟩
    · exact .inl onIt.symm
    · exact .inr (h.bound x hx)
  · intro x hx stored
    rw [objectACL, mem_put] at hx
    rw [storages] at stored
    rw [acl]
    rcases hx with rfl | ⟨hx, _⟩
    · rw [onIt] at stored
      exact absurd stored free
    · exact h.mirrored x hx stored

theorem createObject {obj} (h : InStep s) (free : StoreOp.KeepsStep s (.createObject env obj actor)) :
    InStep (StoreOp.apply s (.createObject env obj actor)) := by
  simp only [StoreOp.apply]
  cases valid : validKind obj.kind with
  | false =>
    rw [createObject_invalid valid]
    exact h
  | true =>
    by_cases kind : obj.kind = .storage
    · obtain ⟨_, created, storages, objects, acl, objectACL⟩ := createObject_storage env s actor kind
      rw [created]
      simp only [StoreOp.KeepsStep, kind, if_true] at free
      exact h.create storages objects acl objectACL rfl rfl ⟨rfl, rfl, rfl, rfl⟩ free
    · rw [createObject_other valid kind]
      simp only [StoreOp.KeepsStep, kind, if_false] at free
      exact h.addObject rfl rfl rfl rfl rfl kind free

theorem upsertACL {b} (h : InStep s)
    (free : StoreOp.KeepsStep s (.upsertACL env b)) : InStep (s.upsertACL env b).1 := by
  refine ⟨h.stored, h.bound, ?_⟩
  intro x hx stored
  obtain ⟨y, hy, my⟩ := h.mirrored x hx stored
  by_cases rewritten : x.id = orNew b.id (env.uuid 0)
  · -- the mirror itself is rewritten, with the same content
    obtain ⟨object, subject, role⟩ := free x hx rewritten
    exact ⟨_, Table.mem_put.mpr (.inl rfl), rewritten.symm, object.symm, subject.symm, role.symm⟩
  · refine ⟨y, Table.mem_put.mpr (.inr ⟨hy, ?_⟩), my⟩
    intro clash
    exact rewritten (my.1.symm.trans clash)

theorem deleteACL {subjectKey role} (h : InStep s)
    (free : StoreOp.KeepsStep s (.deleteACL storageID subjectKey role)) :
    InStep (s.deleteACL storageID subjectKey role) := by
  refine ⟨h.stored, h.bound, ?_⟩
  intro x hx stored
  obtain ⟨y, hy, my⟩ := h.mirrored x hx stored
  refine ⟨y, Table.mem_deleteWhere.mpr ⟨hy, ?_⟩, my⟩
  rw [decide_eq_false_iff_not, my.2.1, my.2.2.1, my.2.2.2]
  exact free x hx

theorem deleteStorage (h : InStep s)
    (free : StoreOp.KeepsStep s (.deleteStorage storageID)) : InStep (s.deleteStorage storageID) := by
  refine ⟨?_, h.bound, ?_⟩
  · intro x hx kind
    rw [deleteStorage_storages, has_delete]
    refine ⟨h.stored x hx kind, ?_⟩
    intro same
    exact free x hx same kind
  · intro x hx stored
    rw [deleteStorage_storages, has_delete] at stored
    obtain ⟨y, hy, my⟩ := h.mirrored x hx stored.1
    refine ⟨y, Table.mem_deleteWhere.mpr ⟨hy, ?_⟩, my⟩
    rw [decide_eq_false_iff_not, my.2.1]
    exact stored.2

theorem deleteObject {objectID} (h : InStep s) : InStep (s.deleteObject objectID) := by
  unfold Store.deleteObject
  cases s.getObject objectID with
  | none => exact h
  | some obj =>
    have bound : ∀ b ∈ (s.objectACL.deleteWhere (fun b => b.objectID = objectID)).rows,
        b ∈ s.objectACL.rows ∧ b.objectID ≠ objectID := by
      intro b hb
      simpa using hb
    by_cases kind : obj.kind = .storage
    · simp only [kind, if_true]
      refine ⟨?_, ?_, ?_⟩
      · intro x hx isStorage
        obtain ⟨hx, other⟩ := Table.mem_delete.mp hx
        exact Table.has_delete.mpr ⟨h.stored x hx isStorage, other⟩
      · intro b hb
        exact Table.has_delete.mpr ⟨h.bound b (bound b hb).1, (bound b hb).2⟩
      · intro b hb stored
        exact h.mirrored b (bound b hb).1 (Table.has_delete.mp stored).1
    · simp only [kind, if_false]
      refine ⟨?_, ?_, ?_⟩
      · intro x hx isStorage
        exact h.stored x (Table.mem_delete.mp hx).1 isStorage
      · intro b hb
        exact Table.has_delete.mpr ⟨h.bound b (bound b hb).1, (bound b hb).2⟩
      · intro b hb stored
        exact h.mirrored b (bound b hb).1 stored

theorem step {op : StoreOp} (h : InStep s) (keeps : op.KeepsStep s) : InStep (op.apply s) := by
  cases op with
  | createStorage => exact h.createStorage keeps
  | createObject => exact h.createObject keeps
  | upsertACL => exact h.upsertACL keeps
  | deleteACL => exact h.deleteACL keeps
  | deleteStorage => exact h.deleteStorage keeps
  | deleteObject => exact h.deleteObject

end InStep

theorem documentRead_iff_get {role} :
    .documentRead ∈ rolePermissions role ↔ "get" ∈ methodsForRole .storage role := by
  cases role with
  | storageOwner | storageAdmin | storageWriter | storageReader => decide
  | platformAdmin | groupAdmin | other => simp [rolePermissions, methodsForRole]

section
variable [Digests] {s : Store} {p : Principal} {id : String}

theorem storageRead_iff (session : "platform_admin" ∉ p.scopes) : storageAllowed s p none [] id .documentRead = true ↔
      id ≠ "" ∧ ∃ a ∈ s.acl.rows, a.subjectKey ∈ subjectKeys p ∧ a.storageID = id ∧
        .documentRead ∈ rolePermissions a.role := by
  have noFallback : ¬ (storageDecision p none [] id .documentRead).fallback := fun h => session h.2
  rw [storageAllowed_iff, Decision.allows_iff_granted noFallback, and_iff_right storageDecision_gate_none]
  simp only [Decision.Granted, ownACL, storageDecision, Set.mem_ofPred_eq, and_assoc]

theorem objectGet_iff (session : "platform_admin" ∉ p.scopes) : objectAllowed s p none [] id "get" = true ↔
      ∃ obj, s.getObject id = some obj ∧ "get" ∈ methods obj.kind ∧
        ∃ b ∈ ownObjectACL s p, b.objectID = id ∧ "get" ∈ methodsForRole obj.kind b.role := by
  rw [objectAllowed_iff]
  constructor
  · rintro ⟨obj, found, known, _, granted | ⟨fallback, _⟩⟩
    · have same := getObject_id found
      obtain ⟨b, hb, onIt, method⟩ := granted
      exact ⟨obj, found, known, b, hb, onIt.trans same, method⟩
    · exact absurd (fallback rfl).1 session
  · rintro ⟨obj, found, known, b, hb, onIt, method⟩
    have same := getObject_id found
    refine ⟨obj, found, known, ?_, .inl ⟨b, hb, onIt.trans same.symm, method⟩⟩
    intro t none
    cases none

/-- Tables in step give one answer on every id that is not an object of another kind. -/
theorem InStep.views_agree (h : InStep s) (session : "platform_admin" ∉ p.scopes)
    (storageID : ∀ obj, s.getObject id = some obj → obj.kind = .storage) :
    (storageAllowed s p none [] id .documentRead = true ∧ (s.getStorage id).isSome = true) ↔
      objectAllowed s p none [] id "get" = true := by
  rw [storageRead_iff session, objectGet_iff session, Store.getStorage, isSome_get?_iff]
  constructor
  · rintro ⟨⟨_, a, ha, key, onIt, reads⟩, exists'⟩
    obtain ⟨obj, found⟩ : ∃ obj, s.getObject id = some obj := by
      cases row : s.objects.get? id with
      | some obj => exact ⟨obj, getObject_of_objects row⟩
      | none =>
        obtain ⟨st, hst⟩ := Option.isSome_iff_exists.mp (isSome_get?_iff.mpr exists')
        refine ⟨objectFromStorage st, ?_⟩
        rw [getObject_of_not_objects row, hst, Option.map_some]
    have kind := storageID obj found
    refine ⟨obj, found, ?_, a.toObject, ⟨key, .inr ⟨a, ha, rfl⟩⟩, onIt, ?_⟩
    · rw [kind]
      decide
    · rw [kind]
      exact documentRead_iff_get.mp reads
  · rintro ⟨obj, found, _, b, ⟨key, row⟩, onIt, gets⟩
    have kind := storageID obj found
    have exists' : s.storages.Has id := by
      have same := getObject_id found
      cases inObjects : s.objects.get? id with
      | some =>
        rw [getObject_of_objects inObjects] at found
        cases found
        rw [← same]
        exact h.stored obj (mem_of_get? inObjects) kind
      | none =>
        rw [getObject_of_not_objects inObjects] at found
        obtain ⟨_, hst, _⟩ := Option.map_eq_some_iff.mp found
        exact isSome_get?_iff.mp (by rw [hst]; rfl)
    have named : id ≠ "" := by
      obtain ⟨st, hst, same⟩ := exists'
      rw [← same]
      exact s.storages_named st hst
    rw [kind] at gets
    refine ⟨⟨named, ?_⟩, exists'⟩
    rcases row with own | ⟨a, ha, rfl⟩
    · rw [← onIt] at exists'
      obtain ⟨a, ha, _, storage, subject, role⟩ := h.mirrored b own exists'
      refine ⟨a, ha, ?_, storage.trans onIt, ?_⟩
      · rw [subject]
        exact key
      · rw [role]
        exact documentRead_iff_get.mpr gets
    · exact ⟨a, ha, key, onIt, documentRead_iff_get.mpr gets⟩

end

/-- In every run whose operations keep the tables in step, a session without
administration rights reads a storage as a storage exactly when it gets it as an
object. -/
theorem views_agree_along_run [Digests] (ops : List StoreOp)
    (keeps : Runs.Guarded (fun s op => op.KeepsStep s) StoreOp.apply Store.empty ops) (p : Principal)
    (session : "platform_admin" ∉ p.scopes) (id : String)
    (storageID : ∀ obj, (Runs.run StoreOp.apply Store.empty ops).getObject id = some obj → obj.kind = .storage) :
    (storageAllowed (Runs.run StoreOp.apply Store.empty ops) p none [] id .documentRead = true ∧
        ((Runs.run StoreOp.apply Store.empty ops).getStorage id).isSome = true) ↔
      objectAllowed (Runs.run StoreOp.apply Store.empty ops) p none [] id "get" = true := by
  have inStep : InStep (run StoreOp.apply .empty ops) :=
    run_invariant (fun s op h keep => h.step keep) keeps InStep.empty
  exact inStep.views_agree session storageID

/-- A shared storage, a variable beside it and a share taken back. -/
theorem views_agree_shared_storage :
    @objectAllowed .plain (Runs.run StoreOp.apply Store.empty
      [.createStorage (draws "x") { id := "s", ownerSubjectKey := "user:internal:a" } "a",
       .upsertACL (draws "y") { storageID := "s", subjectKey := "user:internal:u", role := .storageReader },
       .createObject (draws "z") { kind := .variable, ownerSubjectKey := "user:internal:a" } "a",
       .upsertACL (draws "w") { storageID := "s", subjectKey := "user:internal:v", role := .storageReader },
       .deleteACL "s" "user:internal:v" .storageReader]) { userID := "u" } none [] "s" "get" = true :=
  (@views_agree_along_run .plain _ (by decide) { userID := "u" } (by decide) "s"
      (by
        intro obj found
        cases found
        rfl)).mp (by decide)

/-- After `DeleteStorage` the owner still gets the object; after `DeleteACL` of the
owner binding the owner reads it as an object and not as a storage. -/
theorem views_disagree_after_delete :
    (@objectAllowed .plain (Runs.run StoreOp.apply Store.empty
        [.createStorage (draws "x") { id := "s", ownerSubjectKey := "user:internal:u" } "a",
         .deleteStorage "s"]) { userID := "u" } none [] "s" "get" = true ∧
      ((run StoreOp.apply .empty
        [.createStorage (draws "x") { id := "s", ownerSubjectKey := "user:internal:u" } "a",
         .deleteStorage "s"]).getStorage "s").isSome = false) ∧
    (@objectAllowed .plain (run StoreOp.apply .empty
        [.createStorage (draws "x") { id := "s", ownerSubjectKey := "user:internal:u" } "a",
         .deleteACL "s" "user:internal:u" .storageOwner]) { userID := "u" } none [] "s" "get" = true ∧
      @storageAllowed .plain (run StoreOp.apply .empty
        [.createStorage (draws "x") { id := "s", ownerSubjectKey := "user:internal:u" } "a",
         .deleteACL "s" "user:internal:u" .storageOwner]) { userID := "u" } none [] "s"
        .documentRead = false) := by
  decide

end SynaMcp
