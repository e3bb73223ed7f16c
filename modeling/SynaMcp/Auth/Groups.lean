import SynaMcp.Auth.Passwords
import SynaMcp.Lib.Run

/-! Internal groups: when a membership gives a user who logs in with a password what a
binding for the key of the group grants. -/
namespace SynaMcp
open Keyed Bindings

inductive GroupCall where
  | createGroup (g : Group)
  | addGroupMember (groupID userID source : String)
  | removeGroupMember (groupID userID : String)
  | upsertACL (b : ACLBinding)
  | deleteACL (storageID subjectKey : String) (role : StorageRole)

def Store.groupStep [Digests] (s : Store) (input : Env × GroupCall) : Store :=
  match input.2 with
  | .createGroup g => (s.createGroup input.1 g).1
  | .addGroupMember groupID userID source => s.addGroupMember input.1 groupID userID source
  | .removeGroupMember groupID userID => s.removeGroupMember groupID userID
  | .upsertACL b => (s.upsertACL input.1 b).1
  | .deleteACL storageID subjectKey role => s.deleteACL storageID subjectKey role

def Member (s : Store) (u : User) (g : Group) : Prop := ∃ m ∈ s.memberships, m.groupID = g.id ∧ m.userID = u.id

def BoundTo (s : Store) (g : Group) (storageID : String) (r : StorageRole) : Prop :=
  ∃ b ∈ s.acl.rows, b.storageID = storageID ∧ b.subjectKey = g.subjectKey ∧ b.role = r

def LiveBoundTo (now : Time) (s : Store) (g : Group) (storageID : String) (r : StorageRole) : Prop :=
  ∃ b ∈ s.acl.rows, b.storageID = storageID ∧ b.subjectKey = g.subjectKey ∧ b.role = r ∧
    Store.expired now b.expiresAt = false

theorem not_boundTo_deleteACL {s : Store} {g storageID r} :
    ¬ BoundTo (s.deleteACL storageID g.subjectKey r) g storageID r := by
  rintro ⟨b, row, onIt, key, role⟩
  have kept := (Table.mem_deleteWhere.mp row).2
  simp [onIt, key, role] at kept

section
variable [Digests]

def HoldsThrough (s : Store) (u : User) (g : Group) (storageID : String) (r : StorageRole)
    (q : StoragePermission) : Prop :=
  ∃ b ∈ s.aclForSubject (subjectKeys (loginPrincipal u)), b.storageID = storageID ∧
    b.subjectKey = g.subjectKey ∧ b.role = r ∧ q ∈ rolePermissions r

/-- A membership does what it is for: it gives the role while it lasts, and through
the group nothing is left after the membership or the binding is taken away. -/
structure MembershipWorks (now : Time) (s : Store) (u : User) (g : Group) (storageID : String)
    (r : StorageRole) : Prop where
  gives : Member s u g → LiveBoundTo now s g storageID r → ∀ q ∈ rolePermissions r,
    storageAllowed s (loginPrincipal u) none [] storageID q = true
  leaves : ∀ q, ¬ HoldsThrough (s.removeGroupMember g.id u.id) u g storageID r q
  unbound : ∀ q, ¬ HoldsThrough (s.deleteACL storageID g.subjectKey r) u g storageID r q

/-- A key under which bindings speak for the user: its own or that of everyone. -/
def SpeaksFor (u : User) (k : String) : Prop :=
  k ≠ "" ∧ (GoStrings.trimSpace (subjectKeyForPrincipal (loginPrincipal u)) = k ∨ k = "all:authenticated")

def GrantedAnyway (s : Store) (u : User) (storageID : String) (q : StoragePermission) : Prop :=
  (∃ b ∈ s.acl.rows, SpeaksFor u b.subjectKey ∧ b.storageID = storageID ∧ q ∈ rolePermissions b.role) ∨
    (u.subjectKey = defaultAdminKey ∧
      ∀ b ∈ s.acl.rows, SpeaksFor u b.subjectKey → b.storageID = storageID → rolePermissions b.role = [])

variable {now : Time} {s : Store} {u : User} {g : Group} {storageID : String} {r : StorageRole}
  {q : StoragePermission}

theorem mem_subjectKeys_loginPrincipal {k} : k ∈ subjectKeys (loginPrincipal u) ↔ SpeaksFor u k := by
  rw [mem_subjectKeys, groupSubjectKeysForPrincipal_loginPrincipal]
  simp [SpeaksFor]

theorem storageAllowed_loginPrincipal (named : storageID ≠ "") :
    storageAllowed s (loginPrincipal u) none [] storageID q = true ↔ GrantedAnyway s u storageID q := by
  rw [storageAllowed_iff, and_iff_right named, Decision.Allows, and_iff_right storageDecision_gate_none]
  simp only [Decision.Granted, Decision.Engaged, storageDecision, ownACL, Set.mem_ofPred_eq, true_and,
    mem_subjectKeys_loginPrincipal, GrantedAnyway, platform_admin_mem_loginPrincipal, not_exists, not_and,
    not_not, and_assoc]

theorem holdsThrough_iff : HoldsThrough s u g storageID r q ↔
    SpeaksFor u g.subjectKey ∧ BoundTo s g storageID r ∧ q ∈ rolePermissions r := by
  simp only [HoldsThrough, Store.mem_aclForSubject, mem_subjectKeys_loginPrincipal, BoundTo]
  constructor
  · rintro ⟨b, ⟨row, speaks⟩, onIt, key, role, carried⟩
    exact ⟨key ▸ speaks, ⟨b, row, onIt, key, role⟩, carried⟩
  · rintro ⟨speaks, ⟨b, row, onIt, key, role⟩, carried⟩
    exact ⟨b, ⟨row, key ▸ speaks⟩, onIt, key, role, carried⟩

end

/-- A membership does what it is for exactly when the group is not needed for it: the
bindings for the user's own key or for all users grant every permission of the role (or
the user is the default administrator and they carry none), and no bound group has one
of these two keys. -/
theorem membership_works_iff [Digests] (start : Store) (history : List (Env × GroupCall)) (now : Time)
    (u : User) (g : Group) (storageID : String) (r : StorageRole)
    (present : (Runs.run Store.groupStep start history).storages.Has storageID) :
    MembershipWorks now (Runs.run Store.groupStep start history) u g storageID r ↔
      (Member (Runs.run Store.groupStep start history) u g →
        LiveBoundTo now (Runs.run Store.groupStep start history) g storageID r →
        ∀ q ∈ rolePermissions r, GrantedAnyway (Runs.run Store.groupStep start history) u storageID q) ∧
      (BoundTo (Runs.run Store.groupStep start history) g storageID r → rolePermissions r ≠ [] →
        ¬ SpeaksFor u g.subjectKey) := by
  generalize Runs.run Store.groupStep start history = s at present ⊢
  obtain ⟨st, row, rfl⟩ := present
  have named := s.storages_named st row
  constructor
  · rintro ⟨gives, leaves, _⟩
    refine ⟨fun member bound q hq => (storageAllowed_loginPrincipal named).mp (gives member bound q hq), ?_⟩
    intro bound carries speaks
    obtain ⟨q, carried⟩ := List.exists_mem_of_ne_nil _ carries
    exact leaves q (holdsThrough_iff.mpr ⟨speaks, bound, carried⟩)
  · rintro ⟨granted, foreign⟩
    refine ⟨fun member bound q hq => (storageAllowed_loginPrincipal named).mpr (granted member bound q hq), ?_, ?_⟩
    · intro q holds
      obtain ⟨speaks, bound, carried⟩ := holdsThrough_iff.mp holds
      exact foreign bound (List.ne_nil_of_mem carried) speaks
    · intro q holds
      exact not_boundTo_deleteACL (holdsThrough_iff.mp holds).2.1

/-- A storage `s` of `a` and an account `bob`. -/
def bobStore : Store × User :=
  let (s, _) := Store.empty.createStorage (draws "x") { id := "s", ownerSubjectKey := "user:internal:a" } "a"
  @Store.createUser .plain (draws "y") s { id := "bob", externalSubject := "bob", email := "bob@corp" }

def engGroup : Group := { id := "eng", subjectKey := "group:internal:eng", name := "Engineering" }

/-- The storage is shared with the group, and `bob` is made a member of it. -/
def engHistory : List (Env × GroupCall) :=
  [(draws "a", .createGroup engGroup),
   (draws "b", .upsertACL { storageID := "s", subjectKey := "group:internal:eng", role := .storageReader }),
   (draws "c", .addGroupMember "eng" "bob" "")]

/-- With a binding of its own `bob` does not depend on the group. -/
theorem membership_works_with_own_binding :
    @MembershipWorks .plain 1
      (Runs.run (@Store.groupStep .plain) bobStore.1
        (engHistory ++ [(draws "d", .upsertACL
          { storageID := "s", subjectKey := "user:internal:bob", role := .storageReader })]))
      bobStore.2 engGroup "s" .storageReader :=
  (@membership_works_iff .plain bobStore.1 _ 1 bobStore.2 engGroup "s" .storageReader (by decide)).mpr
    ⟨fun _ _ q carried => .inl
        ⟨⟨"d", "s", "user:internal:bob", .storageReader, "", none, 1⟩, by decide,
          ⟨by decide, .inl (by decide)⟩, rfl, carried⟩,
      fun _ _ speaks => speaks.2.elim (by decide) (by decide)⟩

/-- As a member of the group alone `bob` may not read the storage. -/
theorem membership_gives_nothing :
    Member (Runs.run (@Store.groupStep .plain) bobStore.1 engHistory) bobStore.2 engGroup ∧
      LiveBoundTo 1 (Runs.run (@Store.groupStep .plain) bobStore.1 engHistory) engGroup "s" .storageReader ∧
      StoragePermission.documentRead ∈ rolePermissions .storageReader ∧
      @storageAllowed .plain (Runs.run (@Store.groupStep .plain) bobStore.1 engHistory)
        (loginPrincipal bobStore.2) none [] "s" .documentRead = false :=
  ⟨⟨{ groupID := "eng", userID := "bob", source := "internal", createdAt := 1 }, by decide⟩,
    ⟨{ id := "b", storageID := "s", subjectKey := "group:internal:eng", role := .storageReader,
       createdAt := 1 }, by decide⟩, by decide, by decide⟩

end SynaMcp
