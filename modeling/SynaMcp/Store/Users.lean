import SynaMcp.Lib.GoMaps
import SynaMcp.Store.State

/-! Users, groups and memberships of the store. -/
namespace SynaMcp.Store
open Keyed GoMaps List
variable [Digests] (env : Env)

def upsertUserFromPrincipal (s : Store) (p : Principal) : Store × User :=
  let subject := subjectKeyForPrincipal p
  let id := subjectID subject
  let createdAt :=
    match s.users.get? id with
    | some existing => existing.createdAt
    | none => env.now
  let user : User :=
    { id := id, subjectKey := subject, source := sourceOf p, issuer := p.issuer,
      externalSubject := p.userID, email := p.email, displayName := p.email, status := "active",
      createdAt := createdAt, lastSeenAt := env.now }
  ({ s with users := s.users.put user }, user)

def createUser (s : Store) (user : User) : Store × User :=
  let id :=
    if user.id = "" then if user.subjectKey ≠ "" then subjectID user.subjectKey else (env.uuid 0).val
    else user.id
  let source := orElse "" user.source "internal"
  let externalSubject := orElse "" user.externalSubject id
  let user : User :=
    { user with
      id := id
      source := source
      externalSubject := externalSubject
      subjectKey := orElse "" user.subjectKey
        (SubjectRef.key { kind := .user, source := source, issuer := user.issuer, externalID := externalSubject })
      displayName := orElse "" user.displayName user.email
      status := orElse "" user.status "active"
      createdAt := zeroTime user.createdAt env.now
      lastSeenAt := zeroTime user.lastSeenAt env.now }
  ({ s with users := s.users.put user }, user)

variable (s : Store)

def listUsers : List User := s.users.rows.mergeSort (fun a b => decide (b.lastSeenAt ≤ a.lastSeenAt))

variable (userID : String)

def getUser : Option User := s.users.get? userID

def userBySubjectKey (subjectKey : String) : Option User :=
  s.users.rows.find? (fun u => u.subjectKey = subjectKey)

def updateUser (patch : User) : Except String (Store × User) :=
  match s.getUser userID with
  | none => .error "user not found"
  | some existing =>
    let user : User :=
      { existing with
        email := if patch.email ≠ "" then patch.email else existing.email
        displayName := if patch.displayName ≠ "" then patch.displayName else existing.displayName
        status := if patch.status ≠ "" then patch.status else existing.status }
    .ok ({ s with users := s.users.put user }, user)

def setUserPassword (s : Store) (userID password : String) : Except String Store :=
  if password = "" then .error "password is required"
  else
    match Digests.bcryptGenerate env.random password with
    | .error e => .error e
    | .ok hash =>
      match s.users.get? userID with
      | none => .error "user not found"
      | some user => .ok { s with users := s.users.put { user with passwordHash := hash } }

def userPasswordHash : Except String String :=
  match s.users.get? userID with
  | none => .error "user not found"
  | some user => .ok user.passwordHash

def hasUserPassword : Except String Bool :=
  match s.userPasswordHash userID with
  | .error e => .error e
  | .ok hash => .ok (hash ≠ "")

def checkUserPassword (userID password : String) : Except String Bool :=
  match s.userPasswordHash userID with
  | .error e => .error e
  | .ok hash => if hash = "" then .ok false else .ok (Digests.bcryptMatches hash password)

def answersTo (username : String) (u : User) : Bool :=
  u.status = "active" && (u.email = username || u.id = username || u.externalSubject = username)

/-- The first active account of that name that the range over the users meets
decides; a wrong password is not tried on a second one. -/
def authenticateUser (choose : Nat → Nat) (s : Store) (username password : String) : Option User :=
  if username = "" ∨ password = "" then none
  else
    match (range choose s.users.rows).find? (answersTo username) with
    | none => none
    | some u =>
      if u.passwordHash ≠ "" ∧ Digests.bcryptMatches u.passwordHash password = true then some u else none

def deleteUser : Store :=
  { s with
    users := s.users.delete userID
    memberships := s.memberships.filter (fun m => m.userID ≠ userID) }

def createGroup (s : Store) (g : Group) : Store × Group :=
  let id := orNew g.id (env.uuid 0)
  let source := orElse "" g.source "internal"
  let g : Group :=
    { g with
      id := id
      source := source
      managedBy := orElse "" g.managedBy "internal"
      subjectKey := orElse "" g.subjectKey
        (SubjectRef.key { kind := .group, source := source, issuer := g.issuer, externalID := id })
      createdAt := zeroTime g.createdAt env.now }
  ({ s with groups := s.groups.put g }, g)

def listGroups : List Group := s.groups.rows.mergeSort (fun a b => decide (a.name ≤ b.name))

def deleteGroup (groupID : String) : Store :=
  { s with
    groups := s.groups.delete groupID
    memberships := s.memberships.filter (fun m => m.groupID ≠ groupID) }

def addGroupMember (s : Store) (groupID userID source : String) : Store :=
  { s with
    memberships := s.memberships ++
      [{ groupID := groupID, userID := userID, source := orElse "" source "internal", createdAt := env.now }] }

def removeGroupMember (groupID userID : String) : Store :=
  { s with memberships := s.memberships.filter (fun m => !(m.groupID = groupID ∧ m.userID = userID)) }

def listGroupMembers (groupID : String) : List GroupMembership :=
  s.memberships.filter (fun m => m.groupID = groupID)

theorem authenticateUser_some {choose s username password u}
    (h : authenticateUser choose s username password = some u) :
    u ∈ s.users.rows ∧ u.status = "active" ∧ u.passwordHash ≠ "" ∧
      Digests.bcryptMatches u.passwordHash password = true := by
  unfold authenticateUser at h
  split at h
  · cases h
  · split at h
    · cases h
    · next found first =>
      split at h
      · next good =>
        cases h
        have named := find?_some first
        simp only [answersTo, Bool.and_eq_true, decide_eq_true_eq] at named
        exact ⟨GoMaps.mem_range.mp (mem_of_find?_eq_some first), named.1, good⟩
      · cases h

/-- On Postgres: the active accounts of that name are selected, and `LIMIT 1` without an
order leaves one of them. -/
def authenticateUserDB (choose : Nat → Nat) (s : Store) (username password : String) : Option User :=
  if username = "" ∨ password = "" then none
  else
    match (range choose (s.users.rows.filter (answersTo username))).head? with
    | none => none
    | some u =>
      if u.passwordHash ≠ "" ∧ Digests.bcryptMatches u.passwordHash password = true then some u else none

/-- An account gets in by its password in every order of the accounts exactly where the
name and the password are not empty and no other active account answers to the name. -/
theorem password_login_iff (u : User) (row : u ∈ s.users.rows) (username password : String)
    (named : answersTo username u = true)
    (good : u.passwordHash ≠ "" ∧ Digests.bcryptMatches u.passwordHash password = true) :
    (∀ choose, authenticateUser choose s username password = some u ∧
        authenticateUserDB choose s username password = some u) ↔
      (username ≠ "" ∧ password ≠ "") ∧ ∀ other ∈ s.users.rows, answersTo username other = true → other = u := by
  constructor
  · refine fun all => ⟨?_, fun other mem answers => ?_⟩
    · have some := (all fun _ => 0).1
      unfold authenticateUser at some
      split at some
      · cases some
      · next given => exact not_or.mp given
    · obtain ⟨choose, ranged⟩ := exists_range (perm_cons_erase mem).symm
      have first := (all choose).1
      rw [authenticateUser, ranged, find?_cons_of_pos answers] at first
      split at first
      · cases first
      · dsimp only at first
        split at first
        · exact Option.some.inj first
        · cases first
  · rintro ⟨given, only⟩ choose
    have found : (range choose s.users.rows).find? (answersTo username) = some u := by
      cases ranged : (range choose s.users.rows).find? (answersTo username) with
      | none => exact absurd named (find?_eq_none.mp ranged u (GoMaps.mem_range.mpr row))
      | some other =>
        rw [only other (GoMaps.mem_range.mp (mem_of_find?_eq_some ranged)) (find?_some ranged)]
    have selected : (range choose (s.users.rows.filter (answersTo username))).head? = some u := by
      cases ranged : (range choose (s.users.rows.filter (answersTo username))).head? with
      | none =>
        rw [head?_eq_none_iff] at ranged
        have mem : u ∈ range choose (s.users.rows.filter (answersTo username)) :=
          GoMaps.mem_range.mpr (List.mem_filter.mpr ⟨row, named⟩)
        rw [ranged] at mem
        cases mem
      | some other =>
        obtain ⟨mem, answers⟩ := List.mem_filter.mp (GoMaps.mem_range.mp (mem_of_head? ranged))
        rw [only other mem answers]
    simp [authenticateUser, authenticateUserDB, given, found, selected, good]

def namedLikeAnn (id : String) (hash : String) : User :=
  { id, subjectKey := id, email := "ann@example.org", status := "active", passwordHash := hash }

def withUsers (users : List User) : Store := { Store.empty with users := users.foldl Table.put .empty }

omit [Digests] in
theorem password_login_alone : @authenticateUser .plain (fun _ => 0) (withUsers [namedLikeAnn "ann" "secret"])
      "ann@example.org" "secret" = some (namedLikeAnn "ann" "secret") ∧
    @authenticateUserDB .plain (fun _ => 0) (withUsers [namedLikeAnn "ann" "secret"])
      "ann@example.org" "secret" = some (namedLikeAnn "ann" "secret") :=
  (@password_login_iff .plain (withUsers [namedLikeAnn "ann" "secret"]) (namedLikeAnn "ann" "secret") (by decide)
    "ann@example.org" "secret" (by decide) (by decide)).mpr (by decide) fun _ => 0

omit [Digests] in
/-- A second account with the same address and no password keeps the first one out. -/
theorem namesake_blocks_login :
    @authenticateUser .plain (fun _ => 0) (withUsers [namedLikeAnn "ann" "secret", namedLikeAnn "bob" ""])
      "ann@example.org" "secret" = none ∧
    @authenticateUserDB .plain (fun _ => 0) (withUsers [namedLikeAnn "ann" "secret", namedLikeAnn "bob" ""])
      "ann@example.org" "secret" = none := by
  decide

end SynaMcp.Store
