import SynaMcp.Access.Service

/-! What a request does to the account of its caller. `EnsurePrincipal` writes the
account anew from the principal: of the row before it only the creation time is read. -/
namespace SynaMcp
open Keyed

structure User.KeptAs (u u' : User) : Prop where
  status : u'.status = u.status
  passwordHash : u'.passwordHash = u.passwordHash
  source : u'.source = u.source
  externalSubject : u'.externalSubject = u.externalSubject
  email : u.email ≠ "" → u'.email ≠ ""

section
variable [Digests] {env : Env} {s : Store} {p : Principal} {bucket : String}

theorem ensurePrincipal_users :
    (ensurePrincipal env s p bucket).1.users = (s.upsertUserFromPrincipal env p).1.users := by
  obtain ⟨_, grouped⟩ := foldl_createGroup (env.after 2) p (groupSubjectKeysForPrincipal p)
    (s.upsertUserFromPrincipal env p).1
  simp only [ensurePrincipal, grouped, ensurePersonalStorage]
  split <;> rfl

theorem get?_ensurePrincipal_self :
    (ensurePrincipal env s p bucket).1.users.get? (subjectID (subjectKeyForPrincipal p)) =
      some (s.upsertUserFromPrincipal env p).2 := by
  rw [ensurePrincipal_users]
  exact Table.get?_put_self s.users (s.upsertUserFromPrincipal env p).2

theorem get?_ensurePrincipal_of_ne {id} (other : subjectID (subjectKeyForPrincipal p) ≠ id) :
    (ensurePrincipal env s p bucket).1.users.get? id = s.users.get? id := by
  rw [ensurePrincipal_users]
  exact Table.get?_put_of_ne s.users other

/-- What the upsert writes is kept of an account exactly when the account says
what the principal says, is active and has no password. -/
theorem keptAs_upsert_iff {u : User} : u.KeptAs (s.upsertUserFromPrincipal env p).2 ↔
    u.status = "active" ∧ u.passwordHash = "" ∧ u.source = sourceOf p ∧ u.externalSubject = p.userID ∧
      (u.email ≠ "" → p.email ≠ "") := by
  constructor
  · intro kept
    exact ⟨kept.status.symm, kept.passwordHash.symm, kept.source.symm, kept.externalSubject.symm, kept.email⟩
  · rintro ⟨status, passwordHash, source, externalSubject, email⟩
    exact ⟨status.symm, passwordHash.symm, source.symm, externalSubject.symm, email⟩

end

/-- Seeing a principal keeps the account of its subject exactly when it is stored
under another id than the digest of its key, or is active, without a password,
with the source and the external subject of the principal, which brings an email
if the account has one. -/
theorem ensurePrincipal_keeps_account_iff [Digests] (env : Env) (s : Store) (p : Principal)
    (bucket : String) (u : User) (row : u ∈ s.users.rows) (own : subjectKeyForPrincipal p = u.subjectKey) :
    (∃ u', (ensurePrincipal env s p bucket).1.users.get? u.id = some u' ∧ u.KeptAs u') ↔
      (u.id = subjectID u.subjectKey →
        u.status = "active" ∧ u.passwordHash = "" ∧ u.source = sourceOf p ∧
          u.externalSubject = p.userID ∧ (u.email ≠ "" → p.email ≠ "")) := by
  rw [← @keptAs_upsert_iff _ env s p u, ← own]
  by_cases stored : u.id = subjectID (subjectKeyForPrincipal p)
  · rw [stored, get?_ensurePrincipal_self]
    simp
  · rw [get?_ensurePrincipal_of_ne (Ne.symm stored), Table.get?_of_mem row]
    constructor
    · intro _ same
      exact absurd same stored
    · intro _
      exact ⟨u, rfl, rfl, rfl, rfl, rfl, id⟩

/-- An account that an administrator made for `ann`, with a password. -/
def annAccount : Store × User :=
  let (s, u) := @Store.createUser .plain (draws "x") .empty
    { subjectKey := "user:internal:ann", externalSubject := "ann", email := "ann@corp" }
  match @Store.setUserPassword .plain (draws "y") s u.id "secret" with
  | .ok s => (s, { u with passwordHash := "secret" })
  | .error _ => (s, u)

/-- An account that was made by a login of the same principal is kept. -/
theorem ensurePrincipal_keeps_seen_account :
    ∃ u', (@ensurePrincipal .plain (draws "z")
        (@Store.upsertUserFromPrincipal .plain (draws "x") Store.empty { userID := "ann" }).1
        { userID := "ann" } "").1.users.get?
          (@Store.upsertUserFromPrincipal .plain (draws "x") .empty { userID := "ann" }).2.id = some u' ∧
      (@Store.upsertUserFromPrincipal .plain (draws "x") .empty { userID := "ann" }).2.KeptAs u' :=
  (@ensurePrincipal_keeps_account_iff .plain (draws "z") _ { userID := "ann" } "" _ (by decide) (by decide)).mpr
    (by decide)

/-- A request with an access token of `ann` that saves into the personal storage
takes the password, the source, the external subject and the email away. -/
theorem ensurePrincipal_rewrites_account :
    annAccount.2 ∈ annAccount.1.users.rows ∧
      @subjectKeyForPrincipal .plain (tokenPrincipal { ownerSubjectKey := "user:internal:ann" }) =
        annAccount.2.subjectKey ∧
      ((@ensurePrincipal .plain (draws "z") annAccount.1
        (tokenPrincipal { ownerSubjectKey := "user:internal:ann" }) "").1.users.get? annAccount.2.id).map
          (fun u => (u.passwordHash, u.source, u.externalSubject, u.email)) =
        some ("", "access_token", "user:internal:ann", "") ∧
      (annAccount.2.passwordHash, annAccount.2.source, annAccount.2.externalSubject, annAccount.2.email) =
        ("secret", "internal", "ann", "ann@corp") := by
  decide

end SynaMcp
