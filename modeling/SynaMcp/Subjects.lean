import SynaMcp.Models

/-! Subject keys: the strings that ACL bindings are written for, how a principal
is turned into them, and the list of keys under which its bindings are found. -/
namespace SynaMcp
open GoStrings List String

/-- Hex digests of `crypto/sha1` and `crypto/sha256`, and `bcrypt` with the salt
drawn for one call. Nothing below relies on more than that they are functions. -/
class Digests where
  (sha1Hex sha256Hex : String → String)
  bcryptGenerate : (salt password : String) → Except String String
  bcryptMatches : (hash password : String) → Bool

/-- Stand-ins for closed evaluations whose outcome is the same for all digests. -/
@[reducible] def Digests.plain : Digests where
  sha1Hex := id
  sha256Hex := id
  bcryptGenerate _ password := .ok password
  bcryptMatches hash password := hash == password

/-- `hex[:n]`, which the source takes of digests of at least `n` characters. -/
def shortHex (n : Nat) (digest : String) : String := ofList (digest.toList.take n)

section
variable [Digests]

def issuerHash (issuer : String) : String := shortHex 12 (Digests.sha1Hex (trimRightFunc (· == '/') issuer))

def SubjectRef.key (s : SubjectRef) : String :=
  match s.kind with
  | .allAuthenticated => "all:authenticated"
  | .group =>
    if s.source = "internal" ∨ s.issuer = "" then "group:" ++ s.source ++ ":" ++ s.externalID
    else "group:" ++ issuerHash s.issuer ++ ":" ++ s.externalID
  | .user =>
    if s.source = "internal" ∨ s.issuer = "" then "user:" ++ s.source ++ ":" ++ s.externalID
    else "user:" ++ issuerHash s.issuer ++ ":" ++ s.externalID

theorem SubjectRef.key_ne_empty (s : SubjectRef) : s.key ≠ "" := by
  unfold SubjectRef.key
  split
  · simp
  · split <;> simp [append_eq_empty_iff]
  · split <;> simp [append_eq_empty_iff]

variable (p : Principal)

def sourceOf : String := if p.authSource ≠ "" then p.authSource else "internal"

def subjectKeyForPrincipal : String :=
  if p.subjectKey ≠ "" then p.subjectKey
  else SubjectRef.key { kind := .user, source := sourceOf p, issuer := p.issuer, externalID := p.userID }

def groupSubjectKeysForPrincipal : List String :=
  if p.groupSubjectKeys ≠ [] then p.groupSubjectKeys
  else (p.groups.filter (· ≠ "")).map fun g =>
    SubjectRef.key { kind := .group, source := sourceOf p, issuer := p.issuer, externalID := g }

/-- `dedupe` with the keys already emitted: every key is trimmed, blank keys and
repetitions are dropped, the order of first occurrences is kept. -/
def dedupeFrom (seen : List String) : List String → List String
  | [] => []
  | v :: rest =>
    let v := trimSpace v
    if v = "" ∨ v ∈ seen then dedupeFrom seen rest else v :: dedupeFrom (v :: seen) rest

def dedupe (keys : List String) : List String := dedupeFrom [] keys

def subjectKeys : List String :=
  dedupe ([subjectKeyForPrincipal p, "all:authenticated"] ++ groupSubjectKeysForPrincipal p)

def subjectID (subject : String) : String := shortHex 24 (Digests.sha256Hex subject)

def hashToken (raw : String) : String := Digests.sha256Hex raw

end

theorem mem_dedupeFrom {seen keys k} :
    k ∈ dedupeFrom seen keys ↔ k ∉ seen ∧ k ≠ "" ∧ ∃ v ∈ keys, trimSpace v = k := by
  induction keys generalizing seen with
  | nil => simp [dedupeFrom]
  | cons v rest ih =>
    simp only [dedupeFrom, mem_cons, exists_eq_or_imp]
    split
    · next skip =>
      rw [ih]
      constructor
      · rintro ⟨fresh, nonblank, found⟩
        exact ⟨fresh, nonblank, .inr found⟩
      · rintro ⟨fresh, nonblank, rfl | found⟩
        · exact absurd skip (not_or.mpr ⟨nonblank, fresh⟩)
        · exact ⟨fresh, nonblank, found⟩
    · next keep =>
      obtain ⟨nonblank, fresh⟩ := not_or.mp keep
      simp only [mem_cons, ih, not_or]
      constructor
      · rintro (rfl | ⟨⟨_, hs⟩, hk, found⟩)
        · exact ⟨fresh, nonblank, .inl rfl⟩
        · exact ⟨hs, hk, .inr found⟩
      · rintro ⟨hs, hk, same | found⟩
        · exact .inl same.symm
        · by_cases same : k = trimSpace v
          · exact .inl same
          · exact .inr ⟨⟨same, hs⟩, hk, found⟩

/-- A principal's bindings are looked up under its own key, under
`all:authenticated` and under the keys of its groups, each trimmed. -/
theorem mem_subjectKeys [Digests] {p k} : k ∈ subjectKeys p ↔ k ≠ "" ∧ (trimSpace (subjectKeyForPrincipal p) = k ∨
      k = "all:authenticated" ∨ ∃ g ∈ groupSubjectKeysForPrincipal p, trimSpace g = k) := by
  have trimmed : trimSpace "all:authenticated" = "all:authenticated" := by decide
  simp only [subjectKeys, dedupe, mem_dedupeFrom, mem_append, mem_cons, not_mem_nil,
    or_false, not_false_eq_true, true_and, or_and_right, exists_or, exists_eq_left, trimmed, or_assoc,
    eq_comm (a := k) (b := "all:authenticated")]

end SynaMcp
