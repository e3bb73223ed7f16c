import SynaMcp.Store.Tokens

/-! Updates of a token's scopes seen through both readers. Each update writes one of two
lists, and the object reader falls back to the storage scopes. -/
namespace SynaMcp.Store
open List
variable {env : Env} {s : Store} {tokenID : String}

def Mirrors (o : AccessTokenObject) (l : AccessTokenStorage) : Prop :=
  o.objectID = l.storageID ∧ o.maxMode = l.maxMode ∧ o.methodAllowlist = l.toolAllowlist

theorem mem_tokenStorages {l} : l ∈ s.tokenStorages tokenID ↔ l ∈ s.tokenScopes ∧ l.tokenID = tokenID := by
  simp [tokenStorages]

theorem mem_tokenObjects {o} : o ∈ s.tokenObjects tokenID ↔ (o ∈ s.tokenObjectScopes ∧ o.tokenID = tokenID) ∨
      ((∀ x ∈ s.tokenObjectScopes, x.tokenID ≠ tokenID) ∧ ∃ l ∈ s.tokenStorages tokenID, l.toObject = o) := by
  unfold tokenObjects
  by_cases none : s.tokenObjectScopes.filter (fun sc => sc.tokenID = tokenID) = []
  · have absent : ∀ x ∈ s.tokenObjectScopes, x.tokenID ≠ tokenID := by
      intro x hx same
      have : x ∈ s.tokenObjectScopes.filter (fun sc => sc.tokenID = tokenID) := by simp [hx, same]
      rw [none] at this
      exact not_mem_nil this
    simp only [none, if_true, mem_map]
    constructor
    · intro found
      exact .inr ⟨absent, found⟩
    · rintro (⟨ho, same⟩ | ⟨_, found⟩)
      · exact absurd same (absent o ho)
      · exact found
  · obtain ⟨x, hx⟩ := exists_mem_of_ne_nil _ none
    simp only [mem_filter, decide_eq_true_eq] at hx
    simp only [none, if_false, mem_filter, decide_eq_true_eq]
    constructor
    · intro own
      exact .inl own
    · rintro (own | ⟨absent, _⟩)
      · exact own
      · exact absurd hx.2 (absent x hx.1)

/-- Object scopes appended for a token that had none are what its object reader returns. -/
theorem tokenObjects_of_append {old new} (written : s.tokenObjectScopes = old ++ new)
    (fresh : ∀ o ∈ old, o.tokenID ≠ tokenID) (own : ∀ o ∈ new, o.tokenID = tokenID) (some : new ≠ []) :
    s.tokenObjects tokenID = new := by
  have none : old.filter (fun o => o.tokenID = tokenID) = [] := by
    rw [filter_eq_nil_iff]
    simpa using fresh
  have all : new.filter (fun o => o.tokenID = tokenID) = new := by
    rw [filter_eq_self]
    simpa using own
  simp only [tokenObjects, written, filter_append, none, all, nil_append, some, if_false]

variable (scopes : List AccessTokenStorage)

theorem tokenStorages_replaceTokenStorages : (replaceTokenStorages env s tokenID scopes).tokenStorages tokenID =
      scopes.map fun l => { l with tokenID := tokenID, createdAt := zeroTime l.createdAt env.now } := by
  have old : (s.tokenScopes.filter (fun l => l.tokenID ≠ tokenID)).filter
      (fun l => l.tokenID = tokenID) = [] := by
    simp
  have new : (scopes.map fun l =>
        { l with tokenID := tokenID, createdAt := zeroTime l.createdAt env.now }).filter
      (fun l => l.tokenID = tokenID) =
      scopes.map fun l => { l with tokenID := tokenID, createdAt := zeroTime l.createdAt env.now } := by
    rw [filter_eq_self]
    simp
  simp only [tokenStorages, replaceTokenStorages, filter_append, old, new, nil_append]

/-- Storage scopes written for a token reach the object reader exactly when the
object scopes the token had before mirror them already. -/
theorem replaceTokenStorages_tokenObjects_iff :
    (∀ o ∈ (replaceTokenStorages env s tokenID scopes).tokenObjects tokenID, ∃ l ∈ scopes, Mirrors o l) ↔
      ∀ o ∈ s.tokenObjectScopes, o.tokenID = tokenID → ∃ l ∈ scopes, Mirrors o l := by
  simp only [mem_tokenObjects, tokenStorages_replaceTokenStorages]
  constructor
  · intro all o ho same
    exact all o (.inl ⟨ho, same⟩)
  · rintro old o (⟨ho, same⟩ | ⟨_, l, hl, rfl⟩)
    · exact old o ho same
    · obtain ⟨l', hl', rfl⟩ := List.mem_map.mp hl
      exact ⟨l', hl', rfl, rfl, rfl⟩

/-- The object reader returns a written list exactly when all of it names the
token and an empty list does not uncover storage scopes. -/
theorem replaceTokenObjects_tokenObjects_iff (scopes : List AccessTokenObject) :
    (replaceTokenObjects s tokenID scopes).tokenObjects tokenID = scopes ↔
      (∀ o ∈ scopes, o.tokenID = tokenID) ∧ (scopes = [] → s.tokenStorages tokenID = []) := by
  have old : (s.tokenObjectScopes.filter (fun o => o.tokenID ≠ tokenID)).filter
      (fun o => o.tokenID = tokenID) = [] := by
    simp
  have storages : (replaceTokenObjects s tokenID scopes).tokenStorages tokenID = s.tokenStorages tokenID := rfl
  have read : (replaceTokenObjects s tokenID scopes).tokenObjects tokenID =
      if scopes.filter (fun o => o.tokenID = tokenID) = [] then
        (s.tokenStorages tokenID).map AccessTokenStorage.toObject
      else scopes.filter (fun o => o.tokenID = tokenID) := by
    simp only [tokenObjects, storages]
    simp only [replaceTokenObjects, filter_append, old, nil_append]
  have named : (∀ o ∈ scopes, o.tokenID = tokenID) ↔ scopes.filter (fun o => o.tokenID = tokenID) = scopes := by
    rw [filter_eq_self]
    simp
  rw [read, named]
  constructor
  · intro same
    split at same
    · next none =>
      -- the storage scopes returned instead all name the token
      have all : scopes.filter (fun o => o.tokenID = tokenID) = scopes := by
        rw [← named, ← same]
        intro o ho
        obtain ⟨_, hl, rfl⟩ := List.mem_map.mp ho
        exact (mem_tokenStorages.mp hl).2
      refine ⟨all, fun empty => ?_⟩
      rw [empty] at same
      exact List.map_eq_nil_iff.mp same
    · next some => exact ⟨same, fun empty => absurd (by simp [empty]) some⟩
  · rintro ⟨all, uncovered⟩
    rw [all]
    split
    · next empty => rw [uncovered empty, empty, map_nil]
    · rfl

/-- Deleting a token leaves none of its scopes exactly when it had no object scopes. -/
theorem deleteToken_scopes_iff : ((∀ l ∈ (deleteToken s tokenID).tokenScopes, l.tokenID ≠ tokenID) ∧
        ∀ o ∈ (deleteToken s tokenID).tokenObjectScopes, o.tokenID ≠ tokenID) ↔
      ∀ o ∈ s.tokenObjectScopes, o.tokenID ≠ tokenID := by
  simp [deleteToken]

/-- When the three updates of a token's scopes are seen by both readers. -/
theorem token_scope_updates_iff (env : Env) (s : Store) (tokenID : String)
    (scopes : List AccessTokenStorage) (objectScopes : List AccessTokenObject) :
    ((∀ o ∈ (replaceTokenStorages env s tokenID scopes).tokenObjects tokenID, ∃ l ∈ scopes, Mirrors o l) ↔
      ∀ o ∈ s.tokenObjectScopes, o.tokenID = tokenID → ∃ l ∈ scopes, Mirrors o l) ∧
    ((replaceTokenObjects s tokenID objectScopes).tokenObjects tokenID = objectScopes ↔
      (∀ o ∈ objectScopes, o.tokenID = tokenID) ∧ (objectScopes = [] → s.tokenStorages tokenID = [])) ∧
    (((∀ l ∈ (deleteToken s tokenID).tokenScopes, l.tokenID ≠ tokenID) ∧
        ∀ o ∈ (deleteToken s tokenID).tokenObjectScopes, o.tokenID ≠ tokenID) ↔
      ∀ o ∈ s.tokenObjectScopes, o.tokenID ≠ tokenID) :=
  ⟨replaceTokenStorages_tokenObjects_iff scopes, replaceTokenObjects_tokenObjects_iff objectScopes,
    deleteToken_scopes_iff⟩

/-- The store after minting a read-write token `t` on storage `a`. -/
def mintedStore : Store :=
  match @createToken .plain (draws "t") empty
      { ownerSubjectKey := "user:internal:u", mode := .readWrite
        storageScopes := [{ storageID := "a", maxMode := .readWrite }] } with
  | .ok (s, _) => s
  | .error _ => empty

/-- On a freshly minted token all three updates leave the old scope behind. -/
theorem token_scope_updates_leave_old :
    (∃ o ∈ (replaceTokenStorages (draws "x") mintedStore "t"
        [{ storageID := "b", maxMode := .read }]).tokenObjects "t",
      o.objectID = "a" ∧ o.maxMode = .readWrite) ∧
    (∃ o ∈ (replaceTokenObjects mintedStore "t" []).tokenObjects "t", o.objectID = "a") ∧
    (∃ o ∈ (deleteToken mintedStore "t").tokenObjectScopes, o.tokenID = "t") := by
  decide

end SynaMcp.Store
