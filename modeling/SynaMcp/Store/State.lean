import SynaMcp.Lib.Table
import SynaMcp.Subjects

/-! The in-memory access store. A Go map from ids to records is a table; a slice is a
list. The clock and the random identifiers a call reads are an explicit `Env`. -/
namespace SynaMcp
open Keyed

/-- A string drawn by `uuid.NewString`: never empty. -/
structure UUID where
  val : String
  nonempty : val ≠ ""
  deriving DecidableEq

/-- What one call reads from outside: the clock, the identifiers it draws in the
order of its draws, and the characters of a raw token or of a salt. -/
structure Env where
  now : Time
  uuid : Nat → UUID
  random : String := ""

/-- The environment left after `n` draws. -/
def Env.after (env : Env) (n : Nat) : Env := { env with uuid := fun i => env.uuid (i + n) }

/-- An environment for closed runs: the draws are `name`, then `name` with a `1`. -/
def draws (name : String) : Env where
  now := 1
  uuid n := if h : n = 0 ∧ name ≠ "" then ⟨name, h.2⟩ else ⟨name ++ "1", by simp⟩
  random := name

def orNew (id : String) (u : UUID) : String := if id = "" then u.val else id

theorem orNew_ne_empty (id : String) (u : UUID) : orNew id u ≠ "" := by
  unfold orNew
  split
  · exact u.nonempty
  · assumption

def orElse {α : Type} [DecidableEq α] (unset v fallback : α) : α := if v = unset then fallback else v

def zeroTime (v fallback : Time) : Time := orElse 0 v fallback

structure Store where
  users : Table User.id
  groups : Table Group.id
  memberships : List GroupMembership
  storages : Table Storage.id
  objects : Table DataObject.id
  acl : Table ACLBinding.id
  objectACL : Table ObjectACLBinding.id
  tokens : Table AccessToken.id
  tokenByHash : Table (Prod.fst : String × String → String)
  tokenScopes : List AccessTokenStorage
  tokenObjectScopes : List AccessTokenObject
  audit : List AuditEvent
  /-- Both ways of creating a storage give it an id. -/
  storages_named : ∀ st ∈ storages.rows, st.id ≠ ""

namespace Store

def empty : Store where
  users := .empty
  groups := .empty
  memberships := []
  storages := .empty
  objects := .empty
  acl := .empty
  objectACL := .empty
  tokens := .empty
  tokenByHash := .empty
  tokenScopes := []
  tokenObjectScopes := []
  audit := []
  storages_named := by simp

def putStorage (s : Store) (st : Storage) (named : st.id ≠ "") : Store :=
  { s with
    storages := s.storages.put st
    storages_named := by
      intro x hx
      rcases Table.mem_put.mp hx with rfl | ⟨hx, _⟩
      · exact named
      · exact s.storages_named x hx }

def dropStorage (s : Store) (id : String) : Store :=
  { s with
    storages := s.storages.delete id
    storages_named := fun x hx => s.storages_named x (Table.mem_delete.mp hx).1 }

end Store
end SynaMcp
