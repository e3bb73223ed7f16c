import SynaMcp.Auth.TokenEndpoint
import SynaMcp.Lib.Run

/-! The MCP sessions that a server holds in memory, and the check of them that the transport makes. -/
namespace SynaMcp.Mcp
open Function Runs
variable [Digests]

structure Session where
  principal : Principal
  expiresAt : Time

abbrev Sessions := String → Option Session

/-- An `initialize`, for which `id` is drawn, a `DELETE` with `id` in its header, or the periodic eviction. -/
inductive SessionCall where
  | create (now : Time) (p : Principal) (id : String)
  | delete (now : Time) (p : Principal) (id : String)
  | evict (now : Time)

namespace Sessions
variable (s : Sessions) (now : Time) (p : Principal) (id : String)

def createMCPSession (ttl : Time) : Sessions := update s id (some ⟨p, now + ttl⟩)

def getMCPSession : Option Session := (s id).filter (now < ·.expiresAt)

def evictExpired : Sessions := fun id => (s id).filter (now < ·.expiresAt)

/-- The status of a refusal. -/
def authorizedSession : Option Nat :=
  match s.getMCPSession now id with
  | none => some 404
  | some sess => if subjectKeyForPrincipal sess.principal ≠ subjectKeyForPrincipal p then some 403 else none

def deleteSession : Sessions × Nat :=
  if id = "" then (s, 400)
  else match s.authorizedSession now p id with
    | some refusal => (s, refusal)
    | none => (update s id none, 204)

def serve : SessionCall → Sessions
  | .create now p id => s.createMCPSession now p id (12 * hour)
  | .delete now p id => (s.deleteSession now p id).1
  | .evict now => s.evictExpired now

def Admits (sess : Session) : Prop :=
  subjectKeyForPrincipal sess.principal = subjectKeyForPrincipal p ∧ now < sess.expiresAt

/-- What ends a session under `id`: another one, a `DELETE` that it admits, or its time. -/
def Ends (sess : Session) : SessionCall → Prop
  | .create _ _ drawn => drawn = id
  | .delete now p given => given = id ∧ id ≠ "" ∧ Admits now p sess
  | .evict now => sess.expiresAt ≤ now

variable {s now p id} {sess : Session}

theorem authorizedSession_eq_none :
    s.authorizedSession now p id = none ↔ ∃ sess, s id = some sess ∧ Admits now p sess := by
  unfold authorizedSession getMCPSession Admits
  cases s id with
  | none => simp
  | some sess => by_cases live : now < sess.expiresAt <;> simp [live, Option.filter]

theorem serve_eq_some {call} : serve s call id = some sess ↔
    (∃ now p, call = .create now p id ∧ sess = ⟨p, now + 12 * hour⟩) ∨ s id = some sess ∧ ¬ Ends id sess call := by
  cases call with
  | create now p drawn =>
    rcases eq_or_ne id drawn with rfl | other
    · simp [serve, createMCPSession, Ends, eq_comm]
    · simp [serve, createMCPSession, Ends, other, other.symm]
  | delete now p given =>
    have admitted := @authorizedSession_eq_none _ s now p given
    simp only [serve, deleteSession, Ends, reduceCtorEq, false_and, exists_false, false_or]
    split
    · grind
    split
    · grind
    rcases eq_or_ne id given with rfl | other
    · grind
    · simp [other, other.symm]
  | evict now => simp [serve, evictExpired, Ends, Option.filter_eq_some_iff]

/-- A session admits the subject that opened it, for twelve hours or until that subject deletes it. -/
theorem authorized_iff {calls} : (run serve (fun _ => none) calls).authorizedSession now p id = none ↔
    ∃ before opened q after, calls = before ++ .create opened q id :: after ∧
      Admits now p ⟨q, opened + 12 * hour⟩ ∧ ∀ call ∈ after, ¬ Ends id ⟨q, opened + 12 * hour⟩ call := by
  have holds := fun sess => @run_iff _ _ serve (· id = some sess) _ _ (fun _ _ => serve_eq_some) (fun _ => none) calls
  rw [authorizedSession_eq_none]
  constructor
  · rintro ⟨sess, held, admits⟩
    obtain ⟨before, _, after, split, ⟨opened, q, rfl, rfl⟩, kept⟩ | ⟨⟨⟩, _⟩ := (holds sess).mp held
    exact ⟨before, opened, q, after, split, admits, kept⟩
  · rintro ⟨before, opened, q, after, split, admits, kept⟩
    exact ⟨_, (holds _).mpr (.inl ⟨before, _, after, split, ⟨opened, q, rfl, rfl⟩, kept⟩), admits⟩

end Sessions
end SynaMcp.Mcp
