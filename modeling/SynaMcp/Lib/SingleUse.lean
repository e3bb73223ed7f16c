import SynaMcp.Lib.Table

/-! Records that can be used once and not after their expiry. A use is one atomic step
that looks the record up, refuses it or marks it. Tickets are taken out instead: one
that is issued once can be taken once. -/
namespace SingleUse
open Keyed Table

/-- How a kind of record is marked as used, and the texts of its refusals. -/
structure Kind {α κ : Type} (key : α → κ) (τ : Type) where
  usedAt : α → Option τ
  expiresAt : α → τ
  mark : τ → α → α
  (unknown used expired : String)
  key_mark : ∀ now r, key (mark now r) = key r
  usedAt_mark : ∀ now r, usedAt (mark now r) = some now

variable {α κ τ : Type} {key : α → κ} [DecidableEq κ]

def consume [LT τ] [DecidableLT τ] (kind : Kind key τ) (now : τ) (t : Table key) (k : κ) :
    Except String (Table key × α) :=
  match t.get? k with
  | none => .error kind.unknown
  | some r =>
    if (kind.usedAt r).isSome then .error kind.used
    else if kind.expiresAt r < now then .error kind.expired
    else .ok (t.put (kind.mark now r), kind.mark now r)

def Unused (kind : Kind key τ) (t : Table key) (k : κ) : Prop := ∃ r, t.get? k = some r ∧ kind.usedAt r = none

variable {kind : Kind key τ} {t t' : Table key} {k k' : κ} {r : α}

section
variable [LT τ] [DecidableLT τ] {now : τ} (h : consume kind now t k = .ok (t', r))
include h

theorem consume_ok :
    ∃ row, t.get? k = some row ∧ kind.usedAt row = none ∧ ¬ kind.expiresAt row < now ∧
      r = kind.mark now row ∧ t' = t.put r := by
  unfold consume at h
  split at h
  · cases h
  · next row found =>
    split at h
    · cases h
    · next unused =>
      split at h
      · cases h
      · next live =>
        cases h
        exact ⟨row, found, by simpa using unused, live, rfl, rfl⟩

theorem key_of_consume_ok : key r = k := by
  obtain ⟨_, found, _, _, rfl, _⟩ := consume_ok h
  rw [kind.key_mark]
  exact key_of_get? found

theorem get?_consume_self : t'.get? k = some r := by
  have own := key_of_consume_ok h
  obtain ⟨_, _, _, _, _, rfl⟩ := consume_ok h
  subst own
  exact get?_put_self t r

theorem get?_consume_of_ne (other : k' ≠ k) : t'.get? k' = t.get? k' := by
  have own := key_of_consume_ok h
  obtain ⟨_, _, _, _, _, rfl⟩ := consume_ok h
  exact get?_put_of_ne t (own ▸ other.symm)

theorem usedAt_of_consume_ok : kind.usedAt r = some now := by
  obtain ⟨row, _, _, _, rfl, _⟩ := consume_ok h
  exact kind.usedAt_mark now row

theorem mem_of_mem_consume {x} (mem : x ∈ t'.rows) (unused : kind.usedAt x = none) : x ∈ t.rows := by
  have used := usedAt_of_consume_ok h
  obtain ⟨_, _, _, _, _, rfl⟩ := consume_ok h
  rcases Table.mem_put.mp mem with rfl | ⟨old, _⟩
  · cases used.symm.trans unused
  · exact old

/-- A use takes its own record out of the unused ones and leaves the others. -/
theorem unused_consume_iff : Unused kind t' k' ↔ Unused kind t k' ∧ k' ≠ k := by
  by_cases same : k' = k
  · subst same
    simp [Unused, get?_consume_self h, usedAt_of_consume_ok h]
  · simp [Unused, get?_consume_of_ne h same, same]

theorem unused_of_consume_ok : Unused kind t k := by
  obtain ⟨row, found, unused, _⟩ := consume_ok h
  exact ⟨row, found, unused⟩

end

theorem unused_put_of_ne (h : key r ≠ k) : Unused kind (t.put r) k ↔ Unused kind t k := by
  simp only [Unused, get?_put_of_ne t h]

/-- The tickets of a run: which are there in each state and until when, and which event
issues or takes one. No ticket is issued twice. -/
structure Tickets (live : Nat → κ → Option τ) (issued : Nat → κ → τ → Prop) (taken : Nat → κ → Prop) : Prop where
  start : ∀ k, live 0 k = none
  step : ∀ n k e, live (n + 1) k = some e → live n k = some e ∨ issued n k e
  take : ∀ n k, taken n k → (∃ e, live n k = some e) ∧ live (n + 1) k = none
  fresh : ∀ m n k d e, issued m k d → issued n k e → m = n

namespace Tickets
variable {live : Nat → κ → Option τ} {issued : Nat → κ → τ → Prop} {taken : Nat → κ → Prop}

omit [DecidableEq κ] in
theorem since (h : Tickets live issued taken) {n k e} (there : live n k = some e) :
    ∃ j < n, issued j k e ∧ ∀ m, j < m → m ≤ n → live m k = some e := by
  induction n with
  | zero => cases (h.start k).symm.trans there
  | succ n ih =>
    rcases h.step n k e there with before | now
    · obtain ⟨j, earlier, at_j, kept⟩ := ih before
      refine ⟨j, Nat.lt_succ_of_lt earlier, at_j, fun m after le => ?_⟩
      rcases Nat.le_succ_iff.mp le with le | rfl
      · exact kept m after le
      · exact there
    · refine ⟨n, Nat.lt_succ_self n, now, fun m after le => ?_⟩
      obtain rfl : m = n + 1 := Nat.le_antisymm le after
      exact there

omit [DecidableEq κ] in
theorem once (h : Tickets live issued taken) {m n k} (at_m : taken m k) (at_n : taken n k) : m = n := by
  -- The later of two takes finds a ticket that was issued after the earlier one, a second time.
  have apart : ∀ {m n}, taken m k → taken n k → ¬ m < n := by
    intro m n at_m at_n before
    obtain ⟨⟨d, first⟩, gone⟩ := h.take m k at_m
    obtain ⟨⟨e, second⟩, _⟩ := h.take n k at_n
    obtain ⟨i, earlier, issued_i, _⟩ := h.since first
    obtain ⟨j, _, issued_j, kept⟩ := h.since second
    obtain rfl := h.fresh i j k d e issued_i issued_j
    cases gone.symm.trans (kept (m + 1) (Nat.lt_succ_of_lt earlier) before)
  exact Nat.le_antisymm (Nat.le_of_not_lt (apart at_n at_m)) (Nat.le_of_not_lt (apart at_m at_n))

end Tickets
end SingleUse
