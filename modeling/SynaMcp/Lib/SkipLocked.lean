import SynaMcp.Lib.Table

/-! Rows that sessions take with `FOR UPDATE SKIP LOCKED`. A session locks an open
row that no one has locked, and with its commit the row is closed. Each row is
taken once. -/
namespace SkipLocked
open Keyed List

/-- The committed rows, the rows that are locked and by whom, and the keys of the rows
that were taken, the latest first. -/
structure Pool {α κ : Type} (key : α → κ) (ι : Type) where
  rows : Table key
  locks : List (ι × κ)
  taken : List κ

namespace Pool
variable {α κ ι : Type} {key : α → κ}

def empty : Pool key ι where
  rows := .empty
  locks := []
  taken := []

variable [DecidableEq κ] [DecidableEq ι] (p : Pool key ι)

def locked (k : κ) : Bool := p.locks.any fun l => decide (l.2 = k)

def held (i : ι) : Option κ := (p.locks.find? fun l => decide (l.1 = i)).map Prod.snd

def insert (r : α) : Pool key ι := { p with rows := p.rows.put r }

def lock (i : ι) (k : κ) : Pool key ι := { p with locks := (i, k) :: p.locks }

def release (i : ι) : Pool key ι := { p with locks := p.locks.filter fun l => !decide (l.1 = i) }

/-- The session commits, with the row as it leaves it, or without it. -/
def commit (i : ι) (k : κ) (left : Option α) : Pool key ι where
  rows :=
    match left with
    | some r => p.rows.put r
    | none => p.rows.delete k
  locks := (p.release i).locks
  taken := k :: p.taken

section
variable {p} {i : ι} {k : κ} {l : ι × κ}

omit [DecidableEq ι] in
theorem locked_eq_false : p.locked k = false ↔ ∀ l ∈ p.locks, l.2 ≠ k := by
  simp [locked]

omit [DecidableEq κ] in
theorem mem_of_held (h : p.held i = some k) : (i, k) ∈ p.locks := by
  obtain ⟨l, found, rfl⟩ := Option.map_eq_some_iff.mp h
  have own : l.1 = i := of_decide_eq_true (find?_some (p := fun l : ι × κ => decide (l.1 = i)) found)
  have mem := mem_of_find?_eq_some found
  rw [← own]
  exact mem

omit [DecidableEq κ] in
theorem mem_release : l ∈ (p.release i).locks ↔ l ∈ p.locks ∧ l.1 ≠ i := by
  simp [release]

end
end Pool

section
variable {α κ ι : Type} {key : α → κ} [DecidableEq κ] [DecidableEq ι]

/-- What is done to the rows. A row that is inserted has a key that was never used. -/
inductive Step (opened : α → Prop) (p : Pool key ι) : Pool key ι → Prop where
  | still : Step opened p p
  | inserted {r} (new : ¬ p.rows.Has (key r)) (unused : key r ∉ p.taken) : Step opened p (p.insert r)
  | locked {i r} (idle : p.held i = none) (row : r ∈ p.rows.rows) (opened_ : opened r)
      (free : p.locked (key r) = false) : Step opened p (p.lock i (key r))
  | released {i} : Step opened p (p.release i)
  | marked {i r r'} (held : p.held i = some (key r)) (row : r ∈ p.rows.rows) (same : key r' = key r)
      (closed : ¬ opened r') : Step opened p (p.commit i (key r) (some r'))
  | removed {i k} (held : p.held i = some k) : Step opened p (p.commit i k none)

/-- Every row that is locked is open and locked once, and what was taken is closed. -/
structure Sound (opened : α → Prop) (p : Pool key ι) : Prop where
  apart : (p.locks.map Prod.snd).Nodup
  waiting : ∀ l ∈ p.locks, ∃ r ∈ p.rows.rows, key r = l.2 ∧ opened r
  closed : ∀ r ∈ p.rows.rows, key r ∈ p.taken → ¬ opened r
  once : p.taken.Nodup

variable {opened : α → Prop} {p p' : Pool key ι}

omit [DecidableEq κ] [DecidableEq ι] in
theorem sound_empty : Sound opened (.empty : Pool key ι) where
  apart := nodup_nil
  waiting l mem := by cases mem
  closed r mem := by cases mem
  once := nodup_nil

namespace Sound

section
variable (h : Sound opened p)
include h

omit [DecidableEq κ] [DecidableEq ι] in
theorem untaken {l} (mem : l ∈ p.locks) : l.2 ∉ p.taken := by
  intro spent
  obtain ⟨r, row, key, open_⟩ := h.waiting l mem
  exact h.closed r row (key ▸ spent) open_

omit [DecidableEq κ] in
theorem release (i : ι) : Sound opened (p.release i) where
  apart := h.apart.sublist (List.filter_sublist.map Prod.snd)
  waiting l mem := h.waiting l (Pool.mem_release.mp mem).1
  closed := h.closed
  once := h.once

theorem commit {i k} (held : p.held i = some k) {left}
    (same : ∀ r, left = some r → key r = k ∧ ¬ opened r) : Sound opened (p.commit i k left) := by
  have mine : (i, k) ∈ p.locks := Pool.mem_of_held held
  -- the other locks are on other rows
  have others : ∀ l ∈ p.locks, l.1 ≠ i → l.2 ≠ k := by
    intro l mem other same
    exact other (congrArg Prod.fst (inj_on_of_nodup_map h.apart mem mine same))
  have rows : ∀ r, r ∈ (p.commit i k left).rows.rows → r ∈ p.rows.rows ∧ key r ≠ k ∨ key r = k ∧ ¬ opened r := by
    intro r mem
    cases left with
    | none => exact .inl (Table.mem_delete.mp mem)
    | some r' =>
      rcases Table.mem_put.mp mem with rfl | ⟨old, other⟩
      · exact .inr (same r rfl)
      · exact .inl ⟨old, (same r' rfl).1 ▸ other⟩
  refine ⟨(h.release i).apart, ?_, ?_, List.nodup_cons.mpr ⟨h.untaken mine, h.once⟩⟩
  · intro l mem
    obtain ⟨old, other⟩ := Pool.mem_release.mp mem
    obtain ⟨r, row, key, open_⟩ := h.waiting l old
    refine ⟨r, ?_, key, open_⟩
    have apart : _ ≠ k := key ▸ others l old other
    cases left with
    | none => exact Table.mem_delete.mpr ⟨row, apart⟩
    | some r' => exact Table.mem_put.mpr (.inr ⟨row, (same r' rfl).1.symm ▸ apart⟩)
  · intro r mem spent
    rcases rows r mem with ⟨old, other⟩ | ⟨_, closed⟩
    · exact h.closed r old ((List.mem_cons.mp spent).resolve_left other)
    · exact closed

theorem step (s : Step opened p p') : Sound opened p' := by
  cases s with
  | still => exact h
  | @inserted _ new unused =>
    refine ⟨h.apart, ?_, ?_, h.once⟩
    · intro l mem
      obtain ⟨r', row, key', open_⟩ := h.waiting l mem
      refine ⟨r', Table.mem_put.mpr (.inr ⟨row, ?_⟩), key', open_⟩
      exact fun same => new ⟨r', row, same⟩
    · intro r' mem spent
      rcases Table.mem_put.mp mem with rfl | ⟨old, _⟩
      · exact absurd spent unused
      · exact h.closed r' old spent
  | @locked _ r _ row open_ free =>
    refine ⟨?_, ?_, h.closed, h.once⟩
    · refine List.nodup_cons.mpr ⟨?_, h.apart⟩
      intro mem
      obtain ⟨l, locked, same⟩ := List.mem_map.mp mem
      exact Pool.locked_eq_false.mp free l locked same
    · intro l mem
      rcases List.mem_cons.mp mem with rfl | old
      · exact ⟨r, row, rfl, open_⟩
      · exact h.waiting l old
  | released => exact h.release _
  | @marked _ _ _ held _ same closed =>
    refine h.commit held ?_
    rintro x ⟨⟩
    exact ⟨same, closed⟩
  | removed held =>
    refine h.commit held ?_
    rintro x ⟨⟩

end

end Sound
end
end SkipLocked
