import Mathlib.Data.List.Nodup
import Mathlib.Algebra.GroupWithZero.Nat

/-! Finite tables whose rows carry their own key; two rows never share one. The order of
`rows` stands for one iteration order of the table and no lemma below depends on it. -/
namespace Keyed
open List

structure Table {α κ : Type} (key : α → κ) where
  rows : List α
  nodup : (rows.map key).Nodup

namespace Table
variable {α κ : Type} {key : α → κ}

theorem nodup_filter {rows : List α} (h : (rows.map key).Nodup) (p : α → Bool) : ((rows.filter p).map key).Nodup :=
  h.sublist (List.filter_sublist.map key)

def empty : Table key := ⟨[], nodup_nil⟩

/-- Drop every row that satisfies `p`. -/
def deleteWhere (t : Table key) (p : α → Bool) : Table key := ⟨t.rows.filter (fun r => !p r), nodup_filter t.nodup _⟩

def mapRows (t : Table key) (f : α → α) (keeps : ∀ r, key (f r) = key r) : Table key where
  rows := t.rows.map f
  nodup := by
    have same : (t.rows.map f).map key = t.rows.map key := by
      rw [map_map]
      exact map_congr_left fun r _ => keeps r
    rw [same]
    exact t.nodup

@[simp] theorem rows_empty : (empty : Table key).rows = [] := rfl

variable {t : Table key}

@[simp] theorem mem_deleteWhere {p r} : r ∈ (t.deleteWhere p).rows ↔ r ∈ t.rows ∧ p r = false := by
  simp only [deleteWhere, mem_filter, Bool.not_eq_true']

theorem eq_of_key_eq {a b} (ha : a ∈ t.rows) (hb : b ∈ t.rows) (h : key a = key b) : a = b :=
  inj_on_of_nodup_map t.nodup ha hb h

def Has (t : Table key) (k : κ) : Prop := ∃ r ∈ t.rows, key r = k

theorem has_of_mem {r} (h : r ∈ t.rows) : t.Has (key r) := ⟨r, h, rfl⟩

variable [DecidableEq κ]

instance (t : Table key) (k : κ) : Decidable (t.Has k) :=
  inferInstanceAs (Decidable (∃ r ∈ t.rows, key r = k))

def get? (t : Table key) (k : κ) : Option α := t.rows.find? (fun r => decide (key r = k))

/-- Write a row under its key, replacing the row stored there before. -/
def put (t : Table key) (r : α) : Table key where
  rows := r :: t.rows.filter (fun x => !decide (key x = key r))
  nodup := by
    rw [map_cons, nodup_cons]
    refine ⟨?_, nodup_filter t.nodup _⟩
    intro member
    obtain ⟨_, hx, same⟩ := List.mem_map.mp member
    simp [same] at hx

def delete (t : Table key) (k : κ) : Table key := t.deleteWhere (fun r => decide (key r = k))

theorem get?_eq_some_iff {t : Table key} {k r} : t.get? k = some r ↔ r ∈ t.rows ∧ key r = k := by
  constructor
  · intro h
    exact ⟨mem_of_find?_eq_some h, by simpa using find?_some h⟩
  · rintro ⟨hr, rfl⟩
    cases hf : t.get? (key r) with
    | none => simpa using List.find?_eq_none.mp hf r hr
    | some x =>
      have hx : x ∈ t.rows := mem_of_find?_eq_some hf
      have hk : key x = key r := by simpa using find?_some hf
      rw [eq_of_key_eq hx hr hk]

theorem get?_mapRows {t : Table key} {f keeps k} : (t.mapRows f keeps).get? k = (t.get? k).map f := by
  rw [get?, mapRows, find?_map, get?]
  congr 2
  funext r
  simp only [Function.comp_apply, keeps]

theorem get?_of_mem {t : Table key} {r} (h : r ∈ t.rows) : t.get? (key r) = some r := get?_eq_some_iff.mpr ⟨h, rfl⟩

theorem mem_of_get? {t : Table key} {k r} (h : t.get? k = some r) : r ∈ t.rows := (get?_eq_some_iff.mp h).1

theorem key_of_get? {t : Table key} {k r} (h : t.get? k = some r) : key r = k := (get?_eq_some_iff.mp h).2

@[simp] theorem mem_put {t : Table key} {r x} : x ∈ (t.put r).rows ↔ x = r ∨ (x ∈ t.rows ∧ key x ≠ key r) := by
  simp [put]

theorem rows_put_of_new {t : Table key} {r} (new : ¬ t.Has (key r)) : (t.put r).rows = r :: t.rows := by
  refine congrArg (r :: ·) (List.filter_eq_self.mpr fun x mem => ?_)
  simpa using fun same => new ⟨x, mem, same⟩

theorem put_put (t : Table key) {a b} (same : key a = key b) : (t.put a).put b = t.put b := by
  simp only [put, filter_cons, same, decide_true, Bool.not_true, Bool.false_eq_true, if_false, filter_filter,
    Bool.and_self]

theorem perm_of_mem {t : Table key} {r} (h : r ∈ t.rows) :
    t.rows.Perm (r :: t.rows.filter fun x => !decide (key x = key r)) := by
  refine (perm_ext_iff_of_nodup (List.Nodup.of_map key t.nodup) (List.nodup_cons.mpr ⟨by simp, ?_⟩)).mpr fun x => ?_
  · exact (List.Nodup.of_map key t.nodup).filter _
  · simp only [mem_cons, mem_filter, Bool.not_eq_true', decide_eq_false_iff_not]
    constructor
    · intro hx
      by_cases same : key x = key r
      · exact .inl (eq_of_key_eq hx h same)
      · exact .inr ⟨hx, same⟩
    · rintro (rfl | ⟨hx, _⟩)
      · exact h
      · exact hx

theorem sum_put {t : Table key} {r r'} (h : r ∈ t.rows) (same : key r' = key r) (f : α → Nat) :
    ((t.put r').rows.map f).sum + f r = (t.rows.map f).sum + f r' := by
  rw [((perm_of_mem h).map f).sum_nat]
  simp only [put, same, map_cons, sum_cons]
  omega

/-- The rows of one table, and of another those under other keys. -/
def onto (t old : Table key) : Table key where
  rows := t.rows ++ old.rows.filter fun r => !decide (t.Has (key r))
  nodup := by
    rw [map_append, nodup_append]
    refine ⟨t.nodup, nodup_filter old.nodup _, ?_⟩
    rintro k mem _ mem' rfl
    obtain ⟨x, row, own⟩ := List.mem_map.mp mem
    obtain ⟨_, kept, same⟩ := List.mem_map.mp mem'
    have free := (List.mem_filter.mp kept).2
    rw [Bool.not_eq_true', decide_eq_false_iff_not] at free
    exact free ⟨x, row, own.trans same.symm⟩

theorem onto_eq {t old : Table key} (h : ∀ r ∈ old.rows, t.Has (key r)) : t.onto old = t := by
  have none : old.rows.filter (fun r => !decide (t.Has (key r))) = [] :=
    List.filter_eq_nil_iff.mpr fun r mem => by simp [h r mem]
  simp only [onto, none, append_nil]

@[simp] theorem mem_delete {t : Table key} {k x} : x ∈ (t.delete k).rows ↔ x ∈ t.rows ∧ key x ≠ k := by
  simp [delete]

@[simp] theorem get?_put_self (t : Table key) (r : α) : (t.put r).get? (key r) = some r :=
  get?_of_mem (mem_put.mpr (.inl rfl))

theorem get?_put_of_ne (t : Table key) {r : α} {k} (h : key r ≠ k) : (t.put r).get? k = t.get? k := by
  ext x
  simp only [get?_eq_some_iff, mem_put]
  constructor
  · rintro ⟨rfl | ⟨hx, _⟩, hk⟩
    · exact absurd hk h
    · exact ⟨hx, hk⟩
  · rintro ⟨hx, rfl⟩
    exact ⟨.inr ⟨hx, Ne.symm h⟩, rfl⟩

theorem get?_delete_of_ne (t : Table key) {k k' : κ} (h : k' ≠ k) : (t.delete k).get? k' = t.get? k' := by
  ext x
  simp only [get?_eq_some_iff, mem_delete]
  constructor
  · rintro ⟨⟨hx, _⟩, hk⟩
    exact ⟨hx, hk⟩
  · rintro ⟨hx, rfl⟩
    exact ⟨⟨hx, h⟩, rfl⟩

@[simp] theorem get?_delete_self (t : Table key) (k : κ) : (t.delete k).get? k = none := by
  rw [Option.eq_none_iff_forall_ne_some]
  intro x found
  obtain ⟨row, same⟩ := get?_eq_some_iff.mp found
  exact (mem_delete.mp row).2 same

@[simp] theorem has_put {t : Table key} {r k} : (t.put r).Has k ↔ key r = k ∨ t.Has k := by
  constructor
  · rintro ⟨x, hx, rfl⟩
    rcases mem_put.mp hx with rfl | ⟨hx, _⟩
    · exact .inl rfl
    · exact .inr (has_of_mem hx)
  · rintro (rfl | ⟨x, hx, rfl⟩)
    · exact has_of_mem (mem_put.mpr (.inl rfl))
    · by_cases same : key x = key r
      · rw [same]
        exact has_of_mem (mem_put.mpr (.inl rfl))
      · exact has_of_mem (mem_put.mpr (.inr ⟨hx, same⟩))

@[simp] theorem has_delete {t : Table key} {k k'} : (t.delete k).Has k' ↔ t.Has k' ∧ k' ≠ k := by
  constructor
  · rintro ⟨x, hx, rfl⟩
    obtain ⟨hx, other⟩ := mem_delete.mp hx
    exact ⟨has_of_mem hx, other⟩
  · rintro ⟨⟨x, hx, rfl⟩, other⟩
    exact has_of_mem (mem_delete.mpr ⟨hx, other⟩)

theorem isSome_get?_iff {t : Table key} {k} : (t.get? k).isSome = true ↔ t.Has k := by
  rw [Option.isSome_iff_exists]
  constructor
  · rintro ⟨r, found⟩
    exact ⟨r, get?_eq_some_iff.mp found⟩
  · rintro ⟨r, row⟩
    exact ⟨r, get?_eq_some_iff.mpr row⟩

end Table
end Keyed
