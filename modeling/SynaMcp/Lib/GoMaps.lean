import Mathlib.Data.Int.Order.Basic
import Mathlib.Data.List.Perm.Basic

/-! Ranging over a Go map. The order of a range statement is an input: a stream of
choices, each of which places one more entry among those already placed. Every
permutation arises this way. -/
namespace GoMaps
open List
variable {α : Type}

/-- The order by which the first or last of a range is found, as one that computes. -/
instance intPreorder : Preorder Int := Int.instLinearOrder.toPreorder

/-- The entries in the order that the choices make. -/
def range (choose : Nat → Nat) : List α → List α
  | [] => []
  | x :: rest => (range (fun n => choose (n + 1)) rest).insertIdx (choose 0 % (rest.length + 1)) x

theorem range_perm (choose : Nat → Nat) (entries : List α) : (range choose entries).Perm entries := by
  induction entries generalizing choose with
  | nil => exact .nil
  | cons x rest ih =>
    have bound : choose 0 % (rest.length + 1) ≤ (range (fun n => choose (n + 1)) rest).length := by
      rw [(ih _).length_eq]
      exact Nat.lt_succ_iff.mp (Nat.mod_lt _ (Nat.succ_pos _))
    exact (perm_insertIdx x _ bound).trans ((ih _).cons x)

theorem exists_range {entries order : List α} (h : order.Perm entries) : ∃ choose, range choose entries = order := by
  induction entries generalizing order with
  | nil => exact ⟨fun _ => 0, h.eq_nil.symm⟩
  | cons x rest ih =>
    obtain ⟨i, hi, rfl⟩ := List.mem_iff_getElem.mp (h.mem_iff.mpr mem_cons_self)
    obtain ⟨choose, ranged⟩ := ih (List.Perm.cons_inv ((getElem_cons_eraseIdx_perm hi).trans h))
    have bound : i < rest.length + 1 := by
      rw [← length_cons, ← h.length_eq]
      exact hi
    refine ⟨fun n => n.casesOn i choose, ?_⟩
    show (range choose rest).insertIdx (i % (rest.length + 1)) order[i] = order
    rw [ranged, Nat.mod_eq_of_lt bound, insertIdx_eraseIdx_getElem hi]

@[simp] theorem mem_range {choose entries} {x : α} : x ∈ range choose entries ↔ x ∈ entries :=
  (range_perm choose entries).mem_iff

theorem find?_range {p choose} {entries : List α}
    (unique : ∀ a ∈ entries, ∀ b ∈ entries, p a = true → p b = true → a = b) :
    (range choose entries).find? p = entries.find? p := by
  cases found : entries.find? p with
  | none =>
    rw [find?_eq_none] at found ⊢
    exact fun a mem => found a (mem_range.mp mem)
  | some a =>
    have mem := mem_of_find?_eq_some found
    have holds := find?_some found
    cases ranged : (range choose entries).find? p with
    | none => exact absurd holds (List.find?_eq_none.mp ranged a (mem_range.mpr mem))
    | some b =>
      have mem' := mem_range.mp (mem_of_find?_eq_some ranged)
      rw [unique b mem' a mem (find?_some ranged) holds]

end GoMaps
