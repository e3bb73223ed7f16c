import Mathlib.Data.List.MinMax
import Mathlib.Data.List.Nodup
import SynaMcp.Lib.GoMaps

/-! Records that are numbered in the order in which they are appended, from one. -/
namespace Serial
open List
variable {α : Type} {number : α → Int} {xs : List α} {x y : α}

def Numbered (number : α → Int) (xs : List α) : Prop := ∀ (j : Nat) x, xs[j]? = some x → number x = j + 1

theorem numbered_nil : Numbered number [] := fun _ _ stored => by cases stored

theorem Numbered.append (h : Numbered number xs) (next : number x = xs.length + 1) : Numbered number (xs ++ [x]) := by
  intro j y stored
  rcases Nat.lt_or_ge j xs.length with old | new
  · rw [getElem?_append_left old] at stored
    exact h j y stored
  · rw [getElem?_append_right new, getElem?_singleton] at stored
    split at stored
    · next zero =>
      cases stored
      have equal : j = xs.length := by omega
      rw [next, equal]
    · cases stored

theorem Numbered.map {β f} {ys : List β} (h : Numbered (fun y => number (f y)) ys) : Numbered number (ys.map f) := by
  intro j x stored
  rw [getElem?_map] at stored
  obtain ⟨y, there, rfl⟩ := Option.map_eq_some_iff.mp stored
  exact h j y there

section
variable (h : Numbered number xs)
include h

theorem Numbered.find? (mem : x ∈ xs) : xs.find? (fun y => number y = number x) = some x := by
  obtain ⟨j, stored⟩ := mem_iff_getElem?.mp mem
  cases found : xs.find? (fun y => number y = number x) with
  | none =>
    have missing := List.find?_eq_none.mp found x mem
    simp at missing
  | some y =>
    obtain ⟨j', stored'⟩ := mem_iff_getElem?.mp (mem_of_find?_eq_some found)
    have same : number y = number x := by simpa using find?_some found
    rw [h j' y stored', h j x stored] at same
    have equal : j' = j := by omega
    rw [equal, stored] at stored'
    exact stored'.symm

theorem Numbered.inj (mem : x ∈ xs) (mem' : y ∈ xs) (same : number x = number y) : x = y := by
  have found := h.find? mem
  rw [same, h.find? mem'] at found
  exact (Option.some.inj found).symm

theorem Numbered.le_length (mem : x ∈ xs) : number x ≤ xs.length := by
  obtain ⟨j, stored⟩ := mem_iff_getElem?.mp mem
  have bound := (List.getElem?_eq_some_iff.mp stored).1
  rw [h j x stored]
  omega

theorem Numbered.pos (mem : x ∈ xs) : 0 < number x := by
  obtain ⟨i, stored⟩ := mem_iff_getElem?.mp mem
  rw [h i x stored]
  omega

theorem Numbered.getLast? (last : xs.getLast? = some x) : number x = xs.length := by
  rw [getLast?_eq_getElem?] at last
  have some := (List.getElem?_eq_some_iff.mp last).1
  rw [h _ x last]
  omega

theorem Numbered.argmax_eq : xs.argmax number = xs.getLast? := by
  cases last : xs.getLast? with
  | none => rw [List.getLast?_eq_none_iff.mp last, argmax_nil]
  | some x =>
    cases found : xs.argmax number with
    | none =>
      rw [List.argmax_eq_none.mp found] at last
      cases last
    | some y =>
      have mem := mem_of_getLast? last
      have least := le_of_mem_argmax mem found
      rw [h.getLast? last] at least
      have same : number y = number x := by
        rw [h.getLast? last]
        exact le_antisymm (h.le_length (argmax_mem found)) least
      rw [h.inj (argmax_mem found) mem same]

theorem Numbered.pairwise : xs.Pairwise fun x y => number x < number y := by
  rw [pairwise_iff_getElem]
  intro i j hi hj lt
  rw [h i _ (getElem?_eq_getElem hi), h j _ (getElem?_eq_getElem hj)]
  omega

theorem Numbered.nodup_map : (xs.map number).Nodup :=
  List.pairwise_map.mpr (h.pairwise.imp fun less => Int.ne_of_lt less)

/-- A record cites a number that was the last, or the one before it. What was found of
the last one is in question only where the number is the last no more. -/
theorem Numbered.holds_iff {P : α → Prop} (mem : x ∈ xs) (seen : y ∈ xs)
    (found : number x = number y ∧ P y ∨ number x = number y - 1) :
    P x ↔ ∀ last ∈ xs.getLast?, number x ≠ number last → ∀ z ∈ xs, number z = number x → P z := by
  constructor
  · intro holds last _ _ z mem' same
    rw [h.inj mem' mem same]
    exact holds
  · intro older
    rcases found with ⟨same, holds⟩ | before
    · rw [h.inj mem seen same]
      exact holds
    · have last := getLast?_eq_some_getLast (ne_nil_of_mem mem)
      refine older _ last (fun same => ?_) x mem rfl
      have bound := h.le_length seen
      rw [h.getLast? last] at same
      omega

end

theorem existsUnique_of_map_eq {β κ : Type} {ys : List β} {f} {g : α → κ} (same : ys.map f = xs.map g)
    (nodup : (xs.map g).Nodup) (mem : x ∈ xs) : ∃! y, y ∈ ys ∧ f y = g x := by
  have found := mem_map_of_mem (f := g) mem
  rw [← same] at found nodup
  obtain ⟨y, mem', key⟩ := List.mem_map.mp found
  refine ⟨y, ⟨mem', key⟩, fun z other => ?_⟩
  exact inj_on_of_nodup_map nodup other.1 mem' (other.2.trans key.symm)

/-! Records that are appended along a run, each by the step that accepts it. -/

section
variable (xs : Nat → List α) (accepts : Nat → α → Prop)

section
variable (start : xs 0 = []) (step : ∀ n, xs (n + 1) = xs n ∨ ∃ a, accepts n a) (appends : ∀ n a, accepts n a → xs (n + 1) = xs n ++ [a])
include start step appends

theorem mem_iff_accepted {n a} : a ∈ xs n ↔ ∃ k < n, accepts k a := by
  induction n with
  | zero => simp [start]
  | succ n ih =>
    have split : (∃ k < n + 1, accepts k a) ↔ (∃ k < n, accepts k a) ∨ accepts n a := by
      simp only [Nat.lt_succ_iff_lt_or_eq, or_and_right, exists_or, exists_eq_left]
    rw [split, ← ih]
    by_cases some : ∃ b, accepts n b
    · obtain ⟨b, accepted⟩ := some
      rw [appends n b accepted, mem_append, mem_singleton]
      refine or_congr_right ⟨fun same => same ▸ accepted, fun other => ?_⟩
      have equal := (appends n a other).symm.trans (appends n b accepted)
      exact List.singleton_inj.mp (append_cancel_left equal)
    · rw [(step n).resolve_right some]
      exact (or_iff_left fun now => some ⟨a, now⟩).symm

theorem accepted_once (nodup : ∀ n, (xs n).Nodup) {j k a} (hj : accepts j a) (hk : accepts k a) : j = k := by
  have never : ∀ {j k : Nat}, accepts j a → accepts k a → ¬j < k := by
    intro j k hj hk lt
    have old : a ∈ xs k := (mem_iff_accepted xs accepts start step appends).mpr ⟨j, lt, hj⟩
    have once := nodup (k + 1)
    rw [appends k a hk, nodup_append] at once
    exact once.2.2 a old a (mem_singleton_self a) rfl
  exact Nat.le_antisymm (Nat.le_of_not_lt (never hk hj)) (Nat.le_of_not_lt (never hj hk))

end

/-- No two records have the same key if each step accepts one of which no record has the key. -/
theorem nodup_map_iff_accepted {κ : Type} (f : α → κ) (start : xs 0 = []) (step : ∀ n, xs (n + 1) = xs n ∨ ∃ a, accepts n a)
    (appends : ∀ n a, accepts n a → xs (n + 1) = xs n ++ [a]) {n} :
    ((xs n).map f).Nodup ↔ ∀ k < n, ∀ a, accepts k a → f a ∉ (xs k).map f := by
  induction n with
  | zero => simp [start]
  | succ n ih =>
    have split : (∀ k < n + 1, ∀ a, accepts k a → f a ∉ (xs k).map f) ↔
        (∀ k < n, ∀ a, accepts k a → f a ∉ (xs k).map f) ∧ ∀ a, accepts n a → f a ∉ (xs n).map f := by
      simp only [Nat.lt_succ_iff_lt_or_eq, or_imp, forall_and, forall_eq]
    rw [split, ← ih]
    by_cases some : ∃ b, accepts n b
    · obtain ⟨b, accepted⟩ := some
      rw [appends n b accepted, map_append, map_singleton, nodup_append_comm, singleton_append, nodup_cons, and_comm]
      refine and_congr_right fun _ => ⟨fun new a other => ?_, fun new => new b accepted⟩
      have equal := (appends n a other).symm.trans (appends n b accepted)
      obtain rfl := List.singleton_inj.mp (append_cancel_left equal)
      exact new
    · rw [(step n).resolve_right some]
      exact (and_iff_left fun a now => absurd ⟨a, now⟩ some).symm

end
end Serial
