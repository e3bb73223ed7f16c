import Mathlib.Data.List.Sort

/-! Rows in the order of their keys, and a reader that remembers the key it was given
last: it is where a reader that counts its rows is. -/
namespace Cursor
open List
variable {α κ : Type} [LinearOrder κ] {key : α → κ} {rows : List α} {top last : κ} {k max : Nat}

/-- No key is above `top`, which the next key will be. -/
structure Ascending (key : α → κ) (rows : List α) (top : κ) : Prop where
  order : rows.Pairwise fun a b => key a < key b
  bounded : ∀ r ∈ rows, key r ≤ top

/-- A reader that was given the first `k` rows and remembers `last`. -/
structure At (key : α → κ) (rows : List α) (top last : κ) (k : Nat) : Prop where
  split : ∃ given rest, rows = given ++ rest ∧ given.length = k ∧ (∀ r ∈ given, key r ≤ last) ∧
    ∀ r ∈ rest, last < key r
  bounded : last ≤ top

def ordered (key : α → κ) (rows : List α) : List α := rows.insertionSort fun a b => key a ≤ key b

theorem ordered_eq {list} (perm : list.Perm rows) (order : rows.Pairwise fun a b => key a < key b) :
    ordered key list = rows := by
  have nodup : (rows.map key).Nodup := List.pairwise_map.mpr (order.imp ne_of_lt)
  refine List.Perm.eq_of_pairwise (fun a b ha hb le ge => ?_)
    (pairwise_insertionSort (fun a b => key a ≤ key b) _) (order.imp le_of_lt)
    ((perm_insertionSort _ _).trans perm)
  exact inj_on_of_nodup_map nodup (perm.mem_iff.mp ((mem_insertionSort _).mp ha)) hb (le_antisymm le ge)

def moved (key : α → κ) (last : κ) (out : List α) : κ := (out.getLast?.map key).getD last

theorem Ascending.append (h : Ascending key rows top) {r} (new : top < key r) :
    Ascending key (rows ++ [r]) (key r) := by
  constructor
  · refine List.pairwise_append.mpr ⟨h.order, pairwise_singleton _ _, fun a mem b last => ?_⟩
    rw [List.mem_singleton.mp last]
    exact (h.bounded a mem).trans_lt new
  · intro a mem
    rcases List.mem_append.mp mem with old | last
    · exact ((h.bounded a old).trans_lt new).le
    · exact (congrArg key (List.mem_singleton.mp last)).le

theorem At.append (h : At key rows top last k) {r} (new : top < key r) : At key (rows ++ [r]) (key r) last k := by
  obtain ⟨⟨given, rest, rfl, length, passed, ahead⟩, bounded⟩ := h
  refine ⟨⟨given, rest ++ [r], append_assoc .., length, passed, fun a mem => ?_⟩, (bounded.trans_lt new).le⟩
  rcases List.mem_append.mp mem with old | last
  · exact ahead a old
  · rw [List.mem_singleton.mp last]
    exact bounded.trans_lt new

theorem At.filter (h : At key rows top last k) : rows.filter (fun r => decide (last < key r)) = rows.drop k := by
  obtain ⟨⟨_, _, rfl, rfl, passed, ahead⟩, _⟩ := h
  rw [filter_append, List.filter_eq_nil_iff.mpr, List.filter_eq_self.mpr, nil_append, drop_left]
  · exact fun r mem => decide_eq_true (ahead r mem)
  · exact fun r mem => by simpa using passed r mem

theorem At.advance (asc : Ascending key rows top) (h : At key rows top last k) :
    At key rows top (moved key last ((rows.drop k).take max)) (k + ((rows.drop k).take max).length) := by
  obtain ⟨⟨given, rest, rfl, rfl, passed, ahead⟩, bounded⟩ := h
  rw [drop_left]
  have split := take_append_drop max rest
  rcases eq_nil_or_concat (rest.take max) with none | ⟨before, z, some⟩
  · rw [none]
    exact ⟨⟨given, rest, rfl, rfl, passed, ahead⟩, bounded⟩
  · rw [concat_eq_append] at some
    have last : moved key last (before ++ [z]) = key z := by simp [moved]
    rw [some, last]
    rw [some] at split
    have order := (List.pairwise_append.mp asc.order).2.1
    rw [← split] at order ahead
    obtain ⟨inside, _, beyond⟩ := List.pairwise_append.mp order
    refine ⟨⟨given ++ (before ++ [z]), rest.drop max, ?_, length_append, fun r mem => ?_, beyond z (by simp)⟩,
      asc.bounded z ?_⟩
    · rw [append_assoc, split]
    · rcases List.mem_append.mp mem with old | out
      · exact (passed r old).trans (ahead z (by simp)).le
      · rcases List.mem_append.mp out with earlier | self
        · exact ((List.pairwise_append.mp inside).2.2 r earlier z (mem_singleton_self z)).le
        · exact (congrArg key (List.mem_singleton.mp self)).le
    · rw [← split]
      simp

end Cursor
