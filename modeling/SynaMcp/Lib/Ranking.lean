import Mathlib.Data.List.Sort

/-! The best of a list by a score, cut off at a number. Where the cut takes something
away, what is filtered out afterwards has had its influence. -/
namespace Ranking
open List
variable {α σ : Type} [LinearOrder σ] {κ : Type} {key : α → κ}

def sorted (score : α → σ) (l : List α) : List α := l.insertionSort fun a b => score b ≤ score a

def best (score : α → σ) (k : Nat) (l : List α) : List α := (sorted score l).take k

def NoTies (score : α → σ) (l : List α) : Prop := (l.map score).Nodup

variable {score : α → σ} {l l' : List α} {p q : α → Bool} {k : Nat}

theorem sorted_perm (score : α → σ) (l : List α) : (sorted score l).Perm l := perm_insertionSort _ l

section
variable (h : NoTies score l)
include h

omit [LinearOrder σ] in
theorem NoTies.perm (same : l.Perm l') : NoTies score l' := (same.map score).nodup h

omit [LinearOrder σ] in
theorem NoTies.filter (q : α → Bool) : NoTies score (l.filter q) := h.sublist (List.filter_sublist.map score)

theorem NoTies.pairwise_sorted : (sorted score l).Pairwise fun a b => score b < score a := by
  have weak : (sorted score l).Pairwise fun a b => score b ≤ score a := pairwise_insertionSort _ l
  have apart := List.pairwise_map.mp (h.perm (sorted_perm score l).symm)
  exact (weak.and apart).imp fun ⟨le, ne⟩ => lt_of_le_of_ne le (Ne.symm ne)

theorem NoTies.sorted_unique (same : l.Perm l')
    (order : l'.Pairwise fun a b => score b < score a) : sorted score l = l' := by
  refine List.Perm.eq_of_pairwise (fun a b _ _ ab ba => absurd ab (lt_asymm ba)) h.pairwise_sorted order ?_
  exact (sorted_perm score l).trans same

theorem NoTies.sorted_filter (q : α → Bool) : sorted score (l.filter q) = (sorted score l).filter q :=
  (h.filter q).sorted_unique ((sorted_perm score l).symm.filter q) (h.pairwise_sorted.filter q)

end

theorem filter_filter_of_imp (imp : ∀ a ∈ l, p a = true → q a = true) : (l.filter q).filter p = l.filter p := by
  rw [filter_filter]
  refine filter_congr fun a mem => ?_
  cases holds : p a with
  | false => rfl
  | true => rw [imp a mem holds, Bool.and_true]

/-- Nothing is cut off, nothing is left out before, or nothing is found afterwards. -/
theorem NoTies.independent (h : NoTies score l) (imp : ∀ a ∈ l, p a = true → q a = true)
    (cond : l.length ≤ k ∨ (∀ a ∈ l, q a = true) ∨ ∀ a ∈ l, p a = false) :
    (best score k l).filter p = (best score k (l.filter q)).filter p := by
  have mem : ∀ {a}, a ∈ sorted score l → a ∈ l := fun found => (sorted_perm score l).mem_iff.mp found
  unfold best
  rcases cond with whole | kept | none
  · have size : (sorted score l).length ≤ k := (sorted_perm score l).length_eq ▸ whole
    have size' : ((sorted score l).filter q).length ≤ k := (length_filter_le _ _).trans size
    rw [h.sorted_filter, take_of_length_le size, take_of_length_le size']
    exact (filter_filter_of_imp fun a found => imp a (mem found)).symm
  · rw [List.filter_eq_self.mpr kept]
  · have nothing : ∀ xs : List α, xs ⊆ l → xs.filter p = [] := by
      intro xs sub
      refine List.filter_eq_nil_iff.mpr fun a found => ?_
      rw [none a (sub found)]
      exact Bool.false_ne_true
    rw [nothing _ fun a found => mem (mem_of_mem_take found)]
    refine (nothing _ fun a found => ?_).symm
    rw [h.sorted_filter] at found
    exact mem (mem_of_mem_filter (mem_of_mem_take found))

theorem filter_take_prefix (imp : ∀ a ∈ l, p a = true → q a = true) :
    (l.take k).filter p <+: ((l.filter q).take k).filter p := by
  have start : (l.take k).filter q <+: (l.filter q).take k := by
    refine List.prefix_take_iff.mpr ⟨( take_prefix k l).filter q, ?_⟩
    exact (length_filter_le _ _).trans (length_take_le k l)
  rw [← filter_filter_of_imp fun a found => imp a (mem_of_mem_take found)]
  exact start.filter p

theorem pairwise_places [DecidableEq κ] (distinct : (l.map key).Nodup) :
    l.Pairwise fun a b => -((l.map key).idxOf (key b) : Int) < -((l.map key).idxOf (key a) : Int) := by
  rw [pairwise_iff_getElem]
  intro i j hi hj lt
  have place : ∀ n (hn : n < l.length), (l.map key).idxOf (key l[n]) = n := by
    intro n hn
    have bound : n < (l.map key).length := by rwa [length_map]
    have at_n := distinct.idxOf_getElem n bound
    rwa [getElem_map] at at_n
  rw [place i hi, place j hj]
  omega

/-- A part of a list is in any order by some score, that of the places of its keys. -/
theorem exists_score [DecidableEq κ] (distinct : (l.map key).Nodup) (m : α → Bool) (same : (l.filter m).Perm l') :
    ∃ score : κ → Int, NoTies (score ∘ key) l ∧ sorted (score ∘ key) (l.filter m) = l' := by
  have whole : l.Perm (l' ++ l.filter fun a => !m a) := (filter_append_perm m l).symm.trans (same.append_right _)
  have order := pairwise_places ((whole.map key).nodup_iff.mp distinct)
  have apart : NoTies (fun a => -(((l' ++ l.filter fun a => !m a).map key).idxOf (key a) : Int))
      (l' ++ l.filter fun a => !m a) := List.pairwise_map.mpr (order.imp fun lt => Ne.symm (ne_of_lt lt))
  have noTies := apart.perm whole.symm
  refine ⟨fun c => -(((l' ++ l.filter fun a => !m a).map key).idxOf c : Int), noTies, ?_⟩
  exact (noTies.filter m).sorted_unique same (List.pairwise_append.mp order).1

theorem NoTies.mem_best (h : NoTies score l) {b} (mem : b ∈ l) (largest : ∀ a ∈ l, score a ≤ score b) (pos : 0 < k) :
    b ∈ best score k l := by
  have order := h.pairwise_sorted
  have found := (sorted_perm score l).mem_iff.mpr mem
  have inside : ∀ a ∈ sorted score l, a ∈ l := fun a => (sorted_perm score l).mem_iff.mp
  unfold best
  cases first : sorted score l with
  | nil =>
    rw [first] at found
    cases found
  | cons a =>
    rw [first] at found order inside
    obtain ⟨n, rfl⟩ : ∃ n, k = n + 1 := Nat.exists_eq_succ_of_ne_zero (Nat.pos_iff_ne_zero.mp pos)
    rw [take_succ_cons]
    rcases List.mem_cons.mp found with rfl | later
    · exact mem_cons_self
    · have less := rel_of_pairwise_cons order later
      exact absurd (largest a (inside a mem_cons_self)) (not_le_of_gt less)

/-- What is left out, and then the others, with `b` in the place of that number. -/
def arrange [DecidableEq α] (q : α → Bool) (b : α) (i : Nat) (l : List α) : List α :=
  (l.filter (fun a => !q a) ++ ((l.filter q).erase b).take i) ++ b :: ((l.filter q).erase b).drop i

theorem perm_arrange [DecidableEq α] {b} (i : Nat) (mem : b ∈ l) (kept : q b = true) : l.Perm (arrange q b i l) := by
  have split : (l.filter (fun a => !q a) ++ l.filter q).Perm l := List.perm_append_comm.trans (filter_append_perm q l)
  have rest : (l.filter q).Perm (((l.filter q).erase b).take i ++ b :: ((l.filter q).erase b).drop i) := by
    refine (perm_cons_erase (List.mem_filter.mpr ⟨mem, kept⟩)).trans ?_
    refine List.Perm.trans ?_ List.perm_middle.symm
    rw [take_append_drop]
  refine split.symm.trans ?_
  rw [arrange, append_assoc]
  exact rest.append_left _

theorem filter_arrange [DecidableEq α] {b} (i : Nat) (kept : q b = true) :
    (arrange q b i l).filter q = ((l.filter q).erase b).take i ++ b :: ((l.filter q).erase b).drop i := by
  have none : (l.filter (fun a => !q a)).filter q = [] := by
    refine List.filter_eq_nil_iff.mpr fun a found => ?_
    simpa using (List.mem_filter.mp found).2
  have all : ∀ a ∈ (l.filter q).erase b, q a = true := fun a found => (List.mem_filter.mp (mem_of_mem_erase found)).2
  rw [arrange, append_assoc, filter_append, none, nil_append]
  refine List.filter_eq_self.mpr fun a found => ?_
  rcases List.mem_append.mp found with before | after
  · exact all a (mem_of_mem_take before)
  · rcases List.mem_cons.mp after with rfl | after
    · exact kept
    · exact all a (mem_of_mem_drop after)

/-- Where something is cut off, something is left out and something is found, there is a
score by which the cut takes away what is found otherwise. -/
theorem exists_dependent [DecidableEq κ] [DecidableEq α] {all m}
    (distinct : (all.map key).Nodup) (part : all.filter m = l) (imp : ∀ a ∈ l, p a = true → q a = true) (pos : 0 < k)
    (cut : k < l.length) (left : ∃ a ∈ l, q a = false) (found : ∃ a ∈ l, p a = true) :
    ∃ score : κ → Int, NoTies (score ∘ key) all ∧
      ((best (score ∘ key) k l).filter p).length < ((best (score ∘ key) k (l.filter q)).filter p).length := by
  obtain ⟨a, mem, out⟩ := left
  obtain ⟨b, mem', hit⟩ := found
  have kept := imp b mem' hit
  have some : 0 < (l.filter fun a => !q a).length :=
    length_pos_of_mem (List.mem_filter.mpr ⟨mem, by rw [out, Bool.not_false]⟩)
  have sizes : (l.filter q).length + (l.filter fun a => !q a).length = l.length := by
    rw [← length_append]
    exact (filter_append_perm q l).length_eq
  have rest : ((l.filter q).erase b).length = (l.filter q).length - 1 :=
    length_erase_of_mem (List.mem_filter.mpr ⟨mem', kept⟩)
  -- The place of `b` is beyond the cut, but not without what is left out.
  obtain ⟨score, noTies, order⟩ := exists_score distinct m
    (part ▸ perm_arrange (k - (l.filter fun a => !q a).length) mem' kept)
  refine ⟨score, noTies, ?_⟩
  rw [best, best, (part ▸ noTies.filter m : NoTies (score ∘ key) l).sorted_filter, ← part, order, part]
  have start := filter_take_prefix (k := k) (l := arrange q b (k - (l.filter fun a => !q a).length) l) fun a found =>
    imp a ((perm_arrange _ mem' kept).mem_iff.mpr found)
  refine lt_of_le_of_ne start.length_le fun same => ?_
  have shown : b ∈ (((arrange q b (k - (l.filter fun a => !q a).length) l).filter q).take k).filter p := by
    refine List.mem_filter.mpr ⟨?_, hit⟩
    rw [filter_arrange _ kept, take_append]
    refine mem_append_right _ ?_
    obtain ⟨n, more⟩ : ∃ n, k - (((l.filter q).erase b).take (k - (l.filter fun a => !q a).length)).length = n + 1 := by
      refine Nat.exists_eq_succ_of_ne_zero ?_
      rw [length_take]
      omega
    rw [more, take_succ_cons]
    exact mem_cons_self
  rw [← start.eq_of_length same, arrange, take_append_of_le_length] at shown
  · have before := mem_of_mem_take (mem_of_mem_filter shown)
    rcases List.mem_append.mp before with outside | inside
    · have not_kept := (List.mem_filter.mp outside).2
      rw [kept] at not_kept
      cases not_kept
    · have nodup : (l.filter q).Nodup := part ▸ ((distinct.of_map key).filter m).filter q
      exact nodup.not_mem_erase (mem_of_mem_take inside)
  · rw [length_append, length_take]
    omega

end Ranking
