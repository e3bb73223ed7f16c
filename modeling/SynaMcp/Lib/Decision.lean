import Mathlib.Data.Set.Basic
import Mathlib.Data.List.Basic

/-! An access decision over a set of bindings: a request passes the gate and is then
granted by some binding or let through by a fallback, which applies only while no
binding engages the decision. So it is neither monotone nor antitone in its bindings. -/
namespace Bindings
open List

section Collect
variable {β ρ : Type} [DecidableEq ρ]

/-- The set of rights that the applicable bindings of a list carry, built binding
by binding and right by right. -/
def collect (applies : β → Bool) (rights : β → List ρ) (acl : List β) : List ρ :=
  acl.foldl (fun acc b => if applies b then (rights b).foldl (fun acc r => acc.insert r) acc else acc) []

theorem mem_foldl_insert {rs acc : List ρ} {r} : r ∈ rs.foldl (fun acc r => acc.insert r) acc ↔ r ∈ acc ∨ r ∈ rs := by
  induction rs generalizing acc with
  | nil => simp
  | cons x rest ih =>
    simp only [foldl_cons, ih, mem_insert_iff, mem_cons]
    tauto

theorem mem_collect {applies : β → Bool} {rights acl} {r : ρ} :
    r ∈ collect applies rights acl ↔ ∃ b ∈ acl, applies b = true ∧ r ∈ rights b := by
  -- the invariant of the outer loop: what was there before, or what a binding seen so far carries
  have loop : ∀ acc : List ρ,
      r ∈ acl.foldl (fun acc b =>
          if applies b then (rights b).foldl (fun acc r => acc.insert r) acc else acc) acc ↔
        r ∈ acc ∨ ∃ b ∈ acl, applies b = true ∧ r ∈ rights b := by
    induction acl with
    | nil => simp
    | cons b rest ih =>
      intro acc
      rw [foldl_cons, ih]
      cases hb : applies b with
      | false => simp [hb]
      | true =>
        simp only [if_true, mem_foldl_insert, mem_cons, exists_eq_or_imp, hb, true_and, or_assoc]
  simpa [collect] using loop []

theorem collect_eq_nil_iff {applies} {rights : β → List ρ} {acl} :
    collect applies rights acl = [] ↔ ∀ b ∈ acl, applies b = true → rights b = [] := by
  constructor
  · intro empty b hb happ
    rw [eq_nil_iff_forall_not_mem] at empty ⊢
    intro r hr
    exact empty r (mem_collect.mpr ⟨b, hb, happ, hr⟩)
  · intro none
    rw [eq_nil_iff_forall_not_mem]
    intro r hr
    obtain ⟨b, hb, happ, hr⟩ := mem_collect.mp hr
    rw [none b hb happ] at hr
    exact not_mem_nil hr

end Collect

structure Decision (β : Type) where
  (gate fallback : Prop)
  (grants engages : β → Prop)
  engages_of_grants : ∀ b, grants b → engages b

namespace Decision
variable {β : Type} (D : Decision β)

def Granted (acl : Set β) : Prop := ∃ b ∈ acl, D.grants b

def Engaged (acl : Set β) : Prop := ∃ b ∈ acl, D.engages b

def Allows (acl : Set β) : Prop := D.gate ∧ (D.Granted acl ∨ (D.fallback ∧ ¬ D.Engaged acl))

variable {D} {A B : Set β}

theorem Granted.mono (h : D.Granted A) (sub : A ⊆ B) : D.Granted B := by
  obtain ⟨b, hb, hg⟩ := h
  exact ⟨b, sub hb, hg⟩

theorem Granted.engaged (h : D.Granted A) : D.Engaged A := by
  obtain ⟨b, hb, hg⟩ := h
  exact ⟨b, hb, D.engages_of_grants b hg⟩

theorem Allows.gate (h : D.Allows A) : D.gate := h.1

theorem allows_iff_granted (none : ¬ D.fallback) : D.Allows A ↔ D.gate ∧ D.Granted A := by
  constructor
  · rintro ⟨hg, h | ⟨hf, _⟩⟩
    · exact ⟨hg, h⟩
    · exact absurd hf none
  · rintro ⟨hg, h⟩
    exact ⟨hg, .inl h⟩

/-- What more bindings keep of a decision that was positive: it stays positive
exactly when some binding grants it or still none engages it. -/
theorem allows_extend_iff (sub : A ⊆ B) (h : D.Allows A) : D.Allows B ↔ (D.Granted B ∨ ¬ D.Engaged B) := by
  constructor
  · rintro ⟨_, hB | ⟨_, hB⟩⟩
    · exact .inl hB
    · exact .inr hB
  · rintro (hB | hB)
    · exact ⟨h.gate, .inl hB⟩
    · rcases h.2 with hA | ⟨hf, _⟩
      · exact absurd (hA.mono sub).engaged hB
      · exact ⟨h.gate, .inr ⟨hf, hB⟩⟩

theorem granted_union : D.Granted (A ∪ B) ↔ D.Granted A ∨ D.Granted B := by
  simp only [Granted, Set.mem_union, or_and_right, exists_or]

theorem engaged_union : D.Engaged (A ∪ B) ↔ D.Engaged A ∨ D.Engaged B := by
  simp only [Engaged, Set.mem_union, or_and_right, exists_or]

/-- More bindings `B` change nothing exactly when, past the gate, what they grant was
allowed already, and where one of them engages a fallback that was open, they grant. -/
theorem allows_union_iff : (D.Allows (A ∪ B) ↔ D.Allows A) ↔
      (D.gate → (D.Granted B → D.Granted A ∨ (D.fallback ∧ ¬ D.Engaged A)) ∧
        (D.Engaged B → D.fallback → D.Engaged A ∨ D.Granted B)) := by
  simp only [Allows, granted_union, engaged_union, not_or]
  constructor
  · intro agree gate
    refine ⟨fun granted => (agree.mp ⟨gate, .inl (.inr granted)⟩).2, fun engaged fallback => ?_⟩
    by_cases before : D.Engaged A
    · exact .inl before
    · rcases (agree.mpr ⟨gate, .inr ⟨fallback, before⟩⟩).2 with (old | new) | ⟨_, _, none⟩
      · exact absurd old.engaged before
      · exact .inr new
      · exact absurd engaged none
  · intro cond
    constructor
    · rintro ⟨gate, (old | new) | ⟨fallback, none, _⟩⟩
      · exact ⟨gate, .inl old⟩
      · exact ⟨gate, (cond gate).1 new⟩
      · exact ⟨gate, .inr ⟨fallback, none⟩⟩
    · rintro ⟨gate, old | ⟨fallback, none⟩⟩
      · exact ⟨gate, .inl (.inl old)⟩
      · by_cases engaged : D.Engaged B
        · rcases (cond gate).2 engaged fallback with before | new
          · exact absurd before none
          · exact ⟨gate, .inl (.inr new)⟩
        · exact ⟨gate, .inr ⟨fallback, none, engaged⟩⟩

end Decision
end Bindings
