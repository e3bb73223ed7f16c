import Mathlib.Logic.Basic

/-! Finite runs of a total step function: what guarded steps preserve holds at the end,
and what each guarded step establishes holds along the whole run. -/
namespace Runs
open List
variable {σ ι : Type}

def run (step : σ → ι → σ) : σ → List ι → σ
  | s, [] => s
  | s, i :: rest => run step (step s i) rest

/-- Every input of the run meets `ok` in the state it is applied to. -/
def Guarded (ok : σ → ι → Prop) (step : σ → ι → σ) : σ → List ι → Prop
  | _, [] => True
  | s, i :: rest => ok s i ∧ Guarded ok step (step s i) rest

instance decidableGuarded {ok : σ → ι → Prop} [∀ s i, Decidable (ok s i)] {step : σ → ι → σ} :
    (s : σ) → (inputs : List ι) → Decidable (Guarded ok step s inputs)
  | _, [] => .isTrue trivial
  | s, i :: rest => @instDecidableAnd _ _ _ (decidableGuarded (step s i) rest)

/-- `R` relates the states before and after every single step of the run. -/
def Along (R : σ → ι → σ → Prop) (step : σ → ι → σ) : σ → List ι → Prop
  | _, [] => True
  | s, i :: rest => R s i (step s i) ∧ Along R step (step s i) rest

variable {step : σ → ι → σ} {ok : σ → ι → Prop} {Inv : σ → Prop}

theorem guarded_of_forall (h : ∀ s i, ok s i) {s inputs} : Guarded ok step s inputs := by
  induction inputs generalizing s with
  | nil => trivial
  | cons i rest ih => exact ⟨h s i, ih⟩

theorem Guarded.and {ok' s inputs} (h : Guarded ok step s inputs)
    (h' : Guarded ok' step s inputs) : Guarded (fun s i => ok s i ∧ ok' s i) step s inputs := by
  induction inputs generalizing s with
  | nil => trivial
  | cons i rest ih => exact ⟨⟨h.1, h'.1⟩, ih h.2 h'.2⟩

theorem Guarded.imp {ok' s inputs} (h : Guarded ok step s inputs)
    (imp : ∀ s, ∀ i ∈ inputs, ok s i → ok' s i) : Guarded ok' step s inputs := by
  induction inputs generalizing s with
  | nil => trivial
  | cons i rest ih =>
    exact ⟨imp s i mem_cons_self h.1, ih h.2 fun s j mem => imp s j (mem_cons_of_mem i mem)⟩

/-- The invariant rule: initial truth and preservation by guarded steps. -/
theorem run_invariant (preserves : ∀ s i, Inv s → ok s i → Inv (step s i))
    {s inputs} (guarded : Guarded ok step s inputs) (initial : Inv s) : Inv (run step s inputs) := by
  induction inputs generalizing s with
  | nil => exact initial
  | cons i rest ih => exact ih guarded.2 (preserves s i initial guarded.1)

theorem run_preserves (preserves : ∀ s i, Inv s → Inv (step s i)) {s} (inputs : List ι)
    (initial : Inv s) : Inv (run step s inputs) := by
  induction inputs generalizing s with
  | nil => exact initial
  | cons i rest ih => exact ih (preserves s i initial)

/-- Step results may rest on an invariant that the same guarded steps preserve. -/
theorem along_of_guarded {R} (preserves : ∀ s i, Inv s → ok s i → Inv (step s i))
    (establishes : ∀ s i, Inv s → ok s i → R s i (step s i))
    {s inputs} (guarded : Guarded ok step s inputs) (initial : Inv s) : Along R step s inputs := by
  induction inputs generalizing s with
  | nil => trivial
  | cons i rest ih =>
    exact ⟨establishes s i initial guarded.1, ih guarded.2 (preserves s i initial guarded.1)⟩

/-- A property that the guarded steps are exactly those to keep holds all along a run if
and only if the run is guarded. -/
theorem forall_run_iff {P : σ → Prop} (exact : ∀ s i, Inv s → P s → (P (step s i) ↔ ok s i))
    (preserves : ∀ s i, Inv s → P s → P (step s i) → Inv (step s i)) {s inputs} (initial : Inv s)
    (first : P s) : (∀ n, P (run step s (inputs.take n))) ↔ Guarded ok step s inputs := by
  induction inputs generalizing s with
  | nil => exact iff_of_true (fun n => by rw [take_nil]; exact first) trivial
  | cons i rest ih =>
    constructor
    · intro all
      have next : P (step s i) := all 1
      refine ⟨(exact s i initial first).mp next, ?_⟩
      exact (ih (preserves s i initial first next) next).mp fun n => all (n + 1)
    · rintro ⟨met, guarded⟩ n
      have next : P (step s i) := (exact s i initial first).mpr met
      cases n with
      | zero => exact first
      | succ n => exact (ih (preserves s i initial first next) next).mpr guarded n

/-- What holds in the end and did not at first came to hold at some input. -/
theorem run_first {P : σ → Prop} {s inputs} (initial : ¬ P s) (final : P (run step s inputs)) :
    ∃ before i rest, inputs = before ++ i :: rest ∧ ¬ P (run step s before) ∧ P (step (run step s before) i) := by
  induction inputs generalizing s with
  | nil => exact absurd final initial
  | cons i rest ih =>
    by_cases now : P (step s i)
    · exact ⟨[], i, rest, rfl, initial, now⟩
    · obtain ⟨before, j, later, split, still, turned⟩ := ih now final
      exact ⟨i :: before, j, later, congrArg (i :: ·) split, still, turned⟩

/-- What each input brings about, ends or leaves alone holds if one has brought it about that no later one ends. -/
theorem run_iff {P : σ → Prop} {Makes Ends : ι → Prop} (one : ∀ s i, P (step s i) ↔ Makes i ∨ P s ∧ ¬ Ends i)
    {s inputs} : P (run step s inputs) ↔ (∃ before i after, inputs = before ++ i :: after ∧ Makes i ∧
      ∀ j ∈ after, ¬ Ends j) ∨ P s ∧ ∀ j ∈ inputs, ¬ Ends j := by
  induction inputs generalizing s with
  | nil => simp [run]
  | cons i rest ih =>
    rw [run, ih, one, forall_mem_cons]
    constructor
    · rintro (⟨before, j, after, rfl, made⟩ | ⟨made | ⟨held, kept⟩, later⟩)
      · exact .inl ⟨i :: before, j, after, rfl, made⟩
      · exact .inl ⟨[], i, rest, rfl, made, later⟩
      · exact .inr ⟨held, kept, later⟩
    · rintro (⟨_ | ⟨_, before⟩, j, after, split, made⟩ | ⟨held, kept, later⟩)
      · cases split
        exact .inr ⟨.inl made.1, made.2⟩
      · cases split
        exact .inl ⟨before, j, after, rfl, made⟩
      · exact .inr ⟨.inr ⟨held, kept⟩, later⟩

theorem Guarded.take {s inputs} (h : Guarded ok step s inputs) (n : Nat) : Guarded ok step s (inputs.take n) := by
  induction inputs generalizing s n with
  | nil => simpa using h
  | cons i rest ih =>
    cases n with
    | zero => trivial
    | succ n => exact ⟨h.1, ih h.2 n⟩

theorem Guarded.input {s inputs} (h : Guarded ok step s inputs) {n i}
    (input : inputs[n]? = some i) : ok (run step s (inputs.take n)) i := by
  induction inputs generalizing s n with
  | nil => cases input
  | cons j rest ih =>
    cases n with
    | zero =>
      cases input
      exact h.1
    | succ => exact ih h.2 input

theorem run_take_succ {s} {inputs : List ι} {n i} (input : inputs[n]? = some i) :
    run step s (inputs.take (n + 1)) = step (run step s (inputs.take n)) i := by
  induction inputs generalizing s n with
  | nil => cases input
  | cons j rest ih =>
    cases n with
    | zero =>
      cases input
      rfl
    | succ => exact ih input

/-- Induction along a run from one of its moments; there may be no further input. -/
theorem run_take_induction {P : Nat → σ → Prop} {s} {inputs : List ι} {m}
    (start : P m (run step s (inputs.take m))) (idle : ∀ n t, P n t → P (n + 1) t)
    (next : ∀ n i, m ≤ n → inputs[n]? = some i → P n (run step s (inputs.take n)) →
      P (n + 1) (step (run step s (inputs.take n)) i)) {n} (le : m ≤ n) : P n (run step s (inputs.take n)) := by
  induction le with
  | refl => exact start
  | @step n le ih =>
    cases input : inputs[n]? with
    | none =>
      have length := List.getElem?_eq_none_iff.mp input
      rw [take_of_length_le length] at ih
      rw [take_of_length_le (Nat.le_succ_of_le length)]
      exact idle n _ ih
    | some i =>
      rw [run_take_succ input]
      exact next n i le input ih

section Answers
variable {τ ο π : Type} {serve : σ → ι → σ × ο} {serve' : τ → ι → τ × π}

def answers (serve : σ → ι → σ × ο) : σ → List ι → List ο
  | _, [] => []
  | s, i :: rest => (serve s i).2 :: answers serve (serve s i).1 rest

/-- The simulation rule: one service answers as another where each call keeps a relation
between their states. -/
theorem answers_eq {R : σ → τ → Prop} {view s t inputs}
    (simulates : ∀ s t, ∀ i ∈ inputs, R s t → (serve s i).2 = view (serve' t i).2 ∧ R (serve s i).1 (serve' t i).1)
    (initial : R s t) : answers serve s inputs = (answers serve' t inputs).map view := by
  induction inputs generalizing s t with
  | nil => rfl
  | cons i rest ih =>
    obtain ⟨same, kept⟩ := simulates s t i mem_cons_self initial
    rw [answers, answers, map_cons, same, ih (fun s t j mem => simulates s t j (mem_cons_of_mem i mem)) kept]

end Answers

end Runs
