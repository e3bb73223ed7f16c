import Mathlib.Data.List.Basic

/-! What a reader of a log has still to be given: the records that are wanted and were
not given are due, in the order of their entries, and a reader takes as many of them as
it may. -/
namespace Backlog
open List
variable {ε μ : Type} [DecidableEq μ] (record : ε → μ) (wanted : μ → Bool)

def due (given : List μ) : List ε → List μ
  | [] => []
  | e :: rest =>
    if record e ∈ given ∨ wanted (record e) = false then due given rest
    else record e :: due (record e :: given) rest

variable {record wanted} {given : List μ} {entries later : List ε} {x : μ}

theorem due_cons {e} (new : record e ∉ given) (good : wanted (record e) = true) :
    due record wanted given (e :: entries) = record e :: due record wanted (record e :: given) entries := by
  rw [due, if_neg]
  exact not_or.mpr ⟨new, by rw [good]; exact Bool.noConfusion⟩

theorem due_skip {e} (passed : record e ∈ given ∨ wanted (record e) = false) :
    due record wanted given (e :: entries) = due record wanted given entries := by
  rw [due, if_pos passed]

theorem mem_due : x ∈ due record wanted given entries ↔
    x ∉ given ∧ wanted x = true ∧ ∃ e ∈ entries, record e = x := by
  induction entries generalizing given with
  | nil => simp [due]
  | cons e rest ih =>
    unfold due
    split
    · next skipped =>
      rw [ih, exists_mem_cons_iff]
      refine and_congr_right fun new => and_congr_right fun good => ⟨.inr, ?_⟩
      rintro (rfl | found)
      · rcases skipped with old | unwanted
        · exact absurd old new
        · cases good.symm.trans unwanted
      · exact found
    · next taken =>
      obtain ⟨new, good⟩ := not_or.mp taken
      rw [mem_cons, ih, mem_cons, exists_mem_cons_iff, not_or]
      constructor
      · rintro (rfl | ⟨⟨_, unseen⟩, wants, found⟩)
        · exact ⟨new, Bool.of_not_eq_false good, .inl rfl⟩
        · exact ⟨unseen, wants, .inr found⟩
      · rintro ⟨unseen, wants, rfl | found⟩
        · exact .inl rfl
        · by_cases same : x = record e
          · exact .inl same
          · exact .inr ⟨⟨same, unseen⟩, wants, found⟩

theorem nodup_due : (due record wanted given entries).Nodup := by
  induction entries generalizing given with
  | nil => exact nodup_nil
  | cons e rest ih =>
    unfold due
    split
    · exact ih
    · refine List.nodup_cons.mpr ⟨fun mem => ?_, ih⟩
      exact (mem_due.mp mem).1 mem_cons_self

omit [DecidableEq μ] in
theorem given_iff {first second : List μ} (new : ∀ x ∈ first, x ∉ given) (new' : ∀ x ∈ second, x ∉ given) :
    (∀ x, (x ∈ first ∨ x ∈ given) ↔ (x ∈ second ∨ x ∈ given)) ↔ ∀ x, x ∈ first ↔ x ∈ second := by
  refine ⟨fun same x => ⟨fun mem => ?_, fun mem => ?_⟩, fun same x => or_congr_left (same x)⟩
  · exact ((same x).mp (.inl mem)).resolve_right (new x mem)
  · exact ((same x).mpr (.inl mem)).resolve_right (new' x mem)

/-- A reader that goes on after the entries has lost no record if and only if those that
are due beyond its batch have later entries. -/
theorem reached_iff {size} (covered : ∀ x, wanted x = true → x ∈ given ∨ ∃ e ∈ entries ++ later, record e = x) :
    (∀ x, wanted x = true → (x ∈ (due record wanted given entries).take size ∨ x ∈ given) ∨ ∃ e ∈ later, record e = x) ↔
      ∀ x ∈ (due record wanted given entries).drop size, ∃ e ∈ later, record e = x := by
  constructor
  · intro reached x beyond
    obtain ⟨new, good, _⟩ := mem_due.mp (mem_of_mem_drop beyond)
    rcases reached x good with (taken | old) | found
    · exact absurd beyond (disjoint_take_drop nodup_due (Nat.le_refl size) taken)
    · exact absurd old new
    · exact found
  · intro left x good
    rcases covered x good with old | ⟨e, mem, rfl⟩
    · exact .inl (.inr old)
    · by_cases old : record e ∈ given
      · exact .inl (.inr old)
      · rcases List.mem_append.mp mem with inside | after
        · have mine : record e ∈ due record wanted given entries := mem_due.mpr ⟨old, good, e, inside, rfl⟩
          rw [← take_append_drop size (due record wanted given entries), mem_append] at mine
          exact mine.imp .inl (left _)
        · exact .inr ⟨e, after, rfl⟩

end Backlog
