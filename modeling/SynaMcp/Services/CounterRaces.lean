import Mathlib.Tactic.Ring
import SynaMcp.Lib.Run

/-! Calls of `Increase` and `Decrease` side by side, with exact values. A call reads the
value and writes its sum later: in memory without Redis twice, each in a section of its
own; in memory with Redis once; in Postgres by an upsert, whose row stays locked up to
the commit. -/
namespace SynaMcp
open List

inductive CounterPath where
  | memory
  | memoryRedis
  | postgres

def CounterPath.writes : CounterPath → Nat
  | .memory => 2
  | .memoryRedis => 1
  | .postgres => 1

/-- A call of `adjust`: its argument, what it has read, and the writes that are left. -/
structure Adjusting where
  (delta current : ℚ)
  left : Nat

def Adjusting.next (c : Adjusting) : ℚ := c.current + if c.delta = 0 then 1 else c.delta

/-- A call begins by reading; a call of that number makes its next write. -/
inductive CounterStep where
  | increase (delta : ℚ)
  | decrease (delta : ℚ)
  | write (k : Nat)

def CounterStep.NonZero : CounterStep → Prop
  | .increase delta => delta ≠ 0
  | .decrease delta => delta ≠ 0
  | .write _ => True

structure CounterRun where
  value : ℚ
  calls : List Adjusting := []

namespace CounterRun
variable {path : CounterPath} {initial : ℚ} {s : CounterRun}

def adjust (path : CounterPath) (s : CounterRun) (delta : ℚ) : CounterRun :=
  { s with calls := s.calls ++ [⟨delta, s.value, path.writes⟩] }

def step (path : CounterPath) (s : CounterRun) : CounterStep → CounterRun
  | .increase delta => s.adjust path delta
  | .decrease delta => s.adjust path (-delta)
  | .write k =>
    match s.calls[k]? with
    | none => s
    | some c => if c.left = 0 then s else ⟨c.next, s.calls.set k { c with left := c.left - 1 }⟩

/-- A first write finds what the call has read, and a second one what it has written. -/
def Undisturbed (path : CounterPath) (s : CounterRun) : CounterStep → Prop
  | .write k => ∀ c, s.calls[k]? = some c → c.left ≠ 0 →
      s.value = if c.left = path.writes then c.current else c.next
  | _ => True

def landed (path : CounterPath) (c : Adjusting) : ℚ := if c.left = path.writes then 0 else c.delta

structure Kept (path : CounterPath) (initial : ℚ) (s : CounterRun) : Prop where
  value : s.value = initial + (s.calls.map (landed path)).sum
  delta : ∀ c ∈ s.calls, c.delta ≠ 0 ∧ c.left ≤ path.writes

theorem sum_set {f : Adjusting → ℚ} {l : List Adjusting} {k c c'} (h : l[k]? = some c) :
    ((l.set k c').map f).sum = (l.map f).sum - f c + f c' := by
  induction l generalizing k with
  | nil => cases h
  | cons a l ih =>
    cases k with
    | zero =>
      cases h
      simp only [set_cons_zero, map_cons, sum_cons]
      ring
    | succ =>
      simp only [set_cons_succ, map_cons, sum_cons, ih h]
      ring

theorem Kept.adjust (h : s.Kept path initial) {delta} (nonzero : delta ≠ 0) :
    (s.adjust path delta).Kept path initial := by
  constructor
  · simpa [CounterRun.adjust, landed] using h.value
  · intro c mem
    rcases List.mem_append.mp mem with old | new
    · exact h.delta c old
    · rw [List.mem_singleton.mp new]
      exact ⟨nonzero, le_rfl⟩

theorem Kept.step (h : s.Kept path initial) {e : CounterStep} (nonzero : e.NonZero)
    (met : Undisturbed path s e) : (s.step path e).Kept path initial := by
  cases e with
  | increase => exact h.adjust nonzero
  | decrease => exact h.adjust (neg_ne_zero.mpr nonzero)
  | write k =>
    cases call : s.calls[k]? with
    | none =>
      simp only [CounterRun.step, call]
      exact h
    | some c =>
      by_cases past : c.left = 0
      · simpa only [CounterRun.step, call, past, if_true] using h
      · obtain ⟨nonzero, le⟩ := h.delta c (mem_of_getElem? call)
        simp only [CounterRun.step, call, past, if_false]
        constructor
        · have found := met c call past
          have value := h.value
          have after : c.left - 1 ≠ path.writes := by omega
          rw [sum_set call, landed, landed, if_neg after]
          by_cases first : c.left = path.writes
          · rw [if_pos first] at found ⊢
            rw [Adjusting.next, if_neg nonzero, ← found, value]
            ring
          · rw [if_neg first] at found ⊢
            rw [← found, value]
            ring
        · intro c' mem
          rcases mem_or_eq_of_mem_set mem with old | rfl
          · exact h.delta c' old
          · exact ⟨nonzero, (Nat.sub_le _ _).trans le⟩

end CounterRun

/-- Where each call writes only while the counter has what the call read, or wrote
before: when all have returned, the counter has every delta. -/
theorem counter_keeps_updates (path : CounterPath) (initial : ℚ) (steps : List CounterStep)
    (nonzero : ∀ e ∈ steps, e.NonZero)
    (met : Runs.Guarded (CounterRun.Undisturbed path) (CounterRun.step path) ⟨initial, []⟩ steps) :
    let s := Runs.run (CounterRun.step path) ⟨initial, []⟩ steps
    (∀ c ∈ s.calls, c.left = 0) → s.value = initial + (s.calls.map Adjusting.delta).sum := by
  intro s returned
  have both := met.imp fun s e mem met => And.intro (nonzero e mem) met
  have kept : s.Kept path initial := Runs.run_invariant (fun s e h met => h.step met.1 met.2) both ⟨by simp, by simp⟩
  rw [kept.value, map_congr_left fun c mem => ?_]
  rw [CounterRun.landed, returned c mem, if_neg]
  cases path <;> decide

theorem counter_keeps_two_updates :
    (Runs.run (CounterRun.step .postgres) ⟨5, []⟩ [.increase 2, .write 0, .decrease 1, .write 1]).value =
      5 + (2 + (-1 + 0)) := by
  refine counter_keeps_updates .postgres 5 [.increase 2, .write 0, .decrease 1, .write 1] ?_ ?_ (by decide)
  · simp [CounterStep.NonZero]
  · refine ⟨trivial, ?_, trivial, ?_, trivial⟩
    · rintro _ ⟨⟩ _
      rfl
    · rintro _ ⟨⟩ _
      rfl

def sameRead (path : CounterPath) : CounterRun :=
  Runs.run (CounterRun.step path) ⟨0, []⟩ [.increase 1, .increase 1, .write 0, .write 0, .write 1, .write 1]

theorem counter_loses_an_update :
    ((∀ c ∈ (sameRead .memory).calls, c.left = 0) ∧
      (sameRead .memory).value ≠ 0 + ((sameRead .memory).calls.map Adjusting.delta).sum) ∧
    (∀ c ∈ (sameRead .postgres).calls, c.left = 0) ∧
      (sameRead .postgres).value ≠ 0 + ((sameRead .postgres).calls.map Adjusting.delta).sum := by
  decide +kernel

end SynaMcp
