import SynaMcp.Lib.Table

/-! A table of tasks that workers take, work on and give back. A task is tried a number
of times at most, and no two tasks of one topic are under way. -/
namespace Leases
open Function (update update_self update_of_ne)
open Keyed Table

inductive Phase where
  | waiting
  | taken
  | past
  deriving DecidableEq

structure View (ρ τ : Type) where
  topic : ρ → τ
  phase : ρ → Phase
  (tries limit : ρ → Nat)

/-- The tasks, the task that each worker holds, as it was when it was taken, and the
keys of the tasks that were taken, the latest first. -/
structure Queue {ρ κ : Type} (key : ρ → κ) (ω : Type) where
  rows : Table key
  held : ω → Option ρ
  log : List κ

section
variable {ρ κ τ ω : Type} {key : ρ → κ}

def Queue.empty : Queue key ω where
  rows := .empty
  held _ := none
  log := []

structure View.Same (V : View ρ τ) (key : ρ → κ) (r r' : ρ) : Prop where
  key : key r' = key r
  topic : V.topic r' = V.topic r
  limit : V.limit r' = V.limit r

variable [DecidableEq κ] (V : View ρ τ)

inductive Step [DecidableEq ω] (q : Queue key ω) : Queue key ω → Prop where
  | still : Step q q
  | added {r} (new : ¬ q.rows.Has (key r)) (waiting : V.phase r = .waiting) (untried : V.tries r = 0)
      (alone : ∀ x ∈ q.rows.rows, V.phase x ≠ .past → V.topic x ≠ V.topic r) :
      Step q { q with rows := q.rows.put r }
  | took {w r r'} (idle : q.held w = none) (row : r ∈ q.rows.rows) (waiting : V.phase r = .waiting)
      (left : V.tries r < V.limit r) (same : V.Same key r r') (taken : V.phase r' = .taken)
      (tries : V.tries r' = V.tries r + 1) :
      Step q { rows := q.rows.put r', held := update q.held w (some r'), log := key r' :: q.log }
  | gave {w c c'} (held : q.held w = some c) (same : V.Same key c c') (back : V.phase c' ≠ .taken)
      (tries : V.tries c' = V.tries c) :
      Step q { q with rows := q.rows.put c', held := update q.held w none }
  /-- A worker is gone. -/
  | dropped {w} : Step q { q with held := update q.held w none }
  /-- Tasks that nobody holds may be taken again. -/
  | reopened {f} (keeps : ∀ r, key (f r) = key r)
      (change : ∀ r ∈ q.rows.rows, f r = r ∨ V.Same key r (f r) ∧ V.phase r = .taken ∧ V.phase (f r) = .waiting ∧
        V.tries (f r) = V.tries r ∧ ∀ w c, q.held w = some c → key c ≠ key r) :
      Step q { q with rows := q.rows.mapRows f keeps }

/-- Each worker holds its own task, no topic has two tasks under way, and a task was
taken as often as it counts, and not too often. -/
structure Inv (q : Queue key ω) : Prop where
  held : ∀ w c, q.held w = some c → c ∈ q.rows.rows ∧ V.phase c = .taken
  apart : ∀ w w' c c', q.held w = some c → q.held w' = some c' → key c = key c' → w = w'
  once : ∀ r ∈ q.rows.rows, ∀ r' ∈ q.rows.rows, V.phase r ≠ .past → V.phase r' ≠ .past → V.topic r = V.topic r' →
    r = r'
  count : ∀ r ∈ q.rows.rows, q.log.count (key r) = V.tries r ∧ V.tries r ≤ V.limit r
  known : ∀ k ∈ q.log, q.rows.Has k

variable {V} {q q' : Queue key ω} {r r' c c' : ρ} {w : ω}

theorem inv_empty : Inv V (Queue.empty : Queue key ω) where
  held _ _ equal := by cases equal
  apart _ _ _ _ equal := by cases equal
  once _ mem := by cases mem
  count _ mem := by cases mem
  known _ mem := by cases mem

namespace Inv

theorem not_held (h : Inv V q) (row : r ∈ q.rows.rows) (phase : V.phase r ≠ .taken) (held : q.held w = some c) :
    key c ≠ key r := by
  intro same
  obtain ⟨row', taken⟩ := h.held w c held
  exact phase (eq_of_key_eq row' row same ▸ taken)

/-- One row changes, to a task of its own topic that was not over: the topics stay apart. -/
theorem once_put (h : Inv V q) (row : r ∈ q.rows.rows) (same : V.Same key r r') (phase : V.phase r ≠ .past) :
    ∀ x ∈ (q.rows.put r').rows, ∀ y ∈ (q.rows.put r').rows, V.phase x ≠ .past → V.phase y ≠ .past →
      V.topic x = V.topic y → x = y := by
  -- A row other than the changed one has another topic than the changed one.
  have other : ∀ x ∈ q.rows.rows, key x ≠ key r' → V.phase x ≠ .past → V.topic x ≠ V.topic r' := by
    intro x mem apart under topic
    have equal := h.once x mem r row under phase (topic.trans same.topic)
    exact apart (by rw [equal, same.key])
  intro x memX y memY underX underY topic
  rcases Table.mem_put.mp memX with rfl | ⟨oldX, apartX⟩
  · rcases Table.mem_put.mp memY with rfl | ⟨oldY, apartY⟩
    · rfl
    · exact absurd topic.symm (other y oldY apartY underY)
  · rcases Table.mem_put.mp memY with rfl | ⟨oldY, _⟩
    · exact absurd topic (other x oldX apartX underX)
    · exact h.once x oldX y oldY underX underY topic

theorem added (h : Inv V q) (new : ¬ q.rows.Has (key r)) (untried : V.tries r = 0)
    (alone : ∀ x ∈ q.rows.rows, V.phase x ≠ .past → V.topic x ≠ V.topic r) :
    Inv V { q with rows := q.rows.put r } where
  held w c holds := by
    obtain ⟨row, taken⟩ := h.held w c holds
    exact ⟨Table.mem_put.mpr (.inr ⟨row, fun same => new (same ▸ has_of_mem row)⟩), taken⟩
  apart := h.apart
  once x memX y memY underX underY topic := by
    rcases Table.mem_put.mp memX with rfl | ⟨oldX, _⟩
    · rcases Table.mem_put.mp memY with rfl | ⟨oldY, _⟩
      · rfl
      · exact absurd topic.symm (alone y oldY underY)
    · rcases Table.mem_put.mp memY with rfl | ⟨oldY, _⟩
      · exact absurd topic (alone x oldX underX)
      · exact h.once x oldX y oldY underX underY topic
  count x mem := by
    rcases Table.mem_put.mp mem with rfl | ⟨mem, _⟩
    · have unseen : key x ∉ q.log := fun seen => new (h.known _ seen)
      rw [untried]
      exact ⟨List.count_eq_zero_of_not_mem unseen, Nat.zero_le _⟩
    · exact h.count x mem
  known k mem := Table.has_put.mpr (.inr (h.known k mem))

theorem reopened (h : Inv V q) {f} (keeps : ∀ r, key (f r) = key r)
    (change : ∀ r ∈ q.rows.rows, f r = r ∨ V.Same key r (f r) ∧ V.phase r = .taken ∧ V.phase (f r) = .waiting ∧
      V.tries (f r) = V.tries r ∧ ∀ w c, q.held w = some c → key c ≠ key r) :
    Inv V { q with rows := q.rows.mapRows f keeps } := by
  -- A changed row was under way, with the same topic, tries and limit.
  have view : ∀ r ∈ q.rows.rows, V.topic (f r) = V.topic r ∧ V.tries (f r) = V.tries r ∧ V.limit (f r) = V.limit r ∧
      (V.phase (f r) ≠ .past → V.phase r ≠ .past) := by
    intro r mem
    rcases change r mem with equal | ⟨same, phase, _, tries, _⟩
    · rw [equal]
      exact ⟨rfl, rfl, rfl, id⟩
    · exact ⟨same.topic, tries, same.limit, fun _ => by rw [phase]; decide⟩
  refine ⟨fun w c holds => ?_, h.apart, fun x memX y memY underX underY topic => ?_, fun x mem => ?_, fun k mem => ?_⟩
  · obtain ⟨row, taken⟩ := h.held w c holds
    rcases change c row with equal | ⟨_, _, _, _, free⟩
    · exact ⟨List.mem_map.mpr ⟨c, row, equal⟩, taken⟩
    · exact absurd rfl (free w c holds)
  · obtain ⟨r, row, rfl⟩ := List.mem_map.mp memX
    obtain ⟨r', row', rfl⟩ := List.mem_map.mp memY
    obtain ⟨topicX, _, _, phaseX⟩ := view r row
    obtain ⟨topicY, _, _, phaseY⟩ := view r' row'
    rw [topicX, topicY] at topic
    rw [h.once r row r' row' (phaseX underX) (phaseY underY) topic]
  · obtain ⟨r, row, rfl⟩ := List.mem_map.mp mem
    obtain ⟨_, tries, limit, _⟩ := view r row
    rw [keeps, tries, limit]
    exact h.count r row
  · obtain ⟨r, row, rfl⟩ := h.known k mem
    exact ⟨f r, List.mem_map.mpr ⟨r, row, rfl⟩, keeps r⟩

variable [DecidableEq ω]

theorem took (h : Inv V q) (row : r ∈ q.rows.rows) (waiting : V.phase r = .waiting) (left : V.tries r < V.limit r)
    (same : V.Same key r r') (taken : V.phase r' = .taken) (tries : V.tries r' = V.tries r + 1) :
    Inv V { rows := q.rows.put r', held := update q.held w (some r'), log := key r' :: q.log } := by
  have free : ∀ w c, q.held w = some c → key c ≠ key r' := fun w c held =>
    same.key ▸ h.not_held row (by rw [waiting]; decide) held
  refine ⟨fun v c holds => ?_, fun v v' c c' holds holds' equal => ?_,
    h.once_put row same (by rw [waiting]; decide), fun x mem => ?_, fun k mem => ?_⟩
  · by_cases own : v = w
    · subst own
      simp only [update_self, Option.some.injEq] at holds
      subst holds
      exact ⟨Table.mem_put.mpr (.inl rfl), taken⟩
    · simp only [update_of_ne own] at holds
      obtain ⟨row', phase⟩ := h.held v c holds
      exact ⟨Table.mem_put.mpr (.inr ⟨row', free v c holds⟩), phase⟩
  · by_cases own : v = w <;> by_cases own' : v' = w
    · rw [own, own']
    · subst own
      simp only [update_self, Option.some.injEq, update_of_ne own'] at holds holds'
      subst holds
      exact absurd equal.symm (free v' c' holds')
    · subst own'
      simp only [update_self, Option.some.injEq, update_of_ne own] at holds holds'
      subst holds'
      exact absurd equal (free v c holds)
    · simp only [update_of_ne own, update_of_ne own'] at holds holds'
      exact h.apart v v' c c' holds holds' equal
  · rcases Table.mem_put.mp mem with rfl | ⟨mem, other⟩
    · obtain ⟨count, _⟩ := h.count r row
      rw [List.count_cons_self, same.key, count, tries, same.limit]
      exact ⟨rfl, left⟩
    · rw [List.count_cons_of_ne (Ne.symm other)]
      exact h.count x mem
  · rcases List.mem_cons.mp mem with rfl | mem
    · exact Table.has_put.mpr (.inl rfl)
    · exact Table.has_put.mpr (.inr (h.known k mem))

omit [DecidableEq κ] in
theorem held_update {v d} (holds : update q.held w none v = some d) : v ≠ w ∧ q.held v = some d := by
  have other : v ≠ w := by
    rintro rfl
    simp only [update_self] at holds
    cases holds
  rw [update_of_ne other] at holds
  exact ⟨other, holds⟩

theorem dropped (h : Inv V q) : Inv V { q with held := update q.held w none } where
  held v d holds := h.held v d (held_update holds).2
  apart v v' d d' holds holds' equal := h.apart v v' d d' (held_update holds).2 (held_update holds').2 equal
  once := h.once
  count := h.count
  known := h.known

theorem gave (h : Inv V q) (held : q.held w = some c) (same : V.Same key c c') (tries : V.tries c' = V.tries c) :
    Inv V { q with rows := q.rows.put c', held := update q.held w none } := by
  obtain ⟨row, taken⟩ := h.held w c held
  refine ⟨fun v d holds => ?_, fun v v' d d' holds holds' equal => ?_,
    h.once_put row same (by rw [taken]; decide), fun x mem => ?_, fun k mem => ?_⟩
  · obtain ⟨other, holds⟩ := held_update holds
    obtain ⟨row', phase⟩ := h.held v d holds
    refine ⟨Table.mem_put.mpr (.inr ⟨row', fun equal => other ?_⟩), phase⟩
    exact h.apart v w d c holds held (equal.trans same.key)
  · exact h.apart v v' d d' (held_update holds).2 (held_update holds').2 equal
  · rcases Table.mem_put.mp mem with rfl | ⟨mem, _⟩
    · rw [same.key, tries, same.limit]
      exact h.count c row
    · exact h.count x mem
  · exact Table.has_put.mpr (.inr (h.known k mem))

theorem step (h : Inv V q) (step : Step V q q') : Inv V q' := by
  cases step with
  | still => exact h
  | added new _ untried alone => exact h.added new untried alone
  | took _ row waiting left same taken tries => exact h.took row waiting left same taken tries
  | gave held same _ tries => exact h.gave held same tries
  | dropped => exact h.dropped
  | reopened keeps change => exact h.reopened keeps change

theorem past_stays (h : Inv V q) (step : Step V q q') (row : r ∈ q.rows.rows) (past : V.phase r = .past) :
    r ∈ q'.rows.rows := by
  cases step with
  | still => exact row
  | added new => exact Table.mem_put.mpr (.inr ⟨row, fun same => new (same ▸ has_of_mem row)⟩)
  | @took _ x _ _ row' waiting _ same =>
    refine Table.mem_put.mpr (.inr ⟨row, fun equal => ?_⟩)
    have changed : r = x := eq_of_key_eq row row' (equal.trans same.key)
    rw [changed, waiting] at past
    cases past
  | @gave w c _ held same =>
    obtain ⟨row', taken⟩ := h.held w c held
    refine Table.mem_put.mpr (.inr ⟨row, fun equal => ?_⟩)
    have changed : r = c := eq_of_key_eq row row' (equal.trans same.key)
    rw [changed, taken] at past
    cases past
  | dropped => exact row
  | reopened keeps change =>
    rcases change r row with equal | ⟨_, taken, _⟩
    · exact List.mem_map.mpr ⟨r, row, equal⟩
    · rw [taken] at past
      cases past

end Inv
end
end Leases
