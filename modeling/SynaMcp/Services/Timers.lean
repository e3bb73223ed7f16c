import SynaMcp.Services.Schedules

/-! Schedules in memory over whole runs of `Set`, ticks and claims: when entries
fire, how far apart, and what becomes of the firings. -/
namespace SynaMcp
open Keyed List Table Function Schedules GoMaps Runs

namespace Schedules
section
variable [ServiceLib]

/-- The positive duration after `@every`, and otherwise a minute. -/
def interval (expr : String) : Time :=
  match (everyText expr).bind ServiceLib.parseDuration with
  | some d => if 0 < d then d else minute
  | none => minute

theorem nextFromCron_eq (expr : String) (start : Time) : nextFromCron expr start = start + interval expr := by
  unfold nextFromCron interval
  cases (everyText expr).bind ServiceLib.parseDuration with
  | none => rfl
  | some d => exact (apply_ite (start + ·) (0 < d) d minute).symm

end

def firings (now : Time) (choose : String → Nat → Nat) (objectID : String) (s : Schedules) : List Delivery :=
  (range (choose objectID) (s.mem objectID).rows).filterMap (due now objectID)

section
variable {now : Time} {choose : String → Nat → Nat} {objectID : String} {s : Schedules} {d : Delivery}
  {e : ScheduleEntry}

theorem due_eq_some : due now objectID e = some d ↔ e.enabled = true ∧ e.nextRunAt ≤ now ∧
    d = { objectID := objectID, entryName := e.name, runAt := now, task := e.task, data := e.data } := by
  unfold due
  split
  · next rests =>
    refine iff_of_false (by simp) ?_
    rintro ⟨enabled, reached, _⟩
    rcases rests with disabled | early
    · rw [enabled] at disabled
      cases disabled
    · exact absurd early (not_lt.mpr reached)
  · next fires =>
    obtain ⟨enabled, reached⟩ := not_or.mp fires
    rw [Option.some.injEq, and_iff_right (Bool.eq_true_of_not_eq_false enabled), and_iff_right (not_lt.mp reached)]
    exact eq_comm

theorem mem_firings : d ∈ firings now choose objectID s ↔
    ∃ e ∈ (s.mem objectID).rows, e.enabled = true ∧ e.nextRunAt ≤ now ∧
      d = { objectID := objectID, entryName := e.name, runAt := now, task := e.task, data := e.data } := by
  simp only [firings, mem_filterMap, GoMaps.mem_range, due_eq_some]

theorem firings_nodup : ((firings now choose objectID s).map Delivery.entryName).Nodup := by
  have sublist : ∀ entries : List ScheduleEntry,
      ((entries.filterMap (due now objectID)).map Delivery.entryName).Sublist (entries.map ScheduleEntry.name) := by
    intro entries
    induction entries with
    | nil => exact .slnil
    | cons e rest ih =>
      cases fires : due now objectID e with
      | none =>
        rw [filterMap_cons_none fires]
        exact ih.cons e.name
      | some =>
        rw [filterMap_cons_some fires, map_cons, map_cons, (due_eq_some.mp fires).2.2]
        exact ih.cons_cons e.name
  have names : ((range (choose objectID) (s.mem objectID).rows).map ScheduleEntry.name).Nodup :=
    ((range_perm (choose objectID) _).map ScheduleEntry.name).nodup_iff.mpr (s.mem objectID).nodup
  exact names.sublist (sublist _)

end

end Schedules

/-- Schedules with their history: what was queued for each object and what was
claimed of it, in order. -/
structure Timers where
  schedules : Schedules
  (fired claimed : String → List Delivery)

inductive TimerEvent where
  | set (now : Time) (scope : Scope) (name cronExpr task : String) (data : Option JsonObject)
  | fire (now : Time) (choose : String → Nat → Nat)
  | claim (objectID : String)

/-- The calls of `Set` that replace the entry. -/
def TimerEvent.Sets (objectID name : String) : TimerEvent → Prop
  | .set _ scope name' cronExpr task _ =>
    scope.kind = .schedule ∧ scope.objectID = objectID ∧ name' = name ∧ name ≠ "" ∧ cronExpr ≠ "" ∧ task ≠ ""
  | _ => False

namespace Timers

def empty : Timers where
  schedules := { mem := fun _ => .empty, del := fun _ => [] }
  fired _ := []
  claimed _ := []

section
variable [ServiceLib]

def step (σ : Timers) : TimerEvent → Timers
  | .set now scope name cronExpr task data =>
    { σ with schedules := (Schedules.set now scope name cronExpr task data σ.schedules).1 }
  | .fire now choose =>
    { σ with
      schedules := fireDueMemory now choose σ.schedules
      fired := fun objectID => σ.fired objectID ++ firings now choose objectID σ.schedules }
  | .claim objectID =>
    match claimMemory objectID σ.schedules with
    | (s, none) => { σ with schedules := s }
    | (s, some d) =>
      { σ with
        schedules := s
        claimed := update σ.claimed objectID (σ.claimed objectID ++ [d]) }

def before (events : List TimerEvent) (n : Nat) : Timers := run step empty (events.take n)

def FiresAt (events : List TimerEvent) (n : Nat) (now : Time) (objectID name : String) : Prop :=
  ∃ choose, events[n]? = some (.fire now choose) ∧
    ∃ d ∈ firings now choose objectID (before events n).schedules, d.entryName = name

def Accounted (σ : Timers) : Prop := ∀ objectID, σ.claimed objectID ++ σ.schedules.del objectID = σ.fired objectID

variable {σ : Timers}

theorem Accounted.step (h : Accounted σ) (ev : TimerEvent) : Accounted (σ.step ev) := by
  intro objectID
  cases ev with
  | set now scope name cronExpr task data =>
    have queued : (Schedules.set now scope name cronExpr task data σ.schedules).1.del = σ.schedules.del := by
      unfold Schedules.set
      split
      · rfl
      · split <;> rfl
    simp only [Timers.step, queued]
    exact h objectID
  | fire now choose =>
    show σ.claimed objectID ++ (σ.schedules.del objectID ++ firings now choose objectID σ.schedules) = _
    rw [← append_assoc, h objectID]
    rfl
  | claim other =>
    simp only [Timers.step, claimMemory]
    cases queue : σ.schedules.del other with
    | nil => exact h objectID
    | cons =>
      simp only
      by_cases same : objectID = other
      · subst same
        rw [update_self, update_self, append_assoc, ← h objectID, queue]
        rfl
      · rw [update_of_ne same, update_of_ne same]
        exact h objectID

/-- Only a `Set` of it and a tick in which it fires change an entry. -/
theorem get?_step {ev objectID name e}
    (found : (σ.schedules.mem objectID).get? name = some e) (kept : ¬ ev.Sets objectID name)
    (rests : ∀ now choose, ev = .fire now choose →
      ∀ d ∈ firings now choose objectID σ.schedules, d.entryName ≠ name) :
    ((σ.step ev).schedules.mem objectID).get? name = some e := by
  cases ev with
  | set now scope =>
    simp only [step, Schedules.set]
    split
    · exact found
    · next kind =>
      split
      · exact found
      · next given =>
        simp only [not_or] at given
        simp only
        by_cases own : objectID = scope.objectID
        · subst own
          rw [update_self, get?_put_of_ne]
          · exact found
          · intro same
            refine kept ⟨not_not.mp kind, rfl, same, ?_, given.2⟩
            exact same ▸ given.1
        · rw [update_of_ne own]
          exact found
  | fire now choose =>
    simp only [step, fireDueMemory]
    rw [get?_mapRows, found, Option.map_some]
    have name' : e.name = name := key_of_get? found
    have idle : e.enabled = false ∨ now < e.nextRunAt := by
      by_contra fires
      obtain ⟨enabled, reached⟩ := not_or.mp fires
      refine rests now choose rfl _ (Schedules.mem_firings.mpr
        ⟨e, mem_of_get? found, Bool.eq_true_of_not_eq_false enabled, not_lt.mp reached, rfl⟩) name'
    rw [advanced, if_pos idle]
  | claim =>
    simp only [step, claimMemory]
    split
    · next quiet =>
      split at quiet
      · cases quiet
        exact found
      · cases quiet
    · next claimed =>
      split at claimed
      · cases claimed
      · cases claimed
        exact found

theorem get?_step_fire {now choose objectID name d}
    (fires : d ∈ firings now choose objectID σ.schedules) (named : d.entryName = name) :
    ∃ e, (σ.schedules.mem objectID).get? name = some e ∧ e.nextRunAt ≤ now ∧
      ((σ.step (.fire now choose)).schedules.mem objectID).get? name =
        some { e with nextRunAt := now + interval e.cron, updatedAt := now } := by
  obtain ⟨e, row, enabled, reached, rfl⟩ := Schedules.mem_firings.mp fires
  have found : (σ.schedules.mem objectID).get? name = some e := named ▸ get?_of_mem row
  refine ⟨e, found, reached, ?_⟩
  have due : ¬ (e.enabled = false ∨ now < e.nextRunAt) := by
    rw [enabled]
    simpa using reached
  simp only [step, fireDueMemory]
  rw [get?_mapRows, found, Option.map_some, advanced, if_neg due, nextFromCron_eq]

variable {events : List TimerEvent}

theorem before_succ {n ev} (input : events[n]? = some ev) :
    before events (n + 1) = (before events n).step ev := run_take_succ input

theorem accounted_before (events : List TimerEvent) (n : Nat) : Accounted (before events n) := by
  have initial : Accounted empty := fun _ => rfl
  have preserves : ∀ σ ev, Accounted σ → Accounted (step σ ev) := fun σ ev h => h.step ev
  exact run_preserves preserves (events.take n) initial

/-- After it fired, an entry that is not set again keeps its next time until it fires. -/
theorem next_kept {i j now objectID name} (fires : FiresAt events i now objectID name)
    (unset : ∀ k, i < k → k < j → ∀ ev, events[k]? = some ev → ¬ ev.Sets objectID name)
    (quiet : ∀ k, i < k → k < j → ∀ t, ¬ FiresAt events k t objectID name) (later : i < j) :
    ∃ e e', ((before events i).schedules.mem objectID).get? name = some e ∧
      ((before events j).schedules.mem objectID).get? name = some e' ∧ e'.nextRunAt = now + interval e.cron := by
  obtain ⟨_, tick, _, fired, named⟩ := fires
  obtain ⟨e, found, _, next⟩ := get?_step_fire fired named
  refine ⟨e, { e with nextRunAt := now + interval e.cron, updatedAt := now }, found, ?_, rfl⟩
  have kept : ∀ n, i + 1 ≤ n → n ≤ j → ((before events n).schedules.mem objectID).get? name =
      some { e with nextRunAt := now + interval e.cron, updatedAt := now } := by
    intro n
    refine run_take_induction (P := fun n (σ : Timers) => n ≤ j → (σ.schedules.mem objectID).get? name =
      some { e with nextRunAt := now + interval e.cron, updatedAt := now }) ?_ ?_ ?_
    · intro _
      rw [run_take_succ tick]
      exact next
    · exact fun n σ held bound => held (Nat.le_of_succ_le bound)
    · intro n ev after input held bound
      refine get?_step (held (Nat.le_of_succ_le bound)) (unset n after bound ev input) ?_
      rintro t choose' rfl d' fired' named'
      exact quiet n after bound t ⟨choose', input, d', fired', named'⟩
  exact kept j later le_rfl

end

end Timers

/-- A tick fires each entry at most once, and only one whose time has come; an entry
that is not set again fires at the earliest one interval after it fired; and of each
object, what was claimed and what is queued are the firings so far, in order. -/
theorem memory_schedules_fire_on_time [ServiceLib] (events : List TimerEvent) :
    (∀ n now choose, events[n]? = some (.fire now choose) → ∀ objectID, ∃ new,
      (Timers.before events (n + 1)).fired objectID = (Timers.before events n).fired objectID ++ new ∧
      (new.map Delivery.entryName).Nodup ∧
      ∀ d ∈ new, d.objectID = objectID ∧ d.runAt = now ∧
        ∃ e ∈ ((Timers.before events n).schedules.mem objectID).rows,
          e.name = d.entryName ∧ e.enabled = true ∧ e.nextRunAt ≤ now ∧ d.task = e.task ∧ d.data = e.data) ∧
    (∀ i j now now' objectID name, i < j → Timers.FiresAt events i now objectID name →
      Timers.FiresAt events j now' objectID name →
      (∀ k, i < k → k < j → ∀ ev, events[k]? = some ev → ¬ ev.Sets objectID name) →
      (∀ k, i < k → k < j → ∀ t, ¬ Timers.FiresAt events k t objectID name) →
      ∃ e, ((Timers.before events i).schedules.mem objectID).get? name = some e ∧
        now + Schedules.interval e.cron ≤ now') ∧
    ∀ n objectID, (Timers.before events n).claimed objectID ++ (Timers.before events n).schedules.del objectID =
      (Timers.before events n).fired objectID := by
  refine ⟨?_, ?_, fun n => Timers.accounted_before events n⟩
  · intro n now choose tick objectID
    refine ⟨firings now choose objectID (Timers.before events n).schedules, ?_, firings_nodup, ?_⟩
    · rw [Timers.before_succ tick]
      rfl
    · intro d fires
      obtain ⟨e, row, enabled, reached, rfl⟩ := Schedules.mem_firings.mp fires
      exact ⟨rfl, rfl, e, row, rfl, enabled, reached, rfl, rfl⟩
  · intro i j now now' objectID name later fires fires' unset quiet
    obtain ⟨e, e', found, held, next⟩ := Timers.next_kept fires unset quiet later
    obtain ⟨_, _, _, fired, named⟩ := fires'
    obtain ⟨e'', found', reached, _⟩ := Timers.get?_step_fire fired named
    obtain rfl : e' = e'' := Option.some.inj (held.symm.trans found')
    exact ⟨e, found, next ▸ reached⟩

def timerScope : Scope :=
  { object := { id := "o", kind := .schedule }, method := "set", access := {}, principal := {} }

def timedRun : List TimerEvent :=
  [.set 0 timerScope "e" "daily" "ping" none, .fire minute (fun _ _ => 0), .fire (minute + 1) (fun _ _ => 0),
    .fire (2 * minute) (fun _ _ => 0), .claim "o"]

theorem timed_entry_waits_a_minute :
    ∃ e, ((@Timers.before .plain timedRun 1).schedules.mem "o").get? "e" = some e ∧
      minute + @Schedules.interval .plain e.cron ≤ 2 * minute := by
  refine (@memory_schedules_fire_on_time .plain timedRun).2.1 1 3 minute (2 * minute) "o" "e" (by decide)
    ⟨_, rfl, by decide⟩ ⟨_, rfl, by decide⟩ ?_ ?_
  · intro k after before ev input
    obtain rfl : k = 2 := by omega
    cases input
    exact id
  · rintro k after before t ⟨choose, input, d, fires, _⟩
    obtain rfl : k = 2 := by omega
    cases input
    have none : @Schedules.firings (minute + 1) (fun _ _ => 0) "o" (@Timers.before .plain timedRun 2).schedules = [] := by
      decide
    rw [none] at fires
    cases fires

end SynaMcp
