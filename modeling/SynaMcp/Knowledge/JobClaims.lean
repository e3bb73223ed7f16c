import SynaMcp.Knowledge.Jobs
import SynaMcp.Lib.Run

/-! Workers that claim jobs and mark them, in any interleaving, over either job store.
In Postgres a `Claim` is two steps: the subselect locks a row, and the update commits. -/
namespace SynaMcp
variable {ω : Type}
open Keyed Function List Runs

/-- The store, the rows that a `Claim` under way has locked, the job that each worker
is at, as `Claim` returned it, and the ids that were claimed, the latest first. -/
structure JobSystem (ω : Type) where
  store : JobStore := .empty
  selected : List (ω × String) := []
  held : ω → Option Job := fun _ => none
  claims : List String := []

inductive JobEvent (ω : Type) where
  | enqueue (docID : String) (kind : JobKind) (maxAttempts : Int)
  /-- The subselect of a `Claim`, in Postgres. -/
  | select (w : ω)
  /-- `Claim` in memory, and in Postgres the update of the row that was selected. -/
  | claim (w : ω)
  | complete (w : ω)
  | fail (w : ω) (error : String)
  /-- The worker is gone, and what it has locked is free. -/
  | crash (w : ω)
  | recover (staleAfter : Int)
  deriving DecidableEq

def JobEvent.recovers : JobEvent ω → Bool
  | .recover _ => true
  | _ => false

namespace JobSystem
section
variable {ω : Type} [DecidableEq ω] (s : JobSystem ω)

def locked (id : String) : Bool := s.selected.any fun p => decide (p.2 = id)

def take (w : ω) (j : Job) : JobSystem ω where
  store := { s.store with jobs := s.store.jobs.put j }
  selected := s.selected.filter fun p => !decide (p.1 = w)
  held := update s.held w (some j)
  claims := j.id :: s.claims

def give (w : ω) (store : JobStore) : JobSystem ω :=
  { s with store := store, held := update s.held w none }

variable (env : JobEnv) (s : JobSystem ω) (w : ω)

/-- A row that another `Claim` has locked is passed over. -/
def select : JobSystem ω :=
  if (s.held w).isSome ∨ s.selected.any (fun p => decide (p.1 = w)) then s
  else
    match s.store.candidate env.order (fun id => env.skip id || s.locked id) with
    | none => s
    | some j => { s with selected := (w, j.id) :: s.selected }

def updateSelected : JobSystem ω :=
  match s.selected.find? fun p => decide (p.1 = w) with
  | none => s
  | some (_, id) =>
    match s.store.jobs.get? id with
    | none => s
    | some j => s.take w (j.claimed env.now)

def claimMemory : JobSystem ω :=
  if (s.held w).isSome then s
  else
    match InMemoryJobStore.claim env s.store with
    | (_, none) => s
    | (_, some j) => s.take w j

/-- A worker marks the job it is at; a row that is locked is waited for. -/
def step (b : JobBackend) (s : JobSystem ω) (input : JobEnv × JobEvent ω) : JobSystem ω :=
  let env := input.1
  match input.2 with
  | .enqueue docID kind maxAttempts => { s with store := (b.enqueue env s.store docID kind maxAttempts).1 }
  | .select w =>
    match b with
    | .memory => s
    | .postgres => s.select env w
  | .claim w =>
    match b with
    | .memory => s.claimMemory env w
    | .postgres => s.updateSelected env w
  | .complete w =>
    match s.held w with
    | none => s
    | some c => if s.locked c.id then s else s.give w (b.markCompleted env s.store c.id).1
  | .fail w error =>
    match s.held w with
    | none => s
    | some c => if s.locked c.id then s else s.give w (b.markFailed env s.store c error).1
  | .crash w =>
    { s with
      held := update s.held w none
      selected := s.selected.filter fun p => !decide (p.1 = w) }
  | .recover staleAfter => { s with store := b.recoverStale env s.store staleAfter }

/-- The system after the first `n` events. -/
def after (b : JobBackend) (events : List (JobEnv × JobEvent ω)) (n : Nat) : JobSystem ω :=
  run (step b) {} (events.take n)

end
end JobSystem

/-- A job as a task: one of a document and kind is under way at a time. -/
def jobView : Leases.View Job (String × JobKind) where
  topic j := (j.docID, j.kind)
  phase j :=
    match j.status with
    | .pending => .waiting
    | .running => .taken
    | .completed | .failed => .past
  tries j := j.attempts
  limit j := j.maxAttempts

namespace jobView

theorem phase_waiting {j} : jobView.phase j = .waiting ↔ j.status = .pending := by
  simp only [jobView]
  cases j.status <;> simp

theorem phase_past {j} : jobView.phase j = .past ↔ j.finished = true := by
  simp only [jobView, Job.finished]
  cases j.status <;> simp

theorem phase_under {j} : jobView.phase j ≠ .past ↔ j.active = true := by
  rw [Ne, phase_past, Job.active_iff, Bool.not_eq_true]

theorem phase_returned (now : Time) (error : String) (last : Bool) (j : Job) :
    jobView.phase (j.returned now error last) ≠ .taken := by
  cases last <;> simp [jobView, Job.returned]

theorem same_claimed (now : Time) (j : Job) : jobView.Same Job.id j (j.claimed now) := ⟨rfl, rfl, rfl⟩

end jobView

namespace JobSystem
section
variable {ω : Type} [DecidableEq ω] {b : JobBackend} {env : JobEnv} {s s' : JobSystem ω} {e : JobEvent ω}
  {w : ω} {p : ω × String} {c : Job}

def queue (s : JobSystem ω) : Leases.Queue Job.id ω where
  rows := s.store.jobs
  held := s.held
  log := s.claims

structure Sound (b : JobBackend) (s : JobSystem ω) : Prop where
  queue : Leases.Inv jobView s.queue
  named : b.Named s.store
  selected : ∀ p ∈ s.selected, s.held p.1 = none ∧ ∃ j ∈ s.store.jobs.rows, j.id = p.2 ∧ j.claimable = true
  ids : (s.selected.map Prod.snd).Nodup
  plain : b = .memory → s.selected = []

inductive Moves (b : JobBackend) (env : JobEnv) (s : JobSystem ω) : JobEvent ω → JobSystem ω → Prop where
  | still {e : JobEvent ω} : Moves b env s e s
  | enqueued {id docID kind maxAttempts seq} (new : ¬ s.store.jobs.Has id)
      (alone : ∀ j ∈ s.store.jobs.rows, j.activeFor docID kind = false) (grown : s.store.seq ≤ seq)
      (named : b = .memory → id = InMemoryJobStore.jobName seq) :
      Moves b env s (.enqueue docID kind maxAttempts)
        { s with store := { jobs := s.store.jobs.put (newJob env.now id docID kind maxAttempts), seq := seq } }
  | selected {w j} (idle : s.held w = none) (row : j ∈ s.store.jobs.rows)
      (claimable : j.claimable = true) (free : ∀ p ∈ s.selected, p.2 ≠ j.id) (table : b = .postgres) :
      Moves b env s (.select w) { s with selected := (w, j.id) :: s.selected }
  | claimed {w j} (idle : s.held w = none) (row : j ∈ s.store.jobs.rows)
      (claimable : j.claimable = true) (own : ∀ p ∈ s.selected, p.2 = j.id → p.1 = w) :
      Moves b env s (.claim w) (s.take w (j.claimed env.now))
  | completed {w : ω} {c : Job} (held : s.held w = some c) :
      Moves b env s (.complete w) (s.give w { s.store with jobs := s.store.jobs.put (c.completed env.now) })
  | failed {w c error} (held : s.held w = some c) :
      Moves b env s (.fail w error)
        (s.give w { s.store with
          jobs := s.store.jobs.put (c.returned env.now error (decide (c.maxAttempts ≤ c.attempts))) })
  | crashed {w : ω} :
      Moves b env s (.crash w)
        { s with
          held := update s.held w none
          selected := s.selected.filter fun p => !decide (p.1 = w) }
  | recovered {staleAfter} :
      Moves b env s (.recover staleAfter) { s with store := s.store.reopen env.now (b.stale env.now staleAfter) }

theorem enqueue_moves {docID kind maxAttempts} (h : Sound b s) : Moves b env s (.enqueue docID kind maxAttempts)
      { s with store := (b.enqueue env s.store docID kind maxAttempts).1 } := by
  have enqueued := JobBackend.enqueue_cases h.named env docID kind maxAttempts
  generalize b.enqueue env s.store docID kind maxAttempts = result at enqueued ⊢
  cases enqueued with
  | existing => exact .still
  | added new alone grown named => exact .enqueued new alone grown named
  | conflict => exact .still

omit [DecidableEq ω] in
theorem locked_eq_false {id} : s.locked id = false ↔ ∀ p ∈ s.selected, p.2 ≠ id := by
  simp [locked]

theorem select_moves : Moves .postgres env s (.select w) (s.select env w) := by
  unfold select
  split
  · exact .still
  · next free =>
    split
    · exact .still
    · next j chosen =>
      obtain ⟨row, claimable, kept⟩ := JobStore.candidate_some chosen
      simp only [Bool.or_eq_false_iff] at kept
      refine .selected ?_ row claimable (locked_eq_false.mp kept.2) rfl
      simpa using (not_or.mp free).1

theorem updateSelected_moves (h : Sound b s) : Moves b env s (.claim w) (s.updateSelected env w) := by
  unfold updateSelected
  split
  · exact .still
  · next v id found =>
    have mem := mem_of_find?_eq_some found
    have own : v = w := by simpa using find?_some found
    subst own
    obtain ⟨idle, _, row, rfl, claimable⟩ := h.selected _ mem
    rw [Table.get?_of_mem row]
    refine .claimed idle row claimable fun p other same => ?_
    exact congrArg Prod.fst (inj_on_of_nodup_map h.ids other mem same)

theorem claimMemory_moves (free : s.selected = []) : Moves b env s (.claim w) (s.claimMemory env w) := by
  unfold claimMemory
  split
  · exact .still
  · next idle =>
    unfold InMemoryJobStore.claim
    cases chosen : s.store.candidate env.order (fun _ => false) with
    | none => exact .still
    | some =>
      obtain ⟨row, claimable, _⟩ := JobStore.candidate_some chosen
      refine .claimed (by simpa using idle) row claimable fun p mem => ?_
      rw [free] at mem
      cases mem

theorem step_moves (h : Sound b s) : Moves b env s e (step b s (env, e)) := by
  cases e with
  | enqueue => exact enqueue_moves h
  | select =>
    cases b with
    | memory => exact .still
    | postgres => exact select_moves
  | claim =>
    cases b with
    | memory => exact claimMemory_moves (h.plain rfl)
    | postgres => exact updateSelected_moves h
  | complete w =>
    simp only [step]
    split
    · exact .still
    · next c held =>
      split
      · exact .still
      · rw [b.markCompleted_of_mem (h.queue.held w c held).1]
        exact .completed held
  | fail w =>
    simp only [step]
    split
    · exact .still
    · next c held =>
      split
      · exact .still
      · rw [b.markFailed_of_mem (h.queue.held w c held).1]
        exact .failed held
  | crash => exact .crashed
  | recover =>
    simp only [step, JobBackend.recoverStale_eq]
    exact .recovered

/-- `RecoverStale` takes no job for abandoned that a worker is at. -/
def Abandoned (b : JobBackend) (s : JobSystem ω) (input : JobEnv × JobEvent ω) : Prop :=
  match input.2 with
  | .recover staleAfter =>
    ∀ j ∈ s.store.jobs.rows, j.status = .running → b.stale input.1.now staleAfter j = true →
      ∀ w c, s.held w = some c → c.id ≠ j.id
  | _ => True

instance {n : Nat} (s : JobSystem (Fin n)) : (input : JobEnv × JobEvent (Fin n)) → Decidable (Abandoned b s input)
  | (env, .recover staleAfter) =>
    decidable_of_iff (∀ j ∈ s.store.jobs.rows, j.status = .running → b.stale env.now staleAfter j = true →
      ∀ w, ∀ c ∈ s.held w, c.id ≠ j.id) Iff.rfl
  | (_, .enqueue ..) | (_, .select _) | (_, .claim _) | (_, .complete _) | (_, .fail ..) | (_, .crash _) =>
    .isTrue trivial

theorem Moves.refines (h : Moves b env s e s') (abandoned : Abandoned b s (env, e)) :
    Leases.Step jobView s.queue s'.queue := by
  cases h with
  | still => exact .still
  | enqueued new alone =>
    refine .added new rfl rfl fun j mem under topic => ?_
    obtain ⟨doc, kind⟩ := Prod.mk.inj topic
    cases (alone j mem).symm.trans (Job.activeFor_iff.mpr ⟨doc, kind, jobView.phase_under.mp under⟩)
  | selected => exact .still
  | claimed idle row claimable =>
    obtain ⟨pending, left⟩ := Job.claimable_iff.mp claimable
    exact .took idle row (jobView.phase_waiting.mpr pending) left (jobView.same_claimed _ _) rfl rfl
  | completed held => exact .gave held ⟨rfl, rfl, rfl⟩ (by simp [jobView, Job.completed]) rfl
  | failed held => exact .gave held ⟨rfl, rfl, rfl⟩ (jobView.phase_returned _ _ _ _) rfl
  | crashed => exact .dropped
  | recovered =>
    refine .reopened (fun j => by split <;> rfl) fun j mem => ?_
    split
    · next stale =>
      refine .inr ⟨⟨rfl, rfl, rfl⟩, ?_, rfl, rfl, abandoned j mem stale.1 stale.2⟩
      simp only [jobView, stale.1]
    · exact .inl rfl

omit [DecidableEq ω] in
theorem Sound.selected_put (h : Sound b s) {j} (free : ∀ p ∈ s.selected, p.2 ≠ j.id)
    (mem : p ∈ s.selected) : ∃ r ∈ (s.store.jobs.put j).rows, r.id = p.2 ∧ r.claimable = true := by
  obtain ⟨_, r, row, same, claimable⟩ := h.selected p mem
  exact ⟨r, Table.mem_put.mpr (.inr ⟨row, fun equal => free p mem (same ▸ equal)⟩), same, claimable⟩

omit [DecidableEq ω] in
theorem Sound.held_free (h : Sound b s) (held : s.held w = some c) : ∀ p ∈ s.selected, p.2 ≠ c.id := by
  intro p mem same
  obtain ⟨_, r, row, named, claimable⟩ := h.selected p mem
  obtain ⟨row', taken⟩ := h.queue.held w c held
  have equal : r = c := Table.eq_of_key_eq row row' (named.trans same)
  have waiting := jobView.phase_waiting.mpr (Job.claimable_iff.mp claimable).1
  rw [equal, taken] at waiting
  cases waiting

theorem Sound.give (h : Sound b s) {c'} (held : s.held w = some c) (same : c'.id = c.id)
    (queue : Leases.Inv jobView (s.give w { s.store with jobs := s.store.jobs.put c' }).queue) :
    Sound b (s.give w { s.store with jobs := s.store.jobs.put c' }) where
  queue := queue
  named := JobBackend.named_rewrite h.named (h.queue.held w c held).1 same
  selected p mem := by
    refine ⟨?_, h.selected_put (same ▸ h.held_free held) mem⟩
    by_cases own : p.1 = w
    · rw [own]
      exact update_self _ _ _
    · exact (update_of_ne own _ _).trans (h.selected p mem).1
  ids := h.ids
  plain := h.plain

theorem mem_rest (mem : p ∈ s.selected.filter fun p => !decide (p.1 = w)) : p ∈ s.selected ∧ p.1 ≠ w := by
  simpa using mem

theorem Sound.moves (h : Sound b s) (moves : Moves b env s e s') (abandoned : Abandoned b s (env, e)) :
    Sound b s' := by
  have queue := h.queue.step (moves.refines abandoned)
  cases moves with
  | still => exact h
  | enqueued new alone grown named =>
    refine ⟨queue, JobBackend.named_put h.named grown fun memory => ⟨_, Nat.le_refl _, named memory⟩, fun p mem => ?_,
      h.ids, h.plain⟩
    obtain ⟨idle, r, row, same, claimable⟩ := h.selected p mem
    exact ⟨idle, r, Table.mem_put.mpr (.inr ⟨row, fun equal => new ⟨r, row, equal⟩⟩), same, claimable⟩
  | @selected _ j idle row claimable free table =>
    refine ⟨queue, h.named, fun p mem => ?_, ?_, fun memory => ?_⟩
    · rcases List.mem_cons.mp mem with rfl | mem
      · exact ⟨idle, j, row, rfl, claimable⟩
      · exact h.selected p mem
    · refine List.nodup_cons.mpr ⟨fun mem => ?_, h.ids⟩
      obtain ⟨p, other, same⟩ := List.mem_map.mp mem
      exact free p other same
    · cases table.symm.trans memory
  | @claimed _ _ _ row _ own =>
    refine ⟨queue, JobBackend.named_rewrite h.named row rfl, fun p mem => ?_, ?_, fun memory => ?_⟩
    · obtain ⟨mem, other⟩ := mem_rest mem
      obtain ⟨free, r, row', same, claimable'⟩ := h.selected p mem
      refine ⟨(update_of_ne other _ _).trans free, r, ?_, same, claimable'⟩
      exact Table.mem_put.mpr (.inr ⟨row', fun equal => other (own p mem (same.symm.trans equal))⟩)
    · exact h.ids.sublist (List.filter_sublist.map Prod.snd)
    · exact List.filter_eq_nil_iff.mpr fun p mem => by rw [h.plain memory] at mem; cases mem
  | completed held | failed held => exact h.give held rfl queue
  | crashed =>
    refine ⟨queue, h.named, fun p mem => ?_, h.ids.sublist (List.filter_sublist.map Prod.snd), fun memory => ?_⟩
    · obtain ⟨mem, other⟩ := mem_rest mem
      exact ⟨(update_of_ne other _ _).trans (h.selected p mem).1, (h.selected p mem).2⟩
    · exact List.filter_eq_nil_iff.mpr fun p mem => by rw [h.plain memory] at mem; cases mem
  | recovered =>
    refine ⟨queue, JobBackend.named_reopen h.named _ _, fun p mem => ?_, h.ids, h.plain⟩
    -- A row that is locked is pending, so it is not taken for abandoned.
    obtain ⟨idle, r, row, same, claimable⟩ := h.selected p mem
    exact ⟨idle, r, JobStore.mem_reopen_of_claimable _ _ row claimable, same, claimable⟩

omit [DecidableEq ω] in
theorem sound_start : Sound b ({} : JobSystem ω) where
  queue := Leases.inv_empty
  named _ _ mem := by cases mem
  selected _ mem := by cases mem
  ids := nodup_nil
  plain _ := rfl

section
variable {events : List (JobEnv × JobEvent ω)} (guarded : Runs.Guarded (Abandoned b) (step b) {} events)
include guarded

/-- In a run in which no job that a worker is at is taken for abandoned. -/
theorem sound_after (n : Nat) : Sound b (after b events n) :=
  run_invariant (fun _ _ sound abandoned => sound.moves (step_moves sound) abandoned) (guarded.take n) sound_start

theorem finished_stays {m n} (le : m ≤ n) {j} (row : j ∈ (after b events m).store.jobs.rows)
    (past : j.finished = true) : j ∈ (after b events n).store.jobs.rows := by
  refine run_take_induction (P := fun _ (s : JobSystem ω) => j ∈ s.store.jobs.rows) row (fun _ _ kept => kept)
    (fun n e _ input kept => ?_) le
  have sound := sound_after guarded n
  exact sound.queue.past_stays ((step_moves sound).refines (guarded.input input)) kept (jobView.phase_past.mpr past)

end
end
end JobSystem

/-- Whatever jobs are enqueued, claimed and marked, in memory or in Postgres: no job is
with two workers, none is claimed more often than it may be, no two of one document and
kind are active, and one that is over stays as it is. -/
theorem jobs_claimed_exclusively [DecidableEq ω] (b : JobBackend) (events : List (JobEnv × JobEvent ω))
    (unrecovered : ∀ e ∈ events, e.2.recovers = false) (n : Nat) :
    (∀ w w' c c', (JobSystem.after b events n).held w = some c → (JobSystem.after b events n).held w' = some c' →
      c.id = c'.id → w = w') ∧
    (∀ j ∈ (JobSystem.after b events n).store.jobs.rows,
      (JobSystem.after b events n).claims.count j.id ≤ j.maxAttempts) ∧
    (∀ j ∈ (JobSystem.after b events n).store.jobs.rows, ∀ j' ∈ (JobSystem.after b events n).store.jobs.rows,
      j.active = true → j'.active = true → j.docID = j'.docID → j.kind = j'.kind → j = j') ∧
    ∀ m, n ≤ m → ∀ j ∈ (JobSystem.after b events n).store.jobs.rows, j.finished = true →
      j ∈ (JobSystem.after b events m).store.jobs.rows := by
  have guarded : Runs.Guarded (JobSystem.Abandoned b) (JobSystem.step b) {} events := by
    refine Runs.Guarded.imp (guarded_of_forall fun _ _ => trivial) fun s e mem _ => ?_
    have recovers := unrecovered e mem
    unfold JobSystem.Abandoned
    split
    · next recover =>
      rw [recover] at recovers
      cases recovers
    · trivial
  have queue := (JobSystem.sound_after guarded n).queue
  refine ⟨queue.apart, fun j mem => ?_, fun j mem j' mem' active active' doc kind => ?_, ?_⟩
  · obtain ⟨count, le⟩ := queue.count j mem
    exact count.trans_le le
  · exact queue.once j mem j' mem' (jobView.phase_under.mpr active) (jobView.phase_under.mpr active')
      (Prod.ext doc kind)
  · exact fun m le j mem past => JobSystem.finished_stays guarded le mem past

def twoClaims : List (JobEnv × JobEvent (Fin 2)) :=
  [(jobEnv 1, .enqueue "d" .ingest 3), (jobEnv 2, .enqueue "e" .ingest 3), (jobEnv 3, .select 0), (jobEnv 4, .select 1),
    (jobEnv 5, .claim 1), (jobEnv 6, .claim 0)]

theorem two_claims_stay_apart :
    ∃ c c', (JobSystem.after .postgres twoClaims 6).held 0 = some c ∧
      (JobSystem.after .postgres twoClaims 6).held 1 = some c' ∧ c.id ≠ c'.id := by
  refine ⟨_, _, rfl, rfl, fun same => ?_⟩
  have one := (jobs_claimed_exclusively .postgres twoClaims (by decide) 6).1 0 1 _ _ rfl rfl same
  cases one

def JobEvent.marks (w : ω) : JobEvent ω → Prop
  | .complete v => v = w
  | .fail v _ => v = w
  | _ => False

/-- Where `RecoverStale` resets no job that a living worker is at, a job that is over
stays so, and a mark of a claim after which the job was claimed again changes nothing. -/
theorem recovery_keeps_finished_jobs [DecidableEq ω] (b : JobBackend) (events : List (JobEnv × JobEvent ω))
    (abandoned : Runs.Guarded (JobSystem.Abandoned b) (JobSystem.step b) {} events) (n : Nat) :
    (∀ m, n ≤ m → ∀ j ∈ (JobSystem.after b events n).store.jobs.rows, j.finished = true →
      ∃ j' ∈ (JobSystem.after b events m).store.jobs.rows, j'.id = j.id ∧ j'.status = j.status) ∧
    ∀ w c w' c', (JobSystem.after b events n).held w = some c → (JobSystem.after b events n).held w' = some c' →
      c'.id = c.id → c.attempts < c'.attempts → ∀ env e, JobEvent.marks w e →
        (JobSystem.step b (JobSystem.after b events n) (env, e)).store.jobs.get? c.id =
          (JobSystem.after b events n).store.jobs.get? c.id := by
  refine ⟨fun m le j row past => ?_, fun w c w' c' held held' same later => ?_⟩
  · exact ⟨j, JobSystem.finished_stays abandoned le row past, rfl, rfl⟩
  · -- Nobody else is at the job, so there is no later claim.
    obtain rfl := (JobSystem.sound_after abandoned n).queue.apart w' w c' c held' held same
    rw [held] at held'
    cases held'
    exact absurd later (Nat.lt_irrefl _)

def takeOver : List (JobEnv × JobEvent (Fin 2)) :=
  [(jobEnv 1, .enqueue "d" .ingest 3), (jobEnv 2, .select 0), (jobEnv 3, .claim 0), (jobEnv 4, .fail 0 "busy"),
    (jobEnv 5, .select 0), (jobEnv 6, .claim 0), (jobEnv 7, .crash 0), (jobEnv 9, .recover 1), (jobEnv 10, .select 1),
    (jobEnv 11, .claim 1), (jobEnv 12, .complete 1), (jobEnv 13, .fail 0 "late")]

theorem take_over_completes :
    ∃ j ∈ (JobSystem.after .postgres takeOver 12).store.jobs.rows, j.id = "job-1" ∧ j.status = .completed :=
  (recovery_keeps_finished_jobs .postgres takeOver (by decide +kernel) 11).1 12 (by decide) _ List.mem_cons_self (by decide)

/-- A worker outlives its claim: the job is claimed again and completed before the first
worker reports that it failed. -/
def slowWorker : List (JobEnv × JobEvent (Fin 2)) :=
  [(jobEnv 1, .enqueue "d" .ingest 3), (jobEnv 2, .select 0), (jobEnv 3, .claim 0), (jobEnv 9, .recover 1),
    (jobEnv 10, .select 1), (jobEnv 11, .claim 1), (jobEnv 12, .complete 1), (jobEnv 13, .fail 0 "late")]

def JobSystem.statuses (s : JobSystem ω) : List JobStatus := s.store.jobs.rows.map Job.status

/-- In both stores the job is pending again after it was completed, and a mark of the
first worker before that completes it for the second, who is still at it. -/
theorem slow_worker_reopens_job :
    (JobSystem.after .memory slowWorker 7).statuses = [.completed] ∧
      (JobSystem.after .memory slowWorker 8).statuses = [.pending] ∧
      (JobSystem.after .postgres slowWorker 7).statuses = [.completed] ∧
      (JobSystem.after .postgres slowWorker 8).statuses = [.pending] ∧
      ((JobSystem.after .postgres slowWorker 6).held 0).map Job.attempts = some 1 ∧
      ((JobSystem.after .postgres slowWorker 6).held 1).map Job.attempts = some 2 ∧
      (JobSystem.after .postgres slowWorker 6).statuses = [.running] ∧
      (JobSystem.step .postgres (JobSystem.after .postgres slowWorker 6) (jobEnv 12, .complete 0)).statuses =
        [.completed] := by
  decide +kernel

end SynaMcp
