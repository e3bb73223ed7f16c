import Mathlib.Data.List.MinMax
import SynaMcp.Lib.GoMaps
import SynaMcp.Lib.Leases
import SynaMcp.Store.State

/-! The jobs of the ingest worker and the two stores that keep them: a map behind a
mutex, and the table `knowledge_ingest_jobs` of Postgres. -/
namespace SynaMcp
open Keyed GoMaps

inductive JobKind where
  | ingest
  | deleteVectors
  | other (name : String)
  deriving DecidableEq, Repr

inductive JobStatus where
  | pending
  | running
  | completed
  | failed
  deriving DecidableEq, Repr

structure Job where
  id : String
  docID : String
  kind : JobKind
  status : JobStatus := .pending
  attempts : Nat := 0
  maxAttempts : Nat
  lastError : String := ""
  createdAt : Time
  updatedAt : Time
  startedAt : Option Time := none
  completedAt : Option Time := none
  deriving DecidableEq, Repr

namespace Job

def active (j : Job) : Bool := decide (j.status = .pending) || decide (j.status = .running)

def finished (j : Job) : Bool := decide (j.status = .completed) || decide (j.status = .failed)

/-- What `Claim` looks for. -/
def claimable (j : Job) : Bool := decide (j.status = .pending) && decide (j.attempts < j.maxAttempts)

/-- An active job of the document and kind; the partial unique index allows one. -/
def activeFor (docID : String) (kind : JobKind) (j : Job) : Bool :=
  decide (j.docID = docID) && decide (j.kind = kind) && j.active

variable (now : Time)

def claimed (j : Job) : Job :=
  { j with status := .running, attempts := j.attempts + 1, updatedAt := now, startedAt := some now }

def completed (j : Job) : Job :=
  { j with status := .completed, updatedAt := now, completedAt := some now }

def returned (error : String) (last : Bool) (j : Job) : Job :=
  { j with status := if last then .failed else .pending, lastError := error, updatedAt := now }

def recovered (j : Job) : Job := { j with status := .pending, updatedAt := now }

theorem active_iff {j : Job} : j.active = true ↔ j.finished = false := by
  unfold active finished
  cases j.status <;> simp

theorem claimable_iff {j : Job} : j.claimable = true ↔ j.status = .pending ∧ j.attempts < j.maxAttempts := by
  simp [claimable]

theorem activeFor_iff {docID kind} {j : Job} :
    j.activeFor docID kind = true ↔ j.docID = docID ∧ j.kind = kind ∧ j.active = true := by
  simp [activeFor, and_assoc]

end Job

structure JobStore where
  jobs : Table Job.id
  seq : Nat := 0

def JobStore.empty : JobStore where
  jobs := .empty

/-- The clock, the uuid, the order of a range over the map or of rows that the query
leaves unordered, and the rows that `SKIP LOCKED` passes over. -/
structure JobEnv where
  now : Time
  uuid : UUID
  order : Nat → Nat := fun _ => 0
  skip : String → Bool := fun _ => false

/-- `maxAttempts` of a new job. -/
def jobLimit (maxAttempts : Int) : Nat := if maxAttempts ≤ 0 then 3 else maxAttempts.toNat

def newJob (now : Time) (id docID : String) (kind : JobKind) (maxAttempts : Int) : Job :=
  { id := id, docID := docID, kind := kind, maxAttempts := jobLimit maxAttempts, createdAt := now, updatedAt := now }

theorem jobLimit_pos (maxAttempts : Int) : 0 < jobLimit maxAttempts := by
  unfold jobLimit
  split <;> omega

namespace JobStore

def candidate (order : Nat → Nat) (skip : String → Bool) (s : JobStore) : Option Job :=
  List.argmin Job.createdAt ((range order s.jobs.rows).filter fun j => j.claimable && !skip j.id)

def update (id : String) (f : Job → Job) (s : JobStore) : JobStore :=
  match s.jobs.get? id with
  | none => s
  | some j => { s with jobs := s.jobs.put (f j) }

def hasPending (s : JobStore) : Bool := s.jobs.rows.any Job.claimable

def reopen (now : Time) (stale : Job → Bool) (s : JobStore) : JobStore :=
  { s with
    jobs := s.jobs.mapRows (fun j => if j.status = .running ∧ stale j then j.recovered now else j)
      fun j => by split <;> rfl }

section
variable {s : JobStore} {order : Nat → Nat} {skip : String → Bool} {j : Job} {id : String} {f : Job → Job}

theorem candidate_some (h : s.candidate order skip = some j) :
    j ∈ s.jobs.rows ∧ j.claimable = true ∧ skip j.id = false := by
  have mem := List.mem_filter.mp (List.argmin_mem h)
  simpa using mem

theorem candidate_none (h : s.candidate order (fun _ => false) = none) : s.hasPending = false := by
  have none := List.filter_eq_nil_iff.mp (List.argmin_eq_none.mp h)
  simp only [mem_range, Bool.not_false, Bool.and_true] at none
  simpa [hasPending] using none

variable (now : Time) (stale : Job → Bool)

theorem mem_reopen (row : j ∈ s.jobs.rows) :
    (if j.status = .running ∧ stale j then j.recovered now else j) ∈ (s.reopen now stale).jobs.rows :=
  List.mem_map.mpr ⟨j, row, rfl⟩

theorem mem_reopen_of_claimable (row : j ∈ s.jobs.rows) (claimable : j.claimable = true) :
    j ∈ (s.reopen now stale).jobs.rows := by
  refine List.mem_map.mpr ⟨j, row, if_neg fun running => ?_⟩
  cases (Job.claimable_iff.mp claimable).1.symm.trans running.1

theorem update_of_mem (row : j ∈ s.jobs.rows) : s.update j.id f = { s with jobs := s.jobs.put (f j) } := by
  unfold update
  rw [Table.get?_of_mem row]

end
end JobStore

namespace InMemoryJobStore

def jobName (n : Nat) : String := "job-" ++ toString n

variable (env : JobEnv) (s : JobStore)

def enqueue (docID : String) (kind : JobKind) (maxAttempts : Int) : JobStore × Job :=
  match (range env.order s.jobs.rows).find? (Job.activeFor docID kind) with
  | some j => (s, j)
  | none =>
    let job := newJob env.now (jobName (s.seq + 1)) docID kind maxAttempts
    ({ jobs := s.jobs.put job, seq := s.seq + 1 }, job)

def claim : JobStore × Option Job :=
  match s.candidate env.order (fun _ => false) with
  | none => (s, none)
  | some j => ({ s with jobs := s.jobs.put (j.claimed env.now) }, some (j.claimed env.now))

def markCompleted (jobID : String) : JobStore × Except String Unit :=
  match s.jobs.get? jobID with
  | none => (s, .error ("job " ++ jobID.quote ++ " not found"))
  | some j => ({ s with jobs := s.jobs.put (j.completed env.now) }, .ok ())

/-- Whether it was the last attempt is read off the job as it is now. -/
def markFailed (job : Job) (error : String) : JobStore × Except String Bool :=
  match s.jobs.get? job.id with
  | none => (s, .error ("job " ++ job.id.quote ++ " not found"))
  | some cur =>
    let last := decide (cur.maxAttempts ≤ cur.attempts)
    ({ s with jobs := s.jobs.put (cur.returned env.now error last) }, .ok !last)

def recoverStale : JobStore := s.reopen env.now fun _ => true

end InMemoryJobStore

namespace PostgresJobStore
variable (env : JobEnv) (s : JobStore) (docID : String) (kind : JobKind)

/-- `INSERT … ON CONFLICT DO NOTHING RETURNING`: neither the primary key nor the
partial unique index has the row. -/
def insert (maxAttempts : Int) : JobStore × Option Job :=
  let job := newJob env.now env.uuid.val docID kind maxAttempts
  if s.jobs.Has job.id ∨ s.jobs.rows.any (Job.activeFor docID kind) then (s, none)
  else ({ s with jobs := s.jobs.put job }, some job)

def existing : Except String Job :=
  match List.argmax Job.createdAt ((range env.order s.jobs.rows).filter (Job.activeFor docID kind)) with
  | some j => .ok j
  | none => .error ("enqueue conflict for doc " ++ docID.quote)

def enqueue (maxAttempts : Int) : JobStore × Except String Job :=
  match insert env s docID kind maxAttempts with
  | (s, some job) => (s, .ok job)
  | (s, none) => (s, existing env s docID kind)

def claim : JobStore × Option Job :=
  match s.candidate env.order env.skip with
  | none => (s, none)
  | some j => ({ s with jobs := s.jobs.put (j.claimed env.now) }, some (j.claimed env.now))

def markCompleted (jobID : String) : JobStore := s.update jobID (Job.completed env.now)

/-- Whether it was the last attempt is read off the worker's copy of the job. -/
def markFailed (job : Job) (error : String) : JobStore × Bool :=
  let last := decide (job.maxAttempts ≤ job.attempts)
  (s.update job.id (Job.returned env.now error last), !last)

/-- Nanoseconds. -/
def staleAfterDefault : Int := 5 * 60 * 1000000000

def recoverStale (staleAfter : Int) : JobStore :=
  let cutoff := env.now - if staleAfter ≤ 0 then staleAfterDefault else staleAfter
  s.reopen env.now fun j => decide (j.updatedAt < cutoff)

end PostgresJobStore

inductive JobBackend where
  | memory
  | postgres
  deriving DecidableEq, Repr

namespace JobBackend
variable (b : JobBackend) (env : JobEnv) (s : JobStore)

def enqueue (docID : String) (kind : JobKind) (maxAttempts : Int) : JobStore × Except String Job :=
  match b with
  | .memory =>
    let (s, job) := InMemoryJobStore.enqueue env s docID kind maxAttempts
    (s, .ok job)
  | .postgres => PostgresJobStore.enqueue env s docID kind maxAttempts

def claim : JobStore × Option Job :=
  match b with
  | .memory => InMemoryJobStore.claim env s
  | .postgres => PostgresJobStore.claim env s

def markCompleted (jobID : String) : JobStore × Except String Unit :=
  match b with
  | .memory => InMemoryJobStore.markCompleted env s jobID
  | .postgres => (PostgresJobStore.markCompleted env s jobID, .ok ())

/-- With whether the job is to be tried again. -/
def markFailed (job : Job) (error : String) : JobStore × Except String Bool :=
  match b with
  | .memory => InMemoryJobStore.markFailed env s job error
  | .postgres =>
    let (s, retry) := PostgresJobStore.markFailed env s job error
    (s, .ok retry)

/-- The jobs that `RecoverStale` takes for abandoned. -/
def stale (b : JobBackend) (now : Time) (staleAfter : Int) (j : Job) : Bool :=
  match b with
  | .memory => true
  | .postgres =>
    decide (j.updatedAt < now - if staleAfter ≤ 0 then PostgresJobStore.staleAfterDefault else staleAfter)

def recoverStale (staleAfter : Int) : JobStore :=
  match b with
  | .memory => InMemoryJobStore.recoverStale env s
  | .postgres => PostgresJobStore.recoverStale env s staleAfter

section
variable {s} {env : JobEnv} {j : Job} {error : String}

theorem claim_some {b : JobBackend} {s' job} (h : b.claim env s = (s', some job)) :
    ∃ j ∈ s.jobs.rows, j.claimable = true ∧ job = j.claimed env.now ∧
      s' = { s with jobs := s.jobs.put (j.claimed env.now) } := by
  have taken : ∃ skip j, s.candidate env.order skip = some j ∧
      ({ s with jobs := s.jobs.put (j.claimed env.now) }, some (j.claimed env.now)) = (s', some job) := by
    cases b with
    | memory =>
      simp only [claim, InMemoryJobStore.claim] at h
      split at h
      · cases h
      · next j chosen => exact ⟨_, j, chosen, h⟩
    | postgres =>
      simp only [claim, PostgresJobStore.claim] at h
      split at h
      · cases h
      · next j chosen => exact ⟨_, j, chosen, h⟩
  obtain ⟨_, j, chosen, equal⟩ := taken
  obtain ⟨row, claimable, _⟩ := JobStore.candidate_some chosen
  cases equal
  exact ⟨j, row, claimable, rfl, rfl⟩

theorem markCompleted_of_mem (b : JobBackend) (row : j ∈ s.jobs.rows) :
    b.markCompleted env s j.id = ({ s with jobs := s.jobs.put (j.completed env.now) }, .ok ()) := by
  cases b with
  | memory => simp only [markCompleted, InMemoryJobStore.markCompleted, Table.get?_of_mem row]
  | postgres => simp only [markCompleted, PostgresJobStore.markCompleted, JobStore.update_of_mem row]

/-- Of a copy that is the job as it is now, both stores tell the last attempt alike. -/
theorem markFailed_of_mem (b : JobBackend) (row : j ∈ s.jobs.rows) : b.markFailed env s j error =
      ({ s with jobs := s.jobs.put (j.returned env.now error (decide (j.maxAttempts ≤ j.attempts))) },
        .ok !decide (j.maxAttempts ≤ j.attempts)) := by
  cases b with
  | memory => simp only [markFailed, InMemoryJobStore.markFailed, Table.get?_of_mem row]
  | postgres => simp only [markFailed, PostgresJobStore.markFailed, JobStore.update_of_mem row]

end

def Named (b : JobBackend) (s : JobStore) : Prop :=
  b = .memory → ∀ j ∈ s.jobs.rows, ∃ k ≤ s.seq, j.id = InMemoryJobStore.jobName k

/-- What an enqueue does: nothing where a job of the kind is active, or where the uuid is
taken, and otherwise a new row. -/
inductive Enqueued (b : JobBackend) (env : JobEnv) (s : JobStore) (docID : String) (kind : JobKind) (maxAttempts : Int) :
    JobStore × Except String Job → Prop where
  | existing {j} (row : j ∈ s.jobs.rows) (active : j.activeFor docID kind = true) :
      Enqueued b env s docID kind maxAttempts (s, .ok j)
  | added {id seq} (new : ¬ s.jobs.Has id) (alone : ∀ j ∈ s.jobs.rows, j.activeFor docID kind = false)
      (grown : s.seq ≤ seq) (named : b = .memory → id = InMemoryJobStore.jobName seq) :
      Enqueued b env s docID kind maxAttempts
        ({ jobs := s.jobs.put (newJob env.now id docID kind maxAttempts), seq := seq },
          .ok (newJob env.now id docID kind maxAttempts))
  | conflict {e} (table : b = .postgres) (taken : s.jobs.Has env.uuid.val) :
      Enqueued b env s docID kind maxAttempts (s, .error e)

theorem jobName_inj {m n} (h : InMemoryJobStore.jobName m = InMemoryJobStore.jobName n) : m = n :=
  GoStrings.toString_nat_inj ((String.append_right_inj _).mp h)

section
variable {b} {s}

theorem enqueue_cases (named : b.Named s) (env : JobEnv) (docID : String) (kind : JobKind) (maxAttempts : Int) :
    Enqueued b env s docID kind maxAttempts (b.enqueue env s docID kind maxAttempts) := by
  cases b with
  | memory =>
    simp only [enqueue, InMemoryJobStore.enqueue]
    cases found : (range env.order s.jobs.rows).find? (Job.activeFor docID kind) with
    | some => exact .existing (GoMaps.mem_range.mp (List.mem_of_find?_eq_some found)) (List.find?_some found)
    | none =>
      refine .added ?_ (fun j mem => ?_) (Nat.le_succ _) fun _ => rfl
      · rintro ⟨j, row, same⟩
        obtain ⟨_, _, name⟩ := named rfl j row
        have number := jobName_inj (name.symm.trans same)
        omega
      · exact Bool.eq_false_of_not_eq_true (List.find?_eq_none.mp found j (GoMaps.mem_range.mpr mem))
  | postgres =>
    simp only [enqueue, PostgresJobStore.enqueue, PostgresJobStore.insert]
    by_cases conflict : s.jobs.Has (newJob env.now env.uuid.val docID kind maxAttempts).id ∨
        s.jobs.rows.any (Job.activeFor docID kind)
    · rw [if_pos conflict]
      simp only [PostgresJobStore.existing]
      split
      · next j newest =>
        obtain ⟨mem, active⟩ := List.mem_filter.mp (List.argmax_mem newest)
        exact .existing (GoMaps.mem_range.mp mem) active
      · next none =>
        refine .conflict rfl (conflict.resolve_right fun some => ?_)
        obtain ⟨j, mem, active⟩ := List.any_eq_true.mp some
        have none := List.filter_eq_nil_iff.mp (List.argmax_eq_none.mp none)
        exact none j (GoMaps.mem_range.mpr mem) active
    · rw [if_neg conflict]
      obtain ⟨new, alone⟩ := not_or.mp conflict
      refine .added new (fun j mem => ?_) (Nat.le_refl _) fun memory => by cases memory
      exact Bool.eq_false_of_not_eq_true fun active => alone (List.any_eq_true.mpr ⟨j, mem, active⟩)

theorem named_put (h : b.Named s) {j seq} (grown : s.seq ≤ seq)
    (named : b = .memory → ∃ k ≤ seq, j.id = InMemoryJobStore.jobName k) :
    b.Named { jobs := s.jobs.put j, seq := seq } := by
  intro memory r mem
  rcases Table.mem_put.mp mem with rfl | ⟨row, _⟩
  · exact named memory
  · obtain ⟨k, le, name⟩ := h memory r row
    exact ⟨k, le.trans grown, name⟩

namespace Enqueued
variable {env : JobEnv} {docID : String} {kind : JobKind} {maxAttempts : Int} {out : JobStore × Except String Job}
  (h : Enqueued b env s docID kind maxAttempts out)
include h

theorem named_after (named : b.Named s) : b.Named out.1 := by
  cases h with
  | existing => exact named
  | added _ _ grown name => exact named_put named grown fun memory => ⟨_, Nat.le_refl _, name memory⟩
  | conflict => exact named

theorem kept {j} (row : j ∈ s.jobs.rows) : j ∈ out.1.jobs.rows := by
  cases h with
  | existing => exact row
  | added new => exact Table.mem_put.mpr (.inr ⟨row, fun same => new ⟨j, row, same⟩⟩)
  | conflict => exact row

theorem rows {j : Job} (row : j ∈ out.1.jobs.rows) : j ∈ s.jobs.rows ∨ j.claimable = true := by
  cases h with
  | existing => exact .inl row
  | added =>
    rcases Table.mem_put.mp row with rfl | ⟨old, _⟩
    · exact .inr (Job.claimable_iff.mpr ⟨rfl, jobLimit_pos maxAttempts⟩)
    · exact .inl old
  | conflict => exact .inl row

theorem active {job} (ok : out.2 = .ok job) : ∃ j ∈ out.1.jobs.rows, j.activeFor docID kind = true := by
  cases h with
  | existing row active => exact ⟨_, row, active⟩
  | added => exact ⟨_, Table.mem_put.mpr (.inl rfl), Job.activeFor_iff.mpr ⟨rfl, rfl, rfl⟩⟩
  | conflict => cases ok

end Enqueued

theorem named_rewrite (h : b.Named s) {j j'} (row : j ∈ s.jobs.rows) (same : j'.id = j.id) :
    b.Named { s with jobs := s.jobs.put j' } :=
  named_put h (Nat.le_refl _) fun memory => same ▸ h memory j row

theorem named_reopen (h : b.Named s) (now : Time) (stale : Job → Bool) : b.Named (s.reopen now stale) := by
  intro memory j mem
  obtain ⟨r, row, rfl⟩ := List.mem_map.mp mem
  obtain ⟨k, le, name⟩ := h memory r row
  refine ⟨k, le, ?_⟩
  split <;> exact name

end

theorem recoverStale_eq (staleAfter : Int) :
    b.recoverStale env s staleAfter = s.reopen env.now (b.stale env.now staleAfter) := by
  cases b <;> rfl

end JobBackend

/-- For closed runs: at that time the uuid is `job-` and the time. -/
def jobEnv (now : Nat) : JobEnv where
  now := now
  uuid := ⟨InMemoryJobStore.jobName now, by simp [InMemoryJobStore.jobName]⟩

end SynaMcp
