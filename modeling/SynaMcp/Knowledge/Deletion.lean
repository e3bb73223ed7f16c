import SynaMcp.Knowledge.Draining

/-! Deleting documents while the worker is between jobs. The record goes at once, the
vectors with a job of their own; other jobs of the document find no record. -/
namespace SynaMcp
open Keyed Sections IngestWorld List IngestWorker Runs Table

section
variable {Vec : Type}

inductive IngestEvent (Vec : Type) where
  | save (env : JobEnv) (doc : DocumentRecord)
  | delete (d : DeleteEnv) (check : DocumentRecord → Except String Unit) (id : String)
  | work (round : Round Vec)

namespace IngestEvent

/-- The catalog and the job store do not fail, and vectors can be deleted. -/
def Reliable : IngestEvent Vec → Prop
  | .save _ _ => True
  | .delete d _ _ => d.Reliable
  | .work round => round.services.Reliable ∧ round.services.deleteVectors = none

def savedID : IngestEvent Vec → Option String
  | .save _ doc => some doc.docID
  | _ => none

end IngestEvent

namespace IngestWorld

def apply (cfg : IngestConfig) (w : IngestWorld Vec) : IngestEvent Vec → IngestWorld Vec
  | .save env doc => (Pipeline.saveAndEnqueue cfg env none doc w).1
  | .delete d check id => ((deleteDocument cfg d check id).run.exec w).1
  | .work round =>
    match turn cfg round w with
    | none => w
    | some (_, w) => w

/-- After the first `n` operations. -/
def after (cfg : IngestConfig) (events : List (IngestEvent Vec)) (n : Nat) : IngestWorld Vec :=
  run (apply cfg) {} (events.take n)

def Clean (d : String) (points : List (Point Vec)) : Prop := ∀ p ∈ points, p.record.docID ≠ d

structure Steady (cfg : IngestConfig) (w : IngestWorld Vec) : Prop where
  named : cfg.jobs.Named w.jobs
  ready : ∀ j ∈ w.jobs.jobs.rows, j.active = true → j.claimable = true

structure Gone (d : String) (w : IngestWorld Vec) : Prop where
  record : w.catalog.get? d = none
  vectors : Clean d w.vectors ∨ ∃ j ∈ w.jobs.jobs.rows, j.activeFor d .deleteVectors = true

section
variable {cfg : IngestConfig} {w w' : IngestWorld Vec} {round : Round Vec} {a : Attempt} {d : String}
  {points : List (Point Vec)}
  {b : VectorBackend} {env : JobEnv} {docID id : String} {maxAttempts : Int} {out : JobStore × Except String Job}

theorem Clean.putPoint {p} (h : Clean d points) (own : p.record.docID ≠ d) : Clean d (putPoint p points) := by
  intro x mem
  rcases List.mem_append.mp mem with old | new
  · exact h x (List.mem_filter.mp old).1
  · rw [List.mem_singleton.mp new]
    exact own

theorem Clean.upsert {draw r} (h : Clean d points) (own : r.docID ≠ d) : Clean d (b.upsert draw points r) := by
  cases b with
  | memory =>
    intro x mem
    rcases List.mem_append.mp mem with old | new
    · exact h x old
    · rw [List.mem_singleton.mp new]
      exact own
  | postgres | qdrant => exact h.putPoint own

theorem Clean.storeAll {recs} (h : Clean d points)
    (own : ∀ r ∈ recs, r.2.docID ≠ d) : Clean d (storeAll b points recs) := by
  induction recs generalizing points with
  | nil => exact h
  | cons r rest ih =>
    exact ih (h.upsert (own r mem_cons_self)) fun x mem => own x (mem_cons_of_mem r mem)

theorem clean_deleteByDocID : Clean d (deleteByDocID d points) := fun _ mem => by
  simpa using (List.mem_filter.mp mem).2

theorem Clean.deleteByDocID {e} (h : Clean d points) : Clean d (deleteByDocID e points) :=
  fun x mem => h x (List.mem_filter.mp mem).1

theorem Clean.attempt (cfg : IngestConfig) (svc : IngestServices Vec) (job : Job) (h : Clean d w.vectors) (gone : w.catalog.get? d = none) :
    Clean d ((IngestWorker.attempt cfg svc job).run.exec w).1.vectors := by
  unfold IngestWorker.attempt
  split
  · have processed := Pipeline.exec_processIngest cfg svc job.docID w
    generalize (Pipeline.processIngest cfg svc job.docID).run.exec w = result at processed ⊢
    cases processed with
    | unread | settled => exact h
    | @indexed doc _ found _ indexed =>
      have other : doc.docID ≠ d := by
        rintro rfl
        rw [key_of_get? found, found] at gone
        cases gone
      cases indexed with
      | stopped _ _ _ stored => exact h.storeAll fun r mem => stored.own r mem ▸ other
      | saved _ own => exact h.storeAll fun r mem => own r mem ▸ other
  · rw [Pipeline.exec_processDeleteVectors]
    rcases svc.deleteVectors with _ | ⟨_, _ | _⟩
    · exact h.deleteByDocID
    · exact h
    · exact h.deleteByDocID
  · exact h

theorem Clean.turned (h : Clean d w.vectors) (gone : w.catalog.get? d = none)
    (turned : IngestWorker.Turned cfg round w a w') : Clean d w'.vectors := by
  cases turned with
  | @succeeded j out _ _ ran | @failed j out e _ _ ran =>
    have kept := Clean.attempt cfg round.services (j.claimed round.claim.now) (w := claimedWorld round w j) h gone
    rw [ran] at kept
    exact kept

theorem attempt_deleteVectors {svc job} (deletes : svc.deleteVectors = none) (kind : job.kind = .deleteVectors) :
    (IngestWorker.attempt cfg svc job).run.exec w = ({ w with vectors := deleteByDocID job.docID w.vectors }, .ok ()) := by
  unfold IngestWorker.attempt
  rw [kind]
  simp only [Pipeline.exec_processDeleteVectors, deletes]

theorem clean_turned (turned : IngestWorker.Turned cfg round w a w') (deletes : round.services.deleteVectors = none)
    (kind : a.job.kind = .deleteVectors) : Clean a.job.docID w'.vectors := by
  cases turned with
  | succeeded _ _ done =>
    cases (attempt_deleteVectors deletes kind).symm.trans done
    exact clean_deleteByDocID
  | failed _ _ done => cases (attempt_deleteVectors deletes kind).symm.trans done

theorem Steady.enqueue (h : Steady cfg w) {kind}
    (enqueued : JobBackend.Enqueued cfg.jobs env w.jobs docID kind maxAttempts out)
    (catalog : Catalog) : Steady cfg { w with catalog := catalog, jobs := out.1 } where
  named := enqueued.named_after h.named
  ready j row active := (enqueued.rows row).elim (fun old => h.ready j old active) id

theorem Steady.turned (h : Steady cfg w) (turned : IngestWorker.Turned cfg round w a w') : Steady cfg w' := by
  obtain ⟨_, _, _, _, _, rows, _, _, _, _, _, outcome⟩ := turned.rows
  refine ⟨turned.named h.named, fun x mem active => ?_⟩
  rcases (rows x).mp mem with rfl | ⟨old, _⟩
  · obtain ⟨_, status⟩ | ⟨_, _, status⟩ | ⟨_, _, status⟩ := outcome
    · simp [Job.active, status] at active
    · simp [Job.active, status] at active
    · exact Job.claimable_iff.mpr ⟨status, by omega⟩
  · exact h.ready x old active

theorem Gone.turned (h : Gone d w) (turned : IngestWorker.Turned cfg round w a w')
    (deletes : round.services.deleteVectors = none) : Gone d w' := by
  refine ⟨(turned.get? (.inr h.record)).trans h.record, ?_⟩
  rcases h.vectors with clean | ⟨x, row, active⟩
  · exact .inl (clean.turned h.record turned)
  · obtain ⟨j, row', _, job, _, rows, _⟩ := turned.rows
    by_cases same : x.id = j.id
    · -- It was this job's turn.
      obtain rfl := eq_of_key_eq row row' same
      obtain ⟨doc, kind, _⟩ := Job.activeFor_iff.mp active
      have clean := clean_turned turned deletes (by rw [job]; exact kind)
      rw [job] at clean
      exact .inl (doc ▸ clean)
    · exact .inr ⟨x, (rows x).mpr (.inr ⟨row, same⟩), active⟩

theorem Gone.enqueue (h : Gone d w) {kind}
    (enqueued : JobBackend.Enqueued cfg.jobs env w.jobs docID kind maxAttempts out)
    {catalog} (record : catalog.get? d = none) : Gone d { w with catalog := catalog, jobs := out.1 } :=
  ⟨record, h.vectors.imp_right fun ⟨j, row, active⟩ => ⟨j, enqueued.kept row, active⟩⟩

theorem get?_deleted {doc} {docs : Catalog} (found : docs.get? id = some doc) :
    ((docs.save { doc with status := "deleting" }).delete id).get? d = if d = id then none else docs.get? d := by
  by_cases same : d = id
  · subst same
    rw [if_pos rfl]
    exact get?_delete_self _ _
  · have name : doc.docID = id := key_of_get? found
    rw [if_neg same]
    exact (get?_delete_of_ne _ same).trans (Catalog.get?_save_of_ne docs fun key => same (key.symm.trans name))

inductive Applied (cfg : IngestConfig) (w : IngestWorld Vec) : IngestEvent Vec → IngestWorld Vec → Prop where
  | still {e} : Applied cfg w e w
  | saved {env doc out}
      (enqueued : JobBackend.Enqueued cfg.jobs env w.jobs doc.docID .ingest defaultMaxAttempts out) :
      Applied cfg w (.save env doc) { w with catalog := w.catalog.save doc, jobs := out.1 }
  | deleted {e check id doc out} (found : w.catalog.get? id = some doc)
      (enqueued : JobBackend.Enqueued cfg.jobs e.env w.jobs id .deleteVectors cfg.workerAttempts out) :
      Applied cfg w (.delete e check id)
        { w with catalog := (w.catalog.save { doc with status := "deleting" }).delete id, jobs := out.1 }
  | turned {round : Round Vec} {a : Attempt} {w' : IngestWorld Vec} (turned : IngestWorker.Turned cfg round w a w')
      (deletes : round.services.deleteVectors = none) : Applied cfg w (.work round) w'

theorem apply_cases (memory : cfg.jobs = .memory) (named : cfg.jobs.Named w.jobs) {e}
    (reliable : e.Reliable) : Applied cfg w e (w.apply cfg e) := by
  cases e with
  | save env doc => exact .saved (JobBackend.enqueue_cases named env doc.docID .ingest defaultMaxAttempts)
  | delete e check id =>
    simp only [apply]
    rw [exec_deleteDocument reliable]
    cases found : w.catalog.get? id with
    | none => exact .still
    | some doc =>
      simp only
      cases check doc with
      | error => exact .still
      | ok => exact .deleted found (JobBackend.enqueue_cases named e.env id .deleteVectors cfg.workerAttempts)
  | work round =>
    simp only [apply]
    cases taken : turn cfg round w with
    | none => exact .still
    | some => exact .turned (turn_some memory reliable.1 taken) reliable.2

namespace Applied
variable {e : IngestEvent Vec} (h : Applied cfg w e w')
include h

theorem steady (steady : Steady cfg w) : Steady cfg w' := by
  cases h with
  | still => exact steady
  | saved enqueued | deleted _ enqueued => exact steady.enqueue enqueued _
  | turned turned => exact steady.turned turned

/-- Only `Save` puts a record where there was none. -/
theorem absent (missing : w.catalog.get? d = none) (other : e.savedID ≠ some d) : w'.catalog.get? d = none := by
  cases h with
  | still => exact missing
  | saved => exact (Catalog.get?_save_of_ne _ fun same => other (congrArg some same)).trans missing
  | deleted found =>
    refine (get?_deleted found).trans ?_
    split
    · rfl
    · exact missing
  | turned turned => exact (turned.get? (.inr missing)).trans missing

theorem gone (gone : Gone d w) (other : e.savedID ≠ some d) : Gone d w' := by
  have record := h.absent gone.record other
  cases h with
  | still => exact gone
  | saved enqueued | deleted _ enqueued => exact gone.enqueue enqueued record
  | turned turned deletes => exact gone.turned turned deletes

end Applied

theorem gone_of_deleted {e} {check : DocumentRecord → Except String Unit}
    (named : cfg.jobs.Named w.jobs) (reliable : e.Reliable)
    (deleted : ((deleteDocument cfg e check id).run.exec w).2 = .ok ()) :
    w.catalog.get? id ≠ none ∧ Gone id ((deleteDocument cfg e check id).run.exec w).1 := by
  rw [exec_deleteDocument reliable] at deleted ⊢
  cases found : w.catalog.get? id with
  | none =>
    rw [found] at deleted
    cases deleted
  | some doc =>
    rw [found] at deleted
    simp only at deleted ⊢
    cases allowed : check doc with
    | error =>
      rw [allowed] at deleted
      cases deleted
    | ok =>
      rw [allowed] at deleted
      have enqueued := JobBackend.enqueue_cases named e.env id .deleteVectors cfg.workerAttempts
      refine ⟨by simp, (get?_deleted found).trans (if_pos rfl), .inr ?_⟩
      cases added : (cfg.jobs.enqueue e.env w.jobs id .deleteVectors cfg.workerAttempts).2 with
      | error =>
        rw [added] at deleted
        cases deleted
      | ok => exact enqueued.active added

theorem Gone.clean (h : Gone d w) (steady : Steady cfg w) (idle : w.jobs.hasPending = false) : Clean d w.vectors := by
  rcases h.vectors with clean | ⟨j, row, active⟩
  · exact clean
  · have claimable := steady.ready j row (Job.activeFor_iff.mp active).2.2
    simp only [JobStore.hasPending, any_eq_false] at idle
    exact absurd claimable (idle j row)

theorem steady_empty : Steady cfg ({} : IngestWorld Vec) where
  named _ _ mem := by cases mem
  ready _ mem := by cases mem

section
variable {events : List (IngestEvent Vec)} (memory : cfg.jobs = .memory) (reliable : ∀ e ∈ events, e.Reliable)
include memory reliable

/-- Between operations every job that is not over can be claimed, and what is in the
catalog was saved. -/
theorem steady_after (n : Nat) : Steady cfg (after cfg events n) ∧
      ∀ d, (after cfg events n).catalog.get? d ≠ none → some d ∈ (events.take n).map IngestEvent.savedID := by
  refine run_take_induction
    (P := fun n (w : IngestWorld Vec) =>
      Steady cfg w ∧ ∀ d, w.catalog.get? d ≠ none → some d ∈ (events.take n).map IngestEvent.savedID)
    ⟨steady_empty, fun d has => absurd rfl has⟩ (fun n w holds => ?_) (fun n e _ input holds => ?_) (Nat.zero_le n)
  · have more : events.take n ⊆ events.take (n + 1) := take_subset_take_left events (Nat.le_succ n)
    exact ⟨holds.1, fun d has => map_subset _ more (holds.2 d has)⟩
  · obtain ⟨steady, saved⟩ := holds
    have applied := apply_cases memory steady.named (reliable e (mem_of_getElem? input))
    refine ⟨applied.steady steady, fun d has => ?_⟩
    rw [take_add_one, input, map_append]
    by_cases here : e.savedID = some d
    · exact mem_append_right _ (List.mem_singleton.mpr here.symm)
    · exact mem_append_left _ (saved d fun missing => has (applied.absent missing here))

theorem gone_after (distinct : (events.filterMap IngestEvent.savedID).Nodup) {n m} (le : n + 1 ≤ m)
    (was : some d ∈ (events.take n).map IngestEvent.savedID) (gone : Gone d (after cfg events (n + 1))) :
    Gone d (after cfg events m) := by
  refine run_take_induction (P := fun _ (w : IngestWorld Vec) => Gone d w) gone (fun _ _ kept => kept)
    (fun k e le input kept => ?_) le
  obtain ⟨steady, _⟩ := steady_after memory reliable k
  refine (apply_cases memory steady.named (reliable e (mem_of_getElem? input))).gone kept fun again => ?_
  -- The same id would have been drawn twice.
  have twice := distinct.sublist ((take_sublist (k + 1) events).filterMap IngestEvent.savedID)
  rw [take_add_one, input, Option.toList_some, filterMap_append, nodup_append] at twice
  obtain ⟨e', mem, same⟩ := List.mem_map.mp was
  have earlier : d ∈ (events.take k).filterMap IngestEvent.savedID :=
    List.mem_filterMap.mpr ⟨e', take_subset_take_left events (by omega) mem, same⟩
  exact twice.2.2 d earlier d (List.mem_filterMap.mpr ⟨e, mem_singleton_self e, again⟩) rfl

end

end
end IngestWorld

open IngestWorker in
/-- In any run of saves, deletes and jobs that do not overlap: once a `Delete` has
succeeded, a worker that is drained later leaves neither a record nor a vector of the
document. -/
theorem deletion_is_complete (cfg : IngestConfig) (memory : cfg.jobs = .memory) (events : List (IngestEvent Vec))
    (reliable : ∀ e ∈ events, e.Reliable) (distinct : (events.filterMap IngestEvent.savedID).Nodup) (n : Nat)
    (d : DeleteEnv) (check : DocumentRecord → Except String Unit) (id : String)
    (event : events[n]? = some (.delete d check id))
    (deleted : ((deleteDocument cfg d check id).run.exec (IngestWorld.after cfg events n)).2 = .ok ()) (m : Nat)
    (later : n < m) (rounds : Nat → Round Vec)
    (working : ∀ k, (rounds k).services.Reliable ∧ (rounds k).services.deleteVectors = none) :
    ∃ out log enough,
      (∀ turns, enough < turns → processUntilIdle cfg rounds turns (IngestWorld.after cfg events m) = some (out, log)) ∧
      out.catalog.get? id = none ∧ ∀ p ∈ out.vectors, p.record.docID ≠ id := by
  obtain ⟨steady, saved⟩ := steady_after memory reliable n
  have undisturbed : d.Reliable := reliable _ (mem_of_getElem? event)
  obtain ⟨was, gone⟩ := gone_of_deleted steady.named undisturbed deleted
  have next : IngestWorld.after cfg events (n + 1) = ((deleteDocument cfg d check id).run.exec
      (IngestWorld.after cfg events n)).1 := run_take_succ event
  rw [← next] at gone
  have still := gone_after memory reliable distinct later (saved id was) gone
  have steady' := (steady_after memory reliable m).1
  obtain ⟨out, log, clean, ends⟩ := drain
    (K := fun r : Round Vec => r.services.Reliable ∧ r.services.deleteVectors = none)
    (I := fun w => IngestWorld.Steady cfg w ∧ IngestWorld.Gone id w)
    (R := fun _ _ out => out.catalog.get? id = none ∧ IngestWorld.Clean id out.vectors)
    memory (fun _ ok => ok.1) (fun _ inv idle => ⟨inv.2.record, inv.2.clean inv.1 idle⟩)
    (fun _ _ _ _ ok inv turned => ⟨⟨inv.1.turned turned, inv.2.turned turned ok.2⟩, fun _ _ after => after⟩)
    working ⟨steady', still⟩
  exact ⟨out, log, _, ends, clean⟩

end

def fullServices (now : Nat) : IngestServices Unit :=
  { workingServices now with upsert := fun n => if n = 0 then none else some ("full", false) }

def drainRounds (n : Nat) : Round Unit := { claim := jobEnv n, services := workingServices n }

def saveThenDelete : List (IngestEvent Unit) :=
  [.save (jobEnv 1) note,
    .work { claim := jobEnv 2, services := fullServices 2 },
    .delete { env := jobEnv 3 } (fun _ => .ok ()) "d"]

theorem half_ingested_note_is_deleted :
    (IngestWorld.after {} saveThenDelete 3).vectors ≠ [] ∧
      ∃ out log enough,
        (∀ turns, enough < turns → IngestWorker.processUntilIdle {} drainRounds turns
          (IngestWorld.after {} saveThenDelete 3) = some (out, log)) ∧
        out.catalog.get? "d" = none ∧ ∀ p ∈ out.vectors, p.record.docID ≠ "d" := by
  have reliable : ∀ e ∈ saveThenDelete, e.Reliable := by
    simp only [saveThenDelete, forall_mem_cons, not_mem_nil, false_implies, implies_true, and_true]
    exact ⟨trivial, ⟨⟨rfl, rfl, rfl, rfl, rfl, rfl⟩, rfl⟩, ⟨rfl, rfl, rfl, rfl⟩⟩
  exact ⟨by decide +kernel, deletion_is_complete {} rfl saveThenDelete reliable (by decide) 2 { env := jobEnv 3 }
    (fun _ => .ok ()) "d" rfl (by decide +kernel) 3 (by decide) drainRounds fun _ => ⟨⟨rfl, rfl, rfl, rfl, rfl, rfl⟩, rfl⟩⟩

end SynaMcp
