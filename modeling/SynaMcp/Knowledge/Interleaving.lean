import SynaMcp.Knowledge.Draining
import SynaMcp.Knowledge.WorkerSteps

/-! Any number of workers and of calls of `Delete`, in any interleaving of their sections
with each other, with `Save` and with `RecoverStale`; a worker may crash at any point. -/
namespace SynaMcp
open Function (update update_self update_of_ne)
open Keyed Sections JobBackend IngestWorker

/-- The stores, the jobs that workers are at with what is left to do, and the calls of
`Delete` that were made, each of a document. -/
structure IngestSystem (Vec ω δ : Type) where
  world : IngestWorld Vec := {}
  workers : ω → Option (Job × Prog (IngestWorld Vec) Unit) := fun _ => none
  deletes : δ → Option (String × Prog (IngestWorld Vec) (Except String Unit)) := fun _ => none

inductive SystemEvent (Vec ω δ : Type) where
  | save (env : JobEnv) (fault : Fault) (doc : DocumentRecord)
  | delete (i : δ) (d : DeleteEnv) (check : DocumentRecord → Except String Unit) (id : String)
  /-- The next section of the call. -/
  | erase (i : δ)
  | claim (w : ω) (round : Round Vec)
  /-- The next section of the worker. -/
  | work (w : ω)
  | crash (w : ω)
  | recover (env : JobEnv) (staleAfter : Int)

namespace IngestSystem
variable {Vec ω δ : Type}

def resume (job : Job) : Prog (IngestWorld Vec) Unit → Option (Job × Prog (IngestWorld Vec) Unit)
  | .done _ => none
  | .enter act next => some (job, .enter act next)

def succeeded (S : IngestSystem Vec ω δ) (i : δ) (id : String) : Bool :=
  match S.deletes i with
  | some (id', .done (.ok ())) => decide (id' = id)
  | _ => false

section
variable [DecidableEq ω] [DecidableEq δ] (cfg : IngestConfig)

def step (S : IngestSystem Vec ω δ) : SystemEvent Vec ω δ → IngestSystem Vec ω δ
  | .save env fault doc => { S with world := (Pipeline.saveAndEnqueue cfg env fault doc S.world).1 }
  | .delete i d check id =>
    match S.deletes i with
    | some _ => S
    | none => { S with deletes := update S.deletes i (some (id, (deleteDocument cfg d check id).run)) }
  | .erase i =>
    match S.deletes i with
    | some (id, .enter act next) =>
      { S with world := act S.world, deletes := update S.deletes i (some (id, next S.world)) }
    | _ => S
  | .claim w round =>
    match S.workers w, cfg.jobs.claim round.claim S.world.jobs with
    | none, (jobs, some job) =>
      { S with
        world := { S.world with jobs := jobs }
        workers := update S.workers w (resume job (handleJob cfg round.services job)) }
    | _, _ => S
  | .work w =>
    match S.workers w with
    | some (job, .enter act next) =>
      { S with
        world := act S.world
        workers := update S.workers w (resume job (next S.world)) }
    | _ => S
  | .crash w => { S with workers := update S.workers w none }
  | .recover env staleAfter =>
    { S with world := { S.world with jobs := cfg.jobs.recoverStale env S.world.jobs staleAfter } }

/-- The uuids that a `Save` draws are new: that of the document, and in Postgres that of
its job. -/
def Fresh (S : IngestSystem Vec ω δ) : SystemEvent Vec ω δ → Prop
  | .save env _ doc =>
    S.world.catalog.get? doc.docID = none ∧ (∀ j ∈ S.world.jobs.jobs.rows, j.docID ≠ doc.docID) ∧
    (∀ i id p, S.deletes i = some (id, p) → id ≠ doc.docID) ∧
    (cfg.jobs = .postgres → ¬ S.world.jobs.jobs.Has env.uuid.val)
  | _ => True

/-- After the first `n` events. -/
def after (events : List (SystemEvent Vec ω δ)) (n : Nat) : IngestSystem Vec ω δ :=
  Runs.run (step cfg) {} (events.take n)

end

inductive Moves [DecidableEq ω] [DecidableEq δ] (cfg : IngestConfig) (S : IngestSystem Vec ω δ) :
    SystemEvent Vec ω δ → IngestSystem Vec ω δ → Prop where
  | still {e} : Moves cfg S e S
  | saved {env} {fault : Fault} {doc jobs}
      (enqueued : jobs = S.world.jobs ∧ (∃ e, fault = some (e, false)) ∨
        ∃ r, JobBackend.Enqueued cfg.jobs env S.world.jobs doc.docID .ingest defaultMaxAttempts (jobs, r)) :
      Moves cfg S (.save env fault doc)
        { S with world := { S.world with catalog := S.world.catalog.save doc, jobs := jobs } }
  | called {i d check id}
      (free : S.deletes i = none) :
      Moves cfg S (.delete i d check id)
        { S with deletes := update S.deletes i (some (id, (deleteDocument cfg d check id).run)) }
  | erased {i id act next}
      (running : S.deletes i = some (id, .enter act next)) :
      Moves cfg S (.erase i) { S with world := act S.world, deletes := update S.deletes i (some (id, next S.world)) }
  | claimed {w round j} (idle : S.workers w = none) (row : j ∈ S.world.jobs.jobs.rows)
      (claimable : j.claimable = true)
      (taken : (cfg.jobs.claim round.claim S.world.jobs).2 = some (j.claimed round.claim.now)) :
      Moves cfg S (.claim w round)
        { S with
          world := claimedWorld round S.world j
          workers := update S.workers w
            (resume (j.claimed round.claim.now) (handleJob cfg round.services (j.claimed round.claim.now))) }
  | worked {w job act next} (running : S.workers w = some (job, .enter act next)) :
      Moves cfg S (.work w) { S with world := act S.world, workers := update S.workers w (resume job (next S.world)) }
  | crashed {w} : Moves cfg S (.crash w) { S with workers := update S.workers w none }
  | recovered {env staleAfter} :
      Moves cfg S (.recover env staleAfter)
        { S with world := { S.world with jobs := S.world.jobs.reopen env.now (cfg.jobs.stale env.now staleAfter) } }

section
variable [DecidableEq ω] [DecidableEq δ] {cfg : IngestConfig} {S S' : IngestSystem Vec ω δ} {e : SystemEvent Vec ω δ}

theorem step_moves (named : cfg.jobs.Named S.world.jobs) (e : SystemEvent Vec ω δ) : Moves cfg S e (S.step cfg e) := by
  cases e with
  | save env fault doc =>
    have enqueued := enqueue_cases named env doc.docID .ingest defaultMaxAttempts
    rcases fault with _ | ⟨e, _ | _⟩
    · exact .saved (.inr ⟨_, enqueued⟩)
    · exact .saved (.inl ⟨rfl, e, rfl⟩)
    · exact .saved (.inr ⟨_, enqueued⟩)
  | delete =>
    simp only [step]
    split
    · exact .still
    · next free => exact .called free
  | erase =>
    simp only [step]
    split
    · next running => exact .erased running
    · exact .still
  | claim =>
    simp only [step]
    split
    · next idle taken =>
      obtain ⟨_, row, claimable, rfl, rfl⟩ := claim_some taken
      exact .claimed idle row claimable (congrArg Prod.snd taken)
    · exact .still
  | work =>
    simp only [step]
    split
    · next running => exact .worked running
    · exact .still
  | crash => exact .crashed
  | recover =>
    simp only [step, recoverStale_eq]
    exact .recovered

theorem resume_some {job c} {p q : Prog (IngestWorld Vec) Unit} (h : resume job p = some (c, q)) :
    c = job ∧ q = p ∧ ∃ act next, q = .enter act next := by
  cases p with
  | done => cases h
  | enter act next =>
    cases h
    exact ⟨rfl, rfl, act, next, rfl⟩

theorem Moves.worker (h : Moves cfg S e S') {w} {c : Job} {p}
    (found : S'.workers w = some (c, p)) : S.workers w = some (c, p) ∧ (S' = S ∨ e ≠ .work w) ∨
    (∃ round j, e = .claim w round ∧ j ∈ S.world.jobs.jobs.rows ∧ c = j.claimed round.claim.now ∧
      (cfg.jobs.claim round.claim S.world.jobs).2 = some c ∧ S'.world = claimedWorld round S.world j ∧
      resume c (handleJob cfg round.services c) = some (c, p)) ∨
    ∃ act next, e = .work w ∧ S.workers w = some (c, .enter act next) ∧ S'.world = act S.world ∧
      resume c (next S.world) = some (c, p) := by
  cases h with
  | still => exact .inl ⟨found, .inl rfl⟩
  | saved | called | erased | recovered => exact .inl ⟨found, .inr (by simp)⟩
  | @claimed v round j _ row _ taken =>
    by_cases same : w = v
    · subst same
      simp only [update_self] at found
      obtain ⟨rfl, -, -⟩ := resume_some found
      exact .inr (.inl ⟨round, j, rfl, row, rfl, taken, rfl, found⟩)
    · simp only [update_of_ne same] at found
      exact .inl ⟨found, .inr (by simp)⟩
  | @worked v _ act next running =>
    by_cases same : w = v
    · subst same
      simp only [update_self] at found
      obtain ⟨rfl, -, -⟩ := resume_some found
      exact .inr (.inr ⟨act, next, rfl, running, rfl, found⟩)
    · simp only [update_of_ne same] at found
      exact .inl ⟨found, .inr fun equal => same (SystemEvent.work.inj equal).symm⟩
  | @crashed v =>
    by_cases same : w = v
    · subst same
      simp only [update_self] at found
      cases found
    · simp only [update_of_ne same] at found
      exact .inl ⟨found, .inr (by simp)⟩

theorem Moves.delete (h : Moves cfg S e S') {i id p}
    (found : S'.deletes i = some (id, p)) : S.deletes i = some (id, p) ∧ (S' = S ∨ e ≠ .erase i) ∨
    (∃ d check, S.deletes i = none ∧ S'.world = S.world ∧ p = (deleteDocument cfg d check id).run) ∨
    ∃ act next, e = .erase i ∧ S.deletes i = some (id, .enter act next) ∧ S'.world = act S.world ∧ p = next S.world := by
  cases h with
  | still => exact .inl ⟨found, .inl rfl⟩
  | saved | claimed | worked | crashed | recovered => exact .inl ⟨found, .inr (by simp)⟩
  | @called k d check _ free =>
    by_cases same : i = k
    · subst same
      simp only [update_self] at found
      cases found
      exact .inr (.inl ⟨d, check, free, rfl, rfl⟩)
    · simp only [update_of_ne same] at found
      exact .inl ⟨found, .inr (by simp)⟩
  | @erased k _ act next running =>
    by_cases same : i = k
    · subst same
      simp only [update_self] at found
      cases found
      exact .inr (.inr ⟨act, next, rfl, running, rfl, rfl⟩)
    · simp only [update_of_ne same] at found
      exact .inl ⟨found, .inr fun equal => same (SystemEvent.erase.inj equal).symm⟩

end

/-! What holds of every run: the job of a worker is not lost, and the sections of workers
and of deletes are such as they may be. -/

def alone (Vec : Type) (c : Job) : Outlook Vec c where
  rely _ _ := True
  assume u := u.Leased c
  seen := True
  done _ := True
  rely_refl _ := trivial
  rely_trans _ _ := trivial
  leased h := h
  done_rely _ _ := trivial
  done_jobs _ _ := trivial
  found _ _ _ := trivial
  settled _ _ _ _ := trivial
  indexed _ _ _ := trivial
  cleared _ := trivial

/-- A `Delete` that counts on nothing. -/
def deleteAlone (Vec : Type) (id : String) : DeleteOutlook Vec id where
  rely _ _ := True
  here _ := True
  gone _ := True
  rely_refl _ := trivial
  rely_trans _ _ := trivial
  here_rely _ _ := trivial
  gone_rely _ _ := trivial
  found _ := trivial
  hidden _ := trivial
  removed := trivial
  gone_jobs _ _ := trivial

/-- What is left to do of a job is what the outlook of its worker says of it, with
services such as `K` asks for. -/
def Working (o : (c : Job) → Outlook Vec c) (K : Job → IngestServices Vec → Prop) (u : IngestWorld Vec) (c : Job)
    (p : Prog (IngestWorld Vec) Unit) : Prop :=
  ∃ svc s, K c svc ∧ Safe (o c).terms (fun _ _ t => Ended svc c (o c).done t) p s u

structure Sound (cfg : IngestConfig) (S : IngestSystem Vec ω δ) : Prop where
  named : cfg.jobs.Named S.world.jobs
  leased : ∀ w c p, S.workers w = some (c, p) → S.world.Leased c
  /-- A worker with a job has something left to do. -/
  busy : ∀ w c p, S.workers w = some (c, p) → ∃ act next, p = .enter act next
  works : ∀ w c p, S.workers w = some (c, p) → Working (alone Vec) (fun _ _ => True) S.world c p
  erases : ∀ i id p, S.deletes i = some (id, p) →
    ∃ s, Safe ((deleteAlone Vec id).terms cfg) (fun _ _ _ => True) p s S.world

section
variable [DecidableEq ω] [DecidableEq δ] {cfg : IngestConfig} {S S' : IngestSystem Vec ω δ} {e : SystemEvent Vec ω δ}
  {o : (c : Job) → Outlook Vec c} {K : Job → IngestServices Vec → Prop}

omit [DecidableEq ω] [DecidableEq δ] in
theorem Working.advance {u c act next} (h : Working o K u c (.enter act next))
    (ok : (o c).assume u) : Does c (o c).seen (o c).done u (act u) ∧ Working o K (act u) c (next u) := by
  obtain ⟨svc, _, sure, safe⟩ := h
  obtain ⟨does, rest⟩ := safe u ((o c).rely_refl u) ok
  exact ⟨does, svc, u, sure, rest⟩

theorem Working.moves (h : Moves cfg S e S') (sound : Sound cfg S) {w} {c : Job} {p}
    (found : S'.workers w = some (c, p))
    (old : ∀ q, S.workers w = some (c, q) → (o c).assume S.world ∧ Working o K S.world c q)
    (rely : ∀ q, S.workers w = some (c, q) → e ≠ .work w → (o c).rely S.world S'.world)
    (sure : ∀ round, e = .claim w round → (cfg.jobs.claim round.claim S.world.jobs).2 = some c → K c round.services) :
    Working o K S'.world c p := by
  rcases h.worker found with ⟨same, still⟩ | ⟨round, _, event, _, _, taken, _, fresh⟩ |
    ⟨act, next, _, running, moved, rest⟩
  · obtain ⟨_, _, rfl⟩ := sound.busy w c p same
    obtain ⟨_, svc, s, holds, safe⟩ := old _ same
    refine ⟨svc, s, holds, safe.moved ?_⟩
    rcases still with rfl | other
    · exact (o c).rely_refl _
    · exact rely _ same other
  · obtain ⟨_, rfl, _⟩ := resume_some fresh
    exact ⟨round.services, S'.world, sure round event taken, (o c).safe_handleJob⟩
  · obtain ⟨_, rfl, _⟩ := resume_some rest
    obtain ⟨ok, working⟩ := old _ running
    rw [moved]
    exact (working.advance ok).2

namespace Sound
variable (h : Sound cfg S) {w : ω} {act : IngestWorld Vec → IngestWorld Vec}
include h

omit [DecidableEq ω] [DecidableEq δ] in
theorem does {c next} (running : S.workers w = some (c, .enter act next)) :
    Does c True (fun _ => True) S.world (act S.world) :=
  ((h.works w c _ running).advance (h.leased w c _ running)).1

omit [DecidableEq ω] [DecidableEq δ] in
theorem erase {i id next} (running : S.deletes i = some (id, .enter act next)) :
    Erases cfg id (fun _ => True) (fun _ => True) S.world (act S.world) := by
  obtain ⟨_, safe⟩ := h.erases i id _ running
  exact (safe S.world trivial h.named).1

theorem keeps (moves : Moves cfg S e S') : S.world.Keeps S'.world := by
  cases moves with
  | still => exact .refl _
  | saved enqueued =>
    intro j row
    rcases enqueued with ⟨rfl, _⟩ | ⟨_, enqueued⟩
    · exact ⟨j, row, .refl j⟩
    · exact ⟨j, enqueued.kept row, .refl j⟩
  | called => exact .refl _
  | erased running => exact fun j row => ⟨j, (h.erase running).row row, .refl j⟩
  | claimed _ row =>
    intro j mem
    obtain ⟨j', mem', same, _⟩ := IngestWorld.mem_put_of_same row (.claimed _ _) mem
    exact ⟨j', mem', same⟩
  | worked running =>
    intro j mem
    obtain ⟨j', mem', same, _⟩ := (h.does running).rows mem
    exact ⟨j', mem', same⟩
  | crashed => exact .refl _
  | recovered =>
    intro j row
    refine ⟨_, JobStore.mem_reopen _ _ row, ?_⟩
    split
    · exact ⟨rfl, rfl, rfl, rfl, Nat.le_refl _⟩
    · exact .refl j

theorem named_after (moves : Moves cfg S e S') : cfg.jobs.Named S'.world.jobs := by
  cases moves with
  | still => exact h.named
  | saved enqueued =>
    rcases enqueued with ⟨rfl, _⟩ | ⟨_, enqueued⟩
    · exact h.named
    · exact enqueued.named_after h.named
  | called => exact h.named
  | erased running => exact (h.erase running).named h.named
  | claimed _ row => exact named_rewrite h.named row rfl
  | worked running => exact (h.does running).named h.named
  | crashed => exact h.named
  | recovered => exact named_reopen h.named _ _

theorem leased_after (moves : Moves cfg S e S') {c p} (found : S'.workers w = some (c, p)) : S'.world.Leased c := by
  rcases moves.worker found with ⟨same, _⟩ | ⟨_, _, _, _, rfl, _, world, _⟩ | ⟨_, _, _, running, _, _⟩
  · exact (h.leased w c p same).keeps (h.keeps moves)
  · rw [world]
    exact ⟨_, Table.mem_put.mpr (.inl rfl), .refl _⟩
  · exact (h.leased w c _ running).keeps (h.keeps moves)

theorem moves (moves : Moves cfg S e S') : Sound cfg S' where
  named := h.named_after moves
  leased w c p found := h.leased_after moves found
  busy w c p found := by
    rcases moves.worker found with ⟨same, _⟩ | ⟨_, _, _, _, _, _, _, fresh⟩ | ⟨_, _, _, _, _, rest⟩
    · exact h.busy w c p same
    · exact (resume_some fresh).2.2
    · exact (resume_some rest).2.2
  works w c p found := Working.moves moves h found (fun q same => ⟨h.leased w c q same, h.works w c q same⟩)
    (fun _ _ _ => trivial) fun _ _ _ => trivial
  erases i id p found := by
    rcases moves.delete found with ⟨same, _⟩ | ⟨_, _, _, _, rfl⟩ | ⟨_, _, _, running, world, rfl⟩
    · obtain ⟨s, safe⟩ := h.erases i id p same
      cases p with
      | done => exact ⟨S'.world, trivial⟩
      | enter => exact ⟨s, safe.moved trivial⟩
    · exact ⟨S'.world, .imp (deleteAlone Vec id).safe_deleteDocument fun _ _ _ _ => trivial⟩
    · obtain ⟨_, safe⟩ := h.erases i id _ running
      rw [world]
      exact ⟨S.world, (safe S.world trivial h.named).2⟩

end Sound

theorem sound_after (cfg : IngestConfig) (events : List (SystemEvent Vec ω δ)) (n : Nat) : Sound cfg (after cfg events n) := by
  refine Runs.run_take_induction (P := fun _ (S : IngestSystem Vec ω δ) => Sound cfg S) ?_ (fun _ _ h => h)
    (fun _ e _ _ h => h.moves (step_moves h.named e)) (Nat.zero_le n)
  exact ⟨fun _ _ mem => (by cases mem), fun _ _ _ idle => (by cases idle), fun _ _ _ idle => (by cases idle),
    fun _ _ _ idle => (by cases idle), fun _ _ _ free => (by cases free)⟩

end

end IngestSystem
end SynaMcp
