import SynaMcp.Knowledge.Interleaving

/-! Documents that wait to be ingested, and the jobs that are to come to them. A
document is left without a job only where its job was never enqueued, or where its last
attempt ends and the catalog is not told. -/
namespace SynaMcp
open Keyed Sections Function IngestSystem Table

namespace IngestSystem
section
variable {Vec ω δ : Type} {cfg : IngestConfig} {S S' : IngestSystem Vec ω δ} {e : SystemEvent Vec ω δ}
  {w : ω} {j : Job} {p : Prog (IngestWorld Vec) Unit}

/-- A job of the document that a worker is at, or that a `Claim` can return, now or after
a `RecoverStale` that takes it for abandoned. -/
def Served (cfg : IngestConfig) (S : IngestSystem Vec ω δ) (d : String) : Prop :=
  ∃ j ∈ S.world.jobs.jobs.rows, j.docID = d ∧ j.kind = .ingest ∧
    ((∃ w c p, S.workers w = some (c, p) ∧ c.id = j.id) ∨ j.claimable = true ∨
      ∀ staleAfter, ∃ since, ∀ env : JobEnv, since ≤ env.now →
        ∃ j' ∈ (cfg.jobs.recoverStale env S.world.jobs staleAfter).jobs.rows, j'.id = j.id ∧ j'.claimable = true)

/-- If the job has no other attempt, its end can be told to the catalog. -/
def Told (c : Job) (svc : IngestServices Vec) : Prop :=
  c.kind = .ingest → c.maxAttempts ≤ c.attempts → svc.fail = none ∧ svc.getFailed = none ∧ svc.saveFailed = none

/-- `Save` gets to enqueue its job, and the last attempt at a document that waits neither
crashes nor fails to be marked. -/
def Attended (cfg : IngestConfig) (S : IngestSystem Vec ω δ) : SystemEvent Vec ω δ → Prop
  | .save _ fault _ => ∀ e, fault ≠ some (e, false)
  | .claim _ round => ∀ c, (cfg.jobs.claim round.claim S.world.jobs).2 = some c → Told c round.services
  | .crash w => ∀ c p, S.workers w = some (c, p) → c.kind = .ingest → c.maxAttempts ≤ c.attempts →
      ¬ S.world.Processing c.docID
  | _ => True

def settling (Vec : Type) (c : Job) : Outlook Vec c where
  rely s t := t.Processing c.docID → s.Processing c.docID
  assume u := u.Leased c
  seen := True
  done u := c.kind = .ingest → ¬ u.Processing c.docID
  rely_refl _ := id
  rely_trans first second waits := first (second waits)
  leased h := h
  done_rely moved done kind waits := done kind (moved waits)
  done_jobs _ done := done
  found _ _ _ := trivial
  settled _ found status _ _ waits := by
    obtain ⟨_, there, waits⟩ := waits
    cases found.symm.trans there
    exact status waits
  indexed own ready _ _ := by
    refine IngestWorld.not_processing_saved own ?_
    rw [ready]
    decide
  cleared kind ingest := by cases kind.symm.trans ingest

theorem settled_of_ended {svc c t} (told : Told c svc)
    (ended : Ended svc c (settling Vec c).done t) (kind : c.kind = .ingest) (last : c.maxAttempts ≤ c.attempts) :
    ¬ t.Processing c.docID := by
  obtain ⟨fail, getFailed, saveFailed⟩ := told kind last
  cases ended with
  | done holds => exact holds kind
  | again _ _ _ more => exact absurd last (Nat.not_le_of_lt more)
  | unmarked _ fault => exact absurd fail fault
  | gaveUp _ _ settled => exact settled kind getFailed saveFailed

/-- Every document that waits has a job with attempts left, or one in its last attempt. -/
structure Awaited (S : IngestSystem Vec ω δ) : Prop where
  works : ∀ w c p, S.workers w = some (c, p) → Working (settling Vec) Told S.world c p
  awaits : ∀ d, S.world.Processing d → ∃ j ∈ S.world.jobs.jobs.rows, j.docID = d ∧ j.kind = .ingest ∧
    (j.active = true ∧ j.attempts < j.maxAttempts ∨
      ∃ w c p, S.workers w = some (c, p) ∧ c.id = j.id ∧ c.maxAttempts ≤ c.attempts)

theorem Sound.same (h : Sound cfg S) {c}
    (running : S.workers w = some (c, p)) (row : j ∈ S.world.jobs.jobs.rows) (id : c.id = j.id) : c.Same j := by
  obtain ⟨_, mem, same⟩ := h.leased w c p running
  obtain rfl := eq_of_key_eq mem row (same.id.trans id)
  exact same

theorem handleJob_enters (cfg : IngestConfig) (svc : IngestServices Vec) (job : Job) :
    ∃ p, resume job (IngestWorker.handleJob cfg svc job) = some (job, p) := by
  unfold IngestWorker.handleJob IngestWorker.attempt
  split <;> exact ⟨_, rfl⟩

variable [DecidableEq ω] [DecidableEq δ]

theorem Sound.processing (h : Sound cfg S) (moves : Moves cfg S e S') {d} (waits : S'.world.Processing d) :
    S.world.Processing d ∨ ∃ env fault doc, e = .save env fault doc ∧ doc.docID = d := by
  cases moves with
  | still => exact .inl waits
  | @saved env fault doc =>
    by_cases own : doc.docID = d
    · exact .inr ⟨env, fault, doc, rfl, own⟩
    · obtain ⟨doc', there, status⟩ := waits
      exact .inl ⟨doc', (Catalog.get?_save_of_ne _ own).symm.trans there, status⟩
  | called => exact .inl waits
  | erased running => exact .inl ((h.erase running).processing waits)
  | claimed => exact .inl waits
  | worked running => exact .inl ((h.does running).processing waits)
  | crashed | recovered => exact .inl waits

section
variable (aw : Awaited S) (h : Sound cfg S) (moves : Moves cfg S e S')
include aw h moves

theorem Awaited.open_row
    (row : j ∈ S.world.jobs.jobs.rows) (active : j.active = true) (left : j.attempts < j.maxAttempts)
    (kind : j.kind = .ingest) (waits : S'.world.Processing j.docID) : ∃ j' ∈ S'.world.jobs.jobs.rows, j.Same j' ∧
      (j'.active = true ∧ j'.attempts < j'.maxAttempts ∨
        ∃ w c p, S'.workers w = some (c, p) ∧ c.id = j'.id ∧ c.maxAttempts ≤ c.attempts) := by
  cases moves with
  | still | called | crashed => exact ⟨j, row, .refl j, .inl ⟨active, left⟩⟩
  | saved enqueued =>
    refine ⟨j, ?_, .refl j, .inl ⟨active, left⟩⟩
    rcases enqueued with ⟨rfl, _⟩ | ⟨_, enqueued⟩
    · exact row
    · exact enqueued.kept row
  | erased running => exact ⟨j, (h.erase running).row row, .refl j, .inl ⟨active, left⟩⟩
  | @claimed w round j₀ _ row₀ =>
    by_cases same : j.id = j₀.id
    · obtain rfl := eq_of_key_eq row row₀ same
      refine ⟨_, Table.mem_put.mpr (.inl rfl), .claimed j round.claim.now, ?_⟩
      by_cases last : j.maxAttempts ≤ j.attempts + 1
      · obtain ⟨p, begun⟩ := handleJob_enters cfg round.services (j.claimed round.claim.now)
        exact .inr ⟨w, _, p, (update_self ..).trans begun, rfl, last⟩
      · exact .inl ⟨rfl, Nat.lt_of_not_le last⟩
    · exact ⟨j, Table.mem_put.mpr (.inr ⟨row, same⟩), .refl j, .inl ⟨active, left⟩⟩
  | @worked w c act _ running =>
    obtain ⟨does, _⟩ := (aw.works w c _ running).advance (h.leased w c _ running)
    simp only at waits
    have before := does.processing waits
    generalize act S.world = u at does waits
    cases does with
    | still | stored | saved | cleared => exact ⟨j, row, .refl j, .inl ⟨active, left⟩⟩
    | @completed r _ done row' same =>
      by_cases key : j.id = r.id
      · -- A completed attempt has settled the document.
        obtain rfl := eq_of_key_eq row row' key
        rw [same.docID] at before
        exact absurd before (done (same.kind.symm.trans kind))
      · exact ⟨j, Table.mem_put.mpr (.inr ⟨row, key⟩), .refl j, .inl ⟨active, left⟩⟩
    | @returned r now e last row' _ full =>
      by_cases key : j.id = r.id
      · obtain rfl := eq_of_key_eq row row' key
        refine ⟨_, Table.mem_put.mpr (.inl rfl), .returned j now e last, .inl ⟨?_, left⟩⟩
        cases last with
        | false => rfl
        | true => exact absurd (full rfl) (Nat.not_le_of_lt left)
      · exact ⟨j, Table.mem_put.mpr (.inr ⟨row, key⟩), .refl j, .inl ⟨active, left⟩⟩
  | recovered =>
    refine ⟨_, JobStore.mem_reopen _ _ row, ?_⟩
    split
    · exact ⟨⟨rfl, rfl, rfl, rfl, Nat.le_refl _⟩, .inl ⟨rfl, left⟩⟩
    · exact ⟨.refl j, .inl ⟨active, left⟩⟩

theorem Awaited.last_attempt (attended : Attended cfg S e)
    {c} (running : S.workers w = some (c, p)) (kind : c.kind = .ingest)
    (last : c.maxAttempts ≤ c.attempts) (waits : S'.world.Processing c.docID) :
    ∃ p', S'.workers w = some (c, p') := by
  cases moves with
  | still | saved | called | erased => exact ⟨p, running⟩
  | @claimed v _ _ idle =>
    have other : w ≠ v := by
      rintro rfl
      cases idle.symm.trans running
    exact ⟨p, (update_of_ne other ..).trans running⟩
  | @worked v _ _ next running' =>
    by_cases same : w = v
    · subst same
      cases running.symm.trans running'
      obtain ⟨_, _, _, told, safe⟩ := (aw.works w c _ running).advance (h.leased w c _ running)
      simp only [update_self]
      cases rest : next S.world with
      | done =>
        rw [rest] at safe
        exact absurd waits (settled_of_ended told safe kind last)
      | enter => exact ⟨_, rfl⟩
    · exact ⟨p, (update_of_ne same ..).trans running⟩
  | @crashed v =>
    by_cases same : w = v
    · subst same
      exact absurd waits (attended c p running kind last)
    · exact ⟨p, (update_of_ne same ..).trans running⟩
  | recovered => exact ⟨p, running⟩

end

theorem Awaited.moves (aw : Awaited S) (h : Sound cfg S) (moves : Moves cfg S e S') (fresh : Fresh cfg S e)
    (attended : Attended cfg S e) : Awaited S' where
  works w c p found := by
    refine Working.moves moves h found (fun q same => ⟨h.leased w c q same, aw.works w c q same⟩)
      (fun q running _ waits => ?_) fun round event taken => ?_
    · rcases h.processing moves waits with before | ⟨_, _, _, rfl, own⟩
      · exact before
      · -- The document is new, and the worker's is not.
        obtain ⟨r, row, same⟩ := h.leased w c q running
        exact absurd (same.docID.trans own.symm) (fresh.2.1 r row)
    · subst event
      exact attended c taken
  awaits d waits := by
    rcases h.processing moves waits with before | ⟨_, fault, _, rfl, rfl⟩
    · obtain ⟨j, row, rfl, kind, ⟨active, left⟩ | ⟨w, c, _, running, id, last⟩⟩ := aw.awaits d before
      · obtain ⟨j', row', same, still⟩ := aw.open_row h moves row active left kind waits
        exact ⟨j', row', same.docID, same.kind.trans kind, still⟩
      · have same := h.same running row id
        obtain ⟨p', running'⟩ := aw.last_attempt h moves attended running (same.kind.symm.trans kind) last
          (same.docID ▸ waits)
        obtain ⟨j', row', later⟩ := h.keeps moves j row
        exact ⟨j', row', later.docID, later.kind.trans kind, .inr ⟨w, c, p', running', id.trans later.id.symm, last⟩⟩
    · obtain ⟨absent, unused, _, drawn⟩ := fresh
      cases moves with
      | still =>
        obtain ⟨_, there, _⟩ := waits
        cases absent.symm.trans there
      | saved enqueued =>
        rcases enqueued with ⟨_, e, fault⟩ | ⟨_, enqueued⟩
        · exact absurd fault (attended e)
        · cases enqueued with
          | existing row active => exact absurd (Job.activeFor_iff.mp active).1 (unused _ row)
          | added =>
            exact ⟨_, Table.mem_put.mpr (.inl rfl), rfl, rfl, .inl ⟨rfl, jobLimit_pos defaultMaxAttempts⟩⟩
          | conflict table taken => exact absurd taken (drawn table)

theorem awaited_after {events : List (SystemEvent Vec ω δ)} (fresh : Runs.Guarded (Fresh cfg) (step cfg) {} events)
    (attended : Runs.Guarded (Attended cfg) (step cfg) {} events) (n : Nat) : Awaited (after cfg events n) := by
  refine Runs.run_take_induction (P := fun _ (S : IngestSystem Vec ω δ) => Awaited S) ?_ (fun _ _ h => h)
    (fun m e _ input h => ?_) (Nat.zero_le n)
  · exact ⟨fun _ _ _ idle => (by cases idle), fun _ ⟨_, there, _⟩ => (by cases there)⟩
  · have sound := sound_after cfg events m
    exact h.moves sound (step_moves sound.named e) (fresh.input input) (attended.input input)

end

section
variable {Vec ω δ : Type} {cfg : IngestConfig} {S : IngestSystem Vec ω δ} {d : String}

theorem Awaited.served (h : Awaited S) (waits : S.world.Processing d) : Served cfg S d := by
  obtain ⟨j, row, doc, kind, ⟨active, left⟩ | ⟨w, c, p, running, id, _⟩⟩ := h.awaits d waits
  · refine ⟨j, row, doc, kind, .inr ?_⟩
    by_cases status : j.status = .pending
    · exact .inl (Job.claimable_iff.mpr ⟨status, left⟩)
    · right
      have running : j.status = .running := by simpa [Job.active, status] using active
      intro staleAfter
      refine ⟨j.updatedAt + (if staleAfter ≤ 0 then PostgresJobStore.staleAfterDefault else staleAfter) + 1,
        fun env late => ?_⟩
      rw [JobBackend.recoverStale_eq]
      have stale : cfg.jobs.stale env.now staleAfter j = true := by
        cases cfg.jobs with
        | memory => rfl
        | postgres => exact decide_eq_true (Int.lt_sub_right_of_add_lt late)
      have recovered := JobStore.mem_reopen env.now (cfg.jobs.stale env.now staleAfter) row
      rw [if_pos ⟨running, stale⟩] at recovered
      exact ⟨_, recovered, rfl, Job.claimable_iff.mpr ⟨rfl, left⟩⟩
  · exact ⟨j, row, doc, kind, .inl ⟨w, c, p, running, id⟩⟩

theorem Served.left (h : Served cfg S d) (idle : ∀ w, S.workers w = none) :
    ∃ j ∈ S.world.jobs.jobs.rows, j.docID = d ∧ j.attempts < j.maxAttempts := by
  obtain ⟨j, row, doc, _, ⟨w, _, _, running, _⟩ | claimable | recovers⟩ := h
  · cases (idle w).symm.trans running
  · exact ⟨j, row, doc, (Job.claimable_iff.mp claimable).2⟩
  · obtain ⟨since, recovers⟩ := recovers 0
    obtain ⟨_, row', id, claimable⟩ := recovers { jobEnv 0 with now := since } (Int.le_refl _)
    rw [JobBackend.recoverStale_eq] at row'
    obtain ⟨r, mem, rfl⟩ := List.mem_map.mp row'
    have same : r = j := eq_of_key_eq mem row (by split at id <;> exact id)
    subst same
    refine ⟨r, row, doc, ?_⟩
    have left := (Job.claimable_iff.mp claimable).2
    split at left <;> exact left

end
end IngestSystem

/-- In every run of saves, deletes, workers that may crash and restarts, a document that
waits has a job that will come to it, if each `Save` could enqueue its job and each last
attempt could tell the catalog how it ended. -/
theorem waiting_documents_are_served {Vec ω δ : Type} [DecidableEq ω] [DecidableEq δ] (cfg : IngestConfig)
    (events : List (SystemEvent Vec ω δ))
    (fresh : Runs.Guarded (IngestSystem.Fresh cfg) (IngestSystem.step cfg) {} events)
    (attended : Runs.Guarded (IngestSystem.Attended cfg) (IngestSystem.step cfg) {} events) (n : Nat) (d : String)
    (doc : DocumentRecord) (found : (IngestSystem.after cfg events n).world.catalog.get? d = some doc)
    (processing : doc.status = "processing") : IngestSystem.Served cfg (IngestSystem.after cfg events n) d :=
  (IngestSystem.awaited_after fresh attended n).served ⟨doc, found, processing⟩

def crashAt (n : Nat) : List (SystemEvent Unit Unit Unit) :=
  [.claim () { claim := jobEnv n, services := workingServices n }, .work (), .crash (), .recover (jobEnv (n + 2)) 1]

def crashedOnce : List (SystemEvent Unit Unit Unit) := .save (jobEnv 1) none note :: crashAt 2

theorem note_is_taken_again :
    ((IngestSystem.after {} crashedOnce 4).world.catalog.get? "d").map DocumentRecord.status = some "processing" ∧
      IngestSystem.Served {} (IngestSystem.after {} crashedOnce 4) "d" := by
  have found : (after {} crashedOnce 4).world.catalog.get? "d" = some note := by decide +kernel
  refine ⟨by rw [found]; rfl, waiting_documents_are_served {} crashedOnce ?_ ?_ 4 "d" note found rfl⟩
  · exact ⟨⟨rfl, fun _ mem => (by cases mem), fun _ _ _ free => (by cases free), fun table => (by cases table)⟩,
      trivial, trivial, trivial, trivial, trivial⟩
  · refine ⟨fun _ fault => (by cases fault), fun _ _ _ _ => ⟨rfl, rfl, rfl⟩, trivial, fun c p running _ last => ?_,
      trivial, trivial⟩
    have first : ((after {} crashedOnce 3).workers ()).map
        (fun x => decide (x.1.maxAttempts ≤ x.1.attempts)) = some false := by decide +kernel
    rw [show (after {} crashedOnce 3).workers () = some (c, p) from running] at first
    simp [last] at first

def lostJob : List (SystemEvent Unit Unit Unit) := [.save (jobEnv 1) (some ("down", false)) note]

def crashedThrice : List (SystemEvent Unit Unit Unit) :=
  .save (jobEnv 1) none note :: crashAt 2 ++ crashAt 6 ++ crashAt 10

theorem not_served {cfg} {S : IngestSystem Unit Unit Unit} (idle : S.workers () = none)
    (spent : (S.world.jobs.jobs.rows.all fun j => decide (j.maxAttempts ≤ j.attempts)) = true) :
    ¬ IngestSystem.Served cfg S "d" := by
  intro served
  obtain ⟨j, row, _, _⟩ := served.left fun _ => idle
  have full := of_decide_eq_true (List.all_eq_true.mp spent j row)
  omega

/-- The note waits and nothing will come to it, in both job stores. -/
theorem note_is_never_ingested :
    (IngestSystem.after {} lostJob 1).world.catalog.get? "d" = some note ∧
      ¬ IngestSystem.Served {} (IngestSystem.after {} lostJob 1) "d" ∧
      (IngestSystem.after {} crashedThrice 13).world.catalog.get? "d" = some note ∧
      ¬ IngestSystem.Served {} (IngestSystem.after {} crashedThrice 13) "d" ∧
      (IngestSystem.after { jobs := .postgres } crashedThrice 13).world.catalog.get? "d" = some note ∧
      ¬ IngestSystem.Served { jobs := .postgres } (after { jobs := .postgres } crashedThrice 13) "d" :=
  ⟨by decide +kernel, not_served rfl (by decide +kernel), by decide +kernel, not_served rfl (by decide +kernel),
    by decide +kernel, not_served rfl (by decide +kernel)⟩

end SynaMcp
