import SynaMcp.Knowledge.Ingest

/-! The worker by itself: it takes jobs until there is none, and ends, since every turn
uses up an attempt. What a turn does to the stores gives what a drained queue leaves. -/
namespace SynaMcp
open Keyed Sections Catalog List Table IngestWorker Nat

structure Round (Vec : Type) where
  claim : JobEnv
  services : IngestServices Vec

structure Attempt where
  job : Job
  ok : Bool
  deriving DecidableEq, Repr

def Job.remaining (j : Job) : Nat := if j.status = .pending then j.maxAttempts - j.attempts else 0

def JobStore.remaining (s : JobStore) : Nat := (s.jobs.rows.map Job.remaining).sum

section
variable {Vec : Type}

namespace IngestWorker
section
variable (cfg : IngestConfig)

def turn (round : Round Vec) (w : IngestWorld Vec) : Option (Attempt × IngestWorld Vec) :=
  match cfg.jobs.claim round.claim w.jobs with
  | (_, none) => none
  | (jobs, some job) =>
    let w := { w with jobs := jobs }
    some
      ({ job := job
         ok := match ((attempt cfg round.services job).run.exec w).2 with
           | .ok () => true
           | .error _ => false },
        ((handleJob cfg round.services job).exec w).1)

/-- With the attempts that were made; missing where the turns do not suffice. -/
def processUntilIdle : (Nat → Round Vec) → Nat → IngestWorld Vec → Option (IngestWorld Vec × List Attempt)
  | _, 0, _ => none
  | rounds, turns + 1, w =>
    match turn cfg (rounds 0) w with
    | none =>
      if w.jobs.hasPending then processUntilIdle (fun n => rounds (n + 1)) turns w else some (w, [])
    | some (a, w) =>
      (processUntilIdle (fun n => rounds (n + 1)) turns w).map fun out => (out.1, a :: out.2)

end

section
variable {cfg : IngestConfig} {round : Round Vec} {w w' : IngestWorld Vec} {a : Attempt}
  {d : String} {doc : DocumentRecord}

def claimedWorld (round : Round Vec) (w : IngestWorld Vec) (j : Job) : IngestWorld Vec :=
  { w with jobs := { w.jobs with jobs := w.jobs.jobs.put (j.claimed round.claim.now) } }

inductive Turned (cfg : IngestConfig) (round : Round Vec) (w : IngestWorld Vec) : Attempt → IngestWorld Vec → Prop where
  | succeeded {j out} (row : j ∈ w.jobs.jobs.rows) (claimable : j.claimable = true)
      (ran : (attempt cfg round.services (j.claimed round.claim.now)).run.exec (claimedWorld round w j) = (out, .ok ())) :
      Turned cfg round w { job := j.claimed round.claim.now, ok := true }
        { out with
          jobs :=
            { w.jobs with
              jobs := w.jobs.jobs.put ((j.claimed round.claim.now).completed round.services.env.now) } }
  | failed {j out e} (row : j ∈ w.jobs.jobs.rows)
      (claimable : j.claimable = true)
      (ran : (attempt cfg round.services (j.claimed round.claim.now)).run.exec (claimedWorld round w j) =
        (out, .error e)) :
      Turned cfg round w { job := j.claimed round.claim.now, ok := false }
        { out with
          catalog :=
            if j.maxAttempts ≤ j.attempts + 1 then
              failDocument round.services (j.claimed round.claim.now) e out.catalog
            else out.catalog
          jobs :=
            { w.jobs with
              jobs := w.jobs.jobs.put ((j.claimed round.claim.now).returned round.services.env.now e
                (decide (j.maxAttempts ≤ j.attempts + 1))) } }

theorem turn_none (memory : cfg.jobs = .memory) (h : turn cfg round w = none) : w.jobs.hasPending = false := by
  unfold turn at h
  rw [memory] at h
  simp only [JobBackend.claim, InMemoryJobStore.claim] at h
  cases chosen : w.jobs.candidate round.claim.order (fun _ => false) with
  | none => exact JobStore.candidate_none chosen
  | some =>
    rw [chosen] at h
    cases h

theorem turn_some (memory : cfg.jobs = .memory) (reliable : round.services.Reliable)
    (h : turn cfg round w = some (a, w')) : Turned cfg round w a w' := by
  unfold turn at h
  rw [memory] at h
  simp only [JobBackend.claim, InMemoryJobStore.claim] at h
  cases chosen : w.jobs.candidate round.claim.order (fun _ => false) with
  | none =>
    rw [chosen] at h
    cases h
  | some j =>
    rw [chosen] at h
    obtain ⟨row, claimable, _⟩ := JobStore.candidate_some chosen
    have stored : j.claimed round.claim.now ∈ (claimedWorld round w j).jobs.jobs.rows := Table.mem_put.mpr (.inl rfl)
    have handled := exec_handleJob cfg reliable stored
    have twice : ∀ c : Job, c.id = j.id → (claimedWorld round w j).jobs.jobs.put c = w.jobs.jobs.put c :=
      fun c same => put_put w.jobs.jobs same.symm
    simp only [Option.some.injEq, Prod.mk.injEq] at h
    obtain ⟨rfl, rfl⟩ := h
    change Turned cfg round w
      { job := j.claimed round.claim.now
        ok := match ((attempt cfg round.services (j.claimed round.claim.now)).run.exec (claimedWorld round w j)).2 with
          | .ok () => true
          | .error _ => false }
      ((handleJob cfg round.services (j.claimed round.claim.now)).exec (claimedWorld round w j)).1
    rw [handled]
    generalize ran : (attempt cfg round.services (j.claimed round.claim.now)).run.exec (claimedWorld round w j) = result
    obtain ⟨_, _ | _⟩ := result
    · simp only [twice _ (show (Job.returned _ _ _ (j.claimed round.claim.now)).id = j.id from rfl)]
      exact .failed row claimable ran
    · simp only [twice _ (show (Job.completed _ (j.claimed round.claim.now)).id = j.id from rfl)]
      exact .succeeded row claimable ran

theorem Turned.row (h : Turned cfg round w a w') :
    ∃ j ∈ w.jobs.jobs.rows, j.claimable = true ∧ a.job = j.claimed round.claim.now ∧
      ∃ j', w'.jobs = { w.jobs with jobs := w.jobs.jobs.put j' } ∧ j'.id = j.id ∧ j'.docID = j.docID ∧ j'.kind = j.kind ∧
        j'.maxAttempts = j.maxAttempts ∧ j'.attempts = j.attempts + 1 ∧
        j'.status = if a.ok then .completed else if j.maxAttempts ≤ j.attempts + 1 then .failed else .pending := by
  cases h with
  | succeeded row claimable => exact ⟨_, row, claimable, rfl, _, rfl, rfl, rfl, rfl, rfl, rfl, rfl⟩
  | @failed _ _ _ row claimable =>
    refine ⟨_, row, claimable, rfl, _, rfl, rfl, rfl, rfl, rfl, rfl, ?_⟩
    simp only [Job.returned, decide_eq_true_eq, Bool.false_eq_true, if_false]

theorem Turned.remaining_lt (h : Turned cfg round w a w') : w'.jobs.remaining < w.jobs.remaining := by
  obtain ⟨j, row, claimable, _, j', jobs, id, _, _, limit, attempts, _⟩ := h.row
  obtain ⟨pending, _⟩ := Job.claimable_iff.mp claimable
  have sum := sum_put row id Job.remaining
  have less : j'.remaining < j.remaining := by
    have before : j.remaining = j.maxAttempts - j.attempts := if_pos pending
    have after : j'.remaining ≤ j'.maxAttempts - j'.attempts := by
      unfold Job.remaining
      split <;> omega
    rw [limit, attempts] at after
    omega
  rw [jobs]
  unfold JobStore.remaining
  simp only
  omega

/-- What holds of a queue when there is nothing to claim, and before a turn if it holds
after it, holds of what draining leaves; and draining ends. -/
theorem drain {K : Round Vec → Prop} {I : IngestWorld Vec → Prop}
    {R : IngestWorld Vec → List Attempt → IngestWorld Vec → Prop} (memory : cfg.jobs = .memory)
    (reliable : ∀ r, K r → r.services.Reliable) (idle : ∀ w, I w → w.jobs.hasPending = false → R w [] w)
    (turned : ∀ r w a w', K r → I w → Turned cfg r w a w' → I w' ∧ ∀ log out, R w' log out → R w (a :: log) out)
    {rounds} (all : ∀ n, K (rounds n)) (inv : I w) : ∃ out log, R w log out ∧
      ∀ turns, w.jobs.remaining < turns → processUntilIdle cfg rounds turns w = some (out, log) := by
  induction measure : w.jobs.remaining using Nat.strong_induction_on generalizing w rounds with
  | _ n ih =>
    subst measure
    cases taken : turn cfg (rounds 0) w with
    | none =>
      have none := turn_none memory taken
      refine ⟨w, [], idle w inv none, fun turns enough => ?_⟩
      obtain ⟨turns, rfl⟩ := exists_eq_succ_of_ne_zero (n := turns) (by omega)
      simp only [processUntilIdle, taken, none, Bool.false_eq_true, if_false]
    | some result =>
      obtain ⟨a, w'⟩ := result
      have step := turn_some memory (reliable _ (all 0)) taken
      have less := step.remaining_lt
      obtain ⟨inv', back⟩ := turned _ w a w' (all 0) inv step
      obtain ⟨out, log, rel, drained⟩ := ih _ less (fun n => all (n + 1)) inv' rfl
      refine ⟨out, a :: log, back log out rel, fun turns enough => ?_⟩
      obtain ⟨turns, rfl⟩ := exists_eq_succ_of_ne_zero (n := turns) (by omega)
      simp only [processUntilIdle, taken, drained turns (by omega), Option.map_some]

theorem get?_failDocument {svc : IngestServices Vec} {job cause docs}
    (apart : d ≠ job.docID ∨ docs.get? d = none) : (failDocument svc job cause docs).get? d = docs.get? d := by
  unfold failDocument
  split
  · next doc read =>
    have found : docs.get? job.docID = some doc := by
      split at read
      · exact read
      · cases read
    have key : doc.docID = job.docID := key_of_get? found
    refine get?_save_of_ne docs fun same => ?_
    rcases apart with other | gone
    · exact other (same.symm.trans key)
    · rw [← same.symm.trans key, gone] at found
      cases found
  · rfl

theorem attempt_get? (cfg : IngestConfig) (svc : IngestServices Vec) {job}
    (apart : d ≠ job.docID ∨ w.catalog.get? d = none) :
    ((attempt cfg svc job).run.exec w).1.catalog.get? d = w.catalog.get? d := by
  unfold attempt
  split
  · generalize ran : (Pipeline.processIngest cfg svc job.docID).run.exec w = result
    have processed := Pipeline.exec_processIngest cfg svc job.docID w
    rw [ran] at processed
    cases processed with
    | unread | settled => rfl
    | @indexed doc _ found _ indexed =>
      have other : doc.docID ≠ d := by
        rintro rfl
        rcases apart with other | gone
        · exact other (key_of_get? found)
        · rw [key_of_get? found, found] at gone
          cases gone
      cases indexed with
      | stopped => rfl
      | saved => exact get?_save_of_ne _ other
  · rw [Pipeline.exec_processDeleteVectors]
    rcases svc.deleteVectors with _ | ⟨_, _ | _⟩ <;> rfl
  · rfl

/-- A turn touches the document of its job only, and not one that is gone. -/
theorem Turned.get? (h : Turned cfg round w a w') (apart : d ≠ a.job.docID ∨ w.catalog.get? d = none) :
    w'.catalog.get? d = w.catalog.get? d := by
  cases h with
  | @succeeded j _ _ _ ran =>
    have same := attempt_get? cfg round.services (w := claimedWorld round w j) apart
    rw [ran] at same
    exact same
  | @failed j out _ _ _ ran =>
    have same := attempt_get? cfg round.services (w := claimedWorld round w j) apart
    rw [ran] at same
    have rest : d ≠ (j.claimed round.claim.now).docID ∨ out.catalog.get? d = none := apart.imp_right same.trans
    simp only
    split
    · exact (get?_failDocument rest).trans same
    · exact same

/-- An attempt at a document that waits for it: it is ready, or the catalog is as before. -/
theorem attempt_status (cfg : IngestConfig) {svc job}
    (reliable : svc.Reliable) (kind : job.kind = .ingest) (found : w.catalog.get? job.docID = some doc) (waits : doc.status = "processing") :
    (∃ out e, (attempt cfg svc job).run.exec w = (out, .error e) ∧ out.catalog = w.catalog) ∨
      ∃ out doc', (attempt cfg svc job).run.exec w = (out, .ok ()) ∧ out.catalog.get? job.docID = some doc' ∧
        doc'.status = "ready" := by
  have same : attempt cfg svc job = Pipeline.processIngest cfg svc job.docID := by
    unfold attempt
    rw [kind]
  rw [same]
  generalize ran : (Pipeline.processIngest cfg svc job.docID).run.exec w = result
  have processed := Pipeline.exec_processIngest cfg svc job.docID w
  rw [ran] at processed
  cases processed with
  | unread absent => cases found.symm.trans (absent reliable.getDoc)
  | settled found' status =>
    cases found.symm.trans found'
    rw [waits] at status
    exact absurd status (by decide)
  | indexed found' _ indexed =>
    cases found.symm.trans found'
    cases indexed with
    | stopped => exact .inl ⟨_, _, rfl, rfl⟩
    | saved _ _ _ result =>
      obtain ⟨_, rfl⟩ | ⟨_, fault, _⟩ := result
      · have key : doc.docID = job.docID := key_of_get? found
        exact .inr ⟨_, _, rfl, get?_save w.catalog key, rfl⟩
      · cases reliable.saveDoc.symm.trans fault

theorem Turned.status (h : Turned cfg round w a w') (reliable : round.services.Reliable) {j : Job}
    (job : a.job = j.claimed round.claim.now) (kind : j.kind = .ingest) (found : w.catalog.get? j.docID = some doc)
    (waits : doc.status = "processing") : ∃ doc', w'.catalog.get? j.docID = some doc' ∧
      doc'.status = if a.ok then "ready" else if j.maxAttempts ≤ j.attempts + 1 then "failed" else "processing" := by
  have name : j.docID = a.job.docID := by rw [job]; rfl
  have limit : j.maxAttempts = a.job.maxAttempts := by rw [job]; rfl
  have attempts : j.attempts + 1 = a.job.attempts := by rw [job]; rfl
  have ingest : a.job.kind = .ingest := by rw [job]; exact kind
  rw [name] at found ⊢
  rw [limit, attempts]
  clear job kind name limit attempts
  cases h with
  | @succeeded j _ _ _ ran =>
    obtain ⟨_, _, ran', _⟩ | ⟨_, doc', ran', found', status⟩ :=
      attempt_status cfg (w := claimedWorld round w j) reliable ingest found waits
    · cases ran.symm.trans ran'
    · cases ran.symm.trans ran'
      exact ⟨doc', found', status⟩
  | @failed j out _ _ _ ran =>
    obtain ⟨_, _, ran', same⟩ | ⟨_, _, ran', _⟩ :=
      attempt_status cfg (w := claimedWorld round w j) reliable ingest found waits
    · cases ran.symm.trans ran'
      have found' : out.catalog.get? (j.claimed round.claim.now).docID = some doc := same ▸ found
      simp only [Bool.false_eq_true, if_false]
      by_cases last : j.maxAttempts ≤ j.attempts + 1
      · have key : doc.docID = j.docID := key_of_get? found
        rw [if_pos last, failDocument, if_pos ingest, found']
        exact ⟨_, get?_save out.catalog key, (if_pos last).symm⟩
      · exact ⟨doc, by rw [if_neg last]; exact found', waits.trans (if_neg last).symm⟩
    · cases ran.symm.trans ran'

/-- Every job that is not over is one to ingest a document that waits for it, and has
attempts left. -/
structure Queued (w : IngestWorld Vec) : Prop where
  waits : ∀ j ∈ w.jobs.jobs.rows, j.active = true → j.claimable = true ∧ j.kind = .ingest ∧
    ∃ doc, w.catalog.get? j.docID = some doc ∧ doc.status = "processing"
  alone : ∀ j ∈ w.jobs.jobs.rows, ∀ j' ∈ w.jobs.jobs.rows, j.active = true → j'.active = true → j.docID = j'.docID → j = j'
  within : ∀ j ∈ w.jobs.jobs.rows, j.attempts ≤ j.maxAttempts

structure Drained (w : IngestWorld Vec) (log : List Attempt) (out : IngestWorld Vec) : Prop where
  tries : ∀ j ∈ w.jobs.jobs.rows, log.countP (fun a => decide (a.job.id = j.id)) + j.attempts ≤ j.maxAttempts
  settled : ∀ j ∈ w.jobs.jobs.rows, j.active = true → ∃ doc, out.catalog.get? j.docID = some doc ∧
    doc.status = if ∃ a ∈ log, a.job.docID = j.docID ∧ a.ok = true then "ready" else "failed"
  rest : ∀ d, (∀ j ∈ w.jobs.jobs.rows, j.active = true → j.docID ≠ d) →
    out.catalog.get? d = w.catalog.get? d ∧ ∀ a ∈ log, a.job.docID ≠ d

theorem Queued.drained (h : Queued w) (idle : w.jobs.hasPending = false) : Drained w [] w where
  tries j row := by simpa using h.within j row
  settled j row active := by
    have claimable := (h.waits j row active).1
    simp only [JobStore.hasPending, any_eq_false] at idle
    exact absurd claimable (idle j row)
  rest _ _ := ⟨rfl, by simp⟩

theorem Turned.rows (h : Turned cfg round w a w') :
    ∃ j ∈ w.jobs.jobs.rows, j.claimable = true ∧ a.job = j.claimed round.claim.now ∧
      ∃ j', (∀ x, x ∈ w'.jobs.jobs.rows ↔ x = j' ∨ x ∈ w.jobs.jobs.rows ∧ x.id ≠ j.id) ∧ j'.id = j.id ∧
        j'.docID = j.docID ∧ j'.kind = j.kind ∧ j'.maxAttempts = j.maxAttempts ∧ j'.attempts = j.attempts + 1 ∧
        (a.ok = true ∧ j'.status = .completed ∨ a.ok = false ∧ j.maxAttempts ≤ j.attempts + 1 ∧ j'.status = .failed ∨
          a.ok = false ∧ j.attempts + 1 < j.maxAttempts ∧ j'.status = .pending) := by
  obtain ⟨j, row, claimable, job, j', jobs, id, doc, kind, limit, attempts, status⟩ := h.row
  refine ⟨j, row, claimable, job, j', fun x => ?_, id, doc, kind, limit, attempts, ?_⟩
  · rw [jobs, ← id]
    exact mem_put
  · cases ok : a.ok with
    | true => exact .inl ⟨rfl, by rw [status, ok]; rfl⟩
    | false =>
      rw [ok] at status
      by_cases last : j.maxAttempts ≤ j.attempts + 1
      · exact .inr (.inl ⟨rfl, last, status.trans (if_pos last)⟩)
      · exact .inr (.inr ⟨rfl, Nat.lt_of_not_le last, status.trans (if_neg last)⟩)

theorem Turned.named (h : Turned cfg round w a w') (named : cfg.jobs.Named w.jobs) : cfg.jobs.Named w'.jobs := by
  obtain ⟨_, row, _, _, _, jobs, id, _⟩ := h.row
  rw [jobs]
  exact JobBackend.named_rewrite named row id

theorem active_of_claimable {j : Job} (h : j.claimable = true) : j.active = true := by
  simp [Job.active, (Job.claimable_iff.mp h).1]

theorem Queued.other (h : Queued w) {j x} (row : j ∈ w.jobs.jobs.rows) (active : j.active = true)
    (mem : x ∈ w.jobs.jobs.rows) (apart : x.id ≠ j.id) (active' : x.active = true) : x.docID ≠ j.docID :=
  fun same => apart (congrArg Job.id (h.alone x mem j row active' active same))

section
variable (h : Queued w) (reliable : round.services.Reliable) (turned : Turned cfg round w a w')
include h reliable turned

theorem Queued.turn : Queued w' := by
  obtain ⟨j, row, claimable, job, _, rows, _, doc, kind, _, _, outcome⟩ := turned.rows
  have active := active_of_claimable claimable
  obtain ⟨_, _⟩ := Job.claimable_iff.mp claimable
  obtain ⟨_, ingest, _, found, waits⟩ := h.waits j row active
  refine ⟨fun x mem active' => ?_, fun x memX y memY activeX activeY same => ?_, fun x mem => ?_⟩
  · rcases (rows x).mp mem with rfl | ⟨mem, apart⟩
    · obtain ⟨_, status⟩ | ⟨_, _, status⟩ | ⟨ok, more, status⟩ := outcome
      · simp [Job.active, status] at active'
      · simp [Job.active, status] at active'
      · refine ⟨Job.claimable_iff.mpr ⟨status, by omega⟩, kind.trans ingest, ?_⟩
        have waiting := turned.status reliable job ingest found waits
        rw [ok, if_neg (by simp), if_neg (Nat.not_le_of_lt more)] at waiting
        rw [doc]
        exact waiting
    · obtain ⟨claimable', kind', record', found', waits'⟩ := h.waits x mem active'
      refine ⟨claimable', kind', record', ?_, waits'⟩
      have other := h.other row active mem apart active'
      rw [turned.get? (.inl (by rw [job]; exact other))]
      exact found'
  · rcases (rows x).mp memX with rfl | ⟨oldX, apartX⟩
    · rcases (rows y).mp memY with rfl | ⟨oldY, apartY⟩
      · rfl
      · exact absurd (same.symm.trans doc) (h.other row active oldY apartY activeY)
    · rcases (rows y).mp memY with rfl | ⟨oldY, _⟩
      · exact absurd (same.trans doc) (h.other row active oldX apartX activeX)
      · exact h.alone x oldX y oldY activeX activeY same
  · rcases (rows x).mp mem with rfl | ⟨mem, _⟩
    · omega
    · exact h.within x mem

theorem Drained.turn {log : List Attempt} {out} (drained : Drained w' log out) : Drained w (a :: log) out := by
  obtain ⟨j, row, claimable, job, j', rows, id, doc, _, _, _, outcome⟩ := turned.rows
  have active := active_of_claimable claimable
  obtain ⟨_, ingest, _, found, waits⟩ := h.waits j row active
  have made : a.job.id = j.id ∧ a.job.docID = j.docID := by
    rw [job]
    exact ⟨rfl, rfl⟩
  have status := turned.status reliable job ingest found waits
  refine ⟨fun x mem => ?_, fun x mem active' => ?_, fun d none => ?_⟩
  · by_cases same : x.id = j.id
    · obtain rfl := eq_of_key_eq mem row same
      have bound := drained.tries j' ((rows j').mpr (.inl rfl))
      rw [countP_cons_of_pos (by simp [made.1])]
      rw [id] at bound
      omega
    · rw [countP_cons_of_neg (by simp [made.1, Ne.symm same])]
      exact drained.tries x ((rows x).mpr (.inr ⟨mem, same⟩))
  · by_cases same : x.id = j.id
    · obtain rfl := eq_of_key_eq mem row same
      -- A job that is over leaves no other active job of the document.
      have past : j'.active = false → (∀ y ∈ w'.jobs.jobs.rows, y.active = true → y.docID ≠ x.docID) := by
        intro inactive y memY activeY
        rcases (rows y).mp memY with rfl | ⟨oldY, apartY⟩
        · rw [inactive] at activeY
          cases activeY
        · exact h.other row active oldY apartY activeY
      obtain ⟨ok, completed⟩ | ⟨ok, last, failed⟩ | ⟨ok, _, pending⟩ := outcome
      · obtain ⟨same, _⟩ := drained.rest x.docID (past (by simp [Job.active, completed]))
        rw [ok, if_pos rfl] at status
        obtain ⟨doc', found', ready⟩ := status
        refine ⟨doc', same.trans found', ready.trans (if_pos ?_).symm⟩
        exact ⟨a, mem_cons_self, made.2, ok⟩
      · obtain ⟨same, others⟩ := drained.rest x.docID (past (by simp [Job.active, failed]))
        rw [ok, if_neg (by simp), if_pos last] at status
        obtain ⟨doc', found', lost⟩ := status
        refine ⟨doc', same.trans found', lost.trans (if_neg ?_).symm⟩
        rintro ⟨b, memB, docB, okB⟩
        rcases List.mem_cons.mp memB with rfl | memB
        · rw [ok] at okB
          cases okB
        · exact others b memB docB
      · have again := drained.settled j' ((rows j').mpr (.inl rfl)) (by simp [Job.active, pending])
        rw [doc] at again
        simpa [ok] using again
    · have again := drained.settled x ((rows x).mpr (.inr ⟨mem, same⟩)) active'
      have other : a.job.docID ≠ x.docID := fun equal =>
        h.other row active mem same active' (equal.symm.trans made.2)
      simpa [other] using again
  · have other : j.docID ≠ d := none j row active
    obtain ⟨same, others⟩ := drained.rest d fun y memY activeY => by
      rcases (rows y).mp memY with rfl | ⟨oldY, _⟩
      · rw [doc]
        exact other
      · exact none y oldY activeY
    refine ⟨same.trans (turned.get? (.inl fun equal => other (equal.trans made.2).symm)), fun b memB => ?_⟩
    rcases List.mem_cons.mp memB with rfl | memB
    · rw [made.2]
      exact other
    · exact others b memB

end

def saveAll (cfg : IngestConfig) (w : IngestWorld Vec) (docs : List (JobEnv × DocumentRecord)) : IngestWorld Vec :=
  Runs.run (fun w d => (Pipeline.saveAndEnqueue cfg d.1 none d.2 w).1) w docs

section
variable (h : Queued w) (memory : cfg.jobs = .memory) (named : cfg.jobs.Named w.jobs)
include h memory named

theorem Queued.save (env : JobEnv)
    (waits : doc.status = "processing") (fresh : ∀ j ∈ w.jobs.jobs.rows, j.docID ≠ doc.docID) :
    let w' := (Pipeline.saveAndEnqueue cfg env none doc w).1
    Queued w' ∧ cfg.jobs.Named w'.jobs ∧
      ∃ job, job.active = true ∧ job.docID = doc.docID ∧
        ∀ j, j ∈ w'.jobs.jobs.rows ↔ j = job ∨ j ∈ w.jobs.jobs.rows := by
  have enqueued := JobBackend.enqueue_cases named env doc.docID .ingest defaultMaxAttempts
  simp only [Pipeline.saveAndEnqueue]
  generalize cfg.jobs.enqueue env w.jobs doc.docID .ingest defaultMaxAttempts = result at enqueued ⊢
  cases enqueued with
  | existing row active => exact absurd (Job.activeFor_iff.mp active).1 (fresh _ row)
  | conflict table => cases memory.symm.trans table
  | @added id seq new _ grown name =>
    have rows : ∀ j, j ∈ (w.jobs.jobs.put (newJob env.now id doc.docID .ingest defaultMaxAttempts)).rows ↔
        j = newJob env.now id doc.docID .ingest defaultMaxAttempts ∨ j ∈ w.jobs.jobs.rows := by
      intro j
      rw [mem_put]
      exact or_congr_right (and_iff_left_of_imp fun row same => new ⟨j, row, same⟩)
    refine ⟨⟨fun j mem active => ?_, fun j memJ j' memJ' active active' same => ?_, fun j mem => ?_⟩,
      JobBackend.named_put named grown fun memory => ⟨seq, le_refl _, name memory⟩, _, rfl, rfl, rows⟩
    · rcases (rows j).mp mem with rfl | row
      · exact ⟨rfl, rfl, _, get?_save w.catalog rfl, waits⟩
      · obtain ⟨claimable, kind, doc', found, waits'⟩ := h.waits j row active
        exact ⟨claimable, kind, doc', (get?_save_of_ne _ (Ne.symm (fresh j row))).trans found, waits'⟩
    · rcases (rows j).mp memJ with rfl | row <;> rcases (rows j').mp memJ' with rfl | row'
      · rfl
      · exact absurd same.symm (fresh j' row')
      · exact absurd same (fresh j row)
      · exact h.alone j row j' row' active active' same
    · rcases (rows j).mp mem with rfl | row
      · exact zero_le _
      · exact h.within j row

theorem Queued.saveAll
    {docs} (waits : ∀ d ∈ docs, d.2.status = "processing") (distinct : (docs.map fun d => d.2.docID).Nodup)
    (fresh : ∀ d ∈ docs, ∀ j ∈ w.jobs.jobs.rows, j.docID ≠ d.2.docID) :
    Queued (saveAll cfg w docs) ∧ (∀ j ∈ w.jobs.jobs.rows, j ∈ (saveAll cfg w docs).jobs.jobs.rows) ∧
      ∀ d ∈ docs, ∃ j ∈ (saveAll cfg w docs).jobs.jobs.rows, j.active = true ∧ j.docID = d.2.docID := by
  induction docs generalizing w with
  | nil => exact ⟨h, fun j row => row, by simp⟩
  | cons d rest ih =>
    obtain ⟨queued, named', job, active, name, rows⟩ := h.save memory named d.1
      (waits d mem_cons_self) (fresh d mem_cons_self)
    obtain ⟨first, distinct⟩ := List.nodup_cons.mp distinct
    have later : ∀ e ∈ rest, ∀ j ∈ (Pipeline.saveAndEnqueue cfg d.1 none d.2 w).1.jobs.jobs.rows,
        j.docID ≠ e.2.docID := by
      intro e mem j row same
      rcases (rows j).mp row with rfl | row
      · exact first (List.mem_map.mpr ⟨e, mem, (name.symm.trans same).symm⟩)
      · exact fresh e (mem_cons_of_mem d mem) j row same
    obtain ⟨all, kept, jobs⟩ := ih queued named' (fun e mem => waits e (mem_cons_of_mem d mem)) distinct later
    refine ⟨all, fun j row => kept j ((rows j).mpr (.inr row)), fun e mem => ?_⟩
    rcases List.mem_cons.mp mem with rfl | mem
    · exact ⟨job, kept job ((rows job).mpr (.inl rfl)), active, name⟩
    · exact jobs e mem

end

theorem queued_empty : Queued ({} : IngestWorld Vec) where
  waits _ mem := by cases mem
  alone _ mem := by cases mem
  within _ mem := by cases mem

end
end IngestWorker

open IngestWorker in
/-- However the services fail, draining the queue ends, tries no job more often than it
may, and leaves every document ready if one of its attempts succeeded, and failed
otherwise. -/
theorem draining_settles_documents (cfg : IngestConfig) (memory : cfg.jobs = .memory)
    (docs : List (JobEnv × DocumentRecord)) (waits : ∀ d ∈ docs, d.2.status = "processing")
    (distinct : (docs.map fun d => d.2.docID).Nodup) (rounds : Nat → Round Vec)
    (reliable : ∀ n, (rounds n).services.Reliable) :
    ∃ out log enough,
      (∀ turns, enough < turns → processUntilIdle cfg rounds turns (saveAll cfg {} docs) = some (out, log)) ∧
      (∀ j ∈ (saveAll cfg ({} : IngestWorld Vec) docs).jobs.jobs.rows,
        log.countP (fun a => decide (a.job.id = j.id)) ≤ j.maxAttempts) ∧
      ∀ d ∈ docs, ∃ doc, out.catalog.get? d.2.docID = some doc ∧
        doc.status = if ∃ a ∈ log, a.job.docID = d.2.docID ∧ a.ok = true then "ready" else "failed" := by
  obtain ⟨queued, _, jobs⟩ := queued_empty.saveAll memory (fun _ _ mem => by cases mem) waits distinct
    fun _ _ _ mem => by cases mem
  obtain ⟨out, log, drained, ends⟩ := drain memory (fun _ ok => ok) (fun _ inv idle => Queued.drained inv idle)
    (fun _ _ _ _ ok inv turned => ⟨Queued.turn inv ok turned, fun _ _ after => Drained.turn inv ok turned after⟩)
    reliable queued
  refine ⟨out, log, _, ends, fun j row => le_of_add_right_le (drained.tries j row), fun d mem => ?_⟩
  obtain ⟨j, row, active, name⟩ := jobs d mem
  rw [← name]
  exact drained.settled j row active

end

def slowStart (n : Nat) : Round Unit where
  claim := jobEnv n
  services := if n = 0 then busyServices n else workingServices n

def oneNote : List (JobEnv × DocumentRecord) := [(jobEnv 1, note)]

theorem note_is_ready_in_the_end :
    ∃ out log enough,
      (∀ turns, enough < turns →
        IngestWorker.processUntilIdle {} slowStart turns (IngestWorker.saveAll {} {} oneNote) = some (out, log)) ∧
      (∀ j ∈ (IngestWorker.saveAll {} ({} : IngestWorld Unit) oneNote).jobs.jobs.rows,
        log.countP (fun a => decide (a.job.id = j.id)) ≤ j.maxAttempts) ∧
      ∀ d ∈ oneNote, ∃ doc, out.catalog.get? d.2.docID = some doc ∧
        doc.status = if ∃ a ∈ log, a.job.docID = d.2.docID ∧ a.ok = true then "ready" else "failed" := by
  refine draining_settles_documents {} rfl oneNote (by decide) (by decide) slowStart fun n => ?_
  simp only [slowStart]
  split <;> exact ⟨rfl, rfl, rfl, rfl, rfl, rfl⟩

example :
    (processUntilIdle {} slowStart 4 (saveAll {} {} oneNote)).map
      (fun out => (out.1.catalog.rows.map DocumentRecord.status, out.2.map Attempt.ok)) =
        some (["ready"], [false, true]) := by
  decide +kernel

end SynaMcp
