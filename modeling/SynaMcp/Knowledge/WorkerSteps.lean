import SynaMcp.Knowledge.Ingest

/-! What a section of a worker, and one of `Delete`, can do to the stores. What a worker
may count on is left open: the results about a run choose it. -/
namespace SynaMcp
open Keyed Sections IngestWorld Table Nat

structure Job.Same (j j' : Job) : Prop where
  id : j'.id = j.id
  docID : j'.docID = j.docID
  kind : j'.kind = j.kind
  limit : j'.maxAttempts = j.maxAttempts
  attempts : j.attempts ≤ j'.attempts

namespace Job.Same
variable {j j' j'' : Job}

theorem refl (j : Job) : j.Same j := ⟨rfl, rfl, rfl, rfl, le_refl _⟩

theorem trans (h : j.Same j') (h' : j'.Same j'') : j.Same j'' :=
  ⟨h'.id.trans h.id, h'.docID.trans h.docID, h'.kind.trans h.kind, h'.limit.trans h.limit, h.attempts.trans h'.attempts⟩

variable (j) (now : Time)

theorem completed : j.Same (j.completed now) := ⟨rfl, rfl, rfl, rfl, le_refl _⟩

theorem returned (e : String) (last : Bool) : j.Same (j.returned now e last) :=
  ⟨rfl, rfl, rfl, rfl, le_refl _⟩

theorem claimed : j.Same (j.claimed now) := ⟨rfl, rfl, rfl, rfl, le_succ _⟩

end Job.Same

section
variable {s : JobStore} {c r : Job}

theorem JobBackend.markCompleted_of_same (b : JobBackend) {env} (row : r ∈ s.jobs.rows) (same : c.Same r) :
    b.markCompleted env s c.id = ({ s with jobs := s.jobs.put (r.completed env.now) }, .ok ()) := by
  rw [← same.id]
  exact b.markCompleted_of_mem row

/-- Of an older copy the stores may tell the last attempt differently, but each calls an
attempt the last only if no other is left. -/
theorem JobBackend.markFailed_of_same (b : JobBackend) (env : JobEnv) (e : String) (row : r ∈ s.jobs.rows) (same : c.Same r) :
    ∃ last, b.markFailed env s c e = ({ s with jobs := s.jobs.put (r.returned env.now e last) }, .ok !last) ∧
      (last = true → r.maxAttempts ≤ r.attempts) ∧ (c.maxAttempts ≤ c.attempts → last = true) := by
  have limit := same.limit
  have attempts := same.attempts
  have found : s.jobs.get? c.id = some r := same.id ▸ get?_of_mem row
  cases b with
  | memory =>
    refine ⟨decide (r.maxAttempts ≤ r.attempts), ?_, of_decide_eq_true, fun full => decide_eq_true (by omega)⟩
    simp only [markFailed, InMemoryJobStore.markFailed, found]
  | postgres =>
    refine ⟨decide (c.maxAttempts ≤ c.attempts), ?_, fun full => ?_, decide_eq_true⟩
    · simp only [markFailed, PostgresJobStore.markFailed, JobStore.update, found]
    · have := of_decide_eq_true full
      omega

end

section
variable {Vec : Type}

namespace IngestWorld

def Processing (w : IngestWorld Vec) (d : String) : Prop :=
  ∃ doc, w.catalog.get? d = some doc ∧ doc.status = "processing"

variable {w : IngestWorld Vec}

theorem not_processing_saved {doc d} (own : doc.docID = d)
    (status : doc.status ≠ "processing") : ¬ Processing { w with catalog := w.catalog.save doc } d := by
  rintro ⟨doc', there, waits⟩
  cases (Catalog.get?_save w.catalog own).symm.trans there
  exact status waits

theorem processing_of_saved {doc d} (status : doc.status ≠ "processing")
    (h : Processing { w with catalog := w.catalog.save doc } d) : Processing w d := by
  by_cases own : doc.docID = d
  · exact absurd h (not_processing_saved own status)
  · obtain ⟨doc', there, waits⟩ := h
    exact ⟨doc', (Catalog.get?_save_of_ne w.catalog own).symm.trans there, waits⟩

def Leased (c : Job) (w : IngestWorld Vec) : Prop := ∃ r ∈ w.jobs.jobs.rows, c.Same r

def Keeps (w w' : IngestWorld Vec) : Prop := ∀ j ∈ w.jobs.jobs.rows, ∃ j' ∈ w'.jobs.jobs.rows, j.Same j'

theorem Keeps.refl (w : IngestWorld Vec) : Keeps w w := fun j row => ⟨j, row, .refl j⟩

theorem Leased.keeps {c} {w w' : IngestWorld Vec} (h : Leased c w) (kept : Keeps w w') : Leased c w' := by
  obtain ⟨r, row, same⟩ := h
  obtain ⟨r', row', later⟩ := kept r row
  exact ⟨r', row', same.trans later⟩

/-- Where a row is written again, each job is still there, at the same attempt if the row
is. -/
theorem mem_put_of_same {r r' j} (row : r ∈ w.jobs.jobs.rows) (same : r.Same r') (mem : j ∈ w.jobs.jobs.rows) :
    ∃ j' ∈ (w.jobs.jobs.put r').rows, j.Same j' ∧ (r'.attempts = r.attempts → j'.attempts = j.attempts) := by
  by_cases key : j.id = r.id
  · obtain rfl := eq_of_key_eq mem row key
    exact ⟨r', Table.mem_put.mpr (.inl rfl), same, id⟩
  · exact ⟨j, Table.mem_put.mpr (.inr ⟨mem, fun equal => key (equal.trans same.id)⟩), .refl j, fun _ => rfl⟩

end IngestWorld

theorem read_getDocument {fault} {id : String} {u : IngestWorld Vec} {doc}
    (h : (match fault with
      | none => .ok (u.catalog.get? id)
      | some e => .error e : Except String (Option DocumentRecord)) = .ok (some doc)) : u.catalog.get? id = some doc := by
  cases fault with
  | none => exact Except.ok.inj h
  | some => cases h

theorem safe_saveDocument {doc s t T fault} {P : IngestWorld Vec → Prop}
    (saved : ∀ u, T.rely t u → T.assume u → T.guar u { u with catalog := u.catalog.save doc })
    (ends : ∀ u, fault = none → T.rely t u → P { u with catalog := u.catalog.save doc }) :
    Try.Safe T (fun _ _ t => P t) (saveDocument fault doc) s t := by
  intro u moved ok
  simp only
  rcases fault with _ | ⟨_, _ | _⟩
  · exact ⟨saved u moved ok, fun _ _ => ends u rfl moved⟩
  · exact ⟨T.guar_refl u ok, fun _ ok => by cases ok⟩
  · exact ⟨saved u moved ok, fun _ ok => by cases ok⟩

/-- What a section of a worker at job `c` can do. `seen` is what the worker knows once it
has found the document, and `done` what a successful attempt leaves. -/
inductive Does (c : Job) (seen : Prop) (done : IngestWorld Vec → Prop) (u : IngestWorld Vec) : IngestWorld Vec → Prop where
  | still : Does c seen done u u
  | stored {b : VectorBackend} {draw : UUID} {r : IndexRecord Vec} (known : seen) (own : r.docID = c.docID) :
      Does c seen done u { u with vectors := b.upsert draw u.vectors r }
  | saved {doc} (known : seen) (own : doc.docID = c.docID) (status : doc.status ≠ "processing") :
      Does c seen done u { u with catalog := u.catalog.save doc }
  | cleared : Does c seen done u { u with vectors := deleteByDocID c.docID u.vectors }
  | completed {r now} (holds : done u) (row : r ∈ u.jobs.jobs.rows) (same : c.Same r) :
      Does c seen done u { u with jobs := { u.jobs with jobs := u.jobs.jobs.put (r.completed now) } }
  | returned {r now e last} (row : r ∈ u.jobs.jobs.rows) (same : c.Same r)
      (full : last = true → r.maxAttempts ≤ r.attempts) :
      Does c seen done u { u with jobs := { u.jobs with jobs := u.jobs.jobs.put (r.returned now e last) } }

section
variable {c : Job} {seen : Prop} {done : IngestWorld Vec → Prop} {u u' : IngestWorld Vec}

theorem Does.rows {j : Job} (h : Does c seen done u u') (mem : j ∈ u.jobs.jobs.rows) :
    ∃ j' ∈ u'.jobs.jobs.rows, j.Same j' ∧ j'.attempts = j.attempts := by
  cases h with
  | still | stored | saved | cleared => exact ⟨j, mem, .refl j, rfl⟩
  | completed _ row =>
    obtain ⟨j', mem', same, attempts⟩ := mem_put_of_same row (.completed _ _) mem
    exact ⟨j', mem', same, attempts rfl⟩
  | returned row =>
    obtain ⟨j', mem', same, attempts⟩ := mem_put_of_same row (.returned _ _ _ _) mem
    exact ⟨j', mem', same, attempts rfl⟩

theorem Does.processing {d : String} (h : Does c seen done u u') (waits : u'.Processing d) : u.Processing d := by
  cases h with
  | still | stored => exact waits
  | saved _ _ status => exact processing_of_saved status waits
  | cleared | completed | returned => exact waits

theorem Does.named {b : JobBackend} (h : Does c seen done u u') (named : b.Named u.jobs) : b.Named u'.jobs := by
  cases h with
  | still | stored | saved | cleared => exact named
  | completed _ row | returned row => exact JobBackend.named_rewrite named row rfl

end

def IngestServices.Fails (svc : IngestServices Vec) (c : Job) : Prop := c.kind = .deleteVectors → svc.deleteVectors ≠ none

/-- How a worker at job `c` ends: the attempt succeeded; it failed and the job waits for
another; its failure could not be marked; or it was the last. -/
inductive Ended (svc : IngestServices Vec) (c : Job) (done : IngestWorld Vec → Prop) (t : IngestWorld Vec) : Prop where
  | done (holds : done t)
  | again {r} (row : r ∈ t.jobs.jobs.rows) (same : c.Same r) (pending : r.status = .pending)
      (more : c.attempts < c.maxAttempts)
  | unmarked (failed : svc.Fails c) (fault : svc.fail ≠ none)
  | gaveUp (failed : svc.Fails c) (past : c.kind ≠ .ingest → ∃ r ∈ t.jobs.jobs.rows, c.Same r ∧ r.maxAttempts ≤ r.attempts)
      (told : c.kind = .ingest → svc.getFailed = none → svc.saveFailed = none → ¬ t.Processing c.docID)

/-- What a worker at job `c` counts on while it works. -/
structure Outlook (Vec : Type) (c : Job) where
  rely : IngestWorld Vec → IngestWorld Vec → Prop
  assume : IngestWorld Vec → Prop
  seen : Prop
  done : IngestWorld Vec → Prop
  rely_refl : ∀ s, rely s s
  rely_trans : ∀ {s t u}, rely s t → rely t u → rely s u
  leased : ∀ {u}, assume u → u.Leased c
  done_rely : ∀ {s t}, rely s t → done s → done t
  /-- What the attempt leaves does not depend on the jobs. -/
  done_jobs : ∀ {u} (jobs : JobStore), done u → done { u with jobs := jobs }
  found : ∀ {u} {doc : DocumentRecord}, assume u → c.kind = .ingest → u.catalog.get? c.docID = some doc → seen
  settled : ∀ {u} {doc : DocumentRecord}, assume u → u.catalog.get? c.docID = some doc → doc.status ≠ "processing" → c.kind = .ingest → done u
  indexed : ∀ {u : IngestWorld Vec} {doc : DocumentRecord}, doc.docID = c.docID → doc.status = "ready" → c.kind = .ingest →
    done { u with catalog := u.catalog.save doc }
  cleared : ∀ {u : IngestWorld Vec}, c.kind = .deleteVectors → done { u with vectors := deleteByDocID c.docID u.vectors }

namespace Outlook
variable {c : Job} (o : Outlook Vec c) {cfg : IngestConfig} {svc : IngestServices Vec} {doc : DocumentRecord} {s t : IngestWorld Vec}

def terms : Terms (IngestWorld Vec) where
  rely := o.rely
  assume := o.assume
  guar := Does c o.seen o.done
  rely_refl := o.rely_refl
  rely_trans := o.rely_trans
  guar_refl _ _ := .still

theorem safe_upsert (known : o.seen) (n : Nat) {r} (own : r.docID = c.docID) :
    Try.Safe o.terms (fun _ _ _ => True) (Pipeline.upsert cfg svc n r) s t := by
  intro u _ _
  refine ⟨?_, fun _ _ => trivial⟩
  simp only
  rcases svc.upsert n with _ | ⟨_, _ | _⟩
  · exact .stored known own
  · exact .still
  · exact .stored known own

theorem safe_indexBody (known : o.seen) (own : doc.docID = c.docID) {body summary vector} :
    Try.Safe o.terms (fun _ _ _ => True) (Pipeline.indexBody cfg svc doc body summary vector) s t := by
  refine Try.Safe.bind (.imp (o.safe_upsert known 0 own) fun _ _ _ _ _ _ => ?_)
  have chunks : ∀ s t, Try.Safe o.terms (fun _ _ _ => True)
      (.each (Pipeline.indexChunk cfg svc doc) (Pipeline.chunksOf cfg body).zipIdx) s t := fun _ _ =>
    Try.Safe.each (fun _ _ _ _ => Try.Safe.bind (Try.Safe.ofExcept fun _ _ => o.safe_upsert known _ own)) _ trivial
  exact Try.Safe.bind (.imp (chunks _ _) fun _ _ _ _ _ _ => Try.Safe.pure trivial)

theorem safe_processIngest (kind : c.kind = .ingest) :
    Try.Safe o.terms (fun _ _ t => o.done t) (Pipeline.processIngest cfg svc c.docID) s t := by
  refine Try.Safe.bind fun u _ ok => ⟨.still, fun found read => ?_⟩
  refine Try.Safe.bind (Try.Safe.expect fun doc some => ?_)
  have there : u.catalog.get? c.docID = .some doc := by
    subst some
    exact read_getDocument read
  split
  · next status =>
    refine Try.Safe.pure (o.settled ok there (fun processing => ?_) kind)
    rw [processing] at status
    exact absurd status (by decide)
  · have known := o.found ok kind there
    have own : doc.docID = c.docID := key_of_get? there
    refine Try.Safe.bind (Try.Safe.ofExcept fun body _ => ?_)
    refine Try.Safe.bind (Try.Safe.ofExcept fun summary _ => ?_)
    refine Try.Safe.bind (Try.Safe.ofExcept fun embedded _ => ?_)
    refine Try.Safe.bind (.imp (o.safe_indexBody known own) fun _ _ _ _ _ _ => ?_)
    refine safe_saveDocument (fun _ _ _ => .saved known own ?_) fun _ _ _ => o.indexed own rfl kind
    exact (by decide : "ready" ≠ "processing")

theorem safe_attempt : Safe o.terms (fun _ r t => (∀ a, r = .ok a → o.done t) ∧ (∀ e, r = .error e → svc.Fails c))
      (IngestWorker.attempt cfg svc c).run s t := by
  unfold IngestWorker.attempt
  split
  · next kind =>
    refine .imp (o.safe_processIngest kind) fun _ r t done => ⟨done, fun e _ other => ?_⟩
    cases kind.symm.trans other
  · next kind =>
    refine .atomic fun u _ _ => ?_
    rcases fault : svc.deleteVectors with _ | ⟨_, _ | _⟩
    · exact ⟨.cleared, fun _ _ => o.cleared kind, fun _ error => by cases error⟩
    · exact ⟨.still, fun _ ok => (by cases ok), fun _ _ _ works => by cases fault.symm.trans works⟩
    · exact ⟨.cleared, fun _ ok => (by cases ok), fun _ _ _ works => by cases fault.symm.trans works⟩
  · next kind => exact ⟨fun _ ok => (by cases ok), fun _ _ other => by cases kind.symm.trans other⟩

theorem safe_onJobTerminalFailure {cause : String} (failed : svc.Fails c)
    (past : c.kind ≠ .ingest → ∃ r ∈ t.jobs.jobs.rows, c.Same r ∧ r.maxAttempts ≤ r.attempts) :
    Safe o.terms (fun _ _ t => Ended svc c o.done t) (Pipeline.onJobTerminalFailure svc c cause) s t := by
  unfold Pipeline.onJobTerminalFailure
  split
  · next kind => exact .gaveUp failed past fun ingest => absurd ingest kind
  · next kind =>
    have ingest : c.kind = .ingest := not_not.mp kind
    refine .bind fun u _ ok => ⟨.still, ?_⟩
    cases fault : svc.getFailed with
    | some => exact .gaveUp failed (absurd ingest) fun _ none => by cases fault.symm.trans none
    | none =>
      simp only
      cases found : u.catalog.get? c.docID with
      | none =>
        refine .gaveUp failed (absurd ingest) fun _ _ _ => ?_
        rintro ⟨doc, there, _⟩
        cases found.symm.trans there
      | some doc =>
        have known := o.found ok ingest found
        have own : doc.docID = c.docID := key_of_get? found
        refine .bind fun v _ _ => ?_
        simp only
        rcases fault : svc.saveFailed with _ | ⟨_, _ | _⟩
        · refine ⟨.saved known own (by decide : "failed" ≠ "processing"), .gaveUp failed (absurd ingest) fun _ _ _ => ?_⟩
          exact not_processing_saved own (by decide : "failed" ≠ "processing")
        · exact ⟨.still, .gaveUp failed (absurd ingest) fun _ _ none => by cases fault.symm.trans none⟩
        · exact ⟨.saved known own (by decide : "failed" ≠ "processing"),
            .gaveUp failed (absurd ingest) fun _ _ none => by cases fault.symm.trans none⟩

theorem safe_handleJob : Safe o.terms (fun _ _ t => Ended svc c o.done t) (IngestWorker.handleJob cfg svc c) s t := by
  refine .bind (.imp o.safe_attempt fun _ r t attempted => ?_)
  cases r with
  | ok a =>
    have done := attempted.1 a rfl
    intro u moved ok
    obtain ⟨_, row, same⟩ := o.leased ok
    have done := o.done_rely moved done
    simp only [cfg.jobs.markCompleted_of_same row same]
    rcases svc.complete with _ | ⟨_, _ | _⟩
    · exact ⟨.completed done row same, .done (o.done_jobs _ done)⟩
    · exact ⟨.still, .done done⟩
    · exact ⟨.completed done row same, .done (o.done_jobs _ done)⟩
  | error e =>
    have failed := attempted.2 e rfl
    refine .bind fun u _ ok => ?_
    obtain ⟨r, row, same⟩ := o.leased ok
    obtain ⟨last, marked, full, final⟩ := cfg.jobs.markFailed_of_same svc.env e row same
    simp only [marked]
    rcases fault : svc.fail with _ | ⟨_, _ | _⟩
    · refine ⟨.returned row same full, ?_⟩
      cases last with
      | false =>
        refine .again (Table.mem_put.mpr (.inl rfl)) (same.trans (.returned r _ _ _)) rfl ?_
        exact Nat.lt_of_not_le fun past => Bool.false_ne_true (final past)
      | true =>
        refine o.safe_onJobTerminalFailure failed fun _ => ⟨_, Table.mem_put.mpr (.inl rfl), same.trans (.returned r _ _ _), ?_⟩
        exact full rfl
    · exact ⟨.still, .unmarked failed fun none => by cases fault.symm.trans none⟩
    · exact ⟨.returned row same full, .unmarked failed fun none => by cases fault.symm.trans none⟩

end Outlook

/-- What a section of `Delete` can do. `here` is what it knows once it has found the
document, and `gone` what it knows once the record is deleted. -/
inductive Erases (cfg : IngestConfig) (id : String) (here gone : IngestWorld Vec → Prop) (u : IngestWorld Vec) :
    IngestWorld Vec → Prop where
  | still : Erases cfg id here gone u u
  | hidden {doc} (there : here u) (own : doc.docID = id) (status : doc.status ≠ "processing") :
      Erases cfg id here gone u { u with catalog := u.catalog.save doc }
  | removed (there : here u) : Erases cfg id here gone u { u with catalog := u.catalog.delete id }
  | queued {env out} (away : gone u)
      (enqueued : JobBackend.Enqueued cfg.jobs env u.jobs id .deleteVectors cfg.workerAttempts out) :
      Erases cfg id here gone u { u with jobs := out.1 }

section
variable {cfg : IngestConfig} {id : String} {here gone : IngestWorld Vec → Prop} {u u' : IngestWorld Vec}

theorem Erases.row {j} (h : Erases cfg id here gone u u') (row : j ∈ u.jobs.jobs.rows) : j ∈ u'.jobs.jobs.rows := by
  cases h with
  | still | hidden | removed => exact row
  | queued _ enqueued => exact enqueued.kept row

theorem Erases.processing {d : String} (h : Erases cfg id here gone u u') (waits : u'.Processing d) :
    u.Processing d := by
  cases h with
  | still => exact waits
  | hidden _ _ status => exact processing_of_saved status waits
  | removed =>
    obtain ⟨doc, there, status⟩ := waits
    have found := get?_eq_some_iff.mp there
    exact ⟨doc, get?_eq_some_iff.mpr ⟨(Table.mem_delete.mp found.1).1, found.2⟩, status⟩
  | queued => exact waits

theorem Erases.named (h : Erases cfg id here gone u u') (named : cfg.jobs.Named u.jobs) : cfg.jobs.Named u'.jobs := by
  cases h with
  | still | hidden | removed => exact named
  | queued _ enqueued => exact enqueued.named_after named

end

/-- What a `Delete` of the document counts on while it runs. -/
structure DeleteOutlook (Vec : Type) (id : String) where
  rely : IngestWorld Vec → IngestWorld Vec → Prop
  here : IngestWorld Vec → Prop
  gone : IngestWorld Vec → Prop
  rely_refl : ∀ s, rely s s
  rely_trans : ∀ {s t u}, rely s t → rely t u → rely s u
  here_rely : ∀ {s t}, rely s t → here s → here t
  gone_rely : ∀ {s t}, rely s t → gone s → gone t
  found : ∀ {u : IngestWorld Vec} {doc : DocumentRecord}, u.catalog.get? id = some doc → here u
  hidden : ∀ {u : IngestWorld Vec} {doc : DocumentRecord}, doc.docID = id → here { u with catalog := u.catalog.save doc }
  removed : ∀ {u : IngestWorld Vec}, gone { u with catalog := u.catalog.delete id }
  gone_jobs : ∀ {u : IngestWorld Vec} (jobs : JobStore), gone u → gone { u with jobs := jobs }

namespace DeleteOutlook
variable {id : String} (o : DeleteOutlook Vec id) {cfg : IngestConfig} {s t : IngestWorld Vec}

def terms (cfg : IngestConfig) : Terms (IngestWorld Vec) where
  rely := o.rely
  assume u := cfg.jobs.Named u.jobs
  guar := Erases cfg id o.here o.gone
  rely_refl := o.rely_refl
  rely_trans := o.rely_trans
  guar_refl _ _ := .still

theorem safe_enqueueDelete {d} (gone : o.gone t) :
    Try.Safe (o.terms cfg) (fun _ _ t => o.gone t ∧ ∃ j ∈ t.jobs.jobs.rows, j.activeFor id .deleteVectors = true)
      (enqueueDelete cfg d id) s t := by
  refine .atomic fun u moved named => ?_
  have away := o.gone_rely moved gone
  have enqueued := JobBackend.enqueue_cases named d.env id .deleteVectors cfg.workerAttempts
  rcases d.enqueue with _ | ⟨_, _ | _⟩
  · refine ⟨.queued away enqueued, fun a ok => ⟨o.gone_jobs _ away, ?_⟩⟩
    simp only at ok
    cases added : (cfg.jobs.enqueue d.env u.jobs id .deleteVectors cfg.workerAttempts).2 with
    | error =>
      rw [added] at ok
      cases ok
    | ok => exact enqueued.active added
  · exact ⟨.still, fun _ ok => by cases ok⟩
  · exact ⟨.queued away enqueued, fun _ ok => by cases ok⟩

theorem safe_deleteDocument {d} {check : DocumentRecord → Except String Unit} :
    Try.Safe (o.terms cfg) (fun _ _ t => o.gone t ∧ ∃ j ∈ t.jobs.jobs.rows, j.activeFor id .deleteVectors = true)
      (deleteDocument cfg d check id) s t := by
  refine Try.Safe.bind fun u _ ok => ⟨.still, fun found read => ?_⟩
  refine Try.Safe.bind (Try.Safe.expect fun doc some => ?_)
  have there : u.catalog.get? id = .some doc := by
    subst some
    exact read_getDocument read
  have own : doc.docID = id := key_of_get? there
  refine Try.Safe.bind (Try.Safe.ofExcept fun _ _ => ?_)
  refine Try.Safe.bind (.imp (safe_saveDocument (P := o.here)
    (fun v moved _ => .hidden (o.here_rely moved (o.found there)) own (by decide : "deleting" ≠ "processing"))
    fun _ _ _ => o.hidden own) fun _ _ t here a ok => ?_)
  refine Try.Safe.bind (.atomic fun v moved _ => ?_)
  have here := o.here_rely moved (here a ok)
  rcases d.deleteDoc with _ | ⟨_, _ | _⟩
  · exact ⟨.removed here, fun _ _ => o.safe_enqueueDelete o.removed⟩
  · exact ⟨.still, fun _ ok => by cases ok⟩
  · exact ⟨.removed here, fun _ ok => by cases ok⟩

end DeleteOutlook
end
end SynaMcp
