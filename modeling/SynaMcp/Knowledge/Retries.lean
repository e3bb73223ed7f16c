import SynaMcp.Knowledge.Deletion

/-! Attempts at one document, one after the other. One that fails after its first upsert
leaves the summary behind, under a chunk id that no later attempt draws again. -/
namespace SynaMcp
open Keyed Sections List Try

section
variable {Vec : Type}

def VectorBackend.nameOf (b : VectorBackend) (draw : UUID) (chunkID : String) : String :=
  match b with
  | .memory => ""
  | .postgres _ => chunkID
  | .qdrant => chunkID ++ "-" ++ draw.val

def VectorBackend.replaces (b : VectorBackend) (name : String) (p : Point Vec) : Prop := b ≠ .memory ∧ p.id = name

instance (b : VectorBackend) (name : String) (p : Point Vec) : Decidable (b.replaces name p) :=
  match b with
  | .memory => .isFalse fun h => h.1 rfl
  | .postgres _ => decidable_of_iff (p.id = name) ⟨fun h => ⟨fun k => (by cases k), h⟩, And.right⟩
  | .qdrant => decidable_of_iff (p.id = name) ⟨fun h => ⟨fun k => (by cases k), h⟩, And.right⟩

theorem VectorBackend.upsert_eq (b : VectorBackend) (draw : UUID) (points : List (Point Vec)) (r : IndexRecord Vec) :
    b.upsert draw points r = points.filter (fun p => decide (¬ b.replaces (b.nameOf draw r.chunkID) p)) ++
        [{ id := b.nameOf draw r.chunkID, record := r }] := by
  cases b with
  | memory =>
    simp [upsert, nameOf, replaces]
  | postgres | qdrant => simp [upsert, putPoint, nameOf, replaces]

def ownFaces (d : String) (points : List (Point Vec)) : List (Bool × String × String) :=
  (points.filter fun p => decide (p.record.docID = d)).map fun p => p.record.face

section
variable {b : VectorBackend} {d : String} {points : List (Point Vec)} {recs : List (UUID × IndexRecord Vec)}

def recordName (b : VectorBackend) (r : UUID × IndexRecord Vec) : String := b.nameOf r.1 r.2.chunkID

theorem mem_storeAll {p} (mem : p ∈ points) (kept : ∀ r ∈ recs, ¬ b.replaces (recordName b r) p) :
    p ∈ storeAll b points recs := by
  induction recs generalizing points with
  | nil => exact mem
  | cons r rest ih =>
    refine ih ?_ fun x later => kept x (mem_cons_of_mem r later)
    simp only [b.upsert_eq]
    exact mem_append_left _ (List.mem_filter.mpr ⟨mem, decide_eq_true (kept r mem_cons_self)⟩)

theorem ownFaces_upsert {draw r} (own : r.docID = d)
    (kept : ∀ p ∈ points, p.record.docID = d → ¬ b.replaces (b.nameOf draw r.chunkID) p) :
    ownFaces d (b.upsert draw points r) = ownFaces d points ++ [r.face] := by
  unfold ownFaces
  rw [b.upsert_eq, filter_append, map_append, filter_filter]
  congr 1
  · refine congrArg _ (filter_congr fun p mem => ?_)
    by_cases mine : p.record.docID = d
    · simp [mine, kept p mem mine]
    · simp [mine]
  · simp [own]

theorem ownFaces_storeAll (own : ∀ r ∈ recs, r.2.docID = d) (distinct : b ≠ .memory → (recs.map (recordName b)).Nodup)
    (kept : ∀ p ∈ points, p.record.docID = d → ∀ r ∈ recs, ¬ b.replaces (recordName b r) p) :
    ownFaces d (storeAll b points recs) = ownFaces d points ++ recs.map fun r => r.2.face := by
  induction recs generalizing points with
  | nil => simp [storeAll]
  | cons r rest ih =>
    have first := ownFaces_upsert (own r mem_cons_self) fun p mem mine => kept p mem mine r mem_cons_self
    refine (ih (fun x mem => own x (mem_cons_of_mem r mem))
      (fun keyed => (List.nodup_cons.mp (distinct keyed)).2) fun p mem mine x later replaces => ?_).trans ?_
    · simp only [b.upsert_eq] at mem
      rcases List.mem_append.mp mem with old | new
      · exact kept p (List.mem_filter.mp old).1 mine x (mem_cons_of_mem r later) replaces
      · cases List.mem_singleton.mp new
        have other := (List.nodup_cons.mp (distinct replaces.1)).1
        exact other (List.mem_map.mpr ⟨x, later, replaces.2.symm⟩)
    · rw [first, append_assoc]
      rfl

end

namespace Pipeline
section
variable (b : VectorBackend) (d : String) (svc : IngestServices Vec) (n : Nat)

/-- The id of the record of that number: the summary comes first, and then the chunks. -/
def recordID : String :=
  match n with
  | 0 => svc.summaryID.val
  | i + 1 => chunkName d i

def pointName : String := b.nameOf (svc.pointID n) (recordID d svc n)

/-- The uuids of the attempts are all different: those of the summaries, which are not ids
of chunks either, and in Qdrant those of the points. -/
structure Drawn (attempts : List (IngestServices Vec)) : Prop where
  summaries : attempts.Pairwise fun svc svc' => svc.summaryID.val ≠ svc'.summaryID.val
  chunks : ∀ svc ∈ attempts, ∀ i, svc.summaryID.val ≠ chunkName d i
  points : b = .qdrant → (∀ svc ∈ attempts, ∀ n m, pointName b d svc n = pointName b d svc m → n = m) ∧
    attempts.Pairwise fun svc svc' => ∀ n m, pointName b d svc n ≠ pointName b d svc' m

end

section
variable {b : VectorBackend} {d : String} {attempts : List (IngestServices Vec)} {svc : IngestServices Vec}

theorem Drawn.sublist {some} (h : Drawn b d attempts) (sub : some.Sublist attempts) :
    Drawn b d some where
  summaries := h.summaries.sublist sub
  chunks svc mem := h.chunks svc (sub.subset mem)
  points qdrant := ⟨fun svc mem => (h.points qdrant).1 svc (sub.subset mem), (h.points qdrant).2.sublist sub⟩

theorem chunkName_inj {i j} (h : chunkName d i = chunkName d j) : i = j :=
  GoStrings.toString_nat_inj ((String.append_right_inj _).mp h)

theorem Drawn.within (h : Drawn b d attempts) (mem : svc ∈ attempts) (keyed : b ≠ .memory) {n m}
    (same : pointName b d svc n = pointName b d svc m) : n = m := by
  cases b with
  | memory => exact absurd rfl keyed
  | postgres =>
    cases n with
    | zero =>
      cases m with
      | zero => rfl
      | succ j => exact absurd same (h.chunks svc mem j)
    | succ i =>
      cases m with
      | zero => exact absurd same.symm (h.chunks svc mem i)
      | succ => exact congrArg Nat.succ (chunkName_inj same)
  | qdrant => exact (h.points rfl).1 svc mem n m same

theorem Drawn.across (h : Drawn b d attempts) :
    attempts.Pairwise fun svc svc' => b ≠ .memory → ∀ m, pointName b d svc 0 ≠ pointName b d svc' m := by
  cases b with
  | memory => exact pairwise_of_forall fun _ _ keyed => absurd rfl keyed
  | postgres =>
    refine List.pairwise_iff_forall_sublist.mpr fun {svc svc'} sub _ m => ?_
    cases m with
    | zero => exact List.pairwise_iff_forall_sublist.mp h.summaries sub
    | succ i => exact h.chunks svc (sub.subset mem_cons_self) i
  | qdrant => exact (h.points rfl).2.imp fun apart _ m => apart 0 m

end

section
variable {cfg : IngestConfig} {svc : IngestServices Vec} {doc : DocumentRecord} {w : IngestWorld Vec} {body summary : String}
  {recs : List (UUID × IndexRecord Vec)} (b : VectorBackend)

theorem planned_names : (planned cfg svc doc body summary).map (fun e => b.nameOf e.1 e.2.2.1) =
      (List.range (chunksOf cfg body).length.succ).map (pointName b doc.docID svc) := by
  rw [range_succ_eq_map, map_cons, map_map]
  unfold planned
  rw [map_cons, map_map]
  congr 1
  have numbers := zipIdx_map_snd 0 (chunksOf cfg body)
  rw [← range_eq_range'] at numbers
  rw [← numbers, map_map]
  rfl

theorem Stored.of_all {plan}
    (own : ∀ r ∈ recs, r.2.docID = doc.docID) (all : recs.map (fun r => (r.1, r.2.face)) = plan) : Stored doc plan recs :=
  ⟨own, all ▸ prefix_refl _⟩

theorem Stored.names (h : Stored doc (planned cfg svc doc body summary) recs) :
    recs.map (recordName b) <+: (List.range (chunksOf cfg body).length.succ).map (pointName b doc.docID svc) := by
  have names := h.face.map fun e => b.nameOf e.1 e.2.2.1
  rw [planned_names, map_map] at names
  exact names

theorem Stored.name {b r} (h : Stored doc (planned cfg svc doc body summary) recs) (mem : r ∈ recs) :
    ∃ n, pointName b doc.docID svc n = recordName b r := by
  obtain ⟨n, _, same⟩ := List.mem_map.mp ((h.names b).subset (mem_map_of_mem mem))
  exact ⟨n, same⟩

theorem Stored.nodup {b attempts}
    (h : Stored doc (planned cfg svc doc body summary) recs) (drawn : Drawn b doc.docID attempts) (mem : svc ∈ attempts)
    (keyed : b ≠ .memory) : (recs.map (recordName b)).Nodup :=
  (List.nodup_range.map fun _ _ same => drawn.within mem keyed same).sublist (h.names b).sublist

theorem exec_of_stopsEarly (cfg : IngestConfig) (found : w.catalog.get? doc.docID = some doc)
    (waits : ¬ (doc.status = "ready" ∨ doc.status = "deleting")) (early : StopsEarly svc doc) :
    ((processIngest cfg svc doc.docID).run.exec w).1 = w := by
  unfold processIngest
  rw [exec_bind_eq]
  cases fault : svc.getDoc with
  | some => rfl
  | none =>
    have got : (getDocument none doc.docID : Try (IngestWorld Vec) _).run.exec w = (w, .ok (some doc)) := by
      rw [← found]
      rfl
    rw [got]
    simp only
    rw [exec_bind_eq, exec_expect]
    simp only [if_neg waits]
    unfold indexDocument
    rw [exec_bind_eq, exec_ofExcept]
    cases read : documentBody svc doc with
    | error => rfl
    | ok body =>
      simp only
      rw [exec_bind_eq, exec_ofExcept]
      cases summed : svc.summarize body with
      | error => rfl
      | ok summary =>
        simp only
        rw [exec_bind_eq, exec_ofExcept]
        cases vector : svc.embed 0 summary.1 with
        | error => rfl
        | ok embedded =>
          obtain ⟨e, refused⟩ := early fault body summary embedded read summed vector
          have first : ∀ r, (upsert cfg svc 0 r).run.exec w = (w, .error e) := by
            intro r
            unfold upsert
            rw [refused]
            rfl
          unfold indexBody
          simp only [exec_bind_eq, first]

theorem exec_stores (cfg : IngestConfig) (found : w.catalog.get? doc.docID = some doc)
    (waits : ¬ (doc.status = "ready" ∨ doc.status = "deleting")) (late : ¬ StopsEarly svc doc) :
    ∃ body summary recs, Stored doc (planned cfg svc doc body summary) recs ∧ recs ≠ [] ∧
      ((processIngest cfg svc doc.docID).run.exec w).1.vectors = storeAll cfg.vectors w.vectors recs := by
  have processed := exec_processIngest cfg svc doc.docID w
  generalize (processIngest cfg svc doc.docID).run.exec w = out at processed ⊢
  cases processed with
  | unread absent =>
    refine absurd (fun works => ?_) late
    cases found.symm.trans (absent works)
  | settled found' status =>
    cases found.symm.trans found'
    exact absurd status waits
  | indexed found' _ indexed =>
    cases found.symm.trans found'
    cases indexed with
    | stopped body summary recs stored early =>
      exact ⟨body, summary, recs, stored, fun empty => late (early empty), rfl⟩
    | @saved body summary _ _ recs _ _ own all =>
      refine ⟨body, summary, recs, .of_all own all, ?_, rfl⟩
      rintro rfl
      cases all

end

def tries (cfg : IngestConfig) (docID : String) (attempts : List (IngestServices Vec)) (w : IngestWorld Vec) :
    IngestWorld Vec :=
  Runs.run (fun w svc => ((processIngest cfg svc docID).run.exec w).1) w attempts

/-- The store has one summary of the document, one record a chunk, each as the attempt
has made it, and nothing else of it. -/
def Exactly (cfg : IngestConfig) (svc : IngestServices Vec) (doc : DocumentRecord) (points : List (Point Vec)) : Prop :=
  ∃ body summary, documentBody svc doc = .ok body ∧
    (ownFaces doc.docID points).Perm ((planned cfg svc doc body summary).map Prod.snd)

def Leftover (b : VectorBackend) (d : String) (svc : IngestServices Vec) (points : List (Point Vec)) : Prop :=
  ∃ p ∈ points, p.record.docID = d ∧ p.record.isSummary = true ∧ p.record.chunkID = svc.summaryID.val ∧
    p.id = pointName b d svc 0

section
variable {cfg : IngestConfig} {svc later : IngestServices Vec} {doc : DocumentRecord} {w : IngestWorld Vec}
  {d : String} {attempts : List (IngestServices Vec)}

theorem Leftover.kept (h : Leftover cfg.vectors d svc w.vectors)
    (apart : cfg.vectors ≠ .memory → ∀ m, pointName cfg.vectors d svc 0 ≠ pointName cfg.vectors d later m) :
    Leftover cfg.vectors d svc ((processIngest cfg later d).run.exec w).1.vectors := by
  have after : ∀ {doc : DocumentRecord} {body summary recs}, doc.docID = d →
      Stored doc (planned cfg later doc body summary) recs →
      Leftover cfg.vectors d svc (storeAll cfg.vectors w.vectors recs) := by
    intro doc body summary recs own stored
    obtain ⟨p, mem, docID, isSummary, chunkID, id⟩ := h
    refine ⟨p, mem_storeAll mem fun r stores replaces => ?_, docID, isSummary, chunkID, id⟩
    obtain ⟨m, name⟩ := stored.name (b := cfg.vectors) stores
    rw [own] at name
    exact apart replaces.1 m (id.symm.trans (replaces.2.trans name.symm))
  have processed := exec_processIngest cfg later d w
  generalize (processIngest cfg later d).run.exec w = out at processed ⊢
  cases processed with
  | unread | settled => exact h
  | indexed found _ indexed =>
    have own := Table.key_of_get? found
    cases indexed with
    | stopped _ _ _ stored => exact after own stored
    | saved _ mine all => exact after own (.of_all mine all)

theorem Leftover.tries (h : Leftover cfg.vectors d svc w.vectors) (apart : ∀ later ∈ attempts, cfg.vectors ≠ .memory →
      ∀ m, pointName cfg.vectors d svc 0 ≠ pointName cfg.vectors d later m) :
    Leftover cfg.vectors d svc (tries cfg d attempts w).vectors := by
  induction attempts generalizing w with
  | nil => exact h
  | cons a rest ih =>
    exact ih (h.kept (apart a mem_cons_self)) fun later mem => apart later (mem_cons_of_mem a mem)

variable (found : w.catalog.get? doc.docID = some doc) (waits : ¬ (doc.status = "ready" ∨ doc.status = "deleting"))
include found waits

theorem leftover_of_late (drawn : Drawn cfg.vectors doc.docID attempts)
    (mem : svc ∈ attempts) (late : ¬ StopsEarly svc doc) :
    Leftover cfg.vectors doc.docID svc ((processIngest cfg svc doc.docID).run.exec w).1.vectors := by
  obtain ⟨_, summary, _, stored, some, after⟩ := exec_stores cfg found waits late
  obtain ⟨r, rest, rfl⟩ := exists_cons_of_ne_nil some
  have first := (List.cons_prefix_cons.mp stored.face).1
  obtain ⟨draw, isSummary, chunkID, _⟩ : r.1 = svc.pointID 0 ∧ r.2.isSummary = true ∧ r.2.chunkID = svc.summaryID.val ∧
      r.2.text = summary := by simpa [IndexRecord.face] using first
  rw [after, show storeAll cfg.vectors w.vectors (r :: rest) =
    storeAll cfg.vectors (cfg.vectors.upsert r.1 w.vectors r.2) rest from rfl]
  refine ⟨⟨recordName cfg.vectors r, r.2⟩, mem_storeAll ?_ fun x mem' replaces => ?_,
    stored.own r mem_cons_self, isSummary, chunkID, ?_⟩
  · rw [cfg.vectors.upsert_eq]
    exact mem_append_right _ (mem_singleton_self _)
  · have nodup := stored.nodup drawn mem replaces.1
    exact (List.nodup_cons.mp nodup).1 (List.mem_map.mpr ⟨x, mem', replaces.2.symm⟩)
  · simp only [recordName, draw, chunkID]
    rfl

theorem tries_early (early : ∀ svc ∈ attempts, StopsEarly svc doc) : tries cfg doc.docID attempts w = w := by
  induction attempts with
  | nil => rfl
  | cons a rest ih =>
    have same := exec_of_stopsEarly cfg found waits (early a mem_cons_self)
    refine (congrArg (tries cfg doc.docID rest) same).trans (ih fun svc mem => early svc (mem_cons_of_mem a mem))

theorem tries_late (drawn : Drawn cfg.vectors doc.docID attempts) (late : ∃ svc ∈ attempts, ¬ StopsEarly svc doc) :
    ∃ svc ∈ attempts, Leftover cfg.vectors doc.docID svc (tries cfg doc.docID attempts w).vectors := by
  induction attempts with
  | nil =>
    obtain ⟨_, mem, _⟩ := late
    cases mem
  | cons a rest ih =>
    by_cases early : StopsEarly a doc
    · have same := exec_of_stopsEarly cfg found waits early
      obtain ⟨svc, mem, late⟩ := late
      have later : svc ∈ rest := (List.mem_cons.mp mem).resolve_left fun equal => late (equal ▸ early)
      obtain ⟨left, mem', leftover⟩ := ih (drawn.sublist (sublist_cons_self a rest)) ⟨svc, later, late⟩
      refine ⟨left, mem_cons_of_mem a mem', ?_⟩
      change Leftover cfg.vectors doc.docID left
        (tries cfg doc.docID rest ((processIngest cfg a doc.docID).run.exec w).1).vectors
      rw [same]
      exact leftover
    · have stored := leftover_of_late found waits drawn mem_cons_self early
      exact ⟨a, mem_cons_self, stored.tries (List.pairwise_cons.mp drawn.across).1⟩

/-- What is left of an attempt that succeeds where nothing was left of those before. -/
theorem exactly_of_ok (drawn : Drawn cfg.vectors doc.docID [svc]) (clean : IngestWorld.Clean doc.docID w.vectors)
    (ok : ((processIngest cfg svc doc.docID).run.exec w).2 = .ok ()) :
    Exactly cfg svc doc ((processIngest cfg svc doc.docID).run.exec w).1.vectors := by
  have processed := exec_processIngest cfg svc doc.docID w
  generalize (processIngest cfg svc doc.docID).run.exec w = out at processed ok ⊢
  cases processed with
  | unread => cases ok
  | settled found' status =>
    cases found.symm.trans found'
    exact absurd status waits
  | indexed found' _ indexed =>
    cases found.symm.trans found'
    cases indexed with
    | stopped => cases ok
    | @saved body summary _ _ recs _ read own all =>
      refine ⟨body, summary, read, ?_⟩
      have stored : Stored doc (planned cfg svc doc body summary) recs := .of_all own all
      have none : ownFaces doc.docID w.vectors = [] := by
        unfold ownFaces
        rw [List.filter_eq_nil_iff.mpr fun p mem => by simpa using clean p mem, map_nil]
      simp only
      rw [ownFaces_storeAll own (stored.nodup drawn (mem_singleton_self svc))
        (fun p mem mine => absurd mine (clean p mem)), none, nil_append, ← all, map_map]
      exact List.Perm.refl _

end

end Pipeline

open Pipeline in
/-- However the attempts at a document fail, in each of the vector stores: after an
attempt that succeeds the store has exactly its summary and its chunks iff every attempt
before stopped before its first upsert. -/
theorem retries_are_idempotent_iff (cfg : IngestConfig) (doc : DocumentRecord) (w : IngestWorld Vec)
    (found : w.catalog.get? doc.docID = some doc) (waits : ¬ (doc.status = "ready" ∨ doc.status = "deleting"))
    (clean : ∀ p ∈ w.vectors, p.record.docID ≠ doc.docID) (failed : List (IngestServices Vec)) (last : IngestServices Vec)
    (drawn : Drawn cfg.vectors doc.docID (failed ++ [last]))
    (ok : ((processIngest cfg last doc.docID).run.exec (tries cfg doc.docID failed w)).2 = .ok ()) :
    Exactly cfg last doc ((processIngest cfg last doc.docID).run.exec (tries cfg doc.docID failed w)).1.vectors ↔
      ∀ svc ∈ failed, StopsEarly svc doc := by
  refine ⟨fun exactly => ?_, fun early => ?_⟩
  · by_contra late
    simp only [not_forall, exists_prop] at late
    obtain ⟨svc, mem, left⟩ := tries_late found waits (drawn.sublist (sublist_append_left failed [last])) late
    have across := (List.pairwise_append.mp drawn.across).2.2 svc mem last (mem_singleton_self last)
    obtain ⟨p, stored, own, isSummary, chunkID, _⟩ := left.kept across
    obtain ⟨body, summary, _, same⟩ := exactly
    -- Another summary than that of the last attempt.
    have mine : p.record.face ∈ (planned cfg last doc body summary).map Prod.snd :=
      same.subset (mem_map_of_mem (List.mem_filter.mpr ⟨stored, decide_eq_true own⟩))
    obtain ⟨_, planned, face⟩ := List.mem_map.mp mine
    rcases List.mem_cons.mp planned with rfl | chunk
    · have other := (List.pairwise_append.mp drawn.summaries).2.2 svc mem last (mem_singleton_self last)
      exact other (chunkID.symm.trans (congrArg (fun f => f.2.1) face).symm)
    · obtain ⟨_, _, rfl⟩ := List.mem_map.mp chunk
      have summary : false = true := (congrArg Prod.fst face).trans isSummary
      cases summary
  · rw [tries_early found waits early] at ok ⊢
    exact exactly_of_ok found waits (drawn.sublist (sublist_append_right failed [last])) clean ok

end

def waitingNote : IngestWorld Unit := { catalog := .save .empty note }

theorem job_ne_chunk (n i : Nat) : (workingServices n).summaryID.val ≠ Pipeline.chunkName "d" i := by
  intro same
  have first := congrArg (fun s : String => s.toList.head?) same
  simp [workingServices, jobEnv, InMemoryJobStore.jobName, Pipeline.chunkName] at first

theorem note_is_indexed_once :
    ((Pipeline.processIngest {} (busyServices 2) "d").run.exec waitingNote).2 = .error "busy" ∧
      Pipeline.Exactly {} (workingServices 3) note
        ((Pipeline.processIngest {} (workingServices 3) "d").run.exec
          (Pipeline.tries {} "d" [busyServices 2] waitingNote)).1.vectors := by
  have drawn : Pipeline.Drawn .memory "d" ([busyServices 2] ++ [workingServices 3]) :=
    ⟨by decide, by simpa using ⟨job_ne_chunk 2, job_ne_chunk 3⟩, fun qdrant => by cases qdrant⟩
  refine ⟨rfl, (retries_are_idempotent_iff {} note waitingNote rfl (by decide) (fun _ mem => by cases mem)
    [busyServices 2] (workingServices 3) drawn rfl).mpr ?_⟩
  rintro svc mem _ body summary _ _ summed
  cases List.mem_singleton.mp mem
  cases summed

theorem Pipeline.Exactly.one_summary {Vec cfg svc doc}
    {points : List (Point Vec)} (h : Exactly cfg svc doc points) : (ownFaces doc.docID points).countP (fun f => f.1) = 1 := by
  obtain ⟨_, _, _, same⟩ := h
  rw [same.countP_eq]
  simp [planned, chunkFace, Function.comp_def]

def triedAgain (vectors : VectorBackend) : IngestWorld Unit :=
  ((Pipeline.processIngest { vectors := vectors } (workingServices 3) "d").run.exec
    (Pipeline.tries { vectors := vectors } "d" [fullServices 2] waitingNote)).1

theorem note_has_two_summaries :
    ((Pipeline.processIngest {} (fullServices 2) "d").run.exec waitingNote).2 = .error "full" ∧
      ((Pipeline.processIngest {} (workingServices 3) "d").run.exec
        (Pipeline.tries {} "d" [fullServices 2] waitingNote)).2 = .ok () ∧
      ∀ vectors ∈ [.memory, .postgres (fun n => n), .qdrant],
        ¬ Pipeline.Exactly { vectors := vectors } (workingServices 3) note (triedAgain vectors).vectors := by
  refine ⟨rfl, rfl, fun vectors mem exactly => ?_⟩
  have one := exactly.one_summary
  simp only [mem_cons, not_mem_nil, or_false] at mem
  rcases mem with rfl | rfl | rfl <;> exact absurd one (by decide +kernel)

end SynaMcp
