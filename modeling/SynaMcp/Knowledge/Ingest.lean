import SynaMcp.Knowledge.Jobs
import SynaMcp.Knowledge.Search
import SynaMcp.Knowledge.Writing
import SynaMcp.Lib.Rely

/-! The ingest pipeline behind the job queue: the jobs, the worker that runs them, and
`Delete`. Each call of a store is a section, so that the same programs speak of a job by
itself and of jobs in any interleaving. -/
namespace SynaMcp
open Keyed Sections Try GoStrings

structure IndexRecord (Vec : Type) extends VectorRecord Vec where
  chunkID : String
  visibility : Visibility := .unset
  ownerID : String := ""
  groupIDs : List String := []
  isSummary : Bool
  s3Key : String := ""
  deriving DecidableEq, Repr

/-- A record under the id that the store knows it by; in memory there is none. -/
structure Point (Vec : Type) where
  id : String
  record : IndexRecord Vec
  deriving DecidableEq, Repr

section
variable {Vec : Type}

def putPoint (p : Point Vec) (points : List (Point Vec)) : List (Point Vec) :=
  points.filter (fun x => decide (x.id ≠ p.id)) ++ [p]

/-- In memory a record is appended, in Postgres it replaces the one of its chunk, and in
Qdrant its id is new each time. -/
def VectorBackend.upsert (b : VectorBackend) (draw : UUID) (points : List (Point Vec)) (r : IndexRecord Vec) :
    List (Point Vec) :=
  match b with
  | .memory => points ++ [{ id := "", record := r }]
  | .postgres _ => putPoint { id := r.chunkID, record := r } points
  | .qdrant => putPoint { id := r.chunkID ++ "-" ++ draw.val, record := r } points

def deleteByDocID (docID : String) (points : List (Point Vec)) : List (Point Vec) :=
  points.filter fun p => decide (p.record.docID ≠ docID)

end

def chunkLoop (chunkSize step : Nat) : Nat → List String → List String
  | 0, _ => []
  | fuel + 1, tokens =>
    String.intercalate " " (tokens.take chunkSize) ::
      if tokens.length ≤ chunkSize then [] else chunkLoop chunkSize step fuel (tokens.drop step)

variable (text : String) (chunkSize overlap : Int)

def splitText : List String :=
  let chunkSize := if chunkSize ≤ 0 then 500 else chunkSize
  let overlap := if overlap < 0 then 0 else overlap
  let tokens := fields text
  let step := if chunkSize - overlap ≤ 0 then chunkSize else chunkSize - overlap
  if tokens = [] then [] else chunkLoop chunkSize.toNat step.toNat tokens.length tokens

/-- As many rounds as there are tokens are enough: one more gives nothing more. -/
theorem chunkLoop_fuel {chunkSize step fuel fuel'} (advances : 0 < step) (overlaps : step ≤ chunkSize)
    {tokens} (enough : tokens.length ≤ fuel) (enough' : tokens.length ≤ fuel') (some : tokens ≠ []) :
    chunkLoop chunkSize step fuel tokens = chunkLoop chunkSize step fuel' tokens := by
  induction fuel generalizing fuel' tokens with
  | zero => exact absurd (List.length_eq_zero_iff.mp (Nat.le_zero.mp enough)) some
  | succ fuel ih =>
    cases fuel' with
    | zero => exact absurd (List.length_eq_zero_iff.mp (Nat.le_zero.mp enough')) some
    | succ =>
      simp only [chunkLoop]
      split
      · rfl
      · next more =>
        have length := List.length_drop (i := step) (l := tokens)
        refine congrArg _ (ih (by omega) (by omega) fun empty => ?_)
        rw [empty, List.length_nil] at length
        omega

section
open List

/-- The chunks of tokens: of the size at most, each after the first begins with the last
`lap` tokens of the one before, and without those the tokens are there once, in order. -/
structure Chunked (size lap : Nat) (tokens : List String) (chunks : List (List String)) : Prop where
  sizes : ∀ c ∈ chunks, 1 ≤ c.length ∧ c.length ≤ size
  laps : chunks.IsChain fun a b => lap ≤ a.length ∧ a.drop (a.length - lap) <+: b
  whole : chunks.head?.getD [] ++ chunks.tail.flatMap (drop lap) = tokens

theorem chunkLoop_chunked {size lap step fuel tokens} (advances : 0 < step) (sum : step + lap = size)
    (enough : tokens.length ≤ fuel) (some : tokens ≠ []) (h : ∀ t ∈ tokens, GoStrings.IsField t) :
    ∃ rest, (chunkLoop size step fuel tokens).map fields = tokens.take size :: rest ∧
      Chunked size lap tokens (tokens.take size :: rest) := by
  have length := length_pos_iff.mpr some
  induction fuel generalizing tokens with
  | zero => omega
  | succ fuel ih =>
    rw [chunkLoop, map_cons, fields_intercalate fun t mem => h t (mem_of_mem_take mem)]
    split
    · next all =>
      refine ⟨[], rfl, ?_, .singleton _, ?_⟩
      · simp
        omega
      · simp [take_of_length_le all]
    · next more =>
      have left : (tokens.drop step).length = tokens.length - step := length_drop
      have some' := ne_nil_of_length_pos (show 0 < (tokens.drop step).length by omega)
      obtain ⟨_, chunks, chunked⟩ := ih (by omega) some' (fun t mem => h t (mem_of_mem_drop mem)) (by omega)
      have full : (tokens.take size).length = size := length_take_of_le (by omega)
      refine ⟨_, congrArg _ chunks, ?_, isChain_cons_cons.mpr ⟨⟨by omega, ?_⟩, chunked.laps⟩, ?_⟩
      · rintro c (_ | ⟨_, mem⟩)
        · omega
        · exact chunked.sizes c mem
      · rw [full, drop_take, show size - lap = step by omega]
        exact prefix_take_iff.mpr ⟨ take_prefix _ _, (length_take_le _ _).trans (Nat.sub_le size step)⟩
      · have whole := congrArg (drop lap) chunked.whole
        simp only [head?_cons, Option.getD_some, tail_cons, drop_drop, sum] at whole ⊢
        rw [drop_append_of_le_length (by rw [length_take]; omega)] at whole
        rw [flatMap_cons, whole, take_append_drop]

def chunkSizeOf (chunkSize : Int) : Nat := (if chunkSize ≤ 0 then 500 else chunkSize).toNat

def overlapOf (chunkSize overlap : Int) : Nat := if chunkSizeOf chunkSize ≤ overlap.toNat then 0 else overlap.toNat

theorem overlapOf_lt (chunkSize overlap : Int) : overlapOf chunkSize overlap < chunkSizeOf chunkSize := by
  unfold overlapOf chunkSizeOf
  split <;> split <;> omega

theorem splitText_eq {text chunkSize overlap} (some : fields text ≠ []) :
    splitText text chunkSize overlap = chunkLoop (chunkSizeOf chunkSize)
      (chunkSizeOf chunkSize - overlapOf chunkSize overlap) (fields text).length (fields text) := by
  simp only [splitText, if_neg some]
  congr 1
  unfold overlapOf chunkSizeOf
  split <;> split <;> split <;> split <;> omega

/-- `splitText` ends, its chunks have one token at least and the size at most and overlap as
they should, and nothing of the text is lost. -/
theorem chunks_lose_nothing : (GoStrings.fields text ≠ [] → ∀ fuel, (GoStrings.fields text).length ≤ fuel →
      splitText text chunkSize overlap = chunkLoop (chunkSizeOf chunkSize)
        (chunkSizeOf chunkSize - overlapOf chunkSize overlap) fuel (GoStrings.fields text)) ∧
    Chunked (chunkSizeOf chunkSize) (overlapOf chunkSize overlap) (GoStrings.fields text)
      ((splitText text chunkSize overlap).map GoStrings.fields) := by
  have small := overlapOf_lt chunkSize overlap
  by_cases none : fields text = []
  · rw [show splitText text chunkSize overlap = [] by simp [splitText, none], none]
    exact ⟨fun some => absurd rfl some, by simp, .nil, rfl⟩
  · rw [splitText_eq none]
    refine ⟨fun _ fuel enough => chunkLoop_fuel (by omega) (by omega) le_rfl enough none, ?_⟩
    obtain ⟨_, chunks, _⟩ := chunkLoop_chunked (Nat.sub_pos_of_lt small) (Nat.sub_add_cancel small.le) le_rfl none
      fun t mem => isField_of_mem mem
    rwa [chunks]

end

structure IngestConfig where
  chunkSize : Int := 500
  overlap : Int := 0
  jobs : JobBackend := .memory
  vectors : VectorBackend := .memory
  /-- Of the jobs that delete vectors; those that ingest have the default. -/
  maxAttempts : Int := 0

def defaultMaxAttempts : Int := 3

def IngestConfig.workerAttempts (cfg : IngestConfig) : Int :=
  if cfg.maxAttempts ≤ 0 then defaultMaxAttempts else cfg.maxAttempts

abbrev Fault := Option (String × Bool)

/-- What one job meets: the clock, what it draws, what the services answer call by call,
and which calls of the stores fail. -/
structure IngestServices (Vec : Type) where
  now : Time
  env : JobEnv
  summaryID : UUID
  pointID : Nat → UUID
  /-- Missing where there is no blob store. -/
  getBlob : Option (String → Except String (Option String)) := none
  summarize : String → Except String (String × String)
  embed : Nat → String → Except String (Vec × String)
  getDoc : Option String := none
  upsert : Nat → Fault := fun _ => none
  (saveDoc deleteVectors complete fail : Fault := none)
  getFailed : Option String := none
  saveFailed : Fault := none

structure IngestWorld (Vec : Type) where
  catalog : Catalog := .empty
  vectors : List (Point Vec) := []
  jobs : JobStore := .empty

section
variable {Vec : Type}

def faulty (fault : Fault) (act : IngestWorld Vec → IngestWorld Vec) : Try (IngestWorld Vec) Unit :=
  atomic fun w =>
    match fault with
    | none => (act w, .ok ())
    | some (e, applied) => (if applied then act w else w, .error e)

def getDocument (fault : Option String) (docID : String) : Try (IngestWorld Vec) (Option DocumentRecord) :=
  read fun w =>
    match fault with
    | none => .ok (w.catalog.get? docID)
    | some e => .error e

def saveDocument (fault : Fault) (doc : DocumentRecord) : Try (IngestWorld Vec) Unit :=
  faulty fault fun w => { w with catalog := w.catalog.save doc }

namespace Pipeline
section
variable (cfg : IngestConfig) (svc : IngestServices Vec) (doc : DocumentRecord)

def documentBody : Except String String :=
  if doc.body ≠ "" then .ok doc.body
  else
    match if doc.s3Key = "" then none else svc.getBlob with
    | none => .ok ""
    | some get =>
      match get doc.s3Key with
      | .error e => .error e
      | .ok none => .error ("blob " ++ doc.s3Key.quote ++ " not found for doc " ++ doc.docID.quote)
      | .ok (some data) => .ok data

def indexRecord (vector : Vec) (text chunkID : String) (isSummary : Bool) : IndexRecord Vec :=
  { vector := vector, text := text, docID := doc.docID, storageID := doc.storageID, chunkID := chunkID
    visibility := doc.visibility, ownerID := doc.ownerID, groupIDs := doc.groupIDs, isSummary := isSummary
    source := doc.source, sourceURL := doc.sourceURL, s3Key := doc.s3Key }

def chunkName (docID : String) (i : Nat) : String := docID ++ "-" ++ toString i

def chunksOf (body : String) : List String :=
  let chunks := splitText body cfg.chunkSize cfg.overlap
  if chunks = [] then [body] else chunks

def upsert (n : Nat) (r : IndexRecord Vec) : Try (IngestWorld Vec) Unit :=
  faulty (svc.upsert n) fun w => { w with vectors := cfg.vectors.upsert (svc.pointID n) w.vectors r }

def indexChunk (chunk : String × Nat) : Try (IngestWorld Vec) Unit := do
  let embedded ← .ofExcept (svc.embed (chunk.2 + 1) chunk.1)
  upsert cfg svc (chunk.2 + 1) (indexRecord doc embedded.1 chunk.1 (chunkName doc.docID chunk.2) false)

def readyRecord (summaryModel embeddingModel : String) : DocumentRecord :=
  { doc with
    status := "ready"
    summaryChunkID := svc.summaryID.val
    sourceHash := summaryModel ++ ":" ++ embeddingModel
    updatedAt := svc.now }

def indexBody (body summary : String) (vector : Vec) : Try (IngestWorld Vec) Unit := do
  upsert cfg svc 0 (indexRecord doc vector summary svc.summaryID.val true)
  let _ ← each (indexChunk cfg svc doc) (chunksOf cfg body).zipIdx
  return ()

/-- `ProcessIngest` of a document that is there and waits for it. -/
def indexDocument : Try (IngestWorld Vec) Unit := do
  let body ← .ofExcept (documentBody svc doc)
  let summary ← .ofExcept (svc.summarize body)
  let embedded ← .ofExcept (svc.embed 0 summary.1)
  indexBody cfg svc doc body summary.1 embedded.1
  saveDocument svc.saveDoc (readyRecord svc doc summary.2 embedded.2)

def processIngest (docID : String) : Try (IngestWorld Vec) Unit := do
  let found ← getDocument svc.getDoc docID
  let doc ← .expect found ("document " ++ docID.quote ++ " not found")
  if doc.status = "ready" ∨ doc.status = "deleting" then pure () else indexDocument cfg svc doc

def processDeleteVectors (docID : String) : Try (IngestWorld Vec) Unit :=
  faulty svc.deleteVectors fun w => { w with vectors := deleteByDocID docID w.vectors }

def failedRecord (cause : String) : DocumentRecord :=
  { doc with
    status := "failed"
    updatedAt := svc.now
    sourceHash := if doc.sourceHash = "" then cause else doc.sourceHash }

/-- Its errors are dropped. -/
def onJobTerminalFailure (job : Job) (cause : String) : Prog (IngestWorld Vec) Unit :=
  if job.kind ≠ .ingest then pure ()
  else do
    match ← (getDocument svc.getFailed job.docID).run with
    | .ok (some doc) => do
        let _ ← (saveDocument svc.saveFailed (failedRecord svc doc cause)).run
        return ()
    | _ => return ()

end
end Pipeline

namespace IngestWorker
section
variable (cfg : IngestConfig) (svc : IngestServices Vec) (job : Job)

def attempt : Try (IngestWorld Vec) Unit :=
  match job.kind with
  | .ingest => Pipeline.processIngest cfg svc job.docID
  | .deleteVectors => Pipeline.processDeleteVectors svc job.docID
  | .other name => .ofExcept (.error ("unknown ingest job kind: " ++ name))

/-- An error of the store is logged only. -/
def markCompleted : Prog (IngestWorld Vec) Unit :=
  .atomic fun w =>
    let marked := { w with jobs := (cfg.jobs.markCompleted svc.env w.jobs job.id).1 }
    (match svc.complete with
      | none | some (_, true) => marked
      | some (_, false) => w, ())

def markFailed (error : String) : Try (IngestWorld Vec) Bool :=
  atomic fun w =>
    let marked := cfg.jobs.markFailed svc.env w.jobs job error
    match svc.fail with
    | none => ({ w with jobs := marked.1 }, marked.2)
    | some (e, applied) => (if applied then { w with jobs := marked.1 } else w, .error e)

def handleJob : Prog (IngestWorld Vec) Unit := do
  match ← (attempt cfg svc job).run with
  | .ok () => markCompleted cfg svc job
  | .error e =>
    match ← (markFailed cfg svc job e).run with
    | .ok false => Pipeline.onJobTerminalFailure svc job e
    | _ => return ()

end
end IngestWorker

/-! What an attempt leaves behind when it runs by itself. -/

def storeAll (b : VectorBackend) (points : List (Point Vec)) (recs : List (UUID × IndexRecord Vec)) : List (Point Vec) :=
  recs.foldl (fun points r => b.upsert r.1 points r.2) points

def IndexRecord.face (r : IndexRecord Vec) : Bool × String × String := (r.isSummary, r.chunkID, r.text)

theorem exec_saveDocument {fault doc} {w : IngestWorld Vec} :
    (saveDocument fault doc).run.exec w =
      match fault with
      | none => ({ w with catalog := w.catalog.save doc }, .ok ())
      | some (e, applied) => (if applied then { w with catalog := w.catalog.save doc } else w, .error e) := rfl

namespace Pipeline
section
variable {cfg : IngestConfig} {svc : IngestServices Vec} {doc : DocumentRecord} {w : IngestWorld Vec}
  {recs : List (UUID × IndexRecord Vec)} {plan' : List (UUID × Bool × String × String)} {α β : Type} {out : IngestWorld Vec × Except String Unit}

def chunkFace (doc : DocumentRecord) (chunk : String × Nat) : Bool × String × String :=
  (false, chunkName doc.docID chunk.2, chunk.1)

def planned (cfg : IngestConfig) (svc : IngestServices Vec) (doc : DocumentRecord) (body summary : String) :
    List (UUID × Bool × String × String) :=
  (svc.pointID 0, true, svc.summaryID.val, summary) ::
    (chunksOf cfg body).zipIdx.map fun chunk => (svc.pointID (chunk.2 + 1), chunkFace doc chunk)

structure Stored (doc : DocumentRecord) (plan : List (UUID × Bool × String × String))
    (recs : List (UUID × IndexRecord Vec)) : Prop where
  own : ∀ r ∈ recs, r.2.docID = doc.docID
  face : recs.map (fun r => (r.1, r.2.face)) <+: plan

theorem Stored.nil {plan} : Stored doc plan ([] : List (UUID × IndexRecord Vec)) := ⟨by simp, List.nil_prefix⟩

theorem Stored.mono {plan more} (h : Stored doc plan recs) : Stored doc (plan ++ more) recs :=
  ⟨h.own, h.face.trans (List.prefix_append _ _)⟩

theorem Stored.append {plan recs'}
    (h : Stored doc plan recs) (all : recs.map (fun r => (r.1, r.2.face)) = plan) (h' : Stored doc plan' recs') :
    Stored doc (plan ++ plan') (recs ++ recs') where
  own r mem := (List.mem_append.mp mem).elim (h.own r) (h'.own r)
  face := by
    rw [List.map_append, all]
    exact (List.prefix_append_right_inj plan).mpr h'.face

/-- Run by itself, the call stores a part of what is planned, and all of it if it
succeeds; it does nothing else. Where it stores nothing, there is a reason `Q`. -/
def Stores (cfg : IngestConfig) (doc : DocumentRecord) (plan : List (UUID × Bool × String × String)) (Q : Prop)
    (p : Try (IngestWorld Vec) α) (w : IngestWorld Vec) : Prop :=
  ∃ recs r, p.run.exec w = ({ w with vectors := storeAll cfg.vectors w.vectors recs }, r) ∧ Stored doc plan recs ∧
    (∀ a, r = .ok a → recs.map (fun r => (r.1, r.2.face)) = plan) ∧ (recs = [] → Q)

theorem Stores.bind {plan Q R p} {k : α → Try (IngestWorld Vec) β} (h : Stores cfg doc plan Q p w)
    (rest : ∀ a w, Stores cfg doc plan' R (k a) w) : Stores cfg doc (plan ++ plan') Q (p >>= k) w := by
  obtain ⟨recs, r, ran, stored, all, none⟩ := h
  unfold Stores
  rw [exec_bind_eq, ran]
  cases r with
  | error e => exact ⟨recs, .error e, rfl, stored.mono, fun a ok => (by cases ok), none⟩
  | ok a =>
    obtain ⟨recs', r', ran', stored', all', _⟩ := rest a { w with vectors := storeAll cfg.vectors w.vectors recs }
    refine ⟨recs ++ recs', r', ?_, stored.append (all a rfl) stored', fun b ok => ?_,
      fun empty => none (List.append_eq_nil_iff.mp empty).1⟩
    · refine ran'.trans ?_
      simp only [storeAll, List.foldl_append]
    · rw [List.map_append, all a rfl, all' b ok]

theorem stores_upsert (n : Nat) {r} (own : r.docID = doc.docID) :
    Stores cfg doc [(svc.pointID n, r.face)] (∃ e, svc.upsert n = some (e, false)) (upsert cfg svc n r) w := by
  have ran : (upsert cfg svc n r).run.exec w =
      match svc.upsert n with
      | none => ({ w with vectors := cfg.vectors.upsert (svc.pointID n) w.vectors r }, .ok ())
      | some (e, applied) =>
        (if applied then { w with vectors := cfg.vectors.upsert (svc.pointID n) w.vectors r } else w, .error e) := rfl
  have one : Stored doc [(svc.pointID n, r.face)] [(svc.pointID n, r)] := ⟨by simpa using own, List.prefix_refl _⟩
  unfold Stores
  rw [ran]
  rcases svc.upsert n with _ | ⟨e, _ | _⟩
  · exact ⟨_, _, rfl, one, fun _ _ => rfl, fun empty => by cases empty⟩
  · exact ⟨[], .error e, rfl, .nil, fun _ ok => (by cases ok), fun _ => ⟨e, rfl⟩⟩
  · exact ⟨_, _, rfl, one, fun _ ok => (by cases ok), fun empty => by cases empty⟩

theorem stores_ofExcept (value : Except String α) : Stores cfg doc [] True (.ofExcept value) w :=
  ⟨[], value, rfl, .nil, fun _ _ => rfl, fun _ => trivial⟩

theorem stores_chunks (chunks : List (String × Nat)) :
    Stores cfg doc (chunks.map fun chunk => (svc.pointID (chunk.2 + 1), chunkFace doc chunk)) True
      (each (indexChunk cfg svc doc) chunks) w := by
  induction chunks generalizing w with
  | nil => exact stores_ofExcept (.ok [])
  | cons chunk rest ih =>
    have first : Stores cfg doc [(svc.pointID (chunk.2 + 1), chunkFace doc chunk)] True (indexChunk cfg svc doc chunk) w :=
      (stores_ofExcept _).bind fun _ _ => stores_upsert _ rfl
    refine first.bind (R := True) fun _ w => ?_
    rw [← List.append_nil (rest.map _)]
    exact ih.bind fun _ _ => stores_ofExcept (.ok _)

theorem stores_indexBody {body summary vector} :
    Stores cfg doc (planned cfg svc doc body summary) (∃ e, svc.upsert 0 = some (e, false))
      (indexBody cfg svc doc body summary vector) w := by
  unfold indexBody planned
  refine (stores_upsert 0 rfl).bind (R := True) fun _ w => ?_
  rw [← List.append_nil (List.map _ _)]
  exact (stores_chunks _).bind fun _ _ => stores_ofExcept (.ok ())

theorem Stores.exec_bind {plan Q p} (h : Stores cfg doc plan Q p w) (k : α → Try (IngestWorld Vec) β) :
    ∃ recs, Stored doc plan recs ∧ (recs = [] → Q) ∧
      ((∃ e, (p >>= k).run.exec w = ({ w with vectors := storeAll cfg.vectors w.vectors recs }, .error e)) ∨
        ∃ a, (p >>= k).run.exec w = (k a).run.exec { w with vectors := storeAll cfg.vectors w.vectors recs } ∧
          recs.map (fun r => (r.1, r.2.face)) = plan) := by
  obtain ⟨recs, r, ran, stored, all, none⟩ := h
  refine ⟨recs, stored, none, ?_⟩
  rw [exec_bind_eq, ran]
  cases r with
  | error e => exact .inl ⟨e, rfl⟩
  | ok a => exact .inr ⟨a, rfl, all a rfl⟩

def StopsEarly (svc : IngestServices Vec) (doc : DocumentRecord) : Prop :=
  svc.getDoc = none → ∀ body summary embedded, documentBody svc doc = .ok body → svc.summarize body = .ok summary →
    svc.embed 0 summary.1 = .ok embedded → ∃ e, svc.upsert 0 = some (e, false)

/-- What is left when a document was indexed: a part of its records and an error, or all
of them and the record of the document, with an error if the catalog gave one. -/
inductive Indexed (cfg : IngestConfig) (svc : IngestServices Vec) (doc : DocumentRecord) (w : IngestWorld Vec) :
    IngestWorld Vec × Except String Unit → Prop where
  | stopped (body summary : String) (recs : List (UUID × IndexRecord Vec)) {e}
      (stored : Stored doc (planned cfg svc doc body summary) recs) (early : recs = [] → StopsEarly svc doc) :
      Indexed cfg svc doc w ({ w with vectors := storeAll cfg.vectors w.vectors recs }, .error e)
  | saved {body summary model model' recs r}
      (read : documentBody svc doc = .ok body) (own : ∀ r ∈ recs, r.2.docID = doc.docID)
      (all : recs.map (fun r => (r.1, r.2.face)) = planned cfg svc doc body summary)
      (result : svc.saveDoc = none ∧ r = .ok () ∨ ∃ e, svc.saveDoc = some (e, true) ∧ r = .error e) :
      Indexed cfg svc doc w
        ({ w with
            vectors := storeAll cfg.vectors w.vectors recs
            catalog := w.catalog.save (readyRecord svc doc model model') }, r)

theorem exec_indexDocument : Indexed cfg svc doc w ((indexDocument cfg svc doc).run.exec w) := by
  have nothing : ∀ e, StopsEarly svc doc → Indexed cfg svc doc w (w, .error e) := fun e early =>
    .stopped "" "" [] .nil fun _ => early
  unfold indexDocument
  rw [exec_bind_eq, exec_ofExcept]
  cases read : documentBody svc doc with
  | error e => exact nothing e fun _ _ _ _ ok => by cases read.symm.trans ok
  | ok body =>
    simp only
    rw [exec_bind_eq, exec_ofExcept]
    cases summed : svc.summarize body with
    | error e =>
      refine nothing e fun _ _ _ _ ok ok' => ?_
      cases read.symm.trans ok
      cases summed.symm.trans ok'
    | ok summary =>
      simp only
      rw [exec_bind_eq, exec_ofExcept]
      cases vector : svc.embed 0 summary.1 with
      | error e =>
        refine nothing e fun _ _ _ _ ok ok' ok'' => ?_
        cases read.symm.trans ok
        cases summed.symm.trans ok'
        cases vector.symm.trans ok''
      | ok embedded =>
        simp only
        have stores : Stores cfg doc (planned cfg svc doc body summary.1) (∃ e, svc.upsert 0 = some (e, false))
          (indexBody cfg svc doc body summary.1 embedded.1) w := stores_indexBody
        obtain ⟨recs, stored, none, ⟨e, failed⟩ | ⟨_, went, all⟩⟩ :=
          stores.exec_bind fun _ => saveDocument svc.saveDoc (readyRecord svc doc summary.2 embedded.2)
        · rw [failed]
          exact .stopped body summary.1 recs stored fun empty _ _ _ _ _ _ _ => none empty
        · rw [went, exec_saveDocument]
          rcases fault : svc.saveDoc with _ | ⟨e, _ | _⟩
          · exact .saved read stored.own all (.inl ⟨fault, rfl⟩)
          · exact .stopped body summary.1 recs stored fun empty _ _ _ _ _ _ _ => none empty
          · exact .saved read stored.own all (.inr ⟨e, fault, rfl⟩)

/-- What is left of `ProcessIngest`. -/
inductive Processed (cfg : IngestConfig) (svc : IngestServices Vec) (docID : String) (w : IngestWorld Vec) :
    IngestWorld Vec × Except String Unit → Prop where
  | unread {e} (absent : svc.getDoc = none → w.catalog.get? docID = none) :
      Processed cfg svc docID w (w, .error e)
  | settled {doc : DocumentRecord} (found : w.catalog.get? docID = some doc)
      (status : doc.status = "ready" ∨ doc.status = "deleting") : Processed cfg svc docID w (w, .ok ())
  | indexed {doc : DocumentRecord} {out : IngestWorld Vec × Except String Unit}
      (found : w.catalog.get? docID = some doc) (status : ¬ (doc.status = "ready" ∨ doc.status = "deleting"))
      (indexed : Indexed cfg svc doc w out) : Processed cfg svc docID w out

theorem exec_processIngest (cfg : IngestConfig) (svc : IngestServices Vec) (docID : String) (w : IngestWorld Vec) :
    Processed cfg svc docID w ((processIngest cfg svc docID).run.exec w) := by
  have got : (getDocument svc.getDoc docID).run.exec w =
      match svc.getDoc with
      | none => (w, .ok (w.catalog.get? docID))
      | some e => (w, .error e) := by
    cases fault : svc.getDoc <;> rfl
  unfold processIngest
  rw [exec_bind_eq, got]
  cases fault : svc.getDoc with
  | some => exact .unread fun none => by cases fault.symm.trans none
  | none =>
    simp only
    rw [exec_bind_eq, exec_expect]
    cases found : w.catalog.get? docID with
    | none => exact .unread fun _ => found
    | some =>
      simp only
      split
      · next status => exact .settled found status
      · next status => exact .indexed found status exec_indexDocument

theorem Indexed.jobs (h : Indexed cfg svc doc w out) : out.1.jobs = w.jobs := by
  cases h <;> rfl

theorem Processed.jobs {docID} (h : Processed cfg svc docID w out) : out.1.jobs = w.jobs := by
  cases h with
  | unread | settled => rfl
  | indexed _ _ indexed => exact indexed.jobs

theorem exec_processDeleteVectors {docID} :
    (processDeleteVectors svc docID).run.exec w =
      match svc.deleteVectors with
      | none => ({ w with vectors := deleteByDocID docID w.vectors }, .ok ())
      | some (e, applied) => (if applied then { w with vectors := deleteByDocID docID w.vectors } else w, .error e) := rfl

end
end Pipeline

structure IngestServices.Reliable (svc : IngestServices Vec) : Prop where
  getDoc : svc.getDoc = none
  saveDoc : svc.saveDoc = none
  complete : svc.complete = none
  fail : svc.fail = none
  getFailed : svc.getFailed = none
  saveFailed : svc.saveFailed = none

namespace IngestWorker
section
variable {cfg : IngestConfig} {svc : IngestServices Vec} {job : Job} {w : IngestWorld Vec}

theorem attempt_jobs (cfg : IngestConfig) (svc : IngestServices Vec) (job : Job) (w : IngestWorld Vec) :
    ((attempt cfg svc job).run.exec w).1.jobs = w.jobs := by
  unfold attempt
  split
  · exact (Pipeline.exec_processIngest cfg svc job.docID w).jobs
  · rw [Pipeline.exec_processDeleteVectors]
    rcases svc.deleteVectors with _ | ⟨_, _ | _⟩ <;> rfl
  · rfl

def failDocument (svc : IngestServices Vec) (job : Job) (cause : String) (docs : Catalog) : Catalog :=
  match if job.kind = .ingest then docs.get? job.docID else none with
  | some doc => docs.save (Pipeline.failedRecord svc doc cause)
  | none => docs

theorem exec_onJobTerminalFailure (reliable : svc.Reliable) (cause : String) :
    ((Pipeline.onJobTerminalFailure svc job cause).exec w).1 =
      { w with catalog := failDocument svc job cause w.catalog } := by
  unfold Pipeline.onJobTerminalFailure failDocument
  by_cases kind : job.kind = .ingest
  · rw [if_neg (not_not.mpr kind), if_pos kind, reliable.getFailed, reliable.saveFailed]
    refine (congrArg Prod.fst (Prog.exec_bind _ _ w)).trans ?_
    have got : (getDocument none job.docID : Try (IngestWorld Vec) _).run.exec w = (w, .ok (w.catalog.get? job.docID)) := rfl
    rw [got]
    cases w.catalog.get? job.docID <;> rfl
  · rw [if_pos kind, if_neg kind]
    rfl

/-- What a job that its worker alone works on leaves behind. -/
theorem exec_handleJob (cfg : IngestConfig) (reliable : svc.Reliable) (row : job ∈ w.jobs.jobs.rows) :
    ((handleJob cfg svc job).exec w).1 =
      match (attempt cfg svc job).run.exec w with
      | (out, .ok ()) => { out with jobs := { w.jobs with jobs := w.jobs.jobs.put (job.completed svc.env.now) } }
      | (out, .error e) =>
        { out with
          catalog := if job.maxAttempts ≤ job.attempts then failDocument svc job e out.catalog else out.catalog
          jobs :=
            { w.jobs with
              jobs := w.jobs.jobs.put (job.returned svc.env.now e (decide (job.maxAttempts ≤ job.attempts))) } } := by
  have jobs := attempt_jobs cfg svc job w
  refine (congrArg Prod.fst (Prog.exec_bind _ _ w)).trans ?_
  generalize (attempt cfg svc job).run.exec w = result at jobs ⊢
  obtain ⟨out, e | _⟩ := result
  · have marked : (markFailed cfg svc job e).run.exec out =
        ({ out with jobs := { w.jobs with
            jobs := w.jobs.jobs.put (job.returned svc.env.now e (decide (job.maxAttempts ≤ job.attempts))) } },
          .ok !decide (job.maxAttempts ≤ job.attempts)) := by
      have failed : (markFailed cfg svc job e).run.exec out =
          ({ out with jobs := (cfg.jobs.markFailed svc.env out.jobs job e).1 },
            (cfg.jobs.markFailed svc.env out.jobs job e).2) := by
        unfold markFailed
        rw [reliable.fail]
        rfl
      rw [failed, show out.jobs = w.jobs from jobs, cfg.jobs.markFailed_of_mem row]
    simp only
    refine (congrArg Prod.fst (Prog.exec_bind _ _ out)).trans ?_
    rw [marked]
    by_cases last : job.maxAttempts ≤ job.attempts
    · simp only [last, decide_true, Bool.not_true, if_true]
      exact exec_onJobTerminalFailure reliable e
    · simp only [last, decide_false, Bool.not_false, if_false]
      rfl
  · have marked : ((markCompleted cfg svc job).exec out).1 =
        { out with jobs := (cfg.jobs.markCompleted svc.env out.jobs job.id).1 } := by
      unfold markCompleted
      rw [reliable.complete]
      rfl
    simp only [marked]
    rw [show out.jobs = w.jobs from jobs, cfg.jobs.markCompleted_of_mem row]

end
end IngestWorker

/-! The service's side: `Save` once the document is prepared, and `Delete`. -/

/-- An enqueue that fails leaves the document in the catalog. -/
def Pipeline.saveAndEnqueue (cfg : IngestConfig) (env : JobEnv) (fault : Fault) (doc : DocumentRecord)
    (w : IngestWorld Vec) : IngestWorld Vec × Except String DocumentRecord :=
  let w := { w with catalog := w.catalog.save doc }
  let enqueued := cfg.jobs.enqueue env w.jobs doc.docID .ingest defaultMaxAttempts
  match fault with
  | none => ({ w with jobs := enqueued.1 }, enqueued.2.map fun _ => doc)
  | some (e, applied) => (if applied then { w with jobs := enqueued.1 } else w, .error e)

/-- What `Delete` meets. -/
structure DeleteEnv where
  env : JobEnv
  getDoc : Option String := none
  (saveDoc deleteDoc enqueue : Fault := none)

variable (cfg : IngestConfig) (d : DeleteEnv)

def enqueueDelete (id : String) : Try (IngestWorld Vec) Unit :=
  atomic fun w =>
    let enqueued := cfg.jobs.enqueue d.env w.jobs id .deleteVectors cfg.workerAttempts
    match d.enqueue with
    | none => ({ w with jobs := enqueued.1 }, enqueued.2.map fun _ => ())
    | some (e, applied) => (if applied then { w with jobs := enqueued.1 } else w, .error e)

/-- `Delete` with a worker; `check` is whether the caller may. -/
def deleteDocument (check : DocumentRecord → Except String Unit) (id : String) : Try (IngestWorld Vec) Unit := do
  let found ← getDocument d.getDoc id
  let doc ← .expect found "not found"
  .ofExcept (check doc)
  saveDocument d.saveDoc { doc with status := "deleting" }
  faulty d.deleteDoc fun w => { w with catalog := w.catalog.delete id }
  enqueueDelete cfg d id

structure DeleteEnv.Reliable (d : DeleteEnv) : Prop where
  getDoc : d.getDoc = none
  saveDoc : d.saveDoc = none
  deleteDoc : d.deleteDoc = none
  enqueue : d.enqueue = none

theorem exec_deleteDocument {cfg d check id} {w : IngestWorld Vec} (reliable : d.Reliable) :
    (deleteDocument cfg d check id).run.exec w =
      match w.catalog.get? id with
      | none => (w, .error "not found")
      | some doc =>
        match check doc with
        | .error e => (w, .error e)
        | .ok () =>
          ({ w with
              catalog := (w.catalog.save { doc with status := "deleting" }).delete id
              jobs := (cfg.jobs.enqueue d.env w.jobs id .deleteVectors cfg.workerAttempts).1 },
            (cfg.jobs.enqueue d.env w.jobs id .deleteVectors cfg.workerAttempts).2.map fun _ => ()) := by
  unfold deleteDocument enqueueDelete
  rw [reliable.getDoc, reliable.saveDoc, reliable.deleteDoc, reliable.enqueue, exec_bind_eq,
    show (getDocument none id).run.exec w = (w, .ok (w.catalog.get? id)) from rfl]
  cases w.catalog.get? id with
  | none => rfl
  | some doc =>
    simp only
    rw [exec_bind_eq, exec_expect]
    simp only
    rw [exec_bind_eq, exec_ofExcept]
    cases check doc <;> rfl

section
variable [Digests]

def deleteCheck (s : Store) (p : Principal) (ac : APIAccessContext) (doc : DocumentRecord) : Except String Unit :=
  match canAccessStorage s p ac.accessToken ac.allowedStorage doc.storageID .documentDelete with
  | .error e => .error e
  | .ok (_, ok) =>
    if !ok then .error "forbidden" else if !canDeleteDocument p doc then .error "forbidden" else .ok ()

/-- Section by section, and by itself, it is `Delete` with the queue for the cleanup. -/
theorem exec_deleteDocument_eq_knowledgeDelete {cfg d s p ac id} {w : IngestWorld Vec} (reliable : d.Reliable) :
    let out := (deleteDocument cfg d (deleteCheck s p ac) id).run.exec w
    (out.1.catalog, out.2) =
      knowledgeDelete (fun id => (cfg.jobs.enqueue d.env w.jobs id .deleteVectors cfg.workerAttempts).2.map fun _ => ())
        s w.catalog p ac id := by
  simp only
  rw [exec_deleteDocument reliable]
  unfold knowledgeDelete
  cases w.catalog.get? id with
  | none => rfl
  | some doc =>
    simp only [deleteCheck]
    rcases canAccessStorage s p ac.accessToken ac.allowedStorage doc.storageID .documentDelete with e | ⟨_, _ | _⟩
    · rfl
    · rfl
    · cases allowed : canDeleteDocument p doc <;> rfl

end

end

def workingServices (now : Nat) : IngestServices Unit where
  now := now
  env := jobEnv now
  summaryID := (jobEnv now).uuid
  pointID n := (jobEnv (100 * now + n)).uuid
  summarize text := .ok (text, "m")
  embed _ _ := .ok ((), "e")

def note : DocumentRecord := { docID := "d", storageID := "s", status := "processing", body := "a note" }

def busyServices (now : Nat) : IngestServices Unit := { workingServices now with summarize := fun _ => .error "busy" }

end SynaMcp
