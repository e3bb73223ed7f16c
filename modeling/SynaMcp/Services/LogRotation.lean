import Mathlib.Data.List.Sort
import SynaMcp.Lib.GoMaps
import SynaMcp.Services.Values

/-! The log tables and their rotation. Each tick of the worker writes the old rows of
every active log object to one blob a day and then deletes them; a blob that is
written again is replaced. -/
namespace SynaMcp
open Keyed List Function GoMaps

def dayLength : Time := 24 * 60 * minute

/-- Year, month and day of a day that is counted from the first of January of year 1. -/
def civil (n : Int) : Int × Int × Int :=
  -- days from the first of March of year 0, in eras of 400 years
  let z := n + 306
  let dayOfEra := z % 146097
  let yearOfEra := (dayOfEra - dayOfEra / 1460 + dayOfEra / 36524 - dayOfEra / 146096) / 365
  let dayOfYear := dayOfEra - (365 * yearOfEra + yearOfEra / 4 - yearOfEra / 100)
  let m := (5 * dayOfYear + 2) / 153
  let month := if m < 10 then m + 3 else m - 9
  (yearOfEra + z / 146097 * 400 + (if month ≤ 2 then 1 else 0), month, dayOfYear - (153 * m + 2) / 5 + 1)

def zeroPadded (width : Nat) (n : Int) : String :=
  let digits := toString n.toNat
  String.ofList (List.replicate (width - digits.length) '0') ++ digits

/-- `Format("2006-01-02")`. -/
def formatDay (t : Time) : String :=
  let (year, month, day) := civil (t / dayLength)
  zeroPadded 4 year ++ "-" ++ zeroPadded 2 month ++ "-" ++ zeroPadded 2 day

example : formatDay (739934 * dayLength) = "2026-11-15" := by decide

def archiveKey (s3Prefix day : String) : String := s3Prefix ++ "logs/" ++ day ++ ".jsonl"

theorem archiveKey_inj {s3Prefix day day'} (h : archiveKey s3Prefix day = archiveKey s3Prefix day') : day = day' :=
  (String.append_right_inj _).mp ((String.append_left_inj _).mp h)

/-- A row of `log_entries`. -/
structure LogRow where
  objectID : String
  entry : LogEntry
  deriving DecidableEq, Repr

namespace LogRow

def id (r : LogRow) : Int := r.entry.id

def day (r : LogRow) : String := formatDay r.entry.createdAt

end LogRow

abbrev Blobs := String → List LogEntry

/-- The table with its sequence, and the blobs by key. `added` is history: the rows
inserted so far. -/
structure LogTables where
  entries : Table LogRow.id
  nextID : Int
  blobs : Blobs
  added : List LogRow

/-- What one rotation meets: the clock, the order of its range over the days, and
the errors of its calls; a failing `Put` or `DELETE` may have taken effect. -/
structure RotationEnv where
  now : Time
  order : Nat → Nat := fun _ => 0
  query : Option String := none
  put : (key : String) → Option (String × Bool) := fun _ => none
  delete : Option (String × Bool) := none

namespace LogTables

def empty : LogTables where
  entries := .empty
  nextID := 1
  blobs _ := []
  added := []

/-- `Add` in a transaction; a row needs its object. -/
def add (objects : Table DataObject.id) (now : Time) (scope : Scope) (level message : String)
    (fields : Option JsonObject) (σ : LogTables) : LogTables × Except String LogEntry :=
  if scope.kind ≠ .log then (σ, .error errKindMismatch)
  else if message = "" then (σ, .error "message required")
  else if ¬ objects.Has scope.objectID then (σ, .error "violates foreign key constraint")
  else
    let entry : LogEntry :=
      { id := σ.nextID, level := if level = "" then "info" else level, message := message,
        fields := fields.getD [], createdAt := now }
    let row : LogRow := { objectID := scope.objectID, entry := entry }
    ({ σ with entries := σ.entries.put row, nextID := σ.nextID + 1, added := row :: σ.added }, .ok entry)

variable (σ : LogTables) (objectID : String)

def oldRows (cutoff : Time) : List LogRow :=
  (σ.entries.rows.filter fun r => decide (r.objectID = objectID ∧ r.entry.createdAt < cutoff)).insertionSort
    (fun a b => a.id ≤ b.id)

def batches (order : Nat → Nat) (s3Prefix : String) (rows : List LogRow) : List (String × List LogEntry) :=
  (range order (rows.map LogRow.day).dedup).map fun day =>
    (archiveKey s3Prefix day, (rows.filter (fun r => r.day = day)).map LogRow.entry)

/-- The first failing `Put` ends the rotation. -/
def putAll (put : String → Option (String × Bool)) :
    List (String × List LogEntry) → Blobs → Blobs × Option String
  | [], blobs => (blobs, none)
  | (key, list) :: rest, blobs =>
    match put key with
    | none => putAll put rest (update blobs key list)
    | some (e, took) => (if took then update blobs key list else blobs, some e)

def dropRows (ids : List Int) : LogTables :=
  { σ with entries := σ.entries.deleteWhere fun r => decide (r.objectID = objectID ∧ r.id ∈ ids) }

def rotateOlderThan (env : RotationEnv) (objectID : String) (cutoff : Time) (s3Prefix : String) (σ : LogTables) :
    LogTables × Option String :=
  match env.query with
  | some e => (σ, some e)
  | none =>
    let rows := σ.oldRows objectID cutoff
    if rows = [] then (σ, none)
    else
      match putAll env.put (batches env.order s3Prefix rows) σ.blobs with
      | (blobs, some e) => ({ σ with blobs := blobs }, some e)
      | (blobs, none) =>
        let σ := { σ with blobs := blobs }
        match env.delete with
        | none => (σ.dropRows objectID (rows.map LogRow.id), none)
        | some (e, took) => (if took then σ.dropRows objectID (rows.map LogRow.id) else σ, some e)

end LogTables

/-- `rotate_after` of the configuration, a day where it is no positive duration. -/
def rotateAfter [ServiceLib] (obj : DataObject) : Time :=
  match ServiceLib.parseDuration ((obj.config.lookup "rotate_after").getD "24h") with
  | some d => if d ≤ 0 then dayLength else d
  | none => dayLength

def activeLogs (objects : Table DataObject.id) : List DataObject :=
  objects.rows.filter fun obj => decide (obj.kind = .log ∧ obj.status = .active)

inductive LogStep where
  | add (now : Time) (scope : Scope) (level message : String) (fields : Option JsonObject)
  | rotate (objectID : String) (env : RotationEnv)

inductive LogEvent where
  | add (now : Time) (scope : Scope) (level message : String) (fields : Option JsonObject)
  | tick (order : Nat → Nat) (env : (objectID : String) → RotationEnv)

/-- A tick takes the active log objects one by one, in the order of its query. -/
def LogEvent.steps (objects : Table DataObject.id) : LogEvent → List LogStep
  | .add now scope level message fields => [.add now scope level message fields]
  | .tick order env => (range order (activeLogs objects)).map fun obj => .rotate obj.id (env obj.id)

namespace LogTables
section
variable [ServiceLib] (objects : Table DataObject.id) (σ : LogTables)

def step : LogStep → LogTables
  | .add now scope level message fields => (σ.add objects now scope level message fields).1
  | .rotate objectID env =>
    match objects.get? objectID with
    | none => σ
    | some obj => (σ.rotateOlderThan env obj.id (env.now - rotateAfter obj) obj.s3Prefix).1

def blobOf (r : LogRow) : String := archiveKey ((objects.get? r.objectID).elim "" DataObject.s3Prefix) r.day

/-- Every row ever added is in the table or in the blob of its object and day. -/
def Kept : Prop := ∀ r ∈ σ.added, r ∈ σ.entries.rows ∨ r.entry ∈ σ.blobs (blobOf objects r)

/-- The batches that a rotation gets to write, until a `Put` fails. -/
def taken (put : String → Option (String × Bool)) :
    List (String × List LogEntry) → List (String × List LogEntry)
  | [] => []
  | batch :: rest =>
    match put batch.1 with
    | none => batch :: taken put rest
    | some (_, took) => if took then [batch] else []

def writes (objectID : String) (env : RotationEnv) : List (String × List LogEntry) :=
  match env.query, objects.get? objectID with
  | none, some obj =>
    taken env.put (batches env.order obj.s3Prefix (σ.oldRows obj.id (env.now - rotateAfter obj)))
  | _, _ => []

/-- A rotation replaces a blob only where all that the blob holds is written again
or is still in the table. -/
def Spares : LogStep → Prop
  | .add .. => True
  | .rotate objectID env =>
    ∀ batch ∈ σ.writes objects objectID env, ∀ e ∈ σ.blobs batch.1, e ∈ batch.2 ∨ ∃ r ∈ σ.entries.rows, r.entry = e

end

def writeAll (blobs : Blobs) (batches : List (String × List LogEntry)) : Blobs :=
  batches.foldl (fun blobs batch => update blobs batch.1 batch.2) blobs

section
variable {put : String → Option (String × Bool)} {bs : List (String × List LogEntry)} {blobs : Blobs}

theorem taken_sublist : (taken put bs).Sublist bs := by
  induction bs with
  | nil => exact .slnil
  | cons batch rest ih =>
    simp only [taken]
    split
    · exact ih.cons_cons batch
    · split
      · exact (nil_sublist rest).cons_cons batch
      · exact nil_sublist _

theorem putAll_fst : (putAll put bs blobs).1 = writeAll blobs (taken put bs) := by
  induction bs generalizing blobs with
  | nil => rfl
  | cons batch rest ih =>
    simp only [putAll, taken]
    split
    · exact ih
    · split <;> rfl

theorem taken_of_putAll (h : (putAll put bs blobs).2 = none) : taken put bs = bs := by
  induction bs generalizing blobs with
  | nil => rfl
  | cons batch rest ih =>
    simp only [putAll] at h
    simp only [taken]
    split at h
    · rw [ih h]
    · cases h

theorem writeAll_of_notMem {key} (h : key ∉ bs.map Prod.fst) : writeAll blobs bs key = blobs key := by
  induction bs generalizing blobs with
  | nil => rfl
  | cons batch rest ih =>
    simp only [map_cons, mem_cons, not_or] at h
    exact (ih h.2).trans (update_of_ne h.1 _ _)

theorem writeAll_of_mem {batch} (keys : (bs.map Prod.fst).Nodup) (h : batch ∈ bs) :
    writeAll blobs bs batch.1 = batch.2 := by
  induction bs generalizing blobs with
  | nil => cases h
  | cons first rest ih =>
    obtain ⟨new, keys⟩ := List.nodup_cons.mp keys
    rcases List.mem_cons.mp h with rfl | later
    · exact (writeAll_of_notMem new).trans (update_self _ _ _)
    · exact ih keys later

end

section
variable {σ : LogTables} {rows : List LogRow} {order : Nat → Nat} {s3Prefix : String}

theorem mem_oldRows {objectID cutoff r} :
    r ∈ σ.oldRows objectID cutoff ↔ r ∈ σ.entries.rows ∧ r.objectID = objectID ∧ r.entry.createdAt < cutoff := by
  simp [oldRows, mem_insertionSort]

theorem mem_batches {batch} : batch ∈ batches order s3Prefix rows ↔ ∃ r ∈ rows,
      batch = (archiveKey s3Prefix r.day, (rows.filter (fun r' => r'.day = r.day)).map LogRow.entry) := by
  simp only [batches, mem_map, GoMaps.mem_range, mem_dedup, exists_exists_and_eq_and]
  exact exists_congr fun r => and_congr_right fun _ => eq_comm

theorem batches_keys : ((batches order s3Prefix rows).map Prod.fst).Nodup := by
  rw [batches, map_map]
  refine List.Nodup.map (fun day day' same => archiveKey_inj same) ?_
  exact (range_perm order _).nodup_iff.mpr (nodup_dedup _)

end

section
variable [ServiceLib] {objects : Table DataObject.id} {σ : LogTables} {objectID : String} {env : RotationEnv}

/-- What a rotation does: it writes blobs, and deletes rows only once all are written. -/
structure Rotated (objects : Table DataObject.id) (σ : LogTables) (objectID : String) (env : RotationEnv)
    (σ' : LogTables) : Prop where
  added : σ'.added = σ.added
  nextID : σ'.nextID = σ.nextID
  blobs : σ'.blobs = writeAll σ.blobs (σ.writes objects objectID env)
  entries : σ'.entries = σ.entries ∨ ∃ obj, objects.get? objectID = some obj ∧
    let rows := σ.oldRows obj.id (env.now - rotateAfter obj)
    σ.writes objects objectID env = batches env.order obj.s3Prefix rows ∧
      σ'.entries = (σ.dropRows obj.id (rows.map LogRow.id)).entries

theorem step_rotate : Rotated objects σ objectID env (σ.step objects (.rotate objectID env)) := by
  cases found : objects.get? objectID with
  | none =>
    have idle : σ.writes objects objectID env = [] := by
      unfold writes
      rw [found]
      cases env.query <;> rfl
    simp only [step, found]
    exact ⟨rfl, rfl, by rw [idle]; rfl, .inl rfl⟩
  | some obj =>
    simp only [step, found, rotateOlderThan]
    cases asked : env.query with
    | some =>
      have idle : σ.writes objects objectID env = [] := by simp only [writes, asked]
      exact ⟨rfl, rfl, by rw [idle]; rfl, .inl rfl⟩
    | none =>
      have written : σ.writes objects objectID env =
          taken env.put (batches env.order obj.s3Prefix (σ.oldRows obj.id (env.now - rotateAfter obj))) := by
        simp only [writes, asked, found]
      simp only
      split
      · next nothing =>
        have idle : σ.writes objects objectID env = [] := by
          rw [written, nothing]
          rfl
        exact ⟨rfl, rfl, by rw [idle]; rfl, .inl rfl⟩
      · cases result : putAll env.put
          (batches env.order obj.s3Prefix (σ.oldRows obj.id (env.now - rotateAfter obj))) σ.blobs with
        | mk blobs failure =>
          have stored : blobs = writeAll σ.blobs (σ.writes objects objectID env) := by
            rw [written, ← putAll_fst, result]
          cases failure with
          | some => exact ⟨rfl, rfl, stored, .inl rfl⟩
          | none =>
            have all : σ.writes objects objectID env =
                batches env.order obj.s3Prefix (σ.oldRows obj.id (env.now - rotateAfter obj)) := by
              rw [written]
              exact taken_of_putAll (congrArg Prod.snd result)
            cases env.delete with
            | none => exact ⟨rfl, rfl, stored, .inr ⟨obj, found, all, rfl⟩⟩
            | some fault =>
              obtain ⟨_, took⟩ := fault
              cases took with
              | true => exact ⟨rfl, rfl, stored, .inr ⟨obj, found, all, rfl⟩⟩
              | false => exact ⟨rfl, rfl, stored, .inl rfl⟩

omit [ServiceLib] in
theorem blobOf_of_object {r obj} (own : r.objectID = obj.id)
    (found : objects.get? objectID = some obj) : blobOf objects r = archiveKey obj.s3Prefix r.day := by
  have object : objects.get? r.objectID = some obj := by
    rw [own, Table.key_of_get? found]
    exact found
  rw [blobOf, object]
  rfl

theorem mem_writes {batch} (h : batch ∈ σ.writes objects objectID env) :
    ∀ e ∈ batch.2, ∃ r ∈ σ.entries.rows, r.entry = e ∧ blobOf objects r = batch.1 := by
  unfold writes at h
  split at h
  · next obj _ found =>
    obtain ⟨_, _, rfl⟩ := mem_batches.mp (taken_sublist.subset h)
    intro e mem
    obtain ⟨r', kept, rfl⟩ := List.mem_map.mp mem
    obtain ⟨old', sameDay⟩ := List.mem_filter.mp kept
    obtain ⟨row, own, _⟩ := mem_oldRows.mp old'
    refine ⟨r', row, rfl, ?_⟩
    rw [blobOf_of_object own found, of_decide_eq_true sameDay]
  · cases h

theorem writes_keys : ((σ.writes objects objectID env).map Prod.fst).Nodup := by
  unfold writes
  split
  · exact batches_keys.sublist (taken_sublist.map Prod.fst)
  · exact nodup_nil

end

section
variable [ServiceLib] {objects : Table DataObject.id} {σ : LogTables}
  {r : LogRow} {objectID : String} {env : RotationEnv} {σ' : LogTables}

/-- Ids are drawn once, and what the table and the blobs hold was added. -/
structure Recorded (objects : Table DataObject.id) (σ : LogTables) : Prop where
  fresh : ∀ r ∈ σ.added, r.id < σ.nextID
  distinct : ∀ r ∈ σ.added, ∀ r' ∈ σ.added, r.id = r'.id → r = r'
  rows : ∀ r ∈ σ.entries.rows, r ∈ σ.added
  blobs : ∀ key, ∀ e ∈ σ.blobs key, ∃ r ∈ σ.added, r.entry = e ∧ blobOf objects r = key

omit [ServiceLib] in
theorem recorded_empty : Recorded objects empty where
  fresh r mem := by cases mem
  distinct r mem := by cases mem
  rows r mem := by cases mem
  blobs key e mem := by cases mem

omit [ServiceLib] in
theorem add_cases (now : Time) (scope : Scope) (level message : String) (fields : Option JsonObject) :
    (σ.add objects now scope level message fields).1 = σ ∨
      ∃ r : LogRow, r.id = σ.nextID ∧ (σ.add objects now scope level message fields).1 =
        { σ with entries := σ.entries.put r, nextID := σ.nextID + 1, added := r :: σ.added } := by
  unfold add
  split
  · exact .inl rfl
  · split
    · exact .inl rfl
    · split
      · exact .inl rfl
      · exact .inr ⟨_, rfl, rfl⟩

section
variable (h : Recorded objects σ)
include h

omit [ServiceLib] in
theorem Recorded.insert (id : r.id = σ.nextID) :
    Recorded objects { σ with entries := σ.entries.put r, nextID := σ.nextID + 1, added := r :: σ.added } where
  fresh := by
    intro r' mem
    rcases List.mem_cons.mp mem with rfl | old
    · exact id ▸ Int.lt_succ r'.id
    · exact Int.lt_trans (h.fresh r' old) (Int.lt_succ _)
  distinct := by
    intro a memA b memB same
    rcases List.mem_cons.mp memA with rfl | oldA
    · rcases List.mem_cons.mp memB with rfl | oldB
      · rfl
      · exact absurd (same.symm.trans id) (h.fresh b oldB).ne
    · rcases List.mem_cons.mp memB with rfl | oldB
      · exact absurd (same.trans id) (h.fresh a oldA).ne
      · exact h.distinct a oldA b oldB same
  rows := by
    intro r' mem
    rcases Table.mem_put.mp mem with rfl | ⟨old, _⟩
    · exact mem_cons_self
    · exact mem_cons_of_mem r (h.rows r' old)
  blobs := by
    intro key e mem
    obtain ⟨r', old, found⟩ := h.blobs key e mem
    exact ⟨r', mem_cons_of_mem r old, found⟩

theorem Recorded.rotated (rotated : Rotated objects σ objectID env σ') : Recorded objects σ' where
  fresh := by
    rw [rotated.added, rotated.nextID]
    exact h.fresh
  distinct := by
    rw [rotated.added]
    exact h.distinct
  rows := by
    rw [rotated.added]
    intro r mem
    rcases rotated.entries with same | ⟨_, _, _, dropped⟩
    · exact h.rows r (same ▸ mem)
    · rw [dropped] at mem
      exact h.rows r (Table.mem_deleteWhere.mp mem).1
  blobs := by
    rw [rotated.added, rotated.blobs]
    intro key e mem
    by_cases written : key ∈ (σ.writes objects objectID env).map Prod.fst
    · obtain ⟨_, writes, rfl⟩ := List.mem_map.mp written
      rw [writeAll_of_mem writes_keys writes] at mem
      obtain ⟨r, row, found⟩ := mem_writes writes e mem
      exact ⟨r, h.rows r row, found⟩
    · rw [writeAll_of_notMem written] at mem
      exact h.blobs key e mem

theorem Recorded.step (s : LogStep) : Recorded objects (σ.step objects s) := by
  cases s with
  | add now scope level message fields =>
    simp only [LogTables.step]
    rcases add_cases now scope level message fields with same | ⟨_, id, grown⟩
    · rw [same]
      exact h
    · rw [grown]
      exact h.insert id
  | rotate => exact h.rotated step_rotate

end

omit [ServiceLib] in
theorem Kept.insert (kept : Kept objects σ) (h : Recorded objects σ) (id : r.id = σ.nextID) :
    Kept objects { σ with entries := σ.entries.put r, nextID := σ.nextID + 1, added := r :: σ.added } := by
  intro r' mem
  rcases List.mem_cons.mp mem with rfl | old
  · exact .inl (Table.mem_put.mpr (.inl rfl))
  · refine (kept r' old).imp_left fun row => Table.mem_put.mpr (.inr ⟨row, ?_⟩)
    exact fun same => (h.fresh r' old).ne (same.trans id)

theorem Kept.rotated (kept : Kept objects σ) (h : Recorded objects σ)
    (rotated : Rotated objects σ objectID env σ') (spares : Spares objects σ (.rotate objectID env)) :
    Kept objects σ' := by
  intro r mem
  rw [rotated.added] at mem
  rw [rotated.blobs]
  by_cases row : r ∈ σ.entries.rows
  · -- a row leaves the table only with all batches written, its own among them
    rcases rotated.entries with same | ⟨obj, found, all, dropped⟩
    · exact .inl (same ▸ row)
    · by_cases old : r ∈ σ.oldRows obj.id (env.now - rotateAfter obj)
      · right
        have batch : (archiveKey obj.s3Prefix r.day, ((σ.oldRows obj.id (env.now - rotateAfter obj)).filter
            (fun r' => r'.day = r.day)).map LogRow.entry) ∈ σ.writes objects objectID env := by
          rw [all]
          exact mem_batches.mpr ⟨r, old, rfl⟩
        rw [blobOf_of_object (mem_oldRows.mp old).2.1 found, writeAll_of_mem writes_keys batch]
        exact mem_map_of_mem (List.mem_filter.mpr ⟨old, decide_eq_true rfl⟩)
      · left
        rw [dropped]
        refine Table.mem_deleteWhere.mpr ⟨row, decide_eq_false ?_⟩
        rintro ⟨_, listed⟩
        obtain ⟨r', old', same⟩ := List.mem_map.mp listed
        have equal : r' = r := Table.eq_of_key_eq (mem_oldRows.mp old').1 row same
        exact old (equal ▸ old')
  · have archived : r.entry ∈ σ.blobs (blobOf objects r) := (kept r mem).resolve_left row
    right
    by_cases written : blobOf objects r ∈ (σ.writes objects objectID env).map Prod.fst
    · obtain ⟨batch, writes, key⟩ := List.mem_map.mp written
      rw [← key] at archived ⊢
      rw [writeAll_of_mem writes_keys writes]
      rcases spares batch writes r.entry archived with again | ⟨r', row', same⟩
      · exact again
      · have equal : r' = r := h.distinct r' (h.rows r' row') r mem (congrArg LogEntry.id same)
        exact absurd (equal ▸ row') row
    · rw [writeAll_of_notMem written]
      exact archived

theorem Kept.spares (h : Recorded objects σ) (rotated : Rotated objects σ objectID env σ') (kept : Kept objects σ') :
    Spares objects σ (.rotate objectID env) := by
  intro batch writes e mem
  obtain ⟨r, added, rfl, key⟩ := h.blobs batch.1 e mem
  by_cases row : r ∈ σ.entries.rows
  · exact .inr ⟨r, row, rfl⟩
  · left
    rcases kept r (rotated.added.symm ▸ added) with row' | archived
    · rcases rotated.entries with same | ⟨_, _, _, dropped⟩
      · exact absurd (same ▸ row') row
      · rw [dropped] at row'
        exact absurd (Table.mem_deleteWhere.mp row').1 row
    · rw [rotated.blobs, key, writeAll_of_mem writes_keys writes] at archived
      exact archived

theorem kept_step_iff (h : Recorded objects σ) (kept : Kept objects σ) (s : LogStep) :
    Kept objects (σ.step objects s) ↔ Spares objects σ s := by
  cases s with
  | add now scope level message fields =>
    refine iff_of_true ?_ trivial
    simp only [step]
    rcases add_cases now scope level message fields with same | ⟨_, id, grown⟩
    · rw [same]
      exact kept
    · rw [grown]
      exact kept.insert h id
  | rotate =>
    exact ⟨fun kept' => Kept.spares h step_rotate kept', fun spares => kept.rotated h step_rotate spares⟩

end

end LogTables

/-- Through inserts and ticks, every row ever added is in the table or in the blob of
its object and day, if and only if each rotation spares what the blobs hold. -/
theorem rotation_loses_nothing_iff [ServiceLib] (objects : Table DataObject.id) (events : List LogEvent) :
    (∀ n, LogTables.Kept objects
      (Runs.run (LogTables.step objects) .empty ((events.flatMap (·.steps objects)).take n))) ↔
    Runs.Guarded (LogTables.Spares objects) (LogTables.step objects) .empty (events.flatMap (·.steps objects)) := by
  have preserves : ∀ σ s, LogTables.Recorded objects σ → LogTables.Kept objects σ →
      LogTables.Kept objects (.step objects σ s) →
      LogTables.Recorded objects (.step objects σ s) := fun σ s recorded _ _ => recorded.step s
  refine Runs.forall_run_iff (fun σ s recorded kept => LogTables.kept_step_iff recorded kept s) preserves
    LogTables.recorded_empty ?_
  intro r mem
  cases mem

def logObject : DataObject := { id := "o", kind := .log, status := .active, s3Prefix := "objects/o/" }

def logScope : Scope := { object := logObject, method := "add", access := {}, principal := {} }

def splitDay : List LogEvent :=
  [.add (60 * minute) logScope "" "first" none, .add (20 * 60 * minute) logScope "" "second" none,
    .tick (fun _ => 0) (fun _ => { now := 34 * 60 * minute }),
    .tick (fun _ => 0) (fun _ => { now := 46 * 60 * minute })]

/-- The second blob of the day replaces the first, and the first row is lost. -/
theorem split_day_is_lost :
    ¬ LogTables.Kept (Table.empty.put logObject)
      (Runs.run (@LogTables.step .plain (Table.empty.put logObject)) .empty
        (splitDay.flatMap (·.steps (Table.empty.put logObject)))) := by
  intro kept
  have lost := kept
    { objectID := "o"
      entry := { id := 1, level := "info", message := "first", fields := [], createdAt := 60 * minute } }
    (by decide)
  revert lost
  decide

end SynaMcp
