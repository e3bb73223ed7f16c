import SynaMcp.Lib.SkipLocked
import SynaMcp.Services.Schedules
import Mathlib.Data.List.MinMax

/-! Schedules in Postgres, with several processes. For each entry that is due a tick
inserts a delivery, moves the entry on and queues the delivery in the memory of its
process, one statement at a time; a request takes from that memory first, and otherwise
from the table. -/
namespace SynaMcp
open Keyed List Table Function GoMaps

/-- A row of `schedule_entries`. Every write of it makes a new version. -/
structure EntryRow where
  objectID : String
  version : Nat
  entry : ScheduleEntry
  deriving DecidableEq, Repr

/-- A due run of an entry: the object and the name, and the version that is due. -/
abbrev DueRun := (String × String) × Nat

namespace EntryRow

def key (r : EntryRow) : String × String := (r.objectID, r.entry.name)

def run (r : EntryRow) : DueRun := (r.key, r.version)

def due (now : Time) (r : EntryRow) : Bool := r.entry.enabled && decide (r.entry.nextRunAt ≤ now)

def delivery (now : Time) (id : Int) (r : EntryRow) : Delivery :=
  { id := id, objectID := r.objectID, entryName := r.entry.name, runAt := now, task := r.entry.task,
    data := r.entry.data }

end EntryRow

abbrev EntryTable := Table EntryRow.key

namespace EntryTable

/-- The upsert and the update: the row has the entry, in a new version. -/
def write (t : EntryTable) (objectID : String) (entry : ScheduleEntry) : EntryTable :=
  t.put
    { objectID := objectID
      version :=
        match t.get? (objectID, entry.name) with
        | some e => e.version + 1
        | none => 0
      entry := entry }

def Reached (t : EntryTable) (run : DueRun) : Prop := ∃ e, t.get? run.1 = some e ∧ run.2 ≤ e.version

def Passed (t : EntryTable) (run : DueRun) : Prop := ∃ e, t.get? run.1 = some e ∧ run.2 < e.version

section
variable {t : EntryTable} {objectID : String} {entry : ScheduleEntry} {run : DueRun}

theorem get?_write_of_ne {k} (other : k ≠ (objectID, entry.name)) : (t.write objectID entry).get? k = t.get? k :=
  get?_put_of_ne t (r := ⟨objectID, _, entry⟩) (Ne.symm other)

theorem Reached.passed_write (h : t.Reached run) (own : run.1 = (objectID, entry.name)) :
    (t.write objectID entry).Passed run := by
  obtain ⟨e, found, le⟩ := h
  rw [own] at found
  refine ⟨⟨objectID, e.version + 1, entry⟩, ?_, Nat.lt_succ_of_le le⟩
  rw [EntryTable.write, found, own]
  exact get?_put_self t ⟨objectID, e.version + 1, entry⟩

theorem Reached.write (h : t.Reached run) : (t.write objectID entry).Reached run := by
  by_cases own : run.1 = (objectID, entry.name)
  · obtain ⟨e, found, lt⟩ := h.passed_write own
    exact ⟨e, found, lt.le⟩
  · obtain ⟨e, found, le⟩ := h
    exact ⟨e, (get?_write_of_ne own).trans found, le⟩

theorem Passed.write (h : t.Passed run) : (t.write objectID entry).Passed run := by
  obtain ⟨e, found, lt⟩ := h
  by_cases own : run.1 = (objectID, entry.name)
  · exact Reached.passed_write ⟨e, found, lt.le⟩ own
  · exact ⟨e, (get?_write_of_ne own).trans found, lt⟩

theorem reached_of_mem {r} (row : r ∈ t.rows) : t.Reached r.run := ⟨r, get?_of_mem row, le_rfl⟩

theorem not_passed_of_mem {r} (row : r ∈ t.rows) : ¬ t.Passed r.run := by
  rintro ⟨e, found, lt⟩
  have same : some e = some r := found.symm.trans (get?_of_mem row)
  cases same
  exact lt.ne rfl

end
end EntryTable

/-- A row of `schedule_deliveries`. -/
structure FiringRow where
  delivery : Delivery
  createdAt : Time
  claimedBy : Option String := none
  deriving DecidableEq, Repr

namespace FiringRow

def id (r : FiringRow) : Int := r.delivery.id

def Unclaimed (r : FiringRow) : Prop := r.claimedBy = none

end FiringRow

/-- A delivery in the memory of a process, and the row that was inserted with it. -/
structure QueuedCopy (π : Type) where
  process : π
  firing : Int
  delivery : Delivery
  deriving DecidableEq

/-- Where a tick is: before the insert for its next row, before the update of the entry,
and before the delivery is queued. -/
inductive Tick where
  | rows (now : Time) (rest : List EntryRow)
  | inserted (now : Time) (row : EntryRow) (id : Int) (rest : List EntryRow)
  | updated (now : Time) (row : EntryRow) (id : Int) (rest : List EntryRow)
  deriving DecidableEq

namespace Tick

/-- The runs that the tick is still to fire. -/
def unfired : Tick → List DueRun
  | .rows _ rest | .inserted _ _ _ rest | .updated _ _ _ rest => rest.map EntryRow.run

/-- The runs whose entries it is still to move on. -/
def ahead : Tick → List DueRun
  | .inserted _ row _ rest => row.run :: rest.map EntryRow.run
  | t => t.unfired

/-- The firing that it is still to queue. -/
def firing : Tick → Option Int
  | .inserted _ _ id _ | .updated _ _ id _ => some id
  | .rows .. => none

end Tick

/-- The tables, the queues of all processes, the ticks and the requests under way. The
rest is history: the runs found due, those that were fired, and the firings returned,
the latest first. -/
structure FiringSystem (π ω : Type) where
  entries : EntryTable := .empty
  pool : SkipLocked.Pool FiringRow.id ω := .empty
  nextID : Int := 1
  memory : List (QueuedCopy π) := []
  ticks : Table (Prod.fst : π × Tick → π) := .empty
  /-- The object of a request that found nothing in memory and has opened a scope. -/
  waits : ω → Option String := fun _ => none
  (found fired : List DueRun := [])
  returned : List (Int × Delivery) := []

inductive FiringEvent (π ω : Type) where
  | set (now : Time) (objectID name cronExpr task : String) (data : Option JsonObject)
  /-- The query of a tick, with the order of its rows. -/
  | tick (p : π) (now : Time) (order : Nat → Nat)
  /-- The next statement of the tick. -/
  | advance (p : π)
  /-- `ClaimMemory` of a request to that process. -/
  | poll (w : ω) (p : π) (objectID : String)
  /-- The statement of `Claim`, with the order of rows of one time. -/
  | claim (w : ω) (order : Nat → Nat)
  /-- The commit of `Claim`; the request may not hear of it. -/
  | commit (w : ω) (claimer : String) (heard : Bool)
  | abort (w : ω)

namespace FiringSystem
section
variable {π ω : Type}

/-- The rows that the query finds. -/
def dueRows (now : Time) (order : Nat → Nat) (t : EntryTable) : List EntryRow :=
  (range order t.rows).filter (EntryRow.due now)

/-- The entry as it is now gets its next time, by the expression that the tick read. -/
def moveOn [ServiceLib] (now : Time) (row : EntryRow) (t : EntryTable) : EntryTable :=
  match t.get? row.key with
  | none => t
  | some e =>
    t.write e.objectID { e.entry with nextRunAt := Schedules.nextFromCron row.entry.cron now, updatedAt := now }

def ahead (ticks : List (π × Tick)) : List DueRun := ticks.flatMap fun t => t.2.ahead

def unfired (ticks : List (π × Tick)) : List DueRun := ticks.flatMap fun t => t.2.unfired

/-- The firings whose copies are in a memory, or are still to be queued. -/
def copies (memory : List (QueuedCopy π)) (ticks : List (π × Tick)) : List Int :=
  memory.map QueuedCopy.firing ++ ticks.filterMap fun t => t.2.firing

variable [DecidableEq π] [DecidableEq ω]

def set [ServiceLib] (now : Time) (objectID name cronExpr task : String) (data : Option JsonObject)
    (σ : FiringSystem π ω) : FiringSystem π ω :=
  if name = "" ∨ cronExpr = "" ∨ task = "" then σ
  else
    let entry : ScheduleEntry :=
      { name := name, cron := cronExpr, task := task, data := data.getD [],
        nextRunAt := Schedules.nextFromCron cronExpr now, enabled := true, updatedAt := now }
    { σ with entries := σ.entries.write objectID entry }

/-- A process has one worker, and it makes one tick after the other. -/
def tick (p : π) (now : Time) (order : Nat → Nat) (σ : FiringSystem π ω) : FiringSystem π ω :=
  if σ.ticks.Has p then σ
  else
    { σ with
      ticks := σ.ticks.put (p, .rows now (dueRows now order σ.entries))
      found := (dueRows now order σ.entries).map EntryRow.run ++ σ.found }

def advance [ServiceLib] (p : π) (σ : FiringSystem π ω) : FiringSystem π ω :=
  match σ.ticks.get? p with
  | none => σ
  | some (_, .rows _ []) => { σ with ticks := σ.ticks.delete p }
  | some (_, .rows now (row :: rest)) =>
    { σ with
      pool := σ.pool.insert { delivery := row.delivery now σ.nextID, createdAt := now }
      nextID := σ.nextID + 1
      ticks := σ.ticks.put (p, .inserted now row σ.nextID rest)
      fired := row.run :: σ.fired }
  | some (_, .inserted now row id rest) =>
    { σ with entries := moveOn now row σ.entries, ticks := σ.ticks.put (p, .updated now row id rest) }
  | some (_, .updated now row id rest) =>
    -- what is queued has no id
    { σ with
      memory := σ.memory ++ [{ process := p, firing := id, delivery := row.delivery now 0 }]
      ticks := σ.ticks.put (p, .rows now rest) }

/-- The first delivery of the object in the memory of the process. -/
def head (p : π) (objectID : String) (σ : FiringSystem π ω) : Option (QueuedCopy π) :=
  σ.memory.find? fun c => decide (c.process = p ∧ c.delivery.objectID = objectID)

def poll (w : ω) (p : π) (objectID : String) (σ : FiringSystem π ω) : FiringSystem π ω :=
  if (σ.waits w).isSome then σ
  else
    match σ.head p objectID with
    | some c =>
      { σ with
        memory := σ.memory.eraseP fun c => decide (c.process = p ∧ c.delivery.objectID = objectID)
        returned := (c.firing, c.delivery) :: σ.returned }
    | none => { σ with waits := update σ.waits w (some objectID) }

/-- The oldest delivery of the object that is not claimed and that no one has locked. -/
def candidate (order : Nat → Nat) (objectID : String) (pool : SkipLocked.Pool FiringRow.id ω) : Option FiringRow :=
  List.argmin FiringRow.createdAt ((range order pool.rows.rows).filter fun r =>
    decide (r.delivery.objectID = objectID) && decide (r.claimedBy = none) && !pool.locked r.id)

/-- Without a row the request is to poll again. -/
def claim (w : ω) (order : Nat → Nat) (σ : FiringSystem π ω) : FiringSystem π ω :=
  match σ.waits w, σ.pool.held w with
  | some objectID, none =>
    match candidate order objectID σ.pool with
    | some r => { σ with pool := σ.pool.lock w r.id }
    | none => { σ with waits := update σ.waits w none }
  | _, _ => σ

def commit (w : ω) (claimer : String) (heard : Bool) (σ : FiringSystem π ω) : FiringSystem π ω :=
  match (σ.pool.held w).bind σ.pool.rows.get? with
  | none => σ
  | some r =>
    { σ with
      pool := σ.pool.commit w r.id (some { r with claimedBy := some claimer })
      waits := update σ.waits w none
      returned := if heard then (r.id, r.delivery) :: σ.returned else σ.returned }

def abort (w : ω) (σ : FiringSystem π ω) : FiringSystem π ω :=
  { σ with pool := σ.pool.release w, waits := update σ.waits w none }

def step [ServiceLib] (σ : FiringSystem π ω) : FiringEvent π ω → FiringSystem π ω
  | .set now objectID name cronExpr task data => σ.set now objectID name cronExpr task data
  | .tick p now order => σ.tick p now order
  | .advance p => σ.advance p
  | .poll w p objectID => σ.poll w p objectID
  | .claim w order => σ.claim w order
  | .commit w claimer heard => σ.commit w claimer heard
  | .abort w => σ.abort w

/-- The system after the first `n` events. -/
def after [ServiceLib] (events : List (FiringEvent π ω)) (n : Nat) : FiringSystem π ω :=
  Runs.run step {} (events.take n)

/-- A tick finds no run that another tick is still to move on. A firing is taken from
memory while its row is unclaimed, and from the table while its copy is not taken. -/
def KeepsApart (σ : FiringSystem π ω) : FiringEvent π ω → Prop
  | .tick _ now order => ∀ r ∈ dueRows now order σ.entries, r.run ∉ ahead σ.ticks.rows
  | .poll _ p objectID => ∀ c, σ.head p objectID = some c → ∃ r ∈ σ.pool.rows.rows, r.id = c.firing ∧ r.Unclaimed
  | .commit w _ heard => heard = true → ∀ id, σ.pool.held w = some id → id ∈ copies σ.memory σ.ticks.rows
  | _ => True

end

section
variable {π : Type} {t : EntryTable} {ticks ticks' : List (π × Tick)} {fired found : List DueRun} {p : π}
  {now : Time} {row : EntryRow} {rest rows : List EntryRow} {id : Int}

theorem unfired_subset : unfired ticks ⊆ ahead ticks := by
  intro run mem
  obtain ⟨⟨p, u⟩, tick, own⟩ := List.mem_flatMap.mp mem
  refine List.mem_flatMap.mpr ⟨(p, u), tick, ?_⟩
  cases u with
  | inserted => exact mem_cons_of_mem _ own
  | rows | updated => exact own

/-- No two ticks are at one run, and what was fired has been moved on or is about to be. -/
structure RunsApart (t : EntryTable) (ticks : List (π × Tick)) (fired found : List DueRun) : Prop where
  single : (ahead ticks).Nodup
  reached : ∀ run ∈ ahead ticks, t.Reached run
  unfired : ∀ run ∈ unfired ticks, run ∉ fired
  spent : ∀ run ∈ fired, t.Passed run ∨ run ∈ ahead ticks
  once : fired.Nodup
  found : ∀ run ∈ found, run ∈ fired ∨ run ∈ FiringSystem.unfired ticks

namespace RunsApart

section
variable (h : RunsApart t ticks fired found)
include h

theorem perm (same : ticks.Perm ticks') : RunsApart t ticks' fired found := by
  have ahead : (ahead ticks).Perm (ahead ticks') := same.flatMap_right _
  have unfired : (FiringSystem.unfired ticks).Perm (FiringSystem.unfired ticks') := same.flatMap_right _
  refine ⟨ahead.nodup_iff.mp h.single, ?_, ?_, ?_, h.once, ?_⟩
  · exact fun run mem => h.reached run (ahead.mem_iff.mpr mem)
  · exact fun run mem => h.unfired run (unfired.mem_iff.mpr mem)
  · exact fun run mem => (h.spent run mem).imp_right ahead.mem_iff.mp
  · exact fun run mem => (h.found run mem).imp_right unfired.mem_iff.mp

theorem write (objectID : String) (entry : ScheduleEntry) :
    RunsApart (t.write objectID entry) ticks fired found where
  single := h.single
  reached run mem := (h.reached run mem).write
  unfired := h.unfired
  spent run mem := (h.spent run mem).imp_left .write
  once := h.once
  found := h.found

/-- A tick that starts finds runs that no one fired, where no one is at them. -/
theorem query (stored : ∀ r ∈ rows, r ∈ t.rows)
    (single : (rows.map EntryRow.run).Nodup) (clear : ∀ r ∈ rows, r.run ∉ ahead ticks) :
    RunsApart t ((p, .rows now rows) :: ticks) fired (rows.map EntryRow.run ++ found) where
  single := by
    refine List.nodup_append.mpr ⟨single, h.single, ?_⟩
    rintro run mem _ old rfl
    obtain ⟨r, due, rfl⟩ := List.mem_map.mp mem
    exact clear r due old
  reached run mem := by
    rcases List.mem_append.mp mem with due | old
    · obtain ⟨r, own, rfl⟩ := List.mem_map.mp due
      exact EntryTable.reached_of_mem (stored r own)
    · exact h.reached run old
  unfired run mem := by
    rcases List.mem_append.mp mem with due | old
    · obtain ⟨r, own, rfl⟩ := List.mem_map.mp due
      intro fired
      rcases h.spent _ fired with passed | ahead
      · exact EntryTable.not_passed_of_mem (stored r own) passed
      · exact clear r own ahead
    · exact h.unfired run old
  spent run mem := (h.spent run mem).imp_right (mem_append_right _)
  once := h.once
  found run mem := by
    rcases List.mem_append.mp mem with due | old
    · exact .inr (mem_append_left _ due)
    · exact (h.found run old).imp_right (mem_append_right _)

end

theorem fire (h : RunsApart t ((p, .rows now (row :: rest)) :: ticks) fired found) :
    RunsApart t ((p, .inserted now row id rest) :: ticks) (row.run :: fired) found where
  single := h.single
  reached := h.reached
  unfired run mem := by
    refine not_mem_cons_of_ne_of_not_mem ?_ (h.unfired run (mem_cons_of_mem _ mem))
    rintro rfl
    refine (List.nodup_cons.mp h.single).1 (List.mem_append.mpr ?_)
    exact (List.mem_append.mp mem).imp_right fun later => unfired_subset later
  spent run mem := by
    rcases List.mem_cons.mp mem with rfl | old
    · exact .inr mem_cons_self
    · exact h.spent run old
  once := List.nodup_cons.mpr ⟨h.unfired _ mem_cons_self, h.once⟩
  found run mem := by
    rcases h.found run mem with old | due
    · exact .inl (mem_cons_of_mem _ old)
    · rcases List.mem_cons.mp due with rfl | later
      · exact .inl mem_cons_self
      · exact .inr later

theorem move [ServiceLib] (h : RunsApart t ((p, .inserted now row id rest) :: ticks) fired found) :
    RunsApart (moveOn now row t) ((p, .updated now row id rest) :: ticks) fired found := by
  obtain ⟨e, stored, le⟩ := h.reached row.run mem_cons_self
  have own : row.key = (e.objectID, e.entry.name) := (key_of_get? stored).symm
  have moved : moveOn now row t = t.write e.objectID
      { e.entry with nextRunAt := Schedules.nextFromCron row.entry.cron now, updatedAt := now } := by
    unfold moveOn
    rw [show t.get? row.key = some e from stored]
  rw [moved]
  refine ⟨(List.nodup_cons.mp h.single).2, ?_, h.unfired, ?_, h.once, h.found⟩
  · exact fun run mem => (h.reached run (mem_cons_of_mem _ mem)).write
  · intro run mem
    rcases h.spent run mem with passed | ahead
    · exact .inl passed.write
    · rcases List.mem_cons.mp ahead with rfl | later
      · exact .inl (EntryTable.Reached.passed_write ⟨e, stored, le⟩ own)
      · exact .inr later

end RunsApart

theorem dueRows_mem {order r} (h : r ∈ dueRows now order t) : r ∈ t.rows :=
  GoMaps.mem_range.mp (List.mem_filter.mp h).1

theorem dueRows_nodup {order} : ((dueRows now order t).map EntryRow.run).Nodup := by
  have keys : ((range order t.rows).map EntryRow.key).Nodup :=
    ((range_perm order _).map EntryRow.key).nodup_iff.mpr t.nodup
  have due := keys.sublist ((filter_sublist (p := EntryRow.due now)).map EntryRow.key)
  exact (map_map (f := EntryRow.run) (g := Prod.fst) ▸ due).of_map Prod.fst

end

/-- Each firing has one row and one copy, and what was returned is taken of one of them. -/
structure TakenOnce {ω : Type} (pool : SkipLocked.Pool FiringRow.id ω) (nextID : Int) (copies returned : List Int) :
    Prop where
  sound : SkipLocked.Sound FiringRow.Unclaimed pool
  numbered : ∀ r ∈ pool.rows.rows, r.id < nextID
  rows : ∀ id ∈ pool.taken ++ copies ++ returned, pool.rows.Has id
  single : copies.Nodup
  spent : ∀ id ∈ returned, id ∈ pool.taken ∨ id ∉ copies
  once : returned.Nodup

namespace TakenOnce
variable {ω : Type} [DecidableEq ω] {pool pool' : SkipLocked.Pool FiringRow.id ω} {nextID id : Int}
  {copies copies' returned : List Int}

section
variable (h : TakenOnce pool nextID copies returned)
include h

omit [DecidableEq ω] in
theorem perm (same : copies.Perm copies') :
    TakenOnce pool nextID copies' returned where
  sound := h.sound
  numbered := h.numbered
  rows id mem := h.rows id ((((same.append_left _).append_right _).mem_iff).mpr mem)
  single := same.nodup_iff.mp h.single
  spent id mem := (h.spent id mem).imp_right fun uncopied copy => uncopied (same.mem_iff.mpr copy)
  once := h.once

theorem relock (s : SkipLocked.Step FiringRow.Unclaimed pool pool')
    (rows : pool'.rows = pool.rows) (taken : pool'.taken = pool.taken) : TakenOnce pool' nextID copies returned where
  sound := h.sound.step s
  numbered := rows ▸ h.numbered
  rows := by
    rw [rows, taken]
    exact h.rows
  single := h.single
  spent := taken ▸ h.spent
  once := h.once

theorem insert {r} (own : r.id = nextID) : TakenOnce (pool.insert r) (nextID + 1) (nextID :: copies) returned := by
  have new : ¬ pool.rows.Has nextID := by
    rintro ⟨r', row, same⟩
    exact (h.numbered r' row).ne same
  have unused : nextID ∉ pool.taken ++ copies ++ returned := fun mem => new (h.rows _ mem)
  simp only [mem_append, not_or] at unused
  obtain ⟨⟨untaken, uncopied⟩, unreturned⟩ := unused
  refine ⟨h.sound.step (.inserted (own ▸ new) (own ▸ untaken)), ?_, ?_, List.nodup_cons.mpr ⟨uncopied, h.single⟩,
    ?_, h.once⟩
  · intro r' row
    rcases Table.mem_put.mp row with rfl | ⟨old, _⟩
    · exact own ▸ Int.lt_succ _
    · exact (h.numbered r' old).trans (Int.lt_succ _)
  · intro id mem
    refine Table.has_put.mpr ?_
    rcases List.mem_cons.mp (List.perm_middle.append_right _ |>.mem_iff.mp mem) with rfl | old
    · exact .inl own
    · exact .inr (h.rows id old)
  · intro id mem
    refine (h.spent id mem).imp_right fun old => not_mem_cons_of_ne_of_not_mem ?_ old
    rintro rfl
    exact unreturned mem

end

omit [DecidableEq ω] in
/-- A firing that is taken from memory was not returned, where its row is unclaimed. -/
theorem pop (h : TakenOnce pool nextID (id :: copies) returned)
    (row : ∃ r ∈ pool.rows.rows, r.id = id ∧ r.Unclaimed) : TakenOnce pool nextID copies (id :: returned) := by
  obtain ⟨uncopied, single⟩ := List.nodup_cons.mp h.single
  refine ⟨h.sound, h.numbered, ?_, single, ?_, List.nodup_cons.mpr ⟨?_, h.once⟩⟩
  · intro id' mem
    refine h.rows id' (List.Perm.mem_iff ?_ |>.mpr mem)
    exact (List.perm_middle.append_right _).trans List.perm_middle.symm
  · intro id' mem
    rcases List.mem_cons.mp mem with rfl | old
    · exact .inr uncopied
    · exact (h.spent id' old).imp_right fun other copy => other (mem_cons_of_mem _ copy)
  · intro old
    obtain ⟨r, stored, same, unclaimed⟩ := row
    rcases h.spent id old with taken | other
    · exact h.sound.closed r stored (same.symm ▸ taken) unclaimed
    · exact other mem_cons_self

/-- A row that is claimed was not returned, where its copy is not taken. -/
theorem commit (h : TakenOnce pool nextID copies returned) {w r} (claimer : String)
    (held : pool.held w = some r.id) (row : r ∈ pool.rows.rows) :
    TakenOnce (pool.commit w r.id (some { r with claimedBy := some claimer })) nextID copies returned ∧
      (r.id ∈ copies →
        TakenOnce (pool.commit w r.id (some { r with claimedBy := some claimer })) nextID copies (r.id :: returned)) := by
  have sound := h.sound.step (.marked held row (rfl : FiringRow.id { r with claimedBy := some claimer } = r.id) (by rintro ⟨⟩))
  have numbered : ∀ r' ∈ (pool.rows.put { r with claimedBy := some claimer }).rows, r'.id < nextID := by
    intro r' mem
    rcases Table.mem_put.mp mem with rfl | ⟨old, _⟩
    · exact h.numbered r row
    · exact h.numbered r' old
  have rows : ∀ id, id = r.id ∨ id ∈ pool.taken ++ copies ++ returned →
      (pool.rows.put { r with claimedBy := some claimer }).Has id := by
    rintro id (rfl | old)
    · exact Table.has_put.mpr (.inl rfl)
    · exact Table.has_put.mpr (.inr (h.rows id old))
  have spent : ∀ id ∈ returned, id ∈ r.id :: pool.taken ∨ id ∉ copies :=
    fun id mem => (h.spent id mem).imp_left (mem_cons_of_mem _)
  refine ⟨⟨sound, numbered, fun id mem => rows id (List.mem_cons.mp mem), h.single, spent, h.once⟩, fun copied => ?_⟩
  refine ⟨sound, numbered, fun id mem => ?_, h.single, ?_, List.nodup_cons.mpr ⟨?_, h.once⟩⟩
  · rcases List.mem_cons.mp (List.perm_middle.mem_iff.mp mem) with rfl | old
    · exact rows _ (.inl rfl)
    · exact rows id (List.mem_cons.mp old)
  · intro id mem
    rcases List.mem_cons.mp mem with rfl | old
    · exact .inl mem_cons_self
    · exact spent id old
  · intro old
    rcases h.spent _ old with taken | uncopied
    · exact h.sound.untaken (SkipLocked.Pool.mem_of_held held) taken
    · exact uncopied copied

end TakenOnce

section
variable {π ω : Type} [DecidableEq π] [DecidableEq ω] {σ : FiringSystem π ω}

omit [DecidableEq ω] in
theorem copies_head {p objectID c} (h : σ.head p objectID = some c)
    (ticks : List (π × Tick)) : (copies σ.memory ticks).Perm (c.firing ::
      copies (σ.memory.eraseP fun c => decide (c.process = p ∧ c.delivery.objectID = objectID)) ticks) := by
  obtain ⟨own, before, later, split, others⟩ := List.find?_eq_some_iff_append.mp h
  have erased : σ.memory.eraseP (fun c => decide (c.process = p ∧ c.delivery.objectID = objectID)) = before ++ later := by
    rw [split, eraseP_append_right]
    · exact congrArg (before ++ ·) (eraseP_cons_of_pos (p := fun c : QueuedCopy π => decide _) own)
    · intro b mem
      simpa only [Bool.not_eq_true', Bool.not_eq_true] using others b mem
  rw [erased, split, copies, copies, map_append, map_cons, map_append]
  exact List.perm_middle.append_right _

/-- Both of it. -/
structure Sound (σ : FiringSystem π ω) : Prop where
  runs : RunsApart σ.entries σ.ticks.rows σ.fired σ.found
  taken : TakenOnce σ.pool σ.nextID (copies σ.memory σ.ticks.rows) (σ.returned.map Prod.fst)

namespace Sound

omit [DecidableEq π] [DecidableEq ω] in
theorem initial : Sound ({} : FiringSystem π ω) where
  runs :=
    { single := nodup_nil
      reached := fun run mem => by cases mem
      unfired := fun run mem => by cases mem
      spent := fun run mem => by cases mem
      once := nodup_nil
      found := fun run mem => by cases mem }
  taken :=
    { sound := SkipLocked.sound_empty
      numbered := fun r mem => by cases mem
      rows := fun id mem => by cases mem
      single := nodup_nil
      spent := fun id mem => by cases mem
      once := nodup_nil }

omit [DecidableEq ω] in
theorem tick (h : Sound σ) {p now order}
    (clear : ∀ r ∈ dueRows now order σ.entries, r.run ∉ ahead σ.ticks.rows) : Sound (σ.tick p now order) := by
  unfold FiringSystem.tick
  split
  · exact h
  · next new =>
    have rows : (σ.ticks.put (p, .rows now (dueRows now order σ.entries))).rows =
        (p, .rows now (dueRows now order σ.entries)) :: σ.ticks.rows := rows_put_of_new new
    constructor
    · show RunsApart _ (Table.rows _) _ _
      rw [rows]
      exact h.runs.query (fun r => dueRows_mem) dueRows_nodup clear
    · show TakenOnce _ _ (copies _ (Table.rows _)) _
      rw [rows]
      exact h.taken

theorem advance [ServiceLib] (h : Sound σ) (p : π) : Sound (σ.advance p) := by
  unfold FiringSystem.advance
  cases found : σ.ticks.get? p with
  | none => exact h
  | some row =>
    obtain ⟨q, t⟩ := row
    obtain rfl : q = p := key_of_get? found
    have split := perm_of_mem (mem_of_get? found)
    have runs := h.runs.perm split
    have taken := h.taken.perm ((split.filterMap _).append_left _)
    cases t with
    | rows now rest =>
      cases rest with
      | nil => exact ⟨⟨runs.single, runs.reached, runs.unfired, runs.spent, runs.once, runs.found⟩, taken⟩
      | cons => exact ⟨runs.fire, (taken.insert rfl).perm List.perm_middle.symm⟩
    | inserted => exact ⟨runs.move, taken⟩
    | updated =>
      refine ⟨⟨runs.single, runs.reached, runs.unfired, runs.spent, runs.once, runs.found⟩, taken.perm ?_⟩
      simp only [copies, map_append, append_assoc]
      exact .refl _

theorem step [ServiceLib] (h : Sound σ) (ev : FiringEvent π ω) (met : σ.KeepsApart ev) : Sound (σ.step ev) := by
  cases ev with
  | set =>
    simp only [FiringSystem.step, FiringSystem.set]
    split
    · exact h
    · exact ⟨h.runs.write _ _, h.taken⟩
  | tick => exact h.tick met
  | advance p => exact h.advance p
  | poll =>
    simp only [FiringSystem.step, FiringSystem.poll]
    split
    · exact h
    · split
      · next c first => exact ⟨h.runs, (h.taken.perm (copies_head first _)).pop (met c first)⟩
      · exact ⟨h.runs, h.taken⟩
  | claim =>
    simp only [FiringSystem.step, FiringSystem.claim]
    split
    · next objectID waits idle =>
      split
      · next r chosen =>
        have mem := List.mem_filter.mp (argmin_mem chosen)
        simp only [GoMaps.mem_range, Bool.and_eq_true, decide_eq_true_eq, Bool.not_eq_true'] at mem
        exact ⟨h.runs, h.taken.relock (.locked idle mem.1 mem.2.1.2 mem.2.2) rfl rfl⟩
      · exact ⟨h.runs, h.taken⟩
    · exact h
  | commit w claimer heard =>
    simp only [FiringSystem.step, FiringSystem.commit]
    cases row : (σ.pool.held w).bind σ.pool.rows.get? with
    | none => exact h
    | some r =>
      obtain ⟨id, held, found⟩ := Option.bind_eq_some_iff.mp row
      obtain rfl : r.id = id := key_of_get? found
      have committed := h.taken.commit claimer held (mem_of_get? found)
      cases heard with
      | false => exact ⟨h.runs, committed.1⟩
      | true => exact ⟨h.runs, committed.2 (met rfl _ held)⟩
  | abort => exact ⟨h.runs, h.taken.relock .released rfl rfl⟩

end Sound
end
end FiringSystem

/-- Where ticks that overlap find different runs, and no firing is taken from memory and
from the table: every run that a tick finds due is fired once, unless the tick is still
to come to it, and every firing is returned at most once. -/
theorem firings_are_delivered_once {π ω : Type} [DecidableEq π] [DecidableEq ω] [ServiceLib]
    (events : List (FiringEvent π ω))
    (met : Runs.Guarded FiringSystem.KeepsApart FiringSystem.step {} events) (n : Nat) :
    (FiringSystem.after events n).fired.Nodup ∧
    (∀ run ∈ (FiringSystem.after events n).found, run ∈ (FiringSystem.after events n).fired ∨
      run ∈ FiringSystem.unfired (FiringSystem.after events n).ticks.rows) ∧
    ((FiringSystem.after events n).returned.map Prod.fst).Nodup := by
  have sound : FiringSystem.Sound (.after events n) :=
    Runs.run_invariant (fun σ ev h met => h.step ev met) (met.take n) .initial
  exact ⟨sound.runs.once, sound.runs.found, sound.taken.once⟩

/-- An entry fires, and a request gets the firing. -/
def firedRun : List (FiringEvent Bool Bool) :=
  [.set 0 "o" "e" "daily" "ping" none, .tick true minute (fun _ => 0), .advance true, .advance true, .advance true,
    .poll true true "o"]

theorem firing_is_returned_once :
    ((@FiringSystem.after Bool Bool _ _ .plain firedRun 6).returned.map Prod.fst).Nodup := by
  refine (@firings_are_delivered_once Bool Bool _ _ .plain firedRun ?_ 6).2.2
  refine ⟨trivial, ?_, trivial, trivial, trivial, ?_, trivial⟩
  · intro r due ahead
    cases ahead
  · rintro c ⟨⟩
    exact ⟨_, List.mem_singleton.mpr rfl, rfl, rfl⟩

/-- The next request finds the memory empty and gets the same firing from the table; and
two ticks that overlap fire one due run twice. -/
theorem firing_is_returned_twice :
    (@FiringSystem.after Bool Bool _ _ .plain
      (firedRun ++ [.poll false true "o", .claim false (fun _ => 0), .commit false "bob" true]) 9).returned.map
        Prod.fst = [1, 1] ∧
    (@FiringSystem.after Bool Bool _ _ .plain
      [.set 0 "o" "e" "daily" "ping" none, .tick true minute (fun _ => 0), .tick false minute (fun _ => 0),
        .advance true, .advance false] 5).fired = [(("o", "e"), 0), (("o", "e"), 0)] := by
  decide +kernel

end SynaMcp
