import SynaMcp.Lib.GoMaps
import SynaMcp.Services.Scope

/-! Schedules: entries that come due, the deliveries the worker makes of them, and
the waiting requests that claim deliveries. -/
namespace SynaMcp
open Keyed Sections Function

structure ScheduleEntry where
  (name cron task : String)
  data : JsonObject
  nextRunAt : Time
  enabled : Bool
  updatedAt : Time
  deriving DecidableEq, Repr

structure Delivery where
  id : Int := 0
  (objectID entryName : String)
  runAt : Time
  task : String
  data : JsonObject
  deriving DecidableEq, Repr

structure Schedules where
  mem : String → Table ScheduleEntry.name
  del : String → List Delivery

namespace Schedules
section
variable [ServiceLib]

/-- What is after `@every` and one more byte; an offset inside a character leaves no
text that parses. -/
def everyText (expr : String) : Option String :=
  if 7 < expr.utf8ByteSize ∧ GoStrings.hasPrefix expr "@every" then
    match expr.toList.drop 6 with
    | c :: rest => if c.utf8Size = 1 then some (String.ofList rest) else none
    | [] => none
  else none

/-- `@every` and a positive duration, and otherwise a minute. -/
def nextFromCron (expr : String) (start : Time) : Time :=
  match (everyText expr).bind ServiceLib.parseDuration with
  | some d => if 0 < d then start + d else start + minute
  | none => start + minute

def set (now : Time) (scope : Scope) (name cronExpr task : String) (data : Option JsonObject) (s : Schedules) :
    Schedules × Except String ScheduleEntry :=
  if scope.kind ≠ .schedule then (s, .error errKindMismatch)
  else if name = "" ∨ cronExpr = "" ∨ task = "" then (s, .error "name, time, and task required")
  else
    let entry : ScheduleEntry :=
      { name := name, cron := cronExpr, task := task, data := data.getD [],
        nextRunAt := nextFromCron cronExpr now, enabled := true, updatedAt := now }
    ({ s with mem := update s.mem scope.objectID ((s.mem scope.objectID).put entry) }, .ok entry)

end

def get (scope : Scope) (name : String) (s : Schedules) : Except String (Option ScheduleEntry) :=
  if scope.kind ≠ .schedule then .error errKindMismatch
  else .ok ((s.mem scope.objectID).get? name)

/-- In the order of the range over the entries. -/
def list (choose : Nat → Nat) (scope : Scope) (s : Schedules) : Except String (List ScheduleEntry) :=
  if scope.kind ≠ .schedule then .error errKindMismatch
  else .ok (GoMaps.range choose (s.mem scope.objectID).rows)

def claimMemory (objectID : String) (s : Schedules) : Schedules × Option Delivery :=
  match s.del objectID with
  | [] => (s, none)
  | d :: rest => ({ s with del := update s.del objectID rest }, some d)

def claim (scope : Scope) : Prog Schedules (Except String (Option Delivery)) :=
  if scope.kind ≠ .schedule then pure (.error errKindMismatch)
  else do
    let found ← .atomic (claimMemory scope.objectID)
    return .ok found

/-- Polls until there is a delivery, an error, or no time left. What opening a scope
gives at each poll is listed. -/
def wait (objectID : String) : List (Except String (ScopeOf objectID)) → Prog Schedules (Except String Delivery)
  | [] => pure (.error "context deadline exceeded")
  | opened :: rest => do
      match ← .atomic (claimMemory objectID) with
      | some d => return .ok d
      | none =>
        match opened with
        | .error e => return .error e
        | .ok scope =>
          match ← claim scope with
          | .error e => return .error e
          | .ok (some d) => return .ok d
          | .ok none => wait objectID rest

def due (now : Time) (objectID : String) (e : ScheduleEntry) : Option Delivery :=
  if e.enabled = false ∨ now < e.nextRunAt then none
  else some { objectID := objectID, entryName := e.name, runAt := now, task := e.task, data := e.data }

def advanced [ServiceLib] (now : Time) (e : ScheduleEntry) : ScheduleEntry :=
  if e.enabled = false ∨ now < e.nextRunAt then e
  else { e with nextRunAt := nextFromCron e.cron now, updatedAt := now }

theorem advanced_name [ServiceLib] (now : Time) (e : ScheduleEntry) : (advanced now e).name = e.name := by
  unfold advanced
  split <;> rfl

/-- The worker's tick: every entry of every object that is due is delivered, in the
order of the range over the entries of its object, and gets its next time. -/
def fireDueMemory [ServiceLib] (now : Time) (choose : String → Nat → Nat) (s : Schedules) : Schedules where
  mem objectID := (s.mem objectID).mapRows (advanced now) (advanced_name now)
  del objectID := s.del objectID ++
    (GoMaps.range (choose objectID) (s.mem objectID).rows).filterMap (due now objectID)

def cell (s : Schedules) : (k : Cell) → k.Value (Table ScheduleEntry.name × List Delivery) Unit :=
  Cell.look (fun id => (s.mem id, s.del id)) fun _ _ => ()

theorem set_within [ServiceLib] {now scope name cronExpr task data} : Within cell (Cell.own scope.objectID) (Cell.own scope.objectID)
      (.atomic (set now scope name cronExpr task data)) := by
  apply within_own
  · intro s other ne
    unfold set
    split
    · rfl
    · split
      · rfl
      · simp [update_of_ne ne]
  · exact fun _ => rfl
  · intro s t same
    simp only [Prod.mk.injEq] at same
    unfold set
    split
    · exact ⟨by rw [same.1, same.2], rfl⟩
    · split
      · exact ⟨by rw [same.1, same.2], rfl⟩
      · simp [same]

theorem get_within {scope name} : Within cell (Cell.own scope.objectID) ∅ (.read (get scope name)) := by
  apply within_read
  intro s t same
  simp only [Prod.mk.injEq] at same
  unfold get
  rw [same.1]

theorem list_within {choose scope} : Within cell (Cell.own scope.objectID) ∅ (.read (list choose scope)) := by
  apply within_read
  intro s t same
  simp only [Prod.mk.injEq] at same
  unfold list
  rw [same.1]

theorem claimMemory_within {objectID} :
    Within cell (Cell.own objectID) (Cell.own objectID) (.atomic (claimMemory objectID)) := by
  apply within_own
  · intro s other ne
    unfold claimMemory
    split
    · rfl
    · simp [update_of_ne ne]
  · exact fun _ => rfl
  · intro s t same
    simp only [Prod.mk.injEq] at same
    obtain ⟨mem, del⟩ := same
    unfold claimMemory
    rw [del]
    split
    · exact ⟨by rw [mem, del], rfl⟩
    · simp [mem]

theorem claimMemory_of_empty {objectID s} (empty : s.del objectID = []) : claimMemory objectID s = (s, none) := by
  unfold claimMemory
  rw [empty]

theorem claimMemory_harmless {objectID H} :
    Harmless cell H (fun s => s.del objectID = []) (.atomic (claimMemory objectID)) := by
  refine .enter (fun s empty => ?_) fun s => .done _
  rw [claimMemory_of_empty empty]
  exact .refl _ _

section
variable {objectID : String} {H : Set Cell} {polls : List (Except String (ScopeOf objectID))}

theorem claim_within {scope} : Within cell (Cell.own scope.objectID) (Cell.own scope.objectID) (claim scope) := by
  unfold claim
  split
  · exact .done _
  · exact claimMemory_within.bind fun _ => .done _

theorem wait_within : Within cell (Cell.own objectID) (Cell.own objectID) (wait objectID polls) := by
  induction polls with
  | nil => exact .done _
  | cons opened rest ih =>
    refine claimMemory_within.bind fun first => ?_
    cases first with
    | some => exact .done _
    | none =>
      obtain e | ⟨_, rfl⟩ := opened
      · exact .done _
      · refine claim_within.bind fun second => ?_
        rcases second with e | _ | d
        · exact .done _
        · exact ih
        · exact .done _

theorem wait_harmless : Harmless cell H (fun s => s.del objectID = []) (wait objectID polls) := by
  induction polls with
  | nil => exact .done _
  | cons opened rest ih =>
    refine claimMemory_harmless.bind fun first => ?_
    cases first with
    | some => exact .done _
    | none =>
      obtain e | ⟨_, rfl⟩ := opened
      · exact .done _
      · refine Harmless.bind ?_ fun second => ?_
        · unfold claim
          split
          · exact .done _
          · exact claimMemory_harmless.bind fun _ => .done _
        · rcases second with e | _ | d
          · exact .done _
          · exact ih
          · exact .done _

theorem fireDueMemory_blind [ServiceLib] {now choose} :
    Blind cell H (.atomic fun s => (fireDueMemory now choose s, ())) := by
  apply Blind.pointwise
  intro s t k same
  cases k with
  | object id =>
    have both : (s.mem id, s.del id) = (t.mem id, t.del id) := same
    simp only [Prod.mk.injEq] at both
    simp only [cell, Cell.look, fireDueMemory, both.1, both.2]
    rfl
  | consumer => rfl

end

end Schedules
end SynaMcp
