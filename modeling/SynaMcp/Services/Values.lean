import SynaMcp.Services.Scope

/-! The services that keep values: variables, counters and logs. -/
namespace SynaMcp
open Sections Function

structure VariableEntry where
  name : String
  keyPrefix : String
  payload : JsonObject
  updatedAt : Time
  deriving DecidableEq, Repr

/-- The entries of each object by `key`. -/
structure Variables where
  mem : String → String → Option VariableEntry

namespace Variables

def key (keyPrefix name : String) : String := keyPrefix ++ "\x00" ++ name

def set (now : Time) (scope : Scope) (name keyPrefix : String) (payload : Option JsonObject) (s : Variables) :
    Variables × Except String VariableEntry :=
  if scope.kind ≠ .variable then (s, .error errKindMismatch)
  else if name = "" then (s, .error "name required")
  else
    let entry : VariableEntry :=
      { name := name, keyPrefix := keyPrefix, payload := payload.getD [], updatedAt := now }
    ({ s with
        mem := update s.mem scope.objectID (update (s.mem scope.objectID) (key keyPrefix name) (some entry)) },
      .ok entry)

def get (scope : Scope) (name keyPrefix : String) (s : Variables) : Except String (Option VariableEntry) :=
  if scope.kind ≠ .variable then .error errKindMismatch
  else .ok (s.mem scope.objectID (key keyPrefix name))

def cell (s : Variables) : (k : Cell) → k.Value (String → Option VariableEntry) Unit := Cell.look s.mem fun _ _ => ()

theorem set_within {now scope name keyPrefix payload} :
    Within cell (Cell.own scope.objectID) (Cell.own scope.objectID)
      (.atomic (set now scope name keyPrefix payload)) := by
  apply within_own
  · intro s other ne
    unfold set
    split
    · rfl
    · split
      · rfl
      · exact update_of_ne ne _ _
  · exact fun _ => rfl
  · intro s t same
    unfold set
    split
    · exact ⟨same, rfl⟩
    · split
      · exact ⟨same, rfl⟩
      · simp [same]

theorem get_within {scope name keyPrefix} :
    Within cell (Cell.own scope.objectID) ∅ (.read (get scope name keyPrefix)) := by
  apply within_read
  intro s t same
  unfold get
  rw [same]

end Variables

/-- Without Redis the value of a counter is kept in memory. -/
structure Counters where
  mem : String → Float

namespace Counters

def readMeta (scope : Scope) : Prog Counters Float := .read fun s => s.mem scope.objectID

/-- A write of the value, as `writeMeta` and the code behind it both do it. -/
def write (scope : Scope) (value : Float) : Prog Counters Unit :=
  .atomic fun s => ({ s with mem := update s.mem scope.objectID value }, ())

def set (scope : Scope) (value : Float) : Prog Counters (Except String Float) :=
  if scope.kind ≠ .counter then pure (.error errKindMismatch)
  else do
    write scope value
    write scope value
    return .ok value

def get (scope : Scope) : Prog Counters (Except String Float) :=
  if scope.kind ≠ .counter then pure (.error errKindMismatch)
  else do
    let value ← readMeta scope
    return .ok value

variable (scope : Scope) (delta : Float)

/-- The lock is not held from the reading to the writing. -/
def adjust : Prog Counters (Except String Float) :=
  if scope.kind ≠ .counter then pure (.error errKindMismatch)
  else do
    let delta := if delta == 0 then 1 else delta
    let current ← readMeta scope
    let next := current + delta
    write scope next
    write scope next
    return .ok next

def increase : Prog Counters (Except String Float) := adjust scope delta

def decrease : Prog Counters (Except String Float) := adjust scope (-delta)

def cell (s : Counters) : (k : Cell) → k.Value Float Unit := Cell.look s.mem fun _ _ => ()

variable {scope}

theorem readMeta_within : Within cell (Cell.own scope.objectID) ∅ (readMeta scope) :=
  within_read fun _ _ same => same

theorem write_within {value} :
    Within cell (Cell.own scope.objectID) (Cell.own scope.objectID) (write scope value) := by
  apply within_own
  · exact fun s other ne => update_of_ne ne _ _
  · exact fun _ => rfl
  · intro s t same
    simp

theorem set_within {value} : Within cell (Cell.own scope.objectID) (Cell.own scope.objectID) (set scope value) := by
  unfold set
  split
  · exact .done _
  · exact write_within.bind fun _ => write_within.bind fun _ => .done _

theorem get_within : Within cell (Cell.own scope.objectID) ∅ (get scope) := by
  unfold get
  split
  · exact .done _
  · exact readMeta_within.bind fun _ => .done _

theorem adjust_within {delta} :
    Within cell (Cell.own scope.objectID) (Cell.own scope.objectID) (adjust scope delta) := by
  unfold adjust
  split
  · exact .done _
  · have read : Within cell (Cell.own scope.objectID) (Cell.own scope.objectID) (readMeta scope) :=
      readMeta_within.mono subset_rfl (Set.empty_subset _) subset_rfl
    exact read.bind fun _ => write_within.bind fun _ => write_within.bind fun _ => .done _

end Counters

structure LogEntry where
  id : Int
  level : String
  message : String
  fields : JsonObject
  createdAt : Time
  deriving DecidableEq, Repr

structure Logs where
  mem : String → List LogEntry

namespace Logs

def add (now : Time) (scope : Scope) (level message : String) (fields : Option JsonObject) (s : Logs) :
    Logs × Except String LogEntry :=
  if scope.kind ≠ .log then (s, .error errKindMismatch)
  else if message = "" then (s, .error "message required")
  else
    let entry : LogEntry :=
      { id := (s.mem scope.objectID).length + 1
        level := if level = "" then "info" else level
        message := message
        fields := fields.getD []
        createdAt := now }
    ({ s with mem := update s.mem scope.objectID (s.mem scope.objectID ++ [entry]) }, .ok entry)

def tail (scope : Scope) (limit : Int) (s : Logs) : Except String (List LogEntry) :=
  if scope.kind ≠ .log then .error errKindMismatch
  else
    let limit := if limit ≤ 0 then 100 else limit
    .ok (((s.mem scope.objectID).mergeSort fun a b => decide (b.id ≤ a.id)).take limit.toNat)

def cell (s : Logs) : (k : Cell) → k.Value (List LogEntry) Unit := Cell.look s.mem fun _ _ => ()

theorem add_within {now scope level message fields} : Within cell (Cell.own scope.objectID) (Cell.own scope.objectID)
      (.atomic (add now scope level message fields)) := by
  apply within_own
  · intro s other ne
    unfold add
    split
    · rfl
    · split
      · rfl
      · exact update_of_ne ne _ _
  · exact fun _ => rfl
  · intro s t same
    unfold add
    split
    · exact ⟨same, rfl⟩
    · split
      · exact ⟨same, rfl⟩
      · simp [same]

theorem tail_within {scope limit} : Within cell (Cell.own scope.objectID) ∅ (.read (tail scope limit)) := by
  apply within_read
  intro s t same
  unfold tail
  rw [same]

end Logs
end SynaMcp
