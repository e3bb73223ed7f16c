import SynaMcp.Access.Objects
import SynaMcp.Lib.Sections

/-! What the services of the data objects share. Go maps keyed by object, consumer or
topic are functions here, with the zero value where there is no entry. -/
namespace SynaMcp
open Sections Function

/-- A JSON object; a value is kept as its JSON text. -/
abbrev JsonObject := List (String × String)

def Scope.objectID (scope : Scope) : String := scope.object.id

def Scope.kind (scope : Scope) : ObjectKind := scope.object.kind

def Scope.backend (scope : Scope) : String := scope.object.backend

abbrev ScopeOf (objectID : String) := { scope : Scope // scope.objectID = objectID }

def errKindMismatch : String := "object kind mismatch"

def errNotFound : String := "not found"

def consumerName (consumer : String) : String := if consumer = "" then "default" else consumer

/-- The size of a batch, ten where none is asked for. -/
def orTen (max : Int) : Nat := if max ≤ 0 then 10 else max.toNat

/-- `json.Marshal` and `json.Unmarshal` of a payload, and `time.ParseDuration`. -/
class ServiceLib where
  marshal : JsonObject → String
  unmarshal : String → JsonObject
  parseDuration : String → Option Int

@[reducible] def ServiceLib.plain : ServiceLib where
  marshal payload := (payload.map fun field => field.1 ++ "=" ++ field.2).foldl (· ++ ·) ""
  unmarshal text := [("text", text)]
  parseDuration _ := none

/-- The parts of the services' state: what belongs to an object, and what is kept
for one consumer of an object. -/
inductive Cell where
  | object (id : String)
  | consumer (id name : String)
  deriving DecidableEq

namespace Cell

def owner : Cell → String
  | .object id => id
  | .consumer id _ => id

def own (id : String) : Set Cell := {.object id}

def cursor (id name : String) : Set Cell := {.consumer id name}

def seen (id name : String) : Set Cell := {.object id, .consumer id name}

def Value (α β : Type) : Cell → Type
  | .object _ => α
  | .consumer _ _ => β

def look {α β : Type} (objects : String → α) (consumers : String → String → β) : (k : Cell) → k.Value α β
  | .object id => objects id
  | .consumer id name => consumers id name

end Cell

section
variable {σ α β ρ : Type} {objects : σ → String → α} {consumers : σ → String → String → β} {f : σ → σ × ρ}
  {g : σ → ρ} {id name : String}

theorem within_own (frame : ∀ s other, other ≠ id → objects (f s).1 other = objects s other)
    (kept : ∀ s, consumers (f s).1 = consumers s)
    (own : ∀ s t, objects s id = objects t id → objects (f s).1 id = objects (f t).1 id ∧ (f s).2 = (f t).2) :
    Within (fun s => Cell.look (objects s) (consumers s)) (Cell.own id) (Cell.own id) (.atomic f) := by
  apply Within.atomic
  · intro s k out
    cases k with
    | object other => exact frame s other fun same => out (congrArg Cell.object same)
    | consumer other name => exact congrFun (congrFun (kept s) other) name
  · intro s t agree
    obtain ⟨after, result⟩ := own s t (agree (.object id) rfl)
    refine ⟨?_, result⟩
    rintro k rfl
    exact after

theorem within_read (same : ∀ s t, objects s id = objects t id → g s = g t) :
    Within (fun s => Cell.look (objects s) (consumers s)) (Cell.own id) ∅ (.read g) := by
  apply Within.read
  · exact fun s t agree => same s t (agree (.object id) rfl)
  · exact Set.empty_subset _

theorem update_update_of_ne {m : String → String → α} {v other n} (apart : ¬ (other = id ∧ n = name)) :
    update m id (update (m id) name v) other n = m other n := by
  by_cases same : other = id
  · subst same
    rw [update_self, update_of_ne fun equal => apart ⟨rfl, equal⟩]
  · rw [update_of_ne same]

theorem within_cursor (kept : ∀ s, objects (f s).1 = objects s)
    (frame : ∀ s other n, ¬ (other = id ∧ n = name) → consumers (f s).1 other n = consumers s other n)
    (own : ∀ s t, objects s id = objects t id → consumers s id name = consumers t id name →
      consumers (f s).1 id name = consumers (f t).1 id name ∧ (f s).2 = (f t).2) :
    Within (fun s => Cell.look (objects s) (consumers s)) (Cell.seen id name) (Cell.cursor id name) (.atomic f) := by
  apply Within.atomic
  · intro s k out
    cases k with
    | object other => exact congrFun (kept s) other
    | consumer other n =>
      exact frame s other n fun same => out (by rw [same.1, same.2]; rfl)
  · intro s t agree
    obtain ⟨after, result⟩ := own s t (agree (.object id) (.inl rfl)) (agree (.consumer id name) (.inr rfl))
    refine ⟨?_, result⟩
    rintro k rfl
    exact after

end
end SynaMcp
