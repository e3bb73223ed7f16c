import SynaMcp.Lib.Cursor
import SynaMcp.Services.Calls

/-! The bus on its three backends, called without overlaps. Each answers as one log with
a position for each consumer. Offsets and batch sizes are taken to stay below `2^63`. -/
namespace SynaMcp
open Keyed Cursor Function List Runs

/-- `gap` counts the ids that the sequence has given elsewhere since the last event. -/
inductive BusCall where
  | produce (now : Time) (gap : Nat) (payload : Option JsonObject)
  | consume (now : Time) (consumer : String) (max : Int)

/-- What the bus is for. -/
structure BusLog where
  produced : List JsonObject := []
  position : String → Nat := fun _ => 0

def BusLog.serve (s : BusLog) : BusCall → BusLog × List JsonObject
  | .produce _ _ payload => ({ s with produced := s.produced ++ [payload.getD []] }, [payload.getD []])
  | .consume _ consumer max =>
    let name := consumerName consumer
    let out := (s.produced.drop (s.position name)).take (orTen max)
    ({ s with position := update s.position name (s.position name + out.length) }, out)

/-- A row of `bus_events`. -/
structure BusRow where
  id : Int
  payload : String
  createdAt : Time
  deriving DecidableEq

/-- The rows of one object in `bus_events` and `bus_offsets`, where no offset is as good
as zero, and the sequence of the ids. -/
structure PgBus where
  events : Table BusRow.id := .empty
  lastID : String → Int := fun _ => 0
  sequence : Int := 0

/-- `id > $2 ORDER BY id LIMIT $3`. -/
def fetch (events : Table BusRow.id) (last : Int) (max : Nat) : List BusRow :=
  (ordered BusRow.id (events.rows.filter fun r => decide (last < r.id))).take max

section
variable [ServiceLib]

def BusRow.event (r : BusRow) : BusEvent :=
  { id := r.id, payload := ServiceLib.unmarshal r.payload, createdAt := r.createdAt }

namespace PgBus

/-- `jsonb` is the text of a payload after it was stored. -/
def produce (jsonb : String → String) (now : Time) (gap : Nat) (payload : Option JsonObject) (s : PgBus) :
    PgBus × BusEvent :=
  let payload := payload.getD []
  let id := s.sequence + gap + 1
  ({ s with
      events := s.events.put { id := id, payload := jsonb (ServiceLib.marshal payload), createdAt := now }
      sequence := id },
    { id := id, payload := payload, createdAt := now })

def consume (consumer : String) (max : Int) (s : PgBus) : PgBus × List BusEvent :=
  let name := consumerName consumer
  let out := (fetch s.events (s.lastID name) (orTen max)).map BusRow.event
  match out.getLast? with
  | none => (s, out)
  | some e => ({ s with lastID := update s.lastID name e.id }, out)

def serve (jsonb : String → String) (s : PgBus) : BusCall → PgBus × List JsonObject
  | .produce now gap payload => ((s.produce jsonb now gap payload).1, [(s.produce jsonb now gap payload).2.payload])
  | .consume _ consumer max => ((s.consume consumer max).1, (s.consume consumer max).2.map BusEvent.payload)

end PgBus

def Buses.serve (scope : Scope) (s : Buses) : BusCall → Buses × Except String (List JsonObject)
  | .produce now _ payload =>
    ((s.produce now scope payload).1, (s.produce now scope payload).2.map fun e => [e.payload])
  | .consume now consumer max =>
    ((s.consume now scope consumer max).1, (s.consume now scope consumer max).2.map (map BusEvent.payload))

end

def BusCall.payload? : BusCall → Option JsonObject
  | .produce _ _ payload => some (payload.getD [])
  | .consume .. => none

def BusCall.consumer? : BusCall → Option String
  | .produce .. => none
  | .consume _ consumer _ => some (consumerName consumer)

def received (name : String) (calls : List BusCall) (outs : List (List JsonObject)) : List JsonObject :=
  ((calls.zip outs).filter fun c => decide (c.1.consumer? = some name)).flatMap Prod.snd

/-- What a consumer was given before and what it is given now are the first of what is
produced. -/
theorem BusLog.received_prefix {log name calls} (le : log.position name ≤ log.produced.length) :
    log.produced.take (log.position name) ++ received name calls (answers serve log calls) <+:
      log.produced ++ calls.filterMap BusCall.payload? := by
  induction calls generalizing log with
  | nil => simpa [received] using take_prefix ..
  | cons call calls ih =>
    cases call with
    | produce now gap payload =>
      have rest := @ih (log.serve (.produce now gap payload)).1 (by simpa [serve] using Nat.le_succ_of_le le)
      simpa [serve, answers, received, BusCall.consumer?, BusCall.payload?, take_append_of_le_length le]
        using rest
    | consume now consumer max =>
      generalize given : (log.produced.drop (log.position (consumerName consumer))).take (orTen max) = out
      by_cases same : consumerName consumer = name
      · subst same
        have pre : out <+: log.produced.drop (log.position (consumerName consumer)) := given ▸ take_prefix ..
        have length := pre.length_le
        rw [length_drop] at length
        have rest := @ih (log.serve (.consume now consumer max)).1 (by simp [serve, given]; omega)
        have taken : log.produced.take (log.position (consumerName consumer) + out.length) =
            log.produced.take (log.position (consumerName consumer)) ++ out := by
          rw [take_add, ← List.prefix_iff_eq_take.mp pre]
        simpa [serve, answers, received, BusCall.consumer?, BusCall.payload?, given, taken, filterMap_cons] using rest
      · have other : name ≠ consumerName consumer := fun equal => same equal.symm
        have rest := @ih (log.serve (.consume now consumer max)).1 (by simpa [serve, other] using le)
        simpa [serve, answers, received, BusCall.consumer?, BusCall.payload?, same, other, filterMap_cons] using rest

section Mirrors
variable {α : Type} {key : α → Int} {payload : α → JsonObject} {log : BusLog} {rows : List α} {top : Int}
  {last : String → Int}

structure Mirrors (key : α → Int) (payload : α → JsonObject) (log : BusLog) (rows : List α) (top : Int)
    (last : String → Int) : Prop where
  produced : log.produced = rows.map payload
  order : Ascending key rows top
  cursor : ∀ name, At key rows top (last name) (log.position name)

theorem Mirrors.produce (h : Mirrors key payload log rows top last) {r} (new : top < key r) (now : Time)
    (gap : Nat) {p} (same : payload r = p.getD []) :
    Mirrors key payload (log.serve (.produce now gap p)).1 (rows ++ [r]) (key r) last where
  produced := by simp [BusLog.serve, h.produced, same]
  order := h.order.append new
  cursor name := (h.cursor name).append new

theorem Mirrors.consume (h : Mirrors key payload log rows top last) (now : Time) {consumer max out}
    (given : (rows.filter fun r => decide (last (consumerName consumer) < key r)).take (orTen max) = out) :
    out.map payload = (log.serve (.consume now consumer max)).2 ∧
      Mirrors key payload (log.serve (.consume now consumer max)).1 rows top
        (update last (consumerName consumer) (moved key (last (consumerName consumer)) out)) := by
  rw [(h.cursor _).filter] at given
  have answer : (log.serve (.consume now consumer max)).2 = out.map payload := by
    rw [BusLog.serve, h.produced, ← map_drop, ← map_take, given]
  refine ⟨answer.symm, h.produced, h.order, fun name => ?_⟩
  by_cases same : name = consumerName consumer
  · subst same
    have moved := @At.advance _ _ _ _ _ _ _ _ (orTen max) h.order (h.cursor (consumerName consumer))
    rw [given] at moved
    simpa [BusLog.serve, h.produced, ← map_drop, ← map_take, given] using moved
  · simpa [BusLog.serve, update_of_ne same] using h.cursor name

end Mirrors

theorem fetch_eq {events rows} (perm : events.rows.Perm rows)
    (order : rows.Pairwise fun a b => a.id < b.id) {last max} :
    fetch events last max = (rows.filter fun r => decide (last < r.id)).take max := by
  exact congrArg (take max) (ordered_eq (perm.filter _) (order.filter _))

section
variable [ServiceLib] {scope : Scope} {jsonb : String → String} {calls : List BusCall}

theorem Buses.answers_memory (bus : scope.kind = .bus) (memory : scope.backend ≠ "kafka") (kafka : Bool) :
    answers (Buses.serve scope) (Services.new kafka).buses calls =
      (answers BusLog.serve {} calls).map .ok := by
  apply answers_eq (R := fun (s : Buses) log =>
    Mirrors BusEvent.id BusEvent.payload log (s.mem scope.objectID) (s.mem scope.objectID).length
      (s.offs scope.objectID))
  · intro s log call _ h
    cases call with
    | produce now gap payload =>
      have next := h.produce (r := ⟨(s.mem scope.objectID).length + 1, payload.getD [], now⟩) (Int.lt_succ _)
        now gap (p := payload) rfl
      refine ⟨by simp [serve, produce, bus, memory, BusLog.serve, Except.map], ?_⟩
      simpa [serve, produce, bus, memory] using next
    | consume now consumer max =>
      generalize given : ((s.mem scope.objectID).filter fun e =>
        decide (s.offs scope.objectID (consumerName consumer) < e.id)).take (orTen max) = out
      obtain ⟨answer, next⟩ := h.consume now given
      simp only [serve, consume, bus, memory, given, ← answer]
      cases end_ : out.getLast? with
      | none | some e => exact ⟨rfl, by simpa [moved, end_] using next⟩
  · exact ⟨rfl, ⟨.nil, fun _ mem => by cases mem⟩, fun _ => ⟨⟨[], [], rfl, rfl, by simp, by simp⟩, le_rfl⟩⟩

theorem Buses.answers_kafka (bus : scope.kind = .bus) (backend : scope.backend = "kafka")
    (kept : ∀ p ∈ calls.filterMap BusCall.payload?, ServiceLib.unmarshal (ServiceLib.marshal p) = p) :
    answers (Buses.serve scope) (Services.new true).buses calls =
      (answers BusLog.serve {} calls).map .ok := by
  apply answers_eq (R := fun (s : Buses) log => s.kafkaConfigured = true ∧
    s.topics (topic scope.objectID) = log.produced.map ServiceLib.marshal ∧
    s.topicOffs (topic scope.objectID) = log.position ∧
    ∀ p ∈ log.produced, ServiceLib.unmarshal (ServiceLib.marshal p) = p)
  · rintro s log call mem ⟨configured, topics, offs, texts⟩
    cases call with
    | produce =>
      refine ⟨by simp [serve, produce, bus, backend, configured, BusLog.serve, Except.map], ?_⟩
      simp only [serve, produce, bus, backend, configured, kafkaProduce, BusLog.serve]
      refine ⟨rfl, by simp [topics], offs, fun p produced => ?_⟩
      rcases List.mem_append.mp produced with old | new
      · exact texts p old
      · exact kept p (List.mem_filterMap.mpr ⟨_, mem, congrArg some (List.mem_singleton.mp new).symm⟩)
    | consume now consumer max =>
      generalize given : (log.produced.drop (log.position (consumerName consumer))).take (orTen max) = out
      have raws : ((log.produced.map ServiceLib.marshal).drop (log.position (consumerName consumer))).take (orTen max) =
          out.map ServiceLib.marshal := by
        rw [← map_drop, ← map_take, given]
      have back : out.map (fun p => ServiceLib.unmarshal (ServiceLib.marshal p)) = out := by
        rw [map_congr_left fun p mem => texts p ?_, map_id']
        exact mem_of_mem_drop (mem_of_mem_take (given ▸ mem))
      simp only [serve, consume, bus, backend, configured, kafkaConsume_eq, topics, offs, BusLog.serve, given, raws]
      refine ⟨?_, rfl, topics, by simp, texts⟩
      simpa [Except.map, comp_def] using back
  · exact ⟨rfl, rfl, rfl, fun _ mem => by cases mem⟩

theorem PgBus.answers_log
    (kept : ∀ p ∈ calls.filterMap BusCall.payload?, ServiceLib.unmarshal (jsonb (ServiceLib.marshal p)) = p) :
    answers (PgBus.serve jsonb) {} calls = answers BusLog.serve {} calls := by
  rw [← map_id (answers BusLog.serve {} calls)]
  apply answers_eq (R := fun (s : PgBus) log => ∃ rows, s.events.rows.Perm rows ∧
    Mirrors BusRow.id (fun r => ServiceLib.unmarshal r.payload) log rows s.sequence s.lastID)
  · rintro s log call mem ⟨rows, perm, h⟩
    cases call with
    | produce now gap payload =>
      have text := kept _ (List.mem_filterMap.mpr ⟨_, mem, rfl⟩)
      have next := h.produce (r := ⟨s.sequence + gap + 1, jsonb (ServiceLib.marshal (payload.getD [])), now⟩)
        (by simp only; omega) now gap text
      refine ⟨rfl, rows ++ [_], ?_, next⟩
      have new : ¬ s.events.Has (s.sequence + gap + 1) := by
        rintro ⟨r, row, same⟩
        have := h.order.bounded r (perm.mem_iff.mp row)
        omega
      rw [serve, produce, Table.rows_put_of_new new]
      exact (perm.cons _).trans (perm_append_singleton _ _).symm
    | consume now consumer max =>
      obtain ⟨answer, next⟩ := h.consume now (fetch_eq perm h.order.order).symm
      generalize given : fetch s.events (s.lastID (consumerName consumer)) (orTen max) = out at answer next
      simp only [serve, consume, given, getLast?_map, ← answer]
      cases end_ : out.getLast? with
      | none => exact ⟨by simp [BusRow.event], rows, perm, by simpa [moved, end_] using next⟩
      | some => exact ⟨by simp [BusRow.event], rows, perm, by simpa [moved, end_, BusRow.event] using next⟩
  · exact ⟨[], .nil, rfl, ⟨.nil, fun _ mem => by cases mem⟩, fun _ => ⟨⟨[], [], rfl, rfl, by simp, by simp⟩, le_rfl⟩⟩

/-- Calls without overlaps, where payloads survive their encodings: the three backends
give the same payloads, and what a consumer is given are the first of the payloads that
were produced, in their order. -/
theorem bus_backends_are_one_log {memory kafka : Scope} (calls : List BusCall) (jsonb : String → String)
    (buses : memory.kind = .bus ∧ kafka.kind = .bus) (backends : memory.backend ≠ "kafka" ∧ kafka.backend = "kafka")
    (kept : ∀ p ∈ calls.filterMap BusCall.payload?, ServiceLib.unmarshal (ServiceLib.marshal p) = p ∧
      ServiceLib.unmarshal (jsonb (ServiceLib.marshal p)) = p) (configured : Bool) :
    let payloads := answers (PgBus.serve jsonb) {} calls
    answers (Buses.serve memory) (Services.new configured).buses calls = payloads.map .ok ∧
    answers (Buses.serve kafka) (Services.new true).buses calls = payloads.map .ok ∧
    ∀ name, received name calls payloads <+: calls.filterMap BusCall.payload? := by
  intro payloads
  have log : payloads = answers BusLog.serve {} calls := PgBus.answers_log fun p mem => (kept p mem).2
  rw [log]
  refine ⟨Buses.answers_memory buses.1 backends.1 configured, Buses.answers_kafka buses.2 backends.2 fun p mem =>
    (kept p mem).1, fun name => ?_⟩
  simpa using @BusLog.received_prefix {} name calls (Nat.zero_le _)

end

@[reducible] def textLib : ServiceLib where
  marshal payload := (payload.map Prod.snd).foldl (· ++ ·) ""
  unmarshal text := [("text", text)]
  parseDuration _ := none

def textCalls : List BusCall :=
  [.produce 0 0 (some [("text", "a")]), .produce 0 4 (some [("text", "b")]), .consume 0 "" 1, .consume 0 "default" 0]

theorem texts_are_read_from_one_log :
    received "default" textCalls (Runs.answers (@PgBus.serve textLib id) {} textCalls) <+:
      textCalls.filterMap BusCall.payload? :=
  (@bus_backends_are_one_log textLib ⟨{ kind := .bus }, "", {}, {}⟩ ⟨{ kind := .bus, backend := "kafka" }, "", {}, {}⟩
    textCalls id ⟨rfl, rfl⟩ ⟨by decide, rfl⟩ (by decide) true).2.2 "default"

end SynaMcp
