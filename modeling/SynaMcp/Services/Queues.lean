import SynaMcp.Services.Scope

/-! Queues and buses. A bus keeps its events, and for each consumer the id of the last
event it was given; with Kafka a consumer has an offset in the client's buffer. -/
namespace SynaMcp
open Function (update update_of_ne)
open Sections List String

structure QueueMessage where
  id : Int
  payload : JsonObject
  createdAt : Time
  deriving DecidableEq, Repr

/-- Without a broker: a queue of the `rabbitmq` backend is not there. -/
structure Queues where
  mem : String → List QueueMessage

namespace Queues

def errNotConfigured : String := "rabbitmq backend not configured"

/-- The checks that every method makes first. -/
def refusal (scope : Scope) : Option String :=
  if scope.kind ≠ .queue then some errKindMismatch
  else if scope.backend = "rabbitmq" then some errNotConfigured
  else none

/-- The id of a message is taken from the length of the queue as it is now. -/
def enqueue (now : Time) (scope : Scope) (payload : Option JsonObject) (s : Queues) :
    Queues × Except String QueueMessage :=
  match refusal scope with
  | some e => (s, .error e)
  | none =>
    let message : QueueMessage :=
      { id := (s.mem scope.objectID).length + 1, payload := payload.getD [], createdAt := now }
    ({ s with mem := update s.mem scope.objectID (s.mem scope.objectID ++ [message]) }, .ok message)

variable (scope : Scope) (s : Queues)

def dequeue : Queues × Except String (Option QueueMessage) :=
  match refusal scope with
  | some e => (s, .error e)
  | none =>
    match s.mem scope.objectID with
    | [] => (s, .ok none)
    | message :: rest => ({ s with mem := update s.mem scope.objectID rest }, .ok (some message))

def peek : Except String (Option QueueMessage) :=
  match refusal scope with
  | some e => .error e
  | none => .ok (s.mem scope.objectID).head?

def size : Except String Int :=
  match refusal scope with
  | some e => .error e
  | none => .ok (s.mem scope.objectID).length

def cell (s : Queues) : (k : Cell) → k.Value (List QueueMessage) Unit := Cell.look s.mem fun _ _ => ()

variable {scope}

theorem enqueue_within {now payload} :
    Within cell (Cell.own scope.objectID) (Cell.own scope.objectID) (.atomic (enqueue now scope payload)) := by
  apply within_own
  · intro s other ne
    unfold enqueue
    split
    · rfl
    · exact update_of_ne ne _ _
  · intro s
    rfl
  · intro s t same
    unfold enqueue
    split
    · exact ⟨same, rfl⟩
    · simp [same]

theorem dequeue_within :
    Within cell (Cell.own scope.objectID) (Cell.own scope.objectID) (.atomic (dequeue scope)) := by
  apply within_own
  · intro s other ne
    unfold dequeue
    split
    · rfl
    · split
      · rfl
      · exact update_of_ne ne _ _
  · intro s
    rfl
  · intro s t same
    unfold dequeue
    split
    · exact ⟨same, rfl⟩
    · cases queue : t.mem scope.objectID with
      | nil =>
        simp only [same, queue]
        exact ⟨trivial, trivial⟩
      | cons => simp [same, queue]

theorem peek_within : Within cell (Cell.own scope.objectID) ∅ (.read (peek scope)) := by
  apply within_read
  intro s t same
  unfold peek
  rw [same]

theorem size_within : Within cell (Cell.own scope.objectID) ∅ (.read (size scope)) := by
  apply within_read
  intro s t same
  unfold size
  rw [same]

end Queues

structure BusEvent where
  id : Int := 0
  payload : JsonObject
  createdAt : Time
  deriving DecidableEq, Repr

/-- The service and the Kafka client that it may be configured with. -/
structure Buses where
  mem : String → List BusEvent
  offs : String → String → Int
  kafkaConfigured : Bool
  topics : String → List String
  topicOffs : String → String → Nat

namespace Buses

def errNotConfigured : String := "kafka backend not configured"

def topic (objectID : String) : String := "syna." ++ objectID

def kafkaProduce (topic payload : String) (s : Buses) : Buses :=
  { s with topics := update s.topics topic (s.topics topic ++ [payload]) }

def kafkaConsume (topic consumer : String) (max : Nat) (s : Buses) : Buses × List String :=
  let start := s.topicOffs topic consumer
  let messages := s.topics topic
  if messages.length ≤ start then (s, [])
  else
    let stop := min (start + max) messages.length
    ({ s with
        topicOffs := update s.topicOffs topic (update (s.topicOffs topic) consumer stop) },
      (messages.drop start).take (stop - start))

variable [ServiceLib]

def produce (now : Time) (scope : Scope) (payload : Option JsonObject) (s : Buses) :
    Buses × Except String BusEvent :=
  if scope.kind ≠ .bus then (s, .error errKindMismatch)
  else
    let payload := payload.getD []
    if scope.backend = "kafka" then
      if s.kafkaConfigured then
        (s.kafkaProduce (topic scope.objectID) (ServiceLib.marshal payload),
          .ok { payload := payload, createdAt := now })
      else (s, .error errNotConfigured)
    else
      let event : BusEvent := { id := (s.mem scope.objectID).length + 1, payload := payload, createdAt := now }
      ({ s with mem := update s.mem scope.objectID (s.mem scope.objectID ++ [event]) }, .ok event)

/-- The events behind the cursor, at most `max`; the cursor moves to the last of them. -/
def consume (now : Time) (scope : Scope) (consumer : String) (max : Int) (s : Buses) :
    Buses × Except String (List BusEvent) :=
  if scope.kind ≠ .bus then (s, .error errKindMismatch)
  else
    let consumer := consumerName consumer
    let max := orTen max
    if scope.backend = "kafka" then
      if s.kafkaConfigured then
        let (s, raws) := s.kafkaConsume (topic scope.objectID) consumer max
        (s, .ok (raws.map fun raw => { payload := ServiceLib.unmarshal raw, createdAt := now }))
      else (s, .error errNotConfigured)
    else
      let last := s.offs scope.objectID consumer
      let out := ((s.mem scope.objectID).filter fun e => decide (last < e.id)).take max
      match out.getLast? with
      | none => (s, .ok out)
      | some e =>
        ({ s with
            offs := update s.offs scope.objectID (update (s.offs scope.objectID) consumer e.id) },
          .ok out)

/-- Polls until the request ends, with what was sent and the error at the end. Each
poll opens its scope anew. -/
def subscribe {objectID : String} (consumer : String) :
    List (Time × Except String (ScopeOf objectID)) → List BusEvent → Prog Buses (List BusEvent × String)
  | [], sent => pure (sent, "context canceled")
  | (_, .error e) :: _, sent => pure (sent, e)
  | (now, .ok scope) :: rest, sent => do
      match ← .atomic (consume now scope consumer 10) with
      | .error e => return (sent, e)
      | .ok events => subscribe consumer rest (sent ++ events)

omit [ServiceLib] in
theorem topic_injective {a b} (h : topic a = topic b) : a = b := by
  have same : "syna.".toList ++ a.toList = "syna.".toList ++ b.toList := by
    rw [← toList_append, ← toList_append]
    exact congrArg toList h
  exact String.toList_inj.mp (append_cancel_left same)

def cell (s : Buses) : (k : Cell) → k.Value (List BusEvent × List String × Bool) (Int × Nat) :=
  Cell.look (fun id => (s.mem id, s.topics (topic id), s.kafkaConfigured))
    fun id name => (s.offs id name, s.topicOffs (topic id) name)

theorem produce_within {now scope payload} :
    Within cell (Cell.own scope.objectID) (Cell.own scope.objectID) (.atomic (produce now scope payload)) := by
  apply within_own
  · intro s other ne
    have topics : topic other ≠ topic scope.objectID := fun same => ne (topic_injective same)
    unfold produce
    split
    · rfl
    · split
      · split
        · simp [kafkaProduce, update_of_ne topics]
        · rfl
      · simp [update_of_ne ne]
  · intro s
    unfold produce
    split
    · rfl
    · split
      · split <;> rfl
      · rfl
  · intro s t same
    simp only [Prod.mk.injEq] at same
    obtain ⟨mem, topics, configured⟩ := same
    unfold produce
    split
    · exact ⟨by rw [mem, topics, configured], rfl⟩
    · split
      · rw [configured]
        split
        · simp [kafkaProduce, mem, topics, configured]
        · simp [mem, topics, configured]
      · simp [mem, topics, configured]

omit [ServiceLib] in
/-- The offset that the client writes is past the messages that it gives. -/
theorem kafkaConsume_eq {s : Buses} {topic name max} :
    s.kafkaConsume topic name max =
      ({ s with
          topicOffs := update s.topicOffs topic (update (s.topicOffs topic) name
            (s.topicOffs topic name + (((s.topics topic).drop (s.topicOffs topic name)).take max).length)) },
        ((s.topics topic).drop (s.topicOffs topic name)).take max) := by
  simp only [kafkaConsume]
  split
  · next none => simp [drop_eq_nil_of_le none]
  · next some =>
    have stop : s.topicOffs topic name + min max ((s.topics topic).length - s.topicOffs topic name) =
        min (s.topicOffs topic name + max) (s.topics topic).length := by omega
    rw [length_take, length_drop, stop]
    refine congrArg (Prod.mk _) (List.take_eq_take_iff.mpr ?_)
    rw [length_drop]
    omega

theorem consume_within {now scope consumer max} : Within cell (Cell.seen scope.objectID (consumerName consumer))
      (Cell.cursor scope.objectID (consumerName consumer)) (.atomic (consume now scope consumer max)) := by
  apply within_cursor
  · intro s
    simp only [consume, kafkaConsume_eq]
    split
    · rfl
    · split
      · split <;> rfl
      · split <;> rfl
  · intro s other n apart
    simp only [consume, kafkaConsume_eq]
    split
    · rfl
    · split
      · split
        · exact congrArg (Prod.mk _) (update_update_of_ne fun same => apart ⟨topic_injective same.1, same.2⟩)
        · rfl
      · split
        · rfl
        · simp only [update_update_of_ne apart]
  · intro s t object cursor
    simp only [Prod.mk.injEq] at object cursor
    obtain ⟨mem, topics, configured⟩ := object
    obtain ⟨offs, topicOffs⟩ := cursor
    simp only [consume, kafkaConsume_eq, mem, offs, configured]
    split
    · exact ⟨by rw [offs, topicOffs], rfl⟩
    · split
      · split
        · simp [topics, topicOffs, offs]
        · exact ⟨by rw [offs, topicOffs], rfl⟩
      · split
        · exact ⟨by rw [offs, topicOffs], rfl⟩
        · exact ⟨by simp [topicOffs], rfl⟩

theorem subscribe_within {objectID consumer} {polls : List (Time × Except String (ScopeOf objectID))} {sent} :
    Within cell (Cell.seen objectID (consumerName consumer)) (Cell.cursor objectID (consumerName consumer))
      (subscribe consumer polls sent) := by
  induction polls generalizing sent with
  | nil => exact .done _
  | cons poll rest ih =>
    obtain ⟨now, _ | ⟨scope, rfl⟩⟩ := poll
    · exact .done _
    · refine (@consume_within _ now scope consumer 10).bind fun result => ?_
      cases result with
      | error => exact .done _
      | ok => exact ih

end Buses
end SynaMcp
