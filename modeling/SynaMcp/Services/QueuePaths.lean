import SynaMcp.Lib.SkipLocked
import SynaMcp.Services.BusBackends

/-! A queue in memory and in Postgres. Called without overlaps both are one
first-in first-out queue; and of `Dequeue` transactions side by side no two return
one message. -/
namespace SynaMcp
open Keyed Cursor List Runs ServiceLib

/-- A call, with the time of its transaction; `gap` counts the ids that the sequence has
given elsewhere. -/
inductive QueueCall where
  | enqueue (now : Time) (gap : Nat) (payload : Option JsonObject)
  | dequeue (now : Time)
  | peek (now : Time)
  | size (now : Time)

def QueueCall.now : QueueCall → Time
  | .enqueue now _ _ => now
  | .dequeue now => now
  | .peek now => now
  | .size now => now

def QueueCall.payload? : QueueCall → Option JsonObject
  | .enqueue _ _ payload => some (payload.getD [])
  | _ => none

inductive QueueAnswer where
  | payload (p : Option JsonObject)
  | size (n : Int)

def Fifo.serve (q : List JsonObject) : QueueCall → List JsonObject × QueueAnswer
  | .enqueue _ _ payload => (q ++ [payload.getD []], .payload (some (payload.getD [])))
  | .dequeue _ => (q.tail, .payload q.head?)
  | .peek _ => (q, .payload q.head?)
  | .size _ => (q, .size q.length)

def Queues.serve (scope : Scope) (s : Queues) : QueueCall → Queues × Except String QueueAnswer
  | .enqueue now _ payload =>
    ((enqueue now scope payload s).1, (enqueue now scope payload s).2.map fun m => .payload (some m.payload))
  | .dequeue _ => ((dequeue scope s).1, (dequeue scope s).2.map fun m => .payload (m.map QueueMessage.payload))
  | .peek _ => (s, (peek scope s).map fun m => .payload (m.map QueueMessage.payload))
  | .size _ => (s, (size scope s).map .size)

/-- A row of `queue_messages`. -/
structure QueueRow where
  id : Int
  payload : String
  visibleAt : Time
  lockedUntil : Option Time := none

namespace QueueRow

/-- `locked_until IS NULL OR locked_until < NOW()`. -/
def unlocked (now : Time) (r : QueueRow) : Bool := r.lockedUntil.all fun t => decide (t < now)

def ready (now : Time) (r : QueueRow) : Bool := decide (r.visibleAt ≤ now) && r.unlocked now

end QueueRow

structure PgQueue where
  rows : Table QueueRow.id := .empty
  sequence : Int := 0

/-- The first row that is ready and that no one else has locked. -/
def nextMessage (rows : Table QueueRow.id) (locked : Int → Bool) (now : Time) : Option QueueRow :=
  (ordered QueueRow.id (rows.rows.filter fun r => r.ready now && !locked r.id)).head?

section
variable [ServiceLib]

/-- The lock that `Dequeue` writes to its row goes with the row, which it deletes. -/
def PgQueue.serve (jsonb : String → String) (s : PgQueue) : QueueCall → PgQueue × QueueAnswer
  | .enqueue now gap payload =>
    let id := s.sequence + gap + 1
    (⟨s.rows.put { id := id, payload := jsonb (ServiceLib.marshal (payload.getD [])), visibleAt := now }, id⟩,
      .payload (some (payload.getD [])))
  | .dequeue now =>
    let next := nextMessage s.rows (fun _ => false) now
    (next.elim s fun r => { s with rows := s.rows.delete r.id }, .payload (next.map fun r => unmarshal r.payload))
  | .peek now => (s, .payload ((nextMessage s.rows (fun _ => false) now).map fun r => unmarshal r.payload))
  | .size now => (s, .size (s.rows.rows.filter fun r => r.unlocked now).length)

omit [ServiceLib] in
theorem Queues.answers_fifo {scope calls} (queue : Queues.refusal scope = none) (kafka : Bool) :
    answers (Queues.serve scope) (Services.new kafka).queues calls = (answers Fifo.serve [] calls).map .ok := by
  apply answers_eq (R := fun (s : Queues) q => (s.mem scope.objectID).map QueueMessage.payload = q)
  · rintro s q call _ rfl
    cases call with
    | dequeue =>
      simp only [serve, dequeue, queue, Fifo.serve]
      cases mem : s.mem scope.objectID with
      | nil => exact ⟨rfl, by simp [mem]⟩
      | cons => exact ⟨rfl, by simp⟩
    | _ => simp [serve, enqueue, peek, size, queue, Fifo.serve, Except.map]
  · rfl

structure Holds (calls : List QueueCall) (s : PgQueue) (rows : List QueueRow) (q : List JsonObject) : Prop where
  perm : s.rows.rows.Perm rows
  order : Ascending QueueRow.id rows s.sequence
  ready : ∀ r ∈ rows, r.lockedUntil = none ∧ ∀ c ∈ calls, r.visibleAt ≤ c.now
  payloads : rows.map (fun r => unmarshal r.payload) = q

variable {c : QueueCall} {calls : List QueueCall} {s : PgQueue} {rows : List QueueRow} {q : List JsonObject}
  {jsonb : String → String}

theorem Holds.next (h : Holds (c :: calls) s rows q) : nextMessage s.rows (fun _ => false) c.now = rows.head? := by
  rw [nextMessage, List.filter_eq_self.mpr, ordered_eq h.perm h.order.order]
  intro r mem
  obtain ⟨free, visible⟩ := h.ready r (h.perm.mem_iff.mp mem)
  simp [QueueRow.ready, QueueRow.unlocked, free, visible c mem_cons_self]

theorem Holds.serve (h : Holds (c :: calls) s rows q) (later : ∀ c' ∈ calls, c.now ≤ c'.now)
    (kept : ∀ p, c.payload? = some p → unmarshal (jsonb (ServiceLib.marshal p)) = p) :
    (s.serve jsonb c).2 = (Fifo.serve q c).2 ∧ ∃ rows, Holds calls (s.serve jsonb c).1 rows (Fifo.serve q c).1 := by
  have ready : ∀ r ∈ rows, r.lockedUntil = none ∧ ∀ c ∈ calls, r.visibleAt ≤ c.now := fun r mem =>
    ⟨(h.ready r mem).1, fun c' later => (h.ready r mem).2 c' (mem_cons_of_mem c later)⟩
  have head : q.head? = rows.head?.map fun r => unmarshal r.payload := by
    rw [← h.payloads, head?_map]
  cases c with
  | enqueue now gap payload =>
    have above : s.sequence < s.sequence + gap + 1 := by omega
    refine ⟨rfl, rows ++ [⟨s.sequence + gap + 1, jsonb (ServiceLib.marshal (payload.getD [])), now, none⟩], ?_,
      h.order.append above, ?_, ?_⟩
    · have new : ¬ s.rows.Has (s.sequence + gap + 1) := by
        rintro ⟨r, row, same⟩
        have := h.order.bounded r (h.perm.mem_iff.mp row)
        omega
      rw [PgQueue.serve, Table.rows_put_of_new new]
      exact (h.perm.cons _).trans (perm_append_singleton _ _).symm
    · intro r mem
      rcases List.mem_append.mp mem with old | new
      · exact ready r old
      · rw [List.mem_singleton.mp new]
        exact ⟨rfl, later⟩
    · rw [map_append, h.payloads]
      exact congrArg (q ++ [·]) (kept _ rfl)
  | dequeue now =>
    have next : nextMessage s.rows (fun _ => false) now = rows.head? := h.next
    simp only [PgQueue.serve, Fifo.serve, next, head]
    refine ⟨trivial, rows.tail, ?_, ?_, fun r mem => ready r (mem_of_mem_tail mem), by rw [← h.payloads, map_tail]⟩
    · cases rows with
      | nil => exact h.perm
      | cons r rest =>
        have after : ∀ a ∈ rest, ¬ a.id = r.id := fun a mem => ((List.pairwise_cons.mp h.order.order).1 a mem).ne'
        refine (h.perm.filter fun a => !decide (a.id = r.id)).trans (.of_eq ?_)
        rw [filter_cons, if_neg (by simp), List.filter_eq_self.mpr fun a mem => by simpa using after a mem]
        rfl
    · cases rows with
      | nil => exact h.order
      | cons r => exact ⟨(List.pairwise_cons.mp h.order.order).2, fun a mem => h.order.bounded a (.tail r mem)⟩
  | peek now => exact ⟨by rw [PgQueue.serve, Fifo.serve, show nextMessage _ _ now = _ from h.next, head], rows, h.perm,
      h.order, ready, h.payloads⟩
  | size =>
    refine ⟨?_, rows, h.perm, h.order, ready, h.payloads⟩
    rw [PgQueue.serve, Fifo.serve, List.filter_eq_self.mpr, h.perm.length_eq, ← h.payloads, length_map]
    intro r mem
    rw [QueueRow.unlocked, (h.ready r (h.perm.mem_iff.mp mem)).1]
    rfl

theorem PgQueue.answers_fifo (h : Holds calls s rows q) (times : calls.Pairwise fun a b => a.now ≤ b.now)
    (kept : ∀ p ∈ calls.filterMap QueueCall.payload?, unmarshal (jsonb (ServiceLib.marshal p)) = p) :
    answers (PgQueue.serve jsonb) s calls = answers Fifo.serve q calls := by
  induction calls generalizing s rows q with
  | nil => rfl
  | cons c calls ih =>
    obtain ⟨later, times⟩ := List.pairwise_cons.mp times
    obtain ⟨same, _, next⟩ := h.serve later fun p given => kept p (List.mem_filterMap.mpr ⟨c, mem_cons_self, given⟩)
    rw [answers, answers, same, ih next times fun p mem => kept p ?_]
    obtain ⟨c', later, given⟩ := List.mem_filterMap.mp mem
    exact List.mem_filterMap.mpr ⟨c', mem_cons_of_mem c later, given⟩

end

/-- What a `Dequeue` transaction does: its first statement, and its end. -/
inductive DequeueEvent (ι : Type) where
  | select (i : ι) (now : Time)
  | commit (i : ι)
  | abort (i : ι)

abbrev QueueDb (ι : Type) : Type := SkipLocked.Pool QueueRow.id ι

namespace QueueDb
variable {ι : Type} [DecidableEq ι]

def step (db : QueueDb ι) : DequeueEvent ι → QueueDb ι
  | .select i now =>
    match db.held i with
    | some _ => db
    | none => (nextMessage db.rows db.locked now).elim db fun r => db.lock i r.id
  | .commit i => (db.held i).elim db fun id => db.commit i id none
  | .abort i => db.release i

theorem step_skipLocked (db : QueueDb ι) (e : DequeueEvent ι) : SkipLocked.Step (fun _ => True) db (step db e) := by
  cases e with
  | select i now =>
    simp only [step]
    split
    · exact .still
    · next idle =>
      cases next : nextMessage db.rows db.locked now with
      | none => exact .still
      | some =>
        have mem := mem_of_head? next
        simp only [ordered, mem_insertionSort, mem_filter, Bool.and_eq_true, Bool.not_eq_true'] at mem
        exact .locked idle mem.1 trivial mem.2.2
  | commit i =>
    cases held : db.held i with
    | none =>
      simp only [step, held]
      exact .still
    | some =>
      simp only [step, held]
      exact .removed held
  | abort => exact .released

end QueueDb

/-- Calls without overlaps, where payloads survive their encodings and time does not go
back: both paths are one queue. Of transactions side by side no two that commit return
one message. -/
theorem queue_is_fifo_and_exclusive [ServiceLib] {scope : Scope} (queue : scope.kind = .queue ∧ scope.backend ≠ "rabbitmq")
    (calls : List QueueCall) (times : calls.Pairwise fun a b => a.now ≤ b.now) (jsonb : String → String)
    (kept : ∀ p ∈ calls.filterMap QueueCall.payload?, ServiceLib.unmarshal (jsonb (ServiceLib.marshal p)) = p)
    (kafka : Bool) :
    Runs.answers (Queues.serve scope) (Services.new kafka).queues calls = (Runs.answers Fifo.serve [] calls).map .ok ∧
    Runs.answers (PgQueue.serve jsonb) {} calls = Runs.answers Fifo.serve [] calls ∧
    ∀ (ι : Type) [DecidableEq ι] (rows : Table QueueRow.id) (events : List (DequeueEvent ι)),
      (Runs.run QueueDb.step ⟨rows, [], []⟩ events).taken.Nodup := by
  have empty : Holds calls {} [] [] := ⟨.nil, ⟨.nil, by simp⟩, by simp, rfl⟩
  refine ⟨Queues.answers_fifo ?_ kafka, PgQueue.answers_fifo empty times kept, fun ι _ rows events => ?_⟩
  · rw [Queues.refusal, if_neg (not_not.mpr queue.1), if_neg queue.2]
  · have start : SkipLocked.Sound (fun _ => True) (⟨rows, [], []⟩ : QueueDb ι) := ⟨.nil, by simp, by simp, .nil⟩
    exact (run_preserves (fun db e h => h.step (QueueDb.step_skipLocked db e)) events start).once

theorem texts_are_queued_once :
    Runs.answers (@PgQueue.serve textLib id) {} [.enqueue 0 0 (some [("text", "a")]), .dequeue 1] =
      Runs.answers Fifo.serve [] [.enqueue 0 0 (some [("text", "a")]), .dequeue 1] :=
  (@queue_is_fifo_and_exclusive textLib ⟨{ kind := .queue }, "", {}, {}⟩ ⟨rfl, by decide⟩
    [.enqueue 0 0 (some [("text", "a")]), .dequeue 1] (by decide) id (by decide) true).2.1

end SynaMcp
