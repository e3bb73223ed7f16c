import SynaMcp.Services.Isolation

/-! What a reader of an object can do to the other callers. A consumer's cursor is
kept under a name that any caller can give, and a waiting request takes a delivery
away from all others. -/
namespace SynaMcp
open Sections

def CallID.By (reader objectID : String) : CallID → Prop
  | .object principal id _ => principal = reader ∧ id = objectID
  | .service _ => False

instance (reader objectID : String) : DecidablePred (CallID.By reader objectID)
  | .object principal id _ => inferInstanceAs (Decidable (principal = reader ∧ id = objectID))
  | .service _ => inferInstanceAs (Decidable False)

theorem ObjectCall.eq_of_waits {objectID} {c : ObjectCall objectID} (h : c.waits = true) :
    ∃ polls, c = .scheduleWait polls := by
  cases c with
  | scheduleWait polls => exact ⟨polls, rfl⟩
  | _ => cases h

namespace ServiceEvent

/-- No mutating call is made; the waiting request is opened for `get`. -/
def reads : ServiceEvent → Bool
  | .call (.object _ _ _) c => !isMutating (ObjectCall.method c)
  | _ => true

def consumer? : ServiceEvent → Option String
  | .call (.object _ _ _) c => ObjectCall.consumer? c
  | _ => none

def waits : ServiceEvent → Bool
  | .call (.object _ _ _) c => ObjectCall.waits c
  | _ => false

end ServiceEvent

section
variable [ServiceLib] [Signing] [PolicyLib]

/-- The reader's consumers are no others', and its waiting requests find nothing to claim. -/
structure ReaderApart (cfg : SecureConfig) (store : Services) (reader objectID : String)
    (events : List ServiceEvent) : Prop where
  consumers : ∀ e ∈ events, ∀ e' ∈ events, e.id.By reader objectID → e'.id.On objectID →
    ¬ e'.id.By reader objectID → (ServiceEvent.consumer? e).isSome →
      ServiceEvent.consumer? e' ≠ ServiceEvent.consumer? e
  waiting : Runs.Guarded
    (fun S e => ∀ i, e = .advance i → i.By reader objectID →
      (∃ e ∈ events, ServiceEvent.waits e = true ∧ e.id = i) → S.store.schedules.del objectID = [])
    (System.step (CallID.prog cfg)) (System.quiet store) events

def readerCells (reader objectID : String) (events : List ServiceEvent) : Set ServiceCell :=
  {k | ∃ e ∈ events, e.id.By reader objectID ∧
    ∃ name, ServiceEvent.consumer? e = some name ∧ k.base = some (.consumer objectID name)}

variable {cfg : SecureConfig} {store : Services} {reader objectID : String} {events : List ServiceEvent}

theorem ReaderApart.blind (apart : ReaderApart cfg store reader objectID events) {i c}
    (made : .call i c ∈ events) (other : ¬ i.By reader objectID) :
    Blind Services.cell (readerCells reader objectID events) (CallID.prog cfg i c) := by
  cases i with
  | object =>
    refine (ObjectCall.prog_within cfg c).blind fun k sees => ?_
    rintro ⟨e, mem, byReader, name, named, base⟩
    obtain ⟨rfl, same⟩ := sees _ base
    exact apart.consumers e mem _ made byReader rfl other (named ▸ rfl) (same.trans named.symm)
  | service =>
    refine ServiceCall.prog_blind ?_ c
    rintro ⟨_, _, _, _, _, none⟩
    cases none

/-- The reader's calls move its own cursors only, unless there is a delivery to claim. -/
theorem reader_harmless {i} {c : i.Call} (made : .call i c ∈ events) (byReader : i.By reader objectID)
    (reads : ServiceEvent.reads (.call i c) = true) : Harmless Services.cell (readerCells reader objectID events)
      (fun s => (∃ e ∈ events, ServiceEvent.waits e = true ∧ e.id = i) → s.schedules.del objectID = [])
      (CallID.prog cfg i c) := by
  cases i with
  | service => exact byReader.elim
  | object principal id =>
    obtain ⟨rfl, rfl⟩ := byReader
    cases waiting : ObjectCall.waits c with
    | false =>
      refine (ObjectCall.prog_within cfg c).harmless ?_
      rintro k ⟨b, base, moves⟩
      cases b with
      | object =>
        have quiet : isMutating (ObjectCall.method c) = false := by simpa [ServiceEvent.reads] using reads
        rw [ObjectCall.MovesCell, quiet, waiting] at moves
        exact absurd moves.2 (by decide)
      | consumer id name =>
        obtain ⟨rfl, named⟩ := moves
        exact ⟨_, made, ⟨rfl, rfl⟩, name, named, base⟩
    | true =>
      obtain ⟨polls, rfl⟩ := ObjectCall.eq_of_waits waiting
      have quiet := Services.schedules_part.harmless
        (@Schedules.wait_harmless id (Set.preimage _ (readerCells principal id events)) polls)
      refine .bind (quiet.imp fun s nothing => nothing ⟨_, made, rfl, rfl⟩) fun _ => .done _

theorem ReaderApart.result_filter (apart : ReaderApart cfg store reader objectID events)
    (reads : ∀ e ∈ events, e.id.By reader objectID → ServiceEvent.reads e = true) {i}
    (other : ¬ i.By reader objectID) : (Services.run cfg store events).result i =
      (Services.run cfg store (events.filter fun e => ¬ e.id.By reader objectID)).result i := by
  have harmless : ∀ i c, .call i c ∈ events → i.By reader objectID → Harmless Services.cell
      (readerCells reader objectID events)
      (fun s => (∃ e ∈ events, ServiceEvent.waits e = true ∧ e.id = i) → s.schedules.del objectID = [])
      (CallID.prog cfg i c) :=
    fun i c made byReader => reader_harmless made byReader (reads _ made byReader)
  exact System.result_filter (fun i c made other => apart.blind made other) harmless apart.waiting other

/-- Two runs that differ in calls of the reader give the other calls the same results,
where the reader keeps apart in both. -/
theorem readers_apart_change_nothing {events' : List ServiceEvent}
    (same : (events.filter fun e => ¬ e.id.By reader objectID) = events'.filter fun e => ¬ e.id.By reader objectID)
    (reads : ∀ e ∈ events, e.id.By reader objectID → ServiceEvent.reads e = true)
    (reads' : ∀ e ∈ events', e.id.By reader objectID → ServiceEvent.reads e = true)
    (apart : ReaderApart cfg store reader objectID events)
    (apart' : ReaderApart cfg store reader objectID events') {i : CallID} (other : ¬ i.By reader objectID) :
    (Services.run cfg store events).result i = (Services.run cfg store events').result i := by
  rw [apart.result_filter reads other, apart'.result_filter reads' other, same]

end

def readBus (name : String) : List ServiceEvent :=
  [.call (.object "ann" "b" 0) (.produce 1 (busScope "b") (some [("n", "1")])), .advance (.object "ann" "b" 0),
    .call (.object "eve" "b" 0) (.consume 2 (busScope "b") name 10), .advance (.object "eve" "b" 0),
    .call (.object "bob" "b" 0) (.consume 3 (busScope "b") "" 10), .advance (.object "bob" "b" 0)]

theorem reader_with_own_name_apart :
    (Services.plainRun (readBus "eve")).result (.object "bob" "b" 0) =
        some (.events (.ok [{ id := 1, payload := [("n", "1")], createdAt := 1 }])) ∧
      (Services.plainRun (readBus "eve")).result (.object "bob" "b" 0) =
        (Services.plainRun ((readBus "eve").filter fun e => ¬ e.id.By "eve" "b")).result (.object "bob" "b" 0) := by
  -- Nobody waits, so there is nothing to say of the states.
  have apart : ∀ events, (∀ e ∈ events, ServiceEvent.waits e = false) →
      (∀ e ∈ events, ∀ e' ∈ events, e.id.By "eve" "b" → e'.id.On "b" → ¬ e'.id.By "eve" "b" →
        (ServiceEvent.consumer? e).isSome → ServiceEvent.consumer? e' ≠ ServiceEvent.consumer? e) →
      @ReaderApart .plain .plain .plain (.new none 0) (.new false) "eve" "b" events := by
    intro events silent consumers
    refine @ReaderApart.mk .plain .plain .plain _ _ _ _ _ consumers (Runs.guarded_of_forall ?_)
    rintro S e i _ _ ⟨e, mem, waits, _⟩
    rw [silent e mem] at waits
    cases waits
  exact ⟨rfl, @readers_apart_change_nothing .plain .plain .plain (.new none 0) (.new false) "eve" "b"
    (readBus "eve") _ rfl (by decide) (by decide) (apart _ (by decide) (by decide))
    (apart _ (by decide) (by decide)) _ (by decide)⟩

def scheduleScope (objectID : String) : ScopeOf objectID :=
  ⟨{ object := { id := objectID, kind := .schedule }, method := "get", access := {}, principal := {} }, rfl⟩

def waitTwice : List ServiceEvent :=
  [.call (.object "ann" "s" 0) (.scheduleSet 0 (scheduleScope "s") "job" "daily" "run" none),
    .advance (.object "ann" "s" 0), .call (.service 0) (.tick minute fun _ n => n), .advance (.service 0),
    .call (.object "eve" "s" 0) (.scheduleWait [.ok (scheduleScope "s")]), .advance (.object "eve" "s" 0),
    .call (.object "bob" "s" 0) (.scheduleWait [.ok (scheduleScope "s")]), .advance (.object "bob" "s" 0),
    .advance (.object "bob" "s" 0)]

/-- A reader may consume and wait; whoever comes next finds nothing. -/
theorem reader_takes_events_away :
    (∀ m ∈ ["consume", "get"], isMutating m = false) ∧
      (@evaluateObjectAccess .plain { userID := "eve" } none []
        [{ objectID := "b", subjectKey := "user:eve", role := .storageReader }] { id := "b", kind := .bus }
        "consume").2 = true ∧
      (Services.plainRun (readBus "")).result (.object "bob" "b" 0) = some (.events (.ok [])) ∧
      (Services.plainRun ((readBus "").filter fun e => ¬ e.id.By "eve" "b")).result (.object "bob" "b" 0) =
        some (.events (.ok [{ id := 1, payload := [("n", "1")], createdAt := 1 }])) ∧
      (Services.plainRun waitTwice).result (.object "bob" "s" 0) =
        some (.delivery (.error "context deadline exceeded")) ∧
      (Services.plainRun (waitTwice.filter fun e => ¬ e.id.By "eve" "s")).result (.object "bob" "s" 0) =
        some (.delivery (.ok { objectID := "s", entryName := "job", runAt := minute, task := "run", data := [] })) :=
  ⟨by decide, by decide, rfl, rfl, rfl, rfl⟩

end SynaMcp
