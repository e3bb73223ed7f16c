import SynaMcp.Services.Queues
import SynaMcp.Services.Schedules
import SynaMcp.Services.SecureCells
import SynaMcp.Services.Values

/-! The services together, the calls that are made on them, and the footprint of
every call. -/
namespace SynaMcp
open Sections Schedules SecureBus Counters Queues Variables

structure Services where
  vars : Variables
  counters : Counters
  logs : Logs
  queues : Queues
  buses : Buses
  schedules : Schedules
  secureBus : SecureBus

/-- The services as they are created, with a Kafka client or without. -/
def Services.new (kafkaConfigured : Bool) : Services where
  vars := ⟨fun _ _ => none⟩
  counters := ⟨fun _ => 0⟩
  logs := ⟨fun _ => []⟩
  queues := ⟨fun _ => []⟩
  buses := ⟨fun _ => [], fun _ _ => 0, kafkaConfigured, fun _ => [], fun _ _ => 0⟩
  schedules := ⟨fun _ => .empty, fun _ => []⟩
  secureBus :=
    { topics := ⟨fun _ => [], fun _ => [], fun _ => [], fun _ => [], fun _ _ => 0, fun _ _ => []⟩
      keyStore := ⟨.empty, .empty⟩ }

/-- A call made through scopes of the object. The clock readings and the orders of
ranges over maps are part of it. -/
inductive ObjectCall (objectID : String) where
  | variableSet (now : Time) (scope : ScopeOf objectID) (name keyPrefix : String) (payload : Option JsonObject)
  | variableGet (scope : ScopeOf objectID) (name keyPrefix : String)
  | counterSet (scope : ScopeOf objectID) (value : Float)
  | counterGet (scope : ScopeOf objectID)
  | counterIncrease (scope : ScopeOf objectID) (delta : Float)
  | counterDecrease (scope : ScopeOf objectID) (delta : Float)
  | logAdd (now : Time) (scope : ScopeOf objectID) (level message : String) (fields : Option JsonObject)
  | logTail (scope : ScopeOf objectID) (limit : Int)
  | enqueue (now : Time) (scope : ScopeOf objectID) (payload : Option JsonObject)
  | dequeue (scope : ScopeOf objectID)
  | peek (scope : ScopeOf objectID)
  | size (scope : ScopeOf objectID)
  | produce (now : Time) (scope : ScopeOf objectID) (payload : Option JsonObject)
  | consume (now : Time) (scope : ScopeOf objectID) (consumer : String) (max : Int)
  | subscribe (consumer : String) (polls : List (Time × Except String (ScopeOf objectID)))
  | scheduleSet (now : Time) (scope : ScopeOf objectID) (name cronExpr task : String) (data : Option JsonObject)
  | scheduleGet (scope : ScopeOf objectID) (name : String)
  | scheduleList (choose : Nat → Nat) (scope : ScopeOf objectID)
  | scheduleWait (polls : List (Except String (ScopeOf objectID)))
  | putPolicy (orders : SecureBus.PutOrders) (issued now : Time) (scope : ScopeOf objectID) (doc : Document)
  | policy (scope : ScopeOf objectID) (version : Int)
  | publish (order : Nat → Nat) (checked now : Time) (scope : ScopeOf objectID) (input : PublishInput)
  | attest (order : Nat → Nat) (checked now : Time) (scope : ScopeOf objectID) (input : AttestInput)
  | verify (scope : ScopeOf objectID) (messageID : Int)
  | keys (order : Nat → Nat) (scope : ScopeOf objectID)
  | secureConsume (orders : Nat → Nat → Nat → Nat) (scope : ScopeOf objectID) (consumer condition : String)
      (adHoc : Option JsonObject) (max : Int)
  | secureSubscribe (consumer condition : String) (adHoc : Option JsonObject)
      (polls : List ((Nat → Nat → Nat → Nat) × Except String (ScopeOf objectID)))

inductive ServiceCall where
  | tick (now : Time) (choose : String → Nat → Nat)
  | createChallenge (env : Env) (binder : String) (ttl : Int)
  | register (checkedAt : Time) (env : Env) (input : RegisterInput)
  | listKeys (choose : Nat → Nat) (subjectKey : String)
  | revoke (now : Time) (keyID subjectKey : String)

/-- Who makes a call and on what; the number tells the calls of one caller apart. -/
inductive CallID where
  | object (principal objectID : String) (n : Nat)
  | service (n : Nat)
  deriving DecidableEq

@[reducible] def CallID.Call : CallID → Type
  | .object _ objectID _ => ObjectCall objectID
  | .service _ => ServiceCall

inductive Outcome where
  | variable (r : Except String VariableEntry)
  | variableFound (r : Except String (Option VariableEntry))
  | counter (r : Except String Float)
  | log (r : Except String LogEntry)
  | logs (r : Except String (List LogEntry))
  | queued (r : Except String QueueMessage)
  | queueHead (r : Except String (Option QueueMessage))
  | queueSize (r : Except String Int)
  | event (r : Except String BusEvent)
  | events (r : Except String (List BusEvent))
  | eventStream (r : List BusEvent × String)
  | schedule (r : Except String ScheduleEntry)
  | scheduleFound (r : Except String (Option ScheduleEntry))
  | schedules (r : Except String (List ScheduleEntry))
  | delivery (r : Except String Delivery)
  | policy (r : Except String SignedPolicy)
  | message (r : Except String SecureMessage)
  | attestation (r : Except String Attestation)
  | verified (r : Except String VerifyResult)
  | keys (r : Except String (List AgentKey))
  | messages (r : Except String (List SecureMessage))
  | messageStream (r : List SecureMessage × String)
  | challenge (r : Except String Challenge)
  | key (r : Except String AgentKey)
  | done (r : Except String Unit)

namespace Services
variable {ρ : Type}

def onVariables (p : Prog Variables ρ) : Prog Services ρ := p.zoom vars fun v s => { s with vars := v }

def onCounters (p : Prog Counters ρ) : Prog Services ρ := p.zoom counters fun v s => { s with counters := v }

def onLogs (p : Prog Logs ρ) : Prog Services ρ := p.zoom logs fun v s => { s with logs := v }

def onQueues (p : Prog Queues ρ) : Prog Services ρ := p.zoom queues fun v s => { s with queues := v }

def onBuses (p : Prog Buses ρ) : Prog Services ρ := p.zoom buses fun v s => { s with buses := v }

def onSchedules (p : Prog Schedules ρ) : Prog Services ρ := p.zoom schedules fun v s => { s with schedules := v }

def onSecureBus (p : Prog SecureBus ρ) : Prog Services ρ := p.zoom secureBus fun v s => { s with secureBus := v }

def onKeys (p : Prog AgentKeys ρ) : Prog Services ρ :=
  onSecureBus (p.zoom SecureBus.keyStore fun keys s => { s with keyStore := keys })

end Services

section
open Services
variable [ServiceLib] [Signing] [PolicyLib] (cfg : SecureConfig)

def ObjectCall.prog {objectID : String} : ObjectCall objectID → Prog Services Outcome
  | .variableSet now scope name keyPrefix payload =>
    return .variable (← onVariables (.atomic (set now scope name keyPrefix payload)))
  | .variableGet scope name keyPrefix =>
    return .variableFound (← onVariables (.read (get scope name keyPrefix)))
  | .counterSet scope value => return .counter (← onCounters (set scope value))
  | .counterGet scope => return .counter (← onCounters (get scope))
  | .counterIncrease scope delta => return .counter (← onCounters (increase scope delta))
  | .counterDecrease scope delta => return .counter (← onCounters (decrease scope delta))
  | .logAdd now scope level message fields =>
    return .log (← onLogs (.atomic (Logs.add now scope level message fields)))
  | .logTail scope limit => return .logs (← onLogs (.read (Logs.tail scope limit)))
  | .enqueue now scope payload => return .queued (← onQueues (.atomic (Queues.enqueue now scope payload)))
  | .dequeue scope => return .queueHead (← onQueues (.atomic (Queues.dequeue scope)))
  | .peek scope => return .queueHead (← onQueues (.read (Queues.peek scope)))
  | .size scope => return .queueSize (← onQueues (.read (Queues.size scope)))
  | .produce now scope payload => return .event (← onBuses (.atomic (Buses.produce now scope payload)))
  | .consume now scope consumer max =>
    return .events (← onBuses (.atomic (Buses.consume now scope consumer max)))
  | .subscribe consumer polls => return .eventStream (← onBuses (Buses.subscribe consumer polls []))
  | .scheduleSet now scope name cronExpr task data =>
    return .schedule (← onSchedules (.atomic (set now scope name cronExpr task data)))
  | .scheduleGet scope name => return .scheduleFound (← onSchedules (.read (get scope name)))
  | .scheduleList choose scope => return .schedules (← onSchedules (.read (list choose scope)))
  | .scheduleWait polls => return .delivery (← onSchedules (wait objectID polls))
  | .putPolicy orders issued now scope doc =>
    return .policy (← onSecureBus (SecureBus.putPolicy cfg orders issued now scope doc).run)
  | .policy scope version => return .policy (← onSecureBus (SecureBus.getPolicy scope version).run)
  | .publish order checked now scope input =>
    return .message (← onSecureBus (SecureBus.publish cfg order checked now scope input).run)
  | .attest order checked now scope input =>
    return .attestation (← onSecureBus (SecureBus.attest cfg order checked now scope input).run)
  | .verify scope messageID => return .verified (← onSecureBus (SecureBus.verify scope messageID).run)
  | .keys order scope => return .keys (← onSecureBus (SecureBus.keys order scope).run)
  | .secureConsume orders scope consumer condition adHoc max =>
    return .messages (← onSecureBus (SecureBus.consume orders scope consumer condition adHoc max).run)
  | .secureSubscribe consumer condition adHoc polls =>
    return .messageStream (← onSecureBus (SecureBus.subscribe consumer condition adHoc polls []))

def ServiceCall.prog : ServiceCall → Prog Services Outcome
  | .tick now choose =>
    return .done (.ok (← onSchedules (.atomic fun s => (fireDueMemory now choose s, ()))))
  | .createChallenge env binder ttl =>
    return .challenge (← onKeys (.atomic (AgentKeys.createChallenge env binder ttl)))
  | .register checkedAt env input => return .key (← onKeys (AgentKeys.register checkedAt env input).run)
  | .listKeys choose subjectKey =>
    return .keys (.ok (← onKeys (.read (AgentKeys.listForSubject choose subjectKey))))
  | .revoke now keyID subjectKey => return .done (← onKeys (.atomic (AgentKeys.revoke now keyID subjectKey)))

def CallID.prog : (i : CallID) → i.Call → Prog Services Outcome
  | .object _ _ _, c => ObjectCall.prog cfg c
  | .service _, c => c.prog

end

inductive ServiceCell where
  | vars (k : Cell)
  | counters (k : Cell)
  | logs (k : Cell)
  | queues (k : Cell)
  | buses (k : Cell)
  | schedules (k : Cell)
  | secureBus (k : SecureCell)

namespace ServiceCell

/-- The object or consumer that the cell is kept for; the key store is kept for none. -/
def base : ServiceCell → Option Cell
  | .vars k => some k
  | .counters k => some k
  | .logs k => some k
  | .queues k => some k
  | .buses k => some k
  | .schedules k => some k
  | .secureBus (.topic k) => some k
  | .secureBus .keys => none

def Value : ServiceCell → Type
  | .vars k => k.Value (String → Option VariableEntry) Unit
  | .counters k => k.Value Float Unit
  | .logs k => k.Value (List LogEntry) Unit
  | .queues k => k.Value (List QueueMessage) Unit
  | .buses k => k.Value (List BusEvent × List String × Bool) (Int × Nat)
  | .schedules k => k.Value (Keyed.Table ScheduleEntry.name × List Delivery) Unit
  | .secureBus k => k.Value

end ServiceCell

namespace Services

def cell (s : Services) : (k : ServiceCell) → k.Value
  | .vars k => s.vars.cell k
  | .counters k => s.counters.cell k
  | .logs k => s.logs.cell k
  | .queues k => s.queues.cell k
  | .buses k => s.buses.cell k
  | .schedules k => s.schedules.cell k
  | .secureBus k => s.secureBus.cell k

theorem vars_part : Part ServiceCell.vars Variables.cell cell vars fun v s => { s with vars := v } where
  view _ _ := rfl
  get_set _ _ := rfl
  frame s t k out := by
    cases k with
    | vars k => exact absurd ⟨k, rfl⟩ out
    | _ => rfl

theorem counters_part :
    Part ServiceCell.counters Counters.cell cell counters fun v s => { s with counters := v } where
  view _ _ := rfl
  get_set _ _ := rfl
  frame s t k out := by
    cases k with
    | counters k => exact absurd ⟨k, rfl⟩ out
    | _ => rfl

theorem logs_part : Part ServiceCell.logs Logs.cell cell logs fun v s => { s with logs := v } where
  view _ _ := rfl
  get_set _ _ := rfl
  frame s t k out := by
    cases k with
    | logs k => exact absurd ⟨k, rfl⟩ out
    | _ => rfl

theorem queues_part : Part ServiceCell.queues Queues.cell cell queues fun v s => { s with queues := v } where
  view _ _ := rfl
  get_set _ _ := rfl
  frame s t k out := by
    cases k with
    | queues k => exact absurd ⟨k, rfl⟩ out
    | _ => rfl

theorem buses_part : Part ServiceCell.buses Buses.cell cell buses fun v s => { s with buses := v } where
  view _ _ := rfl
  get_set _ _ := rfl
  frame s t k out := by
    cases k with
    | buses k => exact absurd ⟨k, rfl⟩ out
    | _ => rfl

theorem schedules_part :
    Part ServiceCell.schedules Schedules.cell cell schedules fun v s => { s with schedules := v } where
  view _ _ := rfl
  get_set _ _ := rfl
  frame s t k out := by
    cases k with
    | schedules k => exact absurd ⟨k, rfl⟩ out
    | _ => rfl

theorem secureBus_part :
    Part ServiceCell.secureBus SecureBus.cell cell secureBus fun v s => { s with secureBus := v } where
  view _ _ := rfl
  get_set _ _ := rfl
  frame s t k out := by
    cases k with
    | secureBus k => exact absurd ⟨k, rfl⟩ out
    | _ => rfl

end Services

namespace ObjectCall
variable {objectID : String} {ρ : Type} {f : ρ → Outcome} {k : Cell} {name : String}

def method : ObjectCall objectID → String
  | .variableSet .. => "set"
  | .variableGet .. => "get"
  | .counterSet .. => "set"
  | .counterGet .. => "get"
  | .counterIncrease .. => "increase"
  | .counterDecrease .. => "decrease"
  | .logAdd .. => "add"
  | .logTail .. => "tail"
  | .enqueue .. => "enqueue"
  | .dequeue .. => "dequeue"
  | .peek .. => "peek"
  | .size .. => "size"
  | .produce .. => "produce"
  | .consume .. => "consume"
  | .subscribe .. => "subscribe"
  | .scheduleSet .. => "set"
  | .scheduleGet .. => "get"
  | .scheduleList .. => "list"
  | .scheduleWait .. => "get"
  | .putPolicy .. => "publish"
  | .policy .. => "policy"
  | .publish .. => "publish"
  | .attest .. => "attest"
  | .verify .. => "verify"
  | .keys .. => "keys"
  | .secureConsume .. => "consume"
  | .secureSubscribe .. => "subscribe"

def consumer? : ObjectCall objectID → Option String
  | .consume _ _ consumer _ => some (consumerName consumer)
  | .subscribe consumer _ => some (consumerName consumer)
  | .secureConsume _ _ consumer _ _ _ => some (consumerName consumer)
  | .secureSubscribe consumer _ _ _ => some (consumerName consumer)
  | _ => none

def waits : ObjectCall objectID → Bool
  | .scheduleWait _ => true
  | _ => false

variable (c : ObjectCall objectID)

def SeesCell : Cell → Prop
  | .object id => id = objectID
  | .consumer id name => id = objectID ∧ c.consumer? = some name

/-- The object's own cells for a call that mutates or waits, and those of the consumer. -/
def MovesCell : Cell → Prop
  | .object id => id = objectID ∧ (isMutating c.method || c.waits) = true
  | .consumer id name => id = objectID ∧ c.consumer? = some name

def Sees : Set ServiceCell := {k | ∀ b, k.base = some b → c.SeesCell b}

def Moves : Set ServiceCell := {k | ∃ b, k.base = some b ∧ c.MovesCell b}

variable {c}

theorem seesCell_of_movesCell {b} (h : c.MovesCell b) : c.SeesCell b := by
  cases b with
  | object => exact h.1
  | consumer => exact h

theorem moves_subset : c.Moves ⊆ c.Sees := by
  rintro k ⟨b, base, moves⟩ b' base'
  have same : b = b' := Option.some.inj (base.symm.trans base')
  exact same ▸ seesCell_of_movesCell moves

theorem within_part {σ : Type} {place : Cell → ServiceCell} {cell : σ → (k : Cell) → (place k).Value}
    {get set p R W}
    (part : Part place cell Services.cell get set) (base : ∀ k, (place k).base = some k)
    (h : Within cell R W p) (reads : ∀ k ∈ R, c.SeesCell k) (writes : ∀ k ∈ W, c.MovesCell k) :
    Within Services.cell c.Sees c.Moves (do return f (← p.zoom get set)) := by
  refine .bind ((part.within h).mono ?_ ?_ moves_subset) fun _ => .done _
  · rintro _ ⟨k, mem, rfl⟩ b found
    have same : k = b := Option.some.inj ((base k).symm.trans found)
    exact same ▸ reads k mem
  · rintro _ ⟨k, mem, rfl⟩
    exact ⟨k, base k, writes k mem⟩

theorem own_seen (mem : k ∈ Cell.own objectID) : c.SeesCell k := by
  rw [Set.mem_singleton_iff.mp mem]
  rfl

theorem own_moved (writes : (isMutating c.method || c.waits) = true) (mem : k ∈ Cell.own objectID) :
    c.MovesCell k := by
  rw [Set.mem_singleton_iff.mp mem]
  exact ⟨rfl, writes⟩

theorem cursor_moved (named : c.consumer? = some name) (mem : k ∈ Cell.cursor objectID name) : c.MovesCell k := by
  rw [Set.mem_singleton_iff.mp mem]
  exact ⟨rfl, named⟩

theorem seen_seen (named : c.consumer? = some name) (mem : k ∈ Cell.seen objectID name) : c.SeesCell k := by
  rcases mem with rfl | rfl
  · rfl
  · exact ⟨rfl, named⟩

theorem within_secureBus {p}
    (h : Within SecureBus.cell {k | .secureBus k ∈ c.Sees} {k | .secureBus k ∈ c.Moves} p) :
    Within Services.cell c.Sees c.Moves (do return f (← Services.onSecureBus p)) := by
  refine .bind ((Services.secureBus_part.within h).mono ?_ ?_ moves_subset) fun _ => .done _
  · rintro _ ⟨k, mem, rfl⟩
    exact mem
  · rintro _ ⟨k, mem, rfl⟩
    exact mem

section
variable (c)

theorem keys_seen : .secureBus .keys ∈ c.Sees := fun _ none => nomatch none

theorem topic_seen : .secureBus (.topic (.object objectID)) ∈ c.Sees := by
  intro b found
  cases found
  rfl

theorem secure_subset : {k | .secureBus k ∈ c.Moves} ⊆ {k | .secureBus k ∈ c.Sees} := fun _ mem => moves_subset mem

end

theorem topic_moved (writes : (isMutating c.method || c.waits) = true) :
    .secureBus (.topic (.object objectID)) ∈ c.Moves :=
  ⟨_, rfl, rfl, writes⟩

theorem cursor_topic_moved (named : c.consumer? = some name) :
    .secureBus (.topic (.consumer objectID name)) ∈ c.Moves :=
  ⟨_, rfl, rfl, named⟩

open Services in
/-- Every call keeps to the object it is made for and to its consumer, and a call
that neither mutates nor waits moves a cursor at most. -/
theorem prog_within [ServiceLib] [Signing] [PolicyLib] (cfg : SecureConfig) (c : ObjectCall objectID) :
    Within Services.cell c.Sees c.Moves (c.prog cfg) := by
  cases c with
  | variableSet now scope =>
    obtain ⟨scope, rfl⟩ := scope
    exact within_part vars_part (fun _ => rfl) Variables.set_within (fun _ => own_seen) fun _ => own_moved rfl
  | variableGet scope =>
    obtain ⟨scope, rfl⟩ := scope
    exact within_part vars_part (fun _ => rfl) get_within (fun _ => own_seen) nofun
  | counterSet scope =>
    obtain ⟨scope, rfl⟩ := scope
    exact within_part counters_part (fun _ => rfl) Counters.set_within (fun _ => own_seen) fun _ => own_moved rfl
  | counterGet scope =>
    obtain ⟨scope, rfl⟩ := scope
    exact within_part counters_part (fun _ => rfl) get_within (fun _ => own_seen) nofun
  | counterIncrease scope delta | counterDecrease scope delta =>
    obtain ⟨scope, rfl⟩ := scope
    exact within_part counters_part (fun _ => rfl) adjust_within (fun _ => own_seen) fun _ => own_moved rfl
  | logAdd now scope =>
    obtain ⟨scope, rfl⟩ := scope
    exact within_part logs_part (fun _ => rfl) Logs.add_within (fun _ => own_seen) fun _ => own_moved rfl
  | logTail scope =>
    obtain ⟨scope, rfl⟩ := scope
    exact within_part logs_part (fun _ => rfl) Logs.tail_within (fun _ => own_seen) nofun
  | enqueue now scope =>
    obtain ⟨scope, rfl⟩ := scope
    exact within_part queues_part (fun _ => rfl) enqueue_within (fun _ => own_seen) fun _ => own_moved rfl
  | dequeue scope =>
    obtain ⟨scope, rfl⟩ := scope
    exact within_part queues_part (fun _ => rfl) dequeue_within (fun _ => own_seen) fun _ => own_moved rfl
  | peek scope =>
    obtain ⟨scope, rfl⟩ := scope
    exact within_part queues_part (fun _ => rfl) peek_within (fun _ => own_seen) nofun
  | size scope =>
    obtain ⟨scope, rfl⟩ := scope
    exact within_part queues_part (fun _ => rfl) size_within (fun _ => own_seen) nofun
  | produce now scope =>
    obtain ⟨scope, rfl⟩ := scope
    exact within_part buses_part (fun _ => rfl) Buses.produce_within (fun _ => own_seen) fun _ => own_moved rfl
  | consume now scope =>
    obtain ⟨scope, rfl⟩ := scope
    exact within_part buses_part (fun _ => rfl) Buses.consume_within (fun _ => seen_seen rfl)
      fun _ => cursor_moved rfl
  | subscribe =>
    exact within_part buses_part (fun _ => rfl) Buses.subscribe_within (fun _ => seen_seen rfl)
      fun _ => cursor_moved rfl
  | scheduleSet now scope =>
    obtain ⟨scope, rfl⟩ := scope
    exact within_part schedules_part (fun _ => rfl) set_within (fun _ => own_seen) fun _ => own_moved rfl
  | scheduleGet scope =>
    obtain ⟨scope, rfl⟩ := scope
    exact within_part schedules_part (fun _ => rfl) get_within (fun _ => own_seen) nofun
  | scheduleList choose scope =>
    obtain ⟨scope, rfl⟩ := scope
    exact within_part schedules_part (fun _ => rfl) list_within (fun _ => own_seen) nofun
  | scheduleWait =>
    exact within_part schedules_part (fun _ => rfl) wait_within (fun _ => own_seen) fun _ => own_moved rfl
  | putPolicy orders issued now scope =>
    obtain ⟨scope, rfl⟩ := scope
    exact within_secureBus (putPolicy_within (topic_moved rfl) (secure_subset _) (keys_seen _))
  | policy scope =>
    obtain ⟨scope, rfl⟩ := scope
    exact within_secureBus (getPolicy_within (topic_seen _) (secure_subset _))
  | publish order checked now scope =>
    obtain ⟨scope, rfl⟩ := scope
    exact within_secureBus (publish_within (topic_moved rfl) (secure_subset _) (keys_seen _))
  | attest order checked now scope =>
    obtain ⟨scope, rfl⟩ := scope
    exact within_secureBus (attest_within (topic_moved rfl) (secure_subset _) (keys_seen _))
  | verify scope =>
    obtain ⟨scope, rfl⟩ := scope
    exact within_secureBus (verify_within (topic_seen _) (secure_subset _) (keys_seen _))
  | keys order scope =>
    obtain ⟨scope, rfl⟩ := scope
    exact within_secureBus (keys_within (topic_seen _) (secure_subset _) (keys_seen _))
  | secureConsume orders scope =>
    obtain ⟨scope, rfl⟩ := scope
    exact within_secureBus (consume_within (topic_seen _) (cursor_topic_moved rfl) (secure_subset _))
  | secureSubscribe =>
    exact within_secureBus (subscribe_within (topic_seen _) (cursor_topic_moved rfl) (secure_subset _))

end ObjectCall

theorem ServiceCall.prog_blind [ServiceLib] [Signing] {H} (keys : .secureBus .keys ∉ H)
    (c : ServiceCall) : Blind Services.cell H c.prog := by
  have onKeys : ∀ {ρ : Type} (p : Prog AgentKeys ρ), Blind Services.cell H (Services.onKeys p) := by
    intro ρ p
    refine (Services.secureBus_part.within (SecureBus.keys_part.within (.whole p))).blind ?_
    rintro _ ⟨_, ⟨_, _, rfl⟩, rfl⟩
    exact keys
  cases c with
  | tick => exact (Services.schedules_part.blind fireDueMemory_blind).bind fun _ => .done _
  | createChallenge env binder ttl | register checkedAt env input | listKeys choose subjectKey
  | revoke => exact (onKeys _).bind fun _ => .done _

end SynaMcp
