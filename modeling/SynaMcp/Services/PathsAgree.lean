import SynaMcp.Services.ConsumePaths

/-! When the tables deliver what the memory delivers: what must be true before each call
for the two to be alike after it. -/
namespace SynaMcp
open Function (update_self update_of_ne)
open Keyed Sections Transactions Feeds Runs List Option SecureTx TopicSetup Topics Tx SecureTables Signing

namespace TopicSetup
variable [Signing] [PolicyLib] [PgLib]

section
variable (T : TopicSetup)

def feed (p : Paths) (consumer : String) (cond : Condition) : Feed SecureMessage :=
  { p.bus.feed T.topic consumer T.doc cond with
    waiting := fun m => ∃ e ∈ p.world.tables.events, e.messageID = m.id ∧ p.world.tables.lastEventID T.topic consumer < e.id
    given := fun m => p.world.tables.delivered T.topic consumer m.id = true }

/-- Both paths have the same records and deliveries, and no message that satisfies the
condition of a consumer is lost to it on the tables. -/
structure Agree (p : Paths) : Prop where
  messages : p.world.tables.messages = (p.bus.topics.messages T.topic).map SecureMessage.stored
  attestations : p.world.tables.attestations = (p.bus.topics.attests T.topic).map Attestation.stored
  events : p.world.tables.events = (p.bus.topics.events T.topic).map SecureEvent.stored
  delivered : ∀ consumer messageID, p.world.tables.delivered T.topic consumer messageID = true ↔
    messageID ∈ p.bus.topics.delivered T.topic consumer
  covered : ∀ consumer cond, T.condition consumer = .ok cond → (T.feed p consumer cond).Covered

structure Storable (msgs : List SecureMessage) (msg : SecureMessage) : Prop where
  hash : msg.policyHash ≠ ""
  nonce : ∀ m ∈ msgs, m.nonce ≠ msg.nonce
  linked : T.doc.chain = true → msgs ≠ [] → msg.prevHash ≠ ""

/-- What a consumption delivers of the events that it fetches is what the memory
delivers, and what it leaves of them is news of later events too. -/
structure Batched (p : Paths) (consumer : String) (cond : Condition) (max : Nat) : Prop where
  same : ∀ messageID, messageID ∈ (T.due p consumer cond (T.unread p consumer)).take max ↔
    messageID ∈ (T.due p consumer cond (T.fetched p consumer max)).take max
  left : ∀ messageID ∈ (T.due p consumer cond (T.fetched p consumer max)).drop max,
    ∃ e ∈ p.world.tables.events, e.messageID = messageID ∧ T.passed p consumer max < e.id

def Meets (p : Paths) : TopicCall → Prop
  | .publish _ _ _ now input =>
    match T.admits input.credentials input.signature (input.message now T.topic).envelope with
    | none => True
    | some (key, sig) =>
      match chainMessage key sig (input.message now T.topic).envelope (input.message now T.topic)
          (if T.doc.chain then (p.bus.topics.messages T.topic).getLast? else none) with
      | .error _ => True
      | .ok _ => T.Storable (p.bus.topics.messages T.topic) (input.message now T.topic)
  | .attest .. => True
  | .consume _ _ consumer max =>
    match T.condition (consumerName consumer) with
    | .error _ => True
    | .ok cond => T.Batched p (consumerName consumer) cond (orTen max)

structure Sound (p : Paths) : Prop where
  stands : T.Stands p.bus p.world
  numbered : p.bus.Numbered
  formed : p.bus.topics.Formed T.topic
  covered : ∀ consumer cond, T.condition consumer = .ok cond → (p.bus.feed T.topic consumer T.doc cond).Covered
  messages : ∀ m ∈ p.bus.topics.messages T.topic, m.objectID = T.topic ∧ m.hash = b64 (hashCanonical m.envelope)
  attests : ∀ a ∈ p.bus.topics.attests T.topic, a.objectID = T.topic ∧ (T.doc.agentNameForKey id a.signerKeyID).isSome
  events : ∀ e ∈ p.bus.topics.events T.topic, e.objectID = T.topic
  cursor : ∀ consumer, p.world.tables.lastEventID T.topic consumer ≤ (p.bus.topics.events T.topic).length
  messageIDs : p.world.sequences .messages = (p.bus.topics.messages T.topic).length
  attestIDs : p.world.sequences .attestations = (p.bus.topics.attests T.topic).length
  eventIDs : p.world.sequences .events = (p.bus.topics.events T.topic).length

end

variable {T : TopicSetup} {p p' : Paths} {cond : Condition} {signature : String} {now : Time} {input : AttestInput}

omit [PolicyLib] [PgLib] in
theorem covered_append {consumer ev} (h : (T.feed p consumer cond).Covered)
    (events : p'.world.tables.events = p.world.tables.events ++ [ev])
    (cursor : p'.world.tables.lastEventID T.topic consumer = p.world.tables.lastEventID T.topic consumer)
    (delivered : p'.world.tables.deliveries = p.world.tables.deliveries)
    (later : p.world.tables.lastEventID T.topic consumer < ev.id)
    (new : ∀ m ∈ p'.bus.topics.messages T.topic, m ∈ p.bus.topics.messages T.topic ∨ ev.messageID = m.id)
    (turned : ∀ m, p'.bus.Satisfies T.topic T.doc cond m → p.bus.Satisfies T.topic T.doc cond m ∨ ev.messageID = m.id) :
    (T.feed p' consumer cond).Covered := by
  have waits : ∀ m : SecureMessage, ev.messageID = m.id → (T.feed p' consumer cond).waiting m := by
    intro m named
    refine ⟨ev, ?_, named, ?_⟩
    · rw [events]
      exact mem_append_right _ (mem_singleton_self ev)
    · rw [cursor]
      exact later
  refine h.step (fun m stored => ?_) (fun m _ wanted => ?_) (fun m given => ?_) fun m _ waiting => .inl ?_
  · exact (new m stored).imp id (waits m)
  · exact (turned m wanted).imp id (waits m)
  · show p'.world.tables.deliveries.contains _ = true
    rw [delivered]
    exact given
  · obtain ⟨e, mem, named, after⟩ := waiting
    refine ⟨e, ?_, named, ?_⟩
    · rw [events]
      exact mem_append_left _ mem
    · rw [cursor]
      exact after

/-! Publications. -/

def Linked (T : TopicSetup) (last : Option SecureMessage) (prevHash : String) : Prop :=
  T.doc.chain = true → ∀ m, last = some m → prevHash ≠ "" ∧ prevHash = m.hash

section
variable {key : AgentKey} {sig : Bytes} {msg linked : SecureMessage} {last : Option SecureMessage}

omit [PolicyLib] [PgLib] in
theorem chainMessage_of_linked (h : T.Linked last msg.prevHash) :
    chainMessage key sig msg.envelope msg (if T.doc.chain then last else none) = .ok msg := by
  cases chain : T.doc.chain with
  | false => rfl
  | true =>
    cases last with
    | none => rfl
    | some m =>
      obtain ⟨some, same⟩ := h chain m rfl
      simp only [if_true, chainMessage, if_neg some, if_neg (not_not.mpr same)]

omit [PolicyLib] [PgLib] in
theorem linked_of_chainMessage
    (h : chainMessage key sig msg.envelope msg (if T.doc.chain then last else none) = .ok linked)
    (named : T.doc.chain = true → last ≠ none → msg.prevHash ≠ "") : T.Linked last msg.prevHash := by
  rintro chain m rfl
  have some := named chain (some_ne_none m)
  rw [if_pos chain, chainMessage, if_neg some] at h
  refine ⟨some, ?_⟩
  by_contra other
  rw [if_pos other] at h
  cases h

end

theorem lastMessage_stored (sound : T.Sound p) (agree : T.Agree p) :
    p.world.tables.lastMessage T.topic = (p.bus.topics.messages T.topic).getLast?.map SecureMessage.stored := by
  have numbered : Serial.Numbered MessageRow.id ((p.bus.topics.messages T.topic).map SecureMessage.stored) :=
    Serial.Numbered.map (f := SecureMessage.stored) (sound.numbered.messages T.topic)
  have all : p.world.tables.topicMessages T.topic = (p.bus.topics.messages T.topic).map SecureMessage.stored := by
    rw [topicMessages, agree.messages, filter_eq_self]
    intro row mem
    obtain ⟨m, mine, rfl⟩ := List.mem_map.mp mem
    exact decide_eq_true (sound.messages m mine).1
  rw [lastMessage, all, numbered.argmax_eq, getLast?_map]

theorem links_iff (digests : ∀ e : Envelope, hashCanonical e ≠ []) (sound : T.Sound p) (agree : T.Agree p)
    (prevHash : String) : (T.doc.chain = true → SecureTx.Links (p.world.tables.lastMessage T.topic) prevHash) ↔
      T.Linked (p.bus.topics.messages T.topic).getLast? prevHash := by
  refine forall_congr' fun chain => ?_
  rw [lastMessage_stored sound agree]
  cases last : (p.bus.topics.messages T.topic).getLast? with
  | none => exact iff_of_true (fun row mem => by cases mem) fun m found => by cases found
  | some m =>
    have hash : b64 m.stored.hash = m.hash := ((sound.messages m (mem_of_getLast? last)).2).symm
    constructor
    · rintro links m' found
      cases found
      obtain ⟨some, same⟩ := (links m.stored rfl).resolve_left (digests _)
      exact ⟨some, same.trans hash⟩
    · rintro linked row mem
      obtain rfl := Option.some.inj mem
      obtain ⟨some, same⟩ := linked m rfl
      exact .inr ⟨some, same.trans hash.symm⟩

def storeMessage (T : TopicSetup) (msg : SecureMessage) (sig : Bytes) (g : SecureWorld) : SecureWorld :=
  { (g.bump .messages).bump .events with
    tables := (g.tables.insertMessage (msg.row (g.sequences .messages + 1 : Nat) sig)).insertEvent
      (publication T.topic msg (g.sequences .messages + 1 : Nat) (g.sequences .events + 1 : Nat)) }

section
variable (sound : T.Sound p) (agree : T.Agree p)
include sound agree

theorem fresh_messages : ∀ r ∈ p.world.tables.messages, r.id ≤ p.world.sequences .messages := by
  rw [agree.messages, sound.messageIDs]
  intro r mem
  obtain ⟨_, mine, rfl⟩ := List.mem_map.mp mem
  exact (sound.numbered.messages T.topic).le_length mine

theorem fresh_attestations : ∀ r ∈ p.world.tables.attestations, r.id ≤ p.world.sequences .attestations := by
  rw [agree.attestations, sound.attestIDs]
  intro r mem
  obtain ⟨_, mine, rfl⟩ := List.mem_map.mp mem
  exact sound.formed.attestIDs.le_length mine

theorem fresh_events : ∀ e ∈ p.world.tables.events, e.id ≤ p.world.sequences .events := by
  rw [agree.events, sound.eventIDs]
  intro e mem
  obtain ⟨e', mine, rfl⟩ := List.mem_map.mp mem
  have below : e'.id ≤ (p.bus.topics.events T.topic).length := (sound.numbered.events T.topic).le_length mine
  exact below

end

section
variable {msg : SecureMessage} {sig : Bytes}

section
variable (sound : T.Sound p) (agree : T.Agree p) (own : msg.objectID = T.topic)
include sound agree own

theorem clashes_iff :
    SecureTx.Clashes msg p.world.tables.messages ↔ ∃ m ∈ p.bus.topics.messages T.topic, m.nonce = msg.nonce := by
  rw [SecureTx.Clashes, agree.messages]
  constructor
  · rintro ⟨r, mem, _, nonce⟩
    obtain ⟨m, mine, rfl⟩ := List.mem_map.mp mem
    exact ⟨m, mine, nonce⟩
  · rintro ⟨m, mem, nonce⟩
    exact ⟨m.stored, mem_map_of_mem mem, (sound.messages m mem).1.trans own.symm, nonce⟩

theorem eval_storing (links : T.doc.chain = true → SecureTx.Links (p.world.tables.lastMessage T.topic) msg.prevHash)
    (hash : msg.policyHash ≠ "") (unused : ∀ m ∈ p.bus.topics.messages T.topic, m.nonce ≠ msg.nonce) :
    (storing T.doc.chain T.topic msg sig).eval p.world =
      (T.storeMessage msg sig p.world, .ok { msg with id := (p.world.sequences .messages + 1 : Nat) }) := by
  have new : ¬ SecureTx.Clashes msg p.world.tables.messages := by
    rw [clashes_iff sound agree own]
    rintro ⟨m, mem, same⟩
    exact unused m mem same
  rw [storing, eval_bind, eval_link links]
  simp only [eval_bind, eval_addMessage (fresh_messages sound agree) hash new]
  rw [eval_addEvent]
  · rfl
  · exact fresh_events sound agree

theorem eval_storing_error
    (refused : msg.policyHash = "" ∨ ∃ m ∈ p.bus.topics.messages T.topic, m.nonce = msg.nonce) :
    ∃ e, ((storing T.doc.chain T.topic msg sig).eval p.world).2 = .error e := by
  rw [storing, eval_bind]
  by_cases links : T.doc.chain = true → SecureTx.Links (p.world.tables.lastMessage T.topic) msg.prevHash
  · rw [← clashes_iff sound agree own] at refused
    have failed : ∃ e, ((SecureTx.addMessage msg sig).eval p.world).2 = .error e := eval_addMessage_error refused
    rw [eval_link links]
    simp only [eval_bind]
    generalize (SecureTx.addMessage msg sig).eval p.world = outcome at failed ⊢
    obtain ⟨_, _⟩ := outcome
    obtain ⟨e, rfl⟩ := failed
    exact ⟨e, rfl⟩
  · obtain ⟨e, failed⟩ := eval_link_error links
    exact ⟨e, by rw [failed]⟩

end

def stored (T : TopicSetup) (msg : SecureMessage) (sig : Bytes) (p : Paths) : Paths where
  bus := { p.bus with topics := p.bus.topics.store T.topic msg }
  world := T.storeMessage msg sig p.world

theorem agree_stored (sound : T.Sound p) (agree : T.Agree p) (decoded : decodeBytes msg.signature = sig) :
    T.Agree (T.stored msg sig p) := by
  have number : ((p.world.sequences .messages + 1 : Nat) : Int) = (p.bus.topics.messages T.topic).length + 1 := by
    rw [sound.messageIDs]
    rfl
  have eventNumber : ((p.world.sequences .events + 1 : Nat) : Int) = (p.bus.topics.events T.topic).length + 1 := by
    rw [sound.eventIDs]
    rfl
  constructor
  · simp only [stored, storeMessage, SecureTables.insertEvent, insertMessage, store,
      update_self, map_append, agree.messages, number, ← decoded]
    rfl
  · exact agree.attestations
  · simp only [stored, storeMessage, SecureTables.insertEvent, insertMessage, store,
      update_self, map_append, agree.events, number, eventNumber]
    rfl
  · exact agree.delivered
  · intro consumer cond resolved
    refine covered_append (agree.covered consumer cond resolved) rfl rfl rfl ?_ ?_ fun m satisfied => .inl satisfied
    · have behind := sound.cursor consumer
      show p.world.tables.lastEventID T.topic consumer < ((p.world.sequences .events + 1 : Nat) : Int)
      omega
    · intro m mem
      simp only [stored, store, update_self, List.mem_append, List.mem_singleton] at mem
      refine mem.imp id ?_
      rintro rfl
      exact number

theorem sound_stored (sound : T.Sound p) (own : msg.objectID = T.topic)
    (hash : msg.hash = b64 (hashCanonical msg.envelope)) : T.Sound (T.stored msg sig p) := by
  constructor
  · exact ⟨sound.stands.keys, sound.stands.policies, sound.stands.keyRows, sound.stands.policyRows⟩
  · exact sound.numbered.store T.topic msg
  · exact sound.formed.store T.topic msg
  · exact fun consumer cond resolved => covered_store (sound.covered consumer cond resolved) sound.numbered msg
  · intro m mem
    simp only [stored, store, update_self, List.mem_append, List.mem_singleton] at mem
    rcases mem with old | rfl
    · exact sound.messages m old
    · exact ⟨own, hash⟩
  · exact sound.attests
  · intro e mem
    simp only [stored, store, update_self, List.mem_append, List.mem_singleton] at mem
    rcases mem with old | rfl
    · exact sound.events e old
    · rfl
  · intro consumer
    have behind := sound.cursor consumer
    simp only [stored, store, update_self, length_append, length_singleton]
    show p.world.tables.lastEventID T.topic consumer ≤ _
    omega
  · simp only [stored, storeMessage, World.bump, store, update_self, length_append, length_singleton]
    rw [update_of_ne (by decide), update_self, sound.messageIDs]
  · exact sound.attestIDs
  · simp only [stored, storeMessage, World.bump, store, update_self, length_append, length_singleton]
    rw [update_of_ne (by decide), sound.eventIDs]

end

omit [PolicyLib] in
theorem decodeBytes_of_decoded {sig} (h : decodeB64 signature = some sig) : decodeBytes signature = sig := by
  rw [decodeBytes, h, getD_some]

omit [PolicyLib] [PgLib] in
theorem admit_decoded {request envelope key sig}
    (h : T.admits request signature envelope = some (key, sig)) : decodeB64 signature = some sig := by
  simp only [admits, Option.bind_eq_bind, Option.bind_eq_some_iff, Option.pure_def, Option.some.injEq, Prod.mk.injEq] at h
  obtain ⟨_, _, _, found, _, rfl⟩ := h
  exact (Option.filter_eq_some_iff.mp found).1

omit [PolicyLib] in
theorem eval_storing_unlinked {msg} (sig : Bytes)
    (unlinked : ¬(T.doc.chain = true → SecureTx.Links (p.world.tables.lastMessage T.topic) msg.prevHash)) :
    ∃ e, (storing T.doc.chain T.topic msg sig).eval p.world = (p.world, .error e) := by
  obtain ⟨e, failed⟩ := eval_link_error unlinked
  exact ⟨e, by rw [storing, eval_bind, failed]⟩

theorem not_agree_of_stored {msg} (agree : T.Agree p)
    (bus : p'.bus = { p.bus with topics := p.bus.topics.store T.topic msg })
    (tables : p'.world.tables = p.world.tables) : ¬ T.Agree p' := by
  intro agree'
  have lengths := congrArg List.length agree'.messages
  rw [tables, agree.messages, bus] at lengths
  simp [store] at lengths

section
variable (digests : ∀ e : Envelope, hashCanonical e ≠ []) (sound : T.Sound p) (agree : T.Agree p)
include sound agree

include digests in
/-- A message that is signed is stored on both paths or on neither, if it is storable. -/
theorem agree_storing {msg key sig} (named : msg.objectID = T.topic)
    (hashed : msg.hash = b64 (hashCanonical msg.envelope)) (decoded : decodeBytes msg.signature = sig)
    (bus : p'.bus = { p.bus with
      topics := (Topics.addMessage T.topic T.doc.chain key sig msg.envelope msg p.bus.topics).1 })
    (world : p'.world = ((storing T.doc.chain T.topic msg sig).exec p.world).1) :
    (T.Agree p' ↔ match chainMessage key sig msg.envelope msg
        (if T.doc.chain then (p.bus.topics.messages T.topic).getLast? else none) with
      | .error _ => True
      | .ok _ => T.Storable (p.bus.topics.messages T.topic) msg) ∧ (T.Agree p' → T.Sound p') := by
  have links := links_iff digests sound agree msg.prevHash
  cases chained : chainMessage key sig msg.envelope msg
      (if T.doc.chain then (p.bus.topics.messages T.topic).getLast? else none) with
  | error e =>
    have unlinked : ¬ T.Linked (p.bus.topics.messages T.topic).getLast? msg.prevHash := by
      intro linked
      rw [chainMessage_of_linked linked] at chained
      cases chained
    obtain ⟨_, refused⟩ := eval_storing_unlinked sig (mt links.mp unlinked)
    have same : p' = p := by
      refine Paths.ext ?_ ?_
      · rw [bus, Topics.addMessage, chained]
      · rw [world, exec_error refused]
    rw [same]
    exact ⟨iff_of_true agree trivial, fun _ => sound⟩
  | ok linked =>
    have memory : p'.bus = { p.bus with topics := p.bus.topics.store T.topic linked } := by
      rw [bus, Topics.addMessage, chained]
      rfl
    have nonempty : (p.bus.topics.messages T.topic).getLast? ≠ none ↔ p.bus.topics.messages T.topic ≠ [] :=
      not_congr getLast?_eq_none_iff
    by_cases storable : T.Storable (p.bus.topics.messages T.topic) msg
    · have after : T.Linked (p.bus.topics.messages T.topic).getLast? msg.prevHash :=
        linked_of_chainMessage chained fun chain some => storable.linked chain (nonempty.mp some)
      have unchanged : linked = msg := Except.ok.inj (chained.symm.trans (chainMessage_of_linked after))
      have same : p' = T.stored msg sig p := by
        refine Paths.ext (memory.trans (by rw [unchanged]; rfl)) ?_
        rw [world, exec_ok (eval_storing sound agree named (links.mpr after) storable.hash storable.nonce)]
        rfl
      rw [same]
      exact ⟨iff_of_true (agree_stored sound agree decoded) storable, fun _ => sound_stored sound named hashed⟩
    · have refused : ∃ e, ((storing T.doc.chain T.topic msg sig).eval p.world).2 = .error e := by
        by_cases after : T.Linked (p.bus.topics.messages T.topic).getLast? msg.prevHash
        · refine eval_storing_error sound agree named ?_
          by_contra none
          obtain ⟨hash, nonce⟩ := not_or.mp none
          refine storable ⟨hash, fun m mem same => nonce ⟨m, mem, same⟩, fun chain some => ?_⟩
          obtain ⟨m, last⟩ := ne_none_iff_exists'.mp (nonempty.mpr some)
          exact (after chain m last).1
        · obtain ⟨e, failed⟩ := eval_storing_unlinked sig (mt links.mp after)
          exact ⟨e, by rw [failed]⟩
      obtain ⟨_, refused⟩ := refused
      have differ := not_agree_of_stored agree memory (by rw [world, exec_undone refused])
      exact ⟨iff_of_false differ storable, fun agree' => absurd agree' differ⟩

end

section
variable (digests : ∀ e : Envelope, hashCanonical e ≠ []) (own : T.OwnKeys) (sound : T.Sound p)
  (agree : T.Agree p) (cfg : SecureConfig)
include own sound agree

include digests in
theorem step_publish (order : Nat → Nat) (orders : AuthorizeOrders) (checked now : Time) (input : PublishInput) :
    (T.Agree (T.step cfg p (.publish order orders checked now input)) ↔
        T.Meets p (.publish order orders checked now input)) ∧
      (T.Agree (T.step cfg p (.publish order orders checked now input)) →
        T.Sound (T.step cfg p (.publish order orders checked now input))) := by
  have memory : ∃ e, (SecureBus.publish cfg order checked now T.scope input).run.exec p.bus = _ :=
    exec_publish cfg own sound.stands order input
  have tables : ∃ e, (publish cfg orders checked now T.scope input).eval p.world = _ :=
    eval_publish cfg own sound.stands orders input
  obtain ⟨_, memory⟩ := memory
  obtain ⟨_, tables⟩ := tables
  simp only [step, Meets, memory]
  cases admitted : T.admits input.credentials input.signature (input.message now T.topic).envelope with
  | none =>
    rw [admitted] at tables
    rw [exec_error tables]
    exact ⟨iff_of_true agree trivial, fun _ => sound⟩
  | some signed =>
    obtain ⟨_, _⟩ := signed
    rw [admitted] at tables
    rw [exec_congr tables]
    exact agree_storing digests sound agree rfl rfl (decodeBytes_of_decoded (admit_decoded admitted)) rfl rfl

end

/-! Attestations. -/

omit [PolicyLib] [PgLib] in
theorem attests_some {found att sig} (h : T.attests now input found = some (att, sig)) :
    (∃ msg, found = some msg ∧ att = input.attestation now T.topic msg) ∧ decodeB64 input.signature = some sig ∧
      (T.doc.agentNameForKey id input.keyID).isSome := by
  simp only [attests, Option.bind_eq_bind, Option.bind_eq_some_iff, Option.pure_def] at h
  obtain ⟨_, granted, h⟩ := h
  split at h
  · simp only [Option.bind_eq_some_iff, Option.some.injEq, Prod.mk.injEq] at h
    obtain ⟨msg, found, _, decoded, rfl, rfl⟩ := h
    refine ⟨⟨msg, found, rfl⟩, (Option.filter_eq_some_iff.mp decoded).1, ?_⟩
    have allowed : T.doc.allows id .attest input.keyID = true :=
      (of_decide_eq_true (Option.filter_eq_some_iff.mp granted).2).2.2.2
    unfold Document.allows at allowed
    split at allowed
    · next name named => rw [named]; rfl
    · cases allowed
  · cases h

theorem attests_stored (sound : T.Sound p) (messageID : Int) :
    T.attests now input ((findMsg (p.bus.topics.messages T.topic) messageID).map fun m => m.stored.message) =
      T.attests now input (findMsg (p.bus.topics.messages T.topic) messageID) := by
  cases found : findMsg (p.bus.topics.messages T.topic) messageID with
  | none => rfl
  | some m =>
    have hash : m.hash = m.stored.message.hash := (sound.messages m (mem_of_find?_eq_some found)).2
    have same : input.attestation now T.topic m.stored.message = input.attestation now T.topic m := by
      rw [AttestInput.attestation, AttestInput.attestation, hash]
    simp only [attests, map_some, Option.bind_eq_bind, bind_some, same]

section
variable {att : Attestation} {sig : Bytes}

/-- The attestation and its event are written, and the one that stood before is superseded. -/
def storeAttestation (T : TopicSetup) (att : Attestation) (sig : Bytes) (g : SecureWorld) : SecureWorld :=
  { (g.bump .attestations).bump .events with
    tables := ((g.tables.supersede (g.tables.standing T.topic att.messageID att.signerKeyID) att.createdAt).insertAttestation
      (att.row (g.sequences .attestations + 1 : Nat) sig)).insertEvent
        (witnessing T.topic att (g.sequences .attestations + 1 : Nat) (g.sequences .events + 1 : Nat)) }

theorem eval_superseding (att : Attestation) (sig : Bytes) (sound : T.Sound p) (agree : T.Agree p) :
    (superseding T.topic att.messageID att.signerKeyID att sig).eval p.world =
      (T.storeAttestation att sig p.world, .ok { att with id := (p.world.sequences .attestations + 1 : Nat) }) := by
  have fresh : ∀ r ∈ (p.world.tables.supersede (p.world.tables.standing T.topic att.messageID att.signerKeyID)
      att.createdAt).attestations, r.id ≤ p.world.sequences .attestations := by
    intro r mem
    obtain ⟨r', mine, rfl⟩ := List.mem_map.mp mem
    have below := fresh_attestations sound agree r' mine
    split <;> exact below
  simp only [superseding, eval_bind, eval_query, eval_lockAttestations, eval_change]
  rw [eval_addAttestation fresh]
  dsimp only
  rw [eval_addEvent]
  · rfl
  · exact fresh_events sound agree

theorem supersede_stored (att : Attestation) (sound : T.Sound p) (agree : T.Agree p) :
    (p.world.tables.supersede (p.world.tables.standing T.topic att.messageID att.signerKeyID) att.createdAt).attestations =
      ((p.bus.topics.attests T.topic).map (Topics.supersede att)).map Attestation.stored := by
  rw [SecureTables.supersede, agree.attestations, List.map_map, List.map_map]
  refine List.map_congr_left fun a mem => ?_
  have stands : a.stored.supersededAt = none ↔ a.supersededAt = none := map_eq_none_iff
  have marked : a.stored.id ∈ p.world.tables.standing T.topic att.messageID att.signerKeyID ∧ a.stored.supersededAt = none ↔
      a.messageID = att.messageID ∧ a.signerKeyID = att.signerKeyID ∧ a.supersededAt = none := by
    rw [standing, attestationsOf, agree.attestations, stands]
    constructor
    · rintro ⟨listed, standing⟩
      obtain ⟨_, found, same⟩ := List.mem_map.mp listed
      obtain ⟨found, signer, _⟩ := by simpa using List.mem_filter.mp found
      obtain ⟨⟨b, mine, rfl⟩, _, message⟩ := found
      obtain rfl : b = a := sound.formed.attestIDs.inj mine mem same
      exact ⟨message, signer, standing⟩
    · rintro ⟨message, signer, standing⟩
      refine ⟨List.mem_map.mpr ⟨a.stored, ?_, rfl⟩, standing⟩
      refine List.mem_filter.mpr ⟨List.mem_filter.mpr ⟨mem_map_of_mem mem, ?_⟩, ?_⟩
      · exact decide_eq_true ⟨(sound.attests a mem).1, message⟩
      · exact decide_eq_true ⟨signer, stands.mpr standing⟩
  simp only [Function.comp_apply, marked, Topics.supersede]
  split <;> rfl

def attested (T : TopicSetup) (att : Attestation) (sig : Bytes) (p : Paths) : Paths where
  bus := { p.bus with topics := (Topics.addAttestation T.topic att p.bus.topics).1 }
  world := T.storeAttestation att sig p.world

theorem agree_attested (sound : T.Sound p) (agree : T.Agree p) (new : att.supersededAt = none)
    (decoded : decodeBytes att.signature = sig) : T.Agree (T.attested att sig p) := by
  have number : ((p.world.sequences .attestations + 1 : Nat) : Int) = (p.bus.topics.attests T.topic).length + 1 := by
    rw [sound.attestIDs]
    rfl
  have eventNumber : ((p.world.sequences .events + 1 : Nat) : Int) = (p.bus.topics.events T.topic).length + 1 := by
    rw [sound.eventIDs]
    rfl
  constructor
  · exact agree.messages
  · have rows := supersede_stored att sound agree
    have row : att.row ((p.bus.topics.attests T.topic).length + 1) sig =
        Attestation.stored { att with id := (p.bus.topics.attests T.topic).length + 1 } := by
      rw [Attestation.stored, ← decoded]
      simp only [new, map_none]
      rfl
    simp only [attested, storeAttestation, SecureTables.insertEvent, SecureTables.insertAttestation, rows, number, row,
      Topics.addAttestation, update_self, map_append, length_map]
    rfl
  · simp only [attested, storeAttestation, SecureTables.insertEvent, SecureTables.insertAttestation, SecureTables.supersede,
      Topics.addAttestation, update_self, map_append, length_map, agree.events, number, eventNumber]
    rfl
  · exact agree.delivered
  · intro consumer cond resolved
    refine covered_append (agree.covered consumer cond resolved) rfl rfl rfl ?_ (fun m mem => .inl mem) ?_
    · have behind := sound.cursor consumer
      show p.world.tables.lastEventID T.topic consumer < ((p.world.sequences .events + 1 : Nat) : Int)
      omega
    · intro m satisfied
      by_cases own : m.id = att.messageID
      · exact .inr own.symm
      · exact .inl (satisfies_of_addAttestation own satisfied)

theorem sound_attested (sound : T.Sound p) (named : att.objectID = T.topic) (new : att.supersededAt = none)
    (refers : ∃ m ∈ p.bus.topics.messages T.topic, m.id = att.messageID ∧ m.hash = att.messageHash)
    (known : (T.doc.agentNameForKey id att.signerKeyID).isSome) : T.Sound (T.attested att sig p) := by
  constructor
  · exact ⟨sound.stands.keys, sound.stands.policies, sound.stands.keyRows, sound.stands.policyRows⟩
  · exact sound.numbered.addAttestation T.topic att
  · exact sound.formed.addAttestation refers new
  · exact fun consumer cond resolved => covered_addAttestation (sound.covered consumer cond resolved) sound.numbered att
  · exact sound.messages
  · intro a mem
    simp only [attested, Topics.addAttestation, update_self, List.mem_append, List.mem_singleton, List.mem_map] at mem
    rcases mem with ⟨b, old, rfl⟩ | rfl
    · have facts := sound.attests b old
      unfold Topics.supersede
      split <;> exact facts
    · exact ⟨named, known⟩
  · intro e mem
    simp only [attested, Topics.addAttestation, update_self, List.mem_append, List.mem_singleton] at mem
    rcases mem with old | rfl
    · exact sound.events e old
    · rfl
  · intro consumer
    have behind := sound.cursor consumer
    simp only [attested, Topics.addAttestation, update_self, length_append, length_singleton]
    show p.world.tables.lastEventID T.topic consumer ≤ _
    omega
  · exact sound.messageIDs
  · simp only [attested, storeAttestation, World.bump, Topics.addAttestation, update_self, length_append,
      length_singleton, length_map]
    rw [update_of_ne (by decide), update_self, sound.attestIDs]
  · simp only [attested, storeAttestation, World.bump, Topics.addAttestation, update_self, length_append,
      length_singleton]
    rw [update_of_ne (by decide), sound.eventIDs]

end

section
variable (own : T.OwnKeys) (sound : T.Sound p) (agree : T.Agree p) (cfg : SecureConfig)
include own sound agree

theorem step_attest (order : Nat → Nat) (orders : AuthorizeOrders) (checked now : Time) (input : AttestInput) :
    T.Agree (T.step cfg p (.attest order orders checked now input)) ∧
      T.Sound (T.step cfg p (.attest order orders checked now input)) := by
  have memory : ∃ e, (SecureBus.attest cfg order checked now T.scope input).run.exec p.bus = _ :=
    exec_attest cfg own sound.stands order input
  have tables : ∃ e, (attest cfg orders checked now T.scope input).eval p.world = _ :=
    eval_attest cfg own sound.stands orders input
  obtain ⟨_, memory⟩ := memory
  obtain ⟨_, tables⟩ := tables
  have found : (p.world.tables.findMessage T.topic input.messageID).map MessageRow.message =
      (findMsg (p.bus.topics.messages T.topic) input.messageID).map fun m => m.stored.message := by
    rw [findMessage_stored agree.messages fun m mem => (sound.messages m mem).1, Option.map_map]
    rfl
  rw [found, attests_stored sound] at tables
  simp only [step, memory]
  cases made : T.attests now input (findMsg (p.bus.topics.messages T.topic) input.messageID) with
  | none =>
    rw [made] at tables
    rw [exec_error tables]
    exact ⟨agree, sound⟩
  | some result =>
    obtain ⟨_, sig⟩ := result
    rw [made] at tables
    obtain ⟨⟨msg, stored, rfl⟩, decoded, known⟩ := attests_some made
    have written := eval_superseding (input.attestation now T.topic msg) sig sound agree
    rw [exec_ok (tables.trans written)]
    refine ⟨agree_attested sound agree rfl (decodeBytes_of_decoded decoded), sound_attested sound rfl rfl ?_ known⟩
    exact ⟨msg, mem_of_find?_eq_some stored, findMsg_id stored, rfl⟩

/-! Consumptions. -/

theorem reads (orders : ConsumeOrders) (cond : Condition) :
    SecureTx.Reads orders T.topic T.doc cond (T.wanted p.bus cond) p.world.tables := by
  intro n messageID
  rw [findMessage_stored agree.messages fun m mem => (sound.messages m mem).1, wanted]
  cases findMsg (p.bus.topics.messages T.topic) messageID with
  | none => rfl
  | some m =>
    exact matchCondition_stored own sound.formed agree.attestations sound.attests (orders.rows n)
      (orders.agents n) (fun _ n => n) cond m

end

section
variable {s : SecureBus} {consumer : String} {cond : Condition} {max : Nat} (own : T.OwnKeys)
include own

omit [PolicyLib] [PgLib] in
theorem wanted_iff (numbered : s.Numbered) (messageID : Int) : T.wanted s cond messageID = true ↔
    ∃ m ∈ s.topics.messages T.topic, m.id = messageID ∧ s.Satisfies T.topic T.doc cond m := by
  constructor
  · intro h
    unfold wanted at h
    cases found : findMsg (s.topics.messages T.topic) messageID with
    | none =>
      rw [found] at h
      cases h
    | some m =>
      rw [found, any_some] at h
      exact ⟨m, mem_of_find?_eq_some found, findMsg_id found, (SecureBus.satisfies_iff own _).mp h⟩
  · rintro ⟨m, mem, rfl, satisfied⟩
    rw [wanted, numbered.findMsg mem, any_some]
    exact satisfied _

omit [PolicyLib] [PgLib] in
theorem deliver_due (numbered : p.bus.Numbered) (order : Nat → Nat → Nat → Nat) (room : 0 < max) :
    ∃ out, deliver order T.topic consumer T.doc cond max p.bus.topics =
        ((deliver order T.topic consumer T.doc cond max p.bus.topics).1, .ok out) ∧
      out.map SecureMessage.id = (T.due p consumer cond (T.unread p consumer)).take max := by
  have uniform : ∀ k messageID, (findMsg (p.bus.topics.messages T.topic) messageID).any (fun m =>
      cond.matchCondition (messageView (order k) (p.bus.topics.attests T.topic) T.doc m)) =
        T.wanted p.bus cond messageID := by
    intro k messageID
    simp only [messageView_order own (order k) (fun _ n => n)]
    rfl
  exact ⟨_, rfl, scan_due uniform (numbered.events T.topic).pairwise room⟩

omit [PolicyLib] [PgLib] in
theorem covered_iff (numbered : p.bus.Numbered) : (T.feed p consumer cond).Covered ↔
    ∀ messageID, T.wanted p.bus cond messageID = true → p.world.tables.delivered T.topic consumer messageID = true ∨
      ∃ e ∈ p.world.tables.events, e.messageID = messageID ∧ p.world.tables.lastEventID T.topic consumer < e.id := by
  constructor
  · intro covered messageID wants
    obtain ⟨m, mem, rfl, satisfied⟩ := (wanted_iff own numbered messageID).mp wants
    exact covered m mem satisfied
  · intro all m mem satisfied
    exact all m.id ((wanted_iff own numbered m.id).mpr ⟨m, mem, rfl, satisfied⟩)

end

section
variable {consumer : String} {cond : Condition} {max : Nat} {g' : SecureWorld}

def ahead (T : TopicSetup) (p : Paths) (consumer : String) (max : Nat) : List SecureEvent :=
  p.world.tables.events.filter fun e => T.passed p consumer max < e.id

theorem fetched_or_ahead (sound : T.Sound p) (agree : T.Agree p) {e} (mem : e ∈ p.world.tables.events)
    (new : p.world.tables.lastEventID T.topic consumer < e.id) :
    e ∈ T.fetched p consumer max ++ T.ahead p consumer max := by
  have distinct : (p.world.tables.events.map SecureEvent.id).Nodup := by
    rw [agree.events]
    exact (Serial.Numbered.map (f := SecureEvent.stored) (sound.numbered.events T.topic)).nodup_map
  have named : e.objectID = T.topic := by
    rw [agree.events] at mem
    obtain ⟨e', mine, rfl⟩ := List.mem_map.mp mem
    exact sound.events e' mine
  rw [List.mem_append]
  refine (fetched_or_later distinct mem named new).imp id fun later => ?_
  exact List.mem_filter.mpr ⟨mem, decide_eq_true later⟩

def consumed (T : TopicSetup) (order : Nat → Nat → Nat → Nat) (consumer : String) (cond : Condition) (max : Nat)
    (g' : SecureWorld) (p : Paths) : Paths where
  bus := { p.bus with topics := (deliver order T.topic consumer T.doc cond max p.bus.topics).1 }
  world := g'

section
variable (own : T.OwnKeys) (sound : T.Sound p) (agree : T.Agree p) (order : Nat → Nat → Nat → Nat) (room : 0 < max)
  (effect : T.Consumes consumer (T.passed p consumer max)
    ((T.due p consumer cond (T.fetched p consumer max)).take max) p.world g')
include own sound effect

include agree

theorem sound_consumed (resolved : T.condition consumer = .ok cond) :
    T.Sound (T.consumed order consumer cond max g' p) := by
  have evolved := Evolves.deliver order T.topic consumer T.doc cond max p.bus
  obtain ⟨_, _, rfl⟩ := effect.others
  constructor
  · exact ⟨sound.stands.keys, sound.stands.policies, sound.stands.keyRows, sound.stands.policyRows⟩
  · exact sound.numbered.deliver order T.topic consumer T.doc cond max
  · exact sound.formed.of_eq rfl rfl rfl
  · intro name cond' resolved'
    have covered := sound.covered name cond' resolved'
    by_cases same : name = consumer
    · subst same
      obtain rfl : cond' = cond := Except.ok.inj (resolved'.symm.trans resolved)
      exact covered_deliver own sound.numbered covered
    · refine covered_of_same covered evolved rfl rfl ?_
      simp only [consumed, deliver, update_self, update_of_ne same]
  · exact sound.messages
  · exact sound.attests
  · exact sound.events
  · intro name
    refine (effect.cursor name).trans_le ?_
    split
    · rcases maxSeen_cases (p.world.tables.lastEventID T.topic consumer) (T.fetched p consumer max) with
        still | ⟨e, mem, moved⟩
      · exact still.trans_le (sound.cursor consumer)
      · have below := fresh_events sound agree e (mem_of_mem_fetched mem)
        rw [sound.eventIDs] at below
        exact moved.trans_le below
    · exact sound.cursor name
  · exact sound.messageIDs
  · exact sound.attestIDs
  · exact sound.eventIDs

include room in
theorem delivered_consumed_iff : (∀ name messageID, g'.tables.delivered T.topic name messageID = true ↔
      messageID ∈ (T.consumed order consumer cond max g' p).bus.topics.delivered T.topic name) ↔
    ∀ messageID, messageID ∈ (T.due p consumer cond (T.unread p consumer)).take max ↔
      messageID ∈ (T.due p consumer cond (T.fetched p consumer max)).take max := by
  have delivers : ∃ out, deliver order T.topic consumer T.doc cond max p.bus.topics = _ ∧ _ :=
    deliver_due own sound.numbered order room
  obtain ⟨_, returned, ids⟩ := delivers
  have listed := (deliver_new returned).1
  rw [ids] at listed
  have undelivered : ∀ events, ∀ messageID ∈ (T.due p consumer cond events).take max,
      messageID ∉ p.bus.topics.delivered T.topic consumer :=
    fun events messageID mem => (Backlog.mem_due.mp (mem_of_mem_take mem)).1
  refine Iff.trans ?_ (Backlog.given_iff (undelivered _) (undelivered _))
  have mine : ∀ messageID, (messageID ∈ (T.consumed order consumer cond max g' p).bus.topics.delivered T.topic consumer ↔
      messageID ∈ (T.due p consumer cond (T.unread p consumer)).take max ∨
        messageID ∈ p.bus.topics.delivered T.topic consumer) := by
    intro messageID
    show messageID ∈ (deliver order T.topic consumer T.doc cond max p.bus.topics).1.delivered T.topic consumer ↔ _
    rw [listed, List.mem_append, mem_reverse]
  constructor
  · intro alike messageID
    have here := alike consumer messageID
    rw [effect.delivered, agree.delivered, mine] at here
    simpa using here.symm
  · intro alike name messageID
    rw [effect.delivered, agree.delivered]
    by_cases same : name = consumer
    · subst same
      rw [mine]
      simpa using (alike messageID).symm
    · have other : (T.consumed order consumer cond max g' p).bus.topics.delivered T.topic name =
          p.bus.topics.delivered T.topic name := deliver_other fun equal => same equal.2.symm
      rw [other]
      simp [same]

theorem covered_consumed_iff (resolved : T.condition consumer = .ok cond) :
    (T.feed (T.consumed order consumer cond max g' p) consumer cond).Covered ↔
      ∀ messageID ∈ (T.due p consumer cond (T.fetched p consumer max)).drop max,
        ∃ e ∈ p.world.tables.events, e.messageID = messageID ∧ T.passed p consumer max < e.id := by
  obtain ⟨_, _, others⟩ := effect.others
  have before : ∀ messageID, T.wanted p.bus cond messageID = true →
      messageID ∈ p.bus.topics.delivered T.topic consumer ∨
        ∃ e ∈ T.fetched p consumer max ++ T.ahead p consumer max, e.messageID = messageID := by
    intro messageID wants
    rcases (covered_iff own sound.numbered).mp (agree.covered consumer cond resolved) messageID wants with
      given | ⟨e, mem, named, new⟩
    · exact .inl ((agree.delivered consumer messageID).mp given)
    · exact .inr ⟨e, fetched_or_ahead sound agree mem new, named⟩
  have later : ∀ messageID, (∃ e ∈ p.world.tables.events, e.messageID = messageID ∧ T.passed p consumer max < e.id) ↔
      ∃ e ∈ T.ahead p consumer max, e.messageID = messageID := by
    intro messageID
    simp only [ahead, mem_filter, decide_eq_true_eq, and_assoc, and_comm (a := _ < _)]
  simp only [later]
  refine Iff.trans ?_ (Backlog.reached_iff before)
  refine (covered_iff own (sound.numbered.deliver order T.topic consumer T.doc cond max)).trans ?_
  refine forall_congr' fun messageID => imp_congr_right fun wants => or_congr ?_ ?_
  · show g'.tables.delivered T.topic consumer messageID = true ↔ _
    rw [effect.delivered, agree.delivered]
    exact or_congr_left (and_iff_right rfl)
  · show (∃ e ∈ g'.tables.events, e.messageID = messageID ∧ g'.tables.lastEventID T.topic consumer < e.id) ↔ _
    rw [effect.cursor, if_pos rfl, others, ← later]

include room in
theorem agree_consumed_iff (resolved : T.condition consumer = .ok cond) :
    T.Agree (T.consumed order consumer cond max g' p) ↔ T.Batched p consumer cond max := by
  have alike := delivered_consumed_iff own sound agree order room effect
  have reached := covered_consumed_iff own sound agree order effect resolved
  obtain ⟨_, _, others⟩ := effect.others
  constructor
  · intro agree'
    exact ⟨alike.mp agree'.delivered, reached.mp (agree'.covered consumer cond resolved)⟩
  · intro batched
    refine ⟨?_, ?_, ?_, alike.mpr batched.same, fun name cond' resolved' => ?_⟩
    · show g'.tables.messages = _
      rw [others]
      exact agree.messages
    · show g'.tables.attestations = _
      rw [others]
      exact agree.attestations
    · show g'.tables.events = _
      rw [others]
      exact agree.events
    · by_cases same : name = consumer
      · subst same
        obtain rfl : cond' = cond := Except.ok.inj (resolved'.symm.trans resolved)
        exact reached.mpr batched.left
      · intro m mem satisfied
        refine (agree.covered name cond' resolved' m mem satisfied).imp ?_ ?_
        · exact fun given => (effect.delivered name m.id).mpr (.inr given)
        · rintro ⟨e, stored, named, new⟩
          refine ⟨e, ?_, named, ?_⟩
          · show e ∈ g'.tables.events
            rw [others]
            exact stored
          · show g'.tables.lastEventID T.topic name < e.id
            rw [effect.cursor, if_neg same]
            exact new

end
end

theorem step_consume (own : T.OwnKeys) (sound : T.Sound p) (agree : T.Agree p) (cfg : SecureConfig)
    (order : Nat → Nat → Nat → Nat) (orders : ConsumeOrders) (consumer : String) (max : Int) :
    (T.Agree (T.step cfg p (.consume order orders consumer max)) ↔ T.Meets p (.consume order orders consumer max)) ∧
      (T.Agree (T.step cfg p (.consume order orders consumer max)) →
        T.Sound (T.step cfg p (.consume order orders consumer max))) := by
  simp only [step, Meets, exec_consume sound.stands]
  cases resolved : T.condition (consumerName consumer) with
  | error =>
    rw [exec_consume_error sound.stands resolved]
    exact ⟨iff_of_true agree trivial, fun _ => sound⟩
  | ok cond =>
    obtain ⟨_, _, done, effect, _⟩ := exec_consumeTables sound.stands resolved orders max
      (reads own sound agree orders cond) (agree.delivered (consumerName consumer))
    rw [done]
    exact ⟨agree_consumed_iff own sound agree order (orTen_pos max) effect resolved,
      fun _ => sound_consumed own sound agree order effect resolved⟩

/-! Whole runs. -/

omit [PgLib] in
theorem sound_start : T.Sound T.start := by
  refine ⟨⟨rfl, by simp only [start, update_self], rfl, rfl⟩,
    ⟨fun _ => Serial.numbered_nil, fun _ => Serial.numbered_nil, fun _ _ => le_rfl⟩,
    ⟨Serial.numbered_nil, rfl, rfl, ?_, fun _ _ => rfl⟩, ?_, ?_, ?_, ?_, fun _ => le_rfl, rfl, rfl, rfl⟩
  · exact fun a mem => by cases mem
  · exact fun _ _ _ m mem => by cases mem
  · exact fun m mem => by cases mem
  · exact fun a mem => by cases mem
  · exact fun e mem => by cases mem

theorem agree_start : T.Agree T.start := by
  refine ⟨rfl, rfl, rfl, fun consumer messageID => ?_, fun _ _ _ m mem => by cases mem⟩
  exact iff_of_false (fun h => by cases h) (fun h => by cases h)

theorem step_iff (digests : ∀ e : Envelope, hashCanonical e ≠ []) (own : T.OwnKeys) (cfg : SecureConfig)
    (p : Paths) (call : TopicCall) (sound : T.Sound p) (agree : T.Agree p) :
    (T.Agree (T.step cfg p call) ↔ T.Meets p call) ∧ (T.Agree (T.step cfg p call) → T.Sound (T.step cfg p call)) := by
  cases call with
  | publish order orders checked now input => exact step_publish digests own sound agree cfg order orders checked now input
  | attest order orders checked now input =>
    obtain ⟨agree', sound'⟩ := step_attest own sound agree cfg order orders checked now input
    exact ⟨iff_of_true agree' trivial, fun _ => sound'⟩
  | consume order orders consumer max => exact step_consume own sound agree cfg order orders consumer max

theorem delivered_of_empty (own : T.OwnKeys) (sound : T.Sound p) (agree : T.Agree p) {order orders consumer max}
    (resolved : T.condition (consumerName consumer) = .ok cond)
    (batched : T.Batched p (consumerName consumer) cond (orTen max))
    (empty : ((T.consumeMemory order consumer max).run.exec p.bus).2 = .ok [] ∨
      ((T.consumeTables orders consumer max).exec p.world).2 = .ok []) {m}
    (mem : m ∈ p.bus.topics.messages T.topic) (satisfied : p.bus.Satisfies T.topic T.doc cond m) :
    m.id ∈ p.bus.topics.delivered T.topic (consumerName consumer) := by
  have room := orTen_pos max
  have none : (T.due p (consumerName consumer) cond (T.unread p (consumerName consumer))).take (orTen max) = [] := by
    rcases empty with memory | tables
    · have delivers : ∃ out, deliver order T.topic (consumerName consumer) T.doc cond (orTen max) p.bus.topics = _ ∧ _ :=
        deliver_due own sound.numbered order room
      obtain ⟨out, returned, ids⟩ := delivers
      rw [exec_consume sound.stands, resolved] at memory
      have same : out = [] := Except.ok.inj ((congrArg Prod.snd returned).symm.trans memory)
      rw [← ids, same, map_nil]
    · obtain ⟨_, _, done, _, ids⟩ := exec_consumeTables sound.stands resolved orders max
        (reads own sound agree orders cond) (agree.delivered (consumerName consumer))
      rw [done] at tables
      have fetched := ids [] tables
      refine List.eq_nil_iff_forall_not_mem.mpr fun messageID listed => ?_
      rw [batched.same messageID, ← fetched] at listed
      cases listed
  have nothing := (List.take_eq_nil_iff.mp none).resolve_left room.ne'
  have wants := (wanted_iff own sound.numbered m.id).mpr ⟨m, mem, rfl, satisfied⟩
  by_contra undelivered
  rcases sound.covered _ cond resolved m mem satisfied with given | ⟨e, stored, named, new⟩
  · exact undelivered given
  · have listed : m.id ∈ T.due p (consumerName consumer) cond (T.unread p (consumerName consumer)) :=
      Backlog.mem_due.mpr ⟨undelivered, wants, e, List.mem_filter.mpr ⟨stored, decide_eq_true new⟩, named⟩
    rw [nothing] at listed
    cases listed

end TopicSetup

section
variable [Signing] [PolicyLib] [PgLib]

end

def annTopic : @TopicSetup .echo :=
  @TopicSetup.mk .echo (secureScope "t").val rfl
    { mem := Table.empty.put
        { keyID := "k_1", subjectKey := "ann", tokenID := "", algorithm := "ed25519", publicKey := [], publicKeyB64 := ""
          createdAt := 0 }
      challs := .empty }
    { objectID := "t", version := 1, document := (sampleSigned false).document, hash := [112], signature := []
      signerKID := "kid", createdAt := 1 }
    rfl (by decide) 1 fun _ => ("", none)

def bobDrains (max : Int) : List TopicCall :=
  [.publish id ⟨⟨id, id⟩, ⟨id, id⟩, id⟩ 2 2 { samplePublication "n" "h" with policyHash := "p" },
    .publish id ⟨⟨id, id⟩, ⟨id, id⟩, id⟩ 2 2 { samplePublication "m" "h" with policyHash := "p" },
    .consume (fun _ _ => id) ⟨⟨id, id⟩, fun _ => id, fun _ _ => id⟩ "bob" max,
    .consume (fun _ _ => id) ⟨⟨id, id⟩, fun _ => id, fun _ _ => id⟩ "bob" max,
    .consume (fun _ _ => id) ⟨⟨id, id⟩, fun _ => id, fun _ _ => id⟩ "bob" max]

section
variable (max : Int)

def bobAt (n : Nat) : Paths :=
  run (@TopicSetup.step .echo annTopic .plain .plain sampleConfig) (@TopicSetup.start .echo annTopic)
    ((bobDrains max).take n)

end

end SynaMcp
