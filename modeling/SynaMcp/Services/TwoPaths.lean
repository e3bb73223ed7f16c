import SynaMcp.Services.LedgerForm
import SynaMcp.Services.TableSteps

/-! The secure bus in memory and on the tables: the same calls are made on both paths,
none before the one before it has ended. -/
namespace SynaMcp
open Keyed Sections Transactions List Option Try Tx SecureTables

theorem andThen_ok {x y : Except String Unit} : (do x; y) = .ok () ↔ x = .ok () ∧ y = .ok () := by
  cases x with
  | error => exact iff_of_false (fun h => by cases h) fun h => by cases h.1
  | ok => exact (and_iff_right rfl).symm

theorem forM_ok {α : Type} {f : α → Except String Unit} {l : List α} : l.forM f = .ok () ↔ ∀ a ∈ l, f a = .ok () := by
  induction l with
  | nil => exact iff_of_true rfl fun a mem => by cases mem
  | cons a rest ih =>
    rw [forall_mem_cons, ← ih]
    exact andThen_ok

theorem Document.validateDocument_order [Signing] {d : Document} {agents conditions : Nat → Nat}
    (h : d.validateDocument agents conditions = .ok ()) (agents' conditions' : Nat → Nat) :
    d.validateDocument agents' conditions' = .ok () := by
  unfold validateDocument at h ⊢
  split_ifs at h ⊢
  simp only [andThen_ok, forM_ok, GoMaps.mem_range] at h ⊢
  exact h

theorem Document.allows_order {doc : Document} (distinct : (doc.agents.rows.map fun a => a.2.keyID).Nodup)
    (order order' : Nat → Nat) (rule : Rule) (keyID : String) :
    doc.allows order rule keyID = doc.allows order' rule keyID := by
  simp only [allows, agentNameForKey_order distinct]

/-! What the tables keep of a record. -/

def AgentKey.stored (k : AgentKey) : AgentKey :=
  { k with createdAt := micro k.createdAt, revokedAt := k.revokedAt.map micro }

theorem AgentKey.keyID_stored (k : AgentKey) : k.stored.keyID = k.keyID := rfl

theorem AgentKey.belongsToCaller_stored (k : AgentKey) (subjectKey tokenID : String) :
    k.stored.belongsToCaller subjectKey tokenID = k.belongsToCaller subjectKey tokenID := by
  simp only [belongsToCaller, stored, isSome_map]
  rfl

def SecureEvent.stored (e : SecureEvent) : SecureEvent := { e with createdAt := micro e.createdAt }

def SecureMessage.stored [Signing] [PgLib] (m : SecureMessage) : MessageRow := m.row m.id (decodeBytes m.signature)

def Attestation.stored [Signing] [PgLib] (a : Attestation) : AttestationRow :=
  { a.row a.id (decodeBytes a.signature) with supersededAt := a.supersededAt.map micro }

variable (r : Credentials) (cfg : SecureConfig) (now : Time) (sp : SignedPolicy) (found : Option AgentKey) (allowed : Bool)

def Credentials.check : Except String (AgentKey × SignedPolicy) :=
  match found.filter fun k => k.belongsToCaller r.subjectKey r.tokenID with
  | none => .error errKeyNotAllowed
  | some key =>
    match acceptPolicyVersion cfg now sp r.version r.hash with
    | .error e => .error e
    | .ok _ =>
      if r.version = sp.version then if allowed then .ok (key, sp) else .error errForbiddenByPolicy
      else .error errNotFound

theorem Credentials.check_eq : ∃ e, r.check cfg now sp found allowed =
      match found.filter fun k => k.belongsToCaller r.subjectKey r.tokenID ∧ r.version = sp.version ∧
          (r.hash = "" ∨ r.hash = sp.hash) ∧ allowed with
      | some key => .ok (key, sp)
      | none => .error e := by
  cases found with
  | none => exact ⟨_, rfl⟩
  | some key =>
    simp only [check, filter_some]
    by_cases owner : key.belongsToCaller r.subjectKey r.tokenID = true
    · rw [if_pos owner]
      cases accepted : acceptPolicyVersion cfg now sp r.version r.hash with
      | error e =>
        have other : ¬(r.version = sp.version ∧ (r.hash = "" ∨ r.hash = sp.hash)) := by
          intro same
          rw [acceptPolicyVersion, if_pos same] at accepted
          cases accepted
        refine ⟨e, ?_⟩
        rw [if_neg fun h => other ⟨(of_decide_eq_true h).2.1, (of_decide_eq_true h).2.2.1⟩]
      | ok =>
        by_cases version : r.version = sp.version
        · have hash : r.hash = "" ∨ r.hash = sp.hash := by
            by_contra other
            rw [acceptPolicyVersion, if_neg fun h => other h.2, if_neg fun h => by omega] at accepted
            cases accepted
          cases allowed with
          | true => exact ⟨"", by simp [owner, version, hash]⟩
          | false => exact ⟨errForbiddenByPolicy, by simp [version]⟩
        · exact ⟨errNotFound, by simp [version]⟩
    · exact ⟨errKeyNotAllowed, by simp [owner]⟩

/-! The statements of the tables, each by itself. -/

namespace SecureTx
variable {g : SecureWorld} {objectID prevHash : String} {chain : Bool}

theorem any_eq_false {α : Type} {rows : List α} {number : α → Int} {last : Nat} (fresh : ∀ r ∈ rows, number r ≤ last) :
    (rows.any fun r => number r = (last + 1 : Nat)) = false := by
  rw [List.any_eq_false]
  intro r mem
  have below := fresh r mem
  simp only [decide_eq_true_eq]
  omega

theorem eval_addEvent {event} (fresh : ∀ e ∈ g.tables.events, e.id ≤ g.sequences .events) : (addEvent event).eval g =
      ({ g.bump .events with tables := g.tables.insertEvent (event (g.sequences .events + 1 : Nat)) }, .ok ()) := by
  have new : ((g.bump .events).tables.events.any fun e => e.id = (g.sequences .events + 1 : Nat)) = false := any_eq_false fresh
  simp only [addEvent, Tx.eval_bind, eval_nextval, eval_acquire, Tx.eval_query, Tx.require,
    eval_ofExcept, new, Bool.not_false, if_true, eval_change]
  rfl

theorem eval_lockAttestations (ids : List Int) : (lockAttestations ids).eval g = (g, .ok ()) := by
  induction ids with
  | nil => rfl
  | cons id rest ih => simp only [lockAttestations, Tx.eval_bind, eval_acquire, ih]

def Clashes (msg : SecureMessage) (rows : List MessageRow) : Prop :=
  ∃ r ∈ rows, r.objectID = msg.objectID ∧ r.nonce = msg.nonce

variable [Signing]

theorem eval_link (linked : chain = true → Links (g.tables.lastMessage objectID) prevHash) :
    (link chain objectID prevHash).eval g = (g, .ok ()) := by
  cases chain with
  | false => rfl
  | true =>
    simp only [link, if_true, lockLast, Tx.eval_bind, eval_tagged]
    cases last : g.tables.lastMessage objectID with
    | none => rfl
    | some row =>
      simp only [Tx.eval_bind, eval_acquire, Tx.require, eval_ofExcept, if_pos (linked rfl row last)]

theorem eval_link_error (other : ¬(chain = true → Links (g.tables.lastMessage objectID) prevHash)) :
    ∃ e, (link chain objectID prevHash).eval g = (g, .error e) := by
  obtain ⟨rfl, unlinked⟩ := Classical.not_imp.mp other
  simp only [link, if_true, lockLast, Tx.eval_bind, eval_tagged]
  cases last : g.tables.lastMessage objectID with
  | none =>
    rw [last] at unlinked
    exact absurd (fun row mem => by cases mem) unlinked
  | some row =>
    rw [last] at unlinked
    have differs : ¬(row.hash = [] ∨ prevHash ≠ "" ∧ prevHash = Signing.b64 row.hash) := by
      intro same
      refine unlinked fun row' mem => ?_
      obtain rfl := Option.some.inj mem
      exact same
    refine ⟨"prevHash required/mismatch when chain enabled", ?_⟩
    simp only [Tx.eval_bind, eval_acquire, Tx.require, eval_ofExcept, if_neg differs]

variable [PgLib] {msg : SecureMessage} {sig : Bytes}

def storing (chain : Bool) (objectID : String) (msg : SecureMessage) (sig : Bytes) : SecureTx SecureMessage := do
  link chain objectID msg.prevHash
  let id ← addMessage msg sig
  addEvent (publication objectID msg id)
  return { msg with id := id }

def superseding (objectID : String) (messageID : Int) (keyID : String) (att : Attestation) (sig : Bytes) :
    SecureTx Attestation := do
  let standing ← .query (standing objectID messageID keyID)
  lockAttestations standing
  .change (supersede standing att.createdAt)
  let id ← addAttestation att sig
  addEvent (witnessing objectID att id)
  return { att with id := id }

theorem eval_addMessage (fresh : ∀ r ∈ g.tables.messages, r.id ≤ g.sequences .messages) (hash : msg.policyHash ≠ "")
    (unused : ¬ Clashes msg g.tables.messages) : (addMessage msg sig).eval g =
      ({ g.bump .messages with tables := g.tables.insertMessage (msg.row (g.sequences .messages + 1 : Nat) sig) },
        .ok (g.sequences .messages + 1 : Nat)) := by
  have new : ((g.bump .messages).tables.messages.any fun r => r.id = (g.sequences .messages + 1 : Nat) ∨
      r.objectID = msg.objectID ∧ r.nonce = msg.nonce) = false := by
    rw [List.any_eq_false]
    intro r mem taken
    have below := fresh r mem
    rcases of_decide_eq_true taken with same | same
    · omega
    · exact unused ⟨r, mem, same⟩
  simp only [addMessage, Tx.eval_bind, eval_nextval, eval_acquire, Tx.eval_query, Tx.require,
    eval_ofExcept, if_pos hash, new, Bool.not_false, if_true, eval_change, Tx.eval_pure]
  rfl

theorem eval_addMessage_error (refused : msg.policyHash = "" ∨ Clashes msg g.tables.messages) :
    ∃ e, ((addMessage msg sig).eval g).2 = .error e := by
  simp only [addMessage, Tx.eval_bind, eval_nextval, eval_acquire, Tx.eval_query, Tx.require, eval_ofExcept]
  by_cases hash : msg.policyHash = ""
  · rw [if_neg fun other => other hash]
    exact ⟨_, rfl⟩
  · obtain ⟨r, mem, same⟩ := refused.resolve_left hash
    have taken : ((g.bump .messages).tables.messages.any fun r => r.id = (g.sequences .messages + 1 : Nat) ∨
        r.objectID = msg.objectID ∧ r.nonce = msg.nonce) = true :=
      List.any_eq_true.mpr ⟨r, mem, decide_eq_true (.inr same)⟩
    simp only [if_pos hash, taken]
    exact ⟨_, rfl⟩

theorem eval_addAttestation {att} (fresh : ∀ r ∈ g.tables.attestations, r.id ≤ g.sequences .attestations) :
    (addAttestation att sig).eval g =
      ({ g.bump .attestations with tables := g.tables.insertAttestation (att.row (g.sequences .attestations + 1 : Nat) sig) },
        .ok (g.sequences .attestations + 1 : Nat)) := by
  have new : ((g.bump .attestations).tables.attestations.any fun r => r.id = (g.sequences .attestations + 1 : Nat)) = false :=
    any_eq_false fresh
  simp only [addAttestation, Tx.eval_bind, eval_nextval, eval_acquire, Tx.eval_query, Tx.require,
    eval_ofExcept, new, Bool.not_false, if_true, eval_change, Tx.eval_pure]
  rfl

end SecureTx

/-- A topic whose policy was set once: the registered keys, the policy as the tables keep
it, the time at which it was set, and the condition that each consumer uses. -/
structure TopicSetup [Signing] where
  scope : Scope
  kind : scope.kind = .securebus
  keys : AgentKeys
  policy : PolicyRow
  own : policy.objectID = scope.objectID
  valid : policy.document.validateDocument id id = .ok ()
  issued : Time
  filters : String → String × Option JsonObject

@[ext] structure Paths where
  bus : SecureBus
  world : SecureWorld

inductive TopicCall where
  | publish (order : Nat → Nat) (orders : AuthorizeOrders) (checked now : Time) (input : PublishInput)
  | attest (order : Nat → Nat) (orders : AuthorizeOrders) (checked now : Time) (input : AttestInput)
  | consume (order : Nat → Nat → Nat → Nat) (orders : ConsumeOrders) (consumer : String) (max : Int)

namespace TopicSetup
variable [Signing] (T : TopicSetup) {find : SecureTables → Option PolicyRow}

def topic : String := T.scope.objectID

def doc : Document := T.policy.document

def signed : SignedPolicy := { T.policy.signed with createdAt := T.issued }

def keyRows : Table AgentKey.keyID := T.keys.mem.mapRows AgentKey.stored AgentKey.keyID_stored

def OwnKeys : Prop := (T.doc.agents.rows.map fun a => a.2.keyID).Nodup

def condition [PolicyLib] (consumer : String) : Except String Condition :=
  resolveCondition T.doc (T.filters consumer).1 (T.filters consumer).2

def start : Paths where
  bus :=
    { topics :=
        { policies := Function.update (fun _ => []) T.topic [T.signed], messages := fun _ => [], attests := fun _ => [],
          events := fun _ => [], lastEventID := fun _ _ => 0, delivered := fun _ _ => [] }
      keyStore := T.keys }
  world :=
    { tables :=
        { empty with
          agentKeys := T.keyRows
          policies := [T.policy] }
      sequences := fun _ => 0 }

section
variable [PolicyLib]

def consumeMemory (order : Nat → Nat → Nat → Nat) (consumer : String) (max : Int) : Try SecureBus (List SecureMessage) :=
  SecureBus.consume order T.scope consumer (T.filters (consumerName consumer)).1 (T.filters (consumerName consumer)).2 max

def consumeTables [PgLib] (orders : ConsumeOrders) (consumer : String) (max : Int) : SecureTx (List SecureMessage) :=
  SecureTx.consume orders T.scope consumer (T.filters (consumerName consumer)).1 (T.filters (consumerName consumer)).2 max

def step [PgLib] (cfg : SecureConfig) (p : Paths) : TopicCall → Paths
  | .publish order orders checked now input =>
    { bus := ((SecureBus.publish cfg order checked now T.scope input).run.exec p.bus).1
      world := ((SecureTx.publish cfg orders checked now T.scope input).exec p.world).1 }
  | .attest order orders checked now input =>
    { bus := ((SecureBus.attest cfg order checked now T.scope input).run.exec p.bus).1
      world := ((SecureTx.attest cfg orders checked now T.scope input).exec p.world).1 }
  | .consume order orders consumer max =>
    { bus := ((T.consumeMemory order consumer max).run.exec p.bus).1
      world := ((T.consumeTables orders consumer max).exec p.world).1 }

end

def grant (request : Credentials) : Option AgentKey :=
  (T.keys.get request.keyID).filter fun k => k.belongsToCaller request.subjectKey request.tokenID ∧
    request.version = T.policy.version ∧ (request.hash = "" ∨ request.hash = T.signed.hash) ∧
    T.doc.allows id request.rule request.keyID

def admits (request : Credentials) (signature : String) (envelope : Envelope) : Option (AgentKey × Bytes) := do
  let key ← T.grant request
  let sig ← (decodeB64 signature).filter fun sig => Topics.verifyAgentSig key sig envelope
  return (key, sig)

def attests (now : Time) (input : AttestInput) (found : Option SecureMessage) : Option (Attestation × Bytes) := do
  let key ← T.grant input.credentials
  if (input.status = "ok" ∨ input.status = "deny") ∧
      input.comment.utf8ByteSize ≤ orElse 0 T.doc.attestation.commentMaxBytes 4096 then
    let msg ← found
    let att := input.attestation now T.topic msg
    let sig ← (decodeB64 input.signature).filter fun sig => Topics.verifyAgentSig key sig att.envelope
    return (att, sig)
  else none

variable {T} {s : SecureBus} {g : SecureWorld}

theorem exec_currentPolicy (policies : s.topics.policies T.topic = [T.signed]) :
    (SecureBus.currentPolicy T.scope).run.exec s = (s, .ok T.signed) := by
  have found : Topics.getPolicy T.topic 0 s.topics = .ok T.signed := by
    simp only [Topics.getPolicy, policies, getLast?_singleton, le_refl, if_true]
  rw [SecureBus.currentPolicy, SecureBus.getPolicy, require_pos T.kind]
  exact Prod.ext rfl found

variable (cfg : SecureConfig)

theorem exec_authorize_check (own : T.OwnKeys) (keys : s.keyStore = T.keys) (policies : s.topics.policies T.topic = [T.signed])
    (order : Nat → Nat) (now : Time) (r : Credentials) :
    (SecureBus.authorize cfg order now T.scope r.rule r.keyID r.subjectKey r.tokenID r.version r.hash).run.exec s =
      (s, r.check cfg now T.signed (T.keys.get r.keyID) (T.doc.allows id r.rule r.keyID)) := by
  have lookup : (SecureBus.lookupKey r.keyID).run.exec s = (s, .ok (T.keys.get r.keyID)) := by
    rw [← keys]
    rfl
  have current := exec_currentPolicy policies
  have cited : (SecureBus.loadPolicyVersion T.scope r.version).run.exec s =
      (s, if r.version = T.signed.version then .ok T.signed else .error errNotFound) := by
    have found : Topics.loadPolicyVersion T.topic r.version s.topics =
        if r.version = T.signed.version then .ok T.signed else .error errNotFound := by
      rw [Topics.loadPolicyVersion, policies, find?_singleton]
      by_cases same : r.version = T.signed.version
      · rw [if_pos same, if_pos (decide_eq_true same.symm)]
      · rw [if_neg same, if_neg fun h => same (of_decide_eq_true h).symm]
    exact Prod.ext rfl found
  have allows : ∀ order', T.doc.allows order' r.rule r.keyID = T.doc.allows id r.rule r.keyID :=
    fun order' => Document.allows_order own order' id r.rule r.keyID
  rw [SecureBus.authorize, require_pos T.kind, exec_bind lookup, exec_bind_eq, exec_expect, Credentials.check]
  cases (T.keys.get r.keyID).filter fun k => k.belongsToCaller r.subjectKey r.tokenID with
  | none => rfl
  | some =>
    refine (exec_bind current).trans ?_
    rw [exec_bind_eq, exec_ofExcept]
    cases acceptPolicyVersion cfg now T.signed r.version r.hash with
    | error => rfl
    | ok =>
      by_cases version : r.version = T.signed.version
      · rw [if_pos version] at cited
        refine (exec_bind cited).trans ?_
        simp only [exec_bind_eq, exec_require, exec_pure, if_pos version]
        rw [show T.signed.document = T.doc from rfl, allows order]
        split_ifs <;> rfl
      · rw [if_neg version] at cited
        simp only [exec_bind_eq, cited, if_neg version]

theorem eval_readPolicy (orders : ParseOrders) (found : find g.tables = some T.policy) :
    (SecureTx.readPolicy orders find).eval g = (g, .ok T.policy.signed) := by
  have valid := Document.validateDocument_order T.valid orders.agents orders.conditions
  simp only [SecureTx.readPolicy, Tx.eval_bind, Tx.eval_query, found, Tx.expect, eval_ofExcept, valid, Tx.eval_pure]

theorem eval_readPolicy_none (orders : ParseOrders) (none : find g.tables = none) :
    (SecureTx.readPolicy orders find).eval g = (g, .error errNotFound) := by
  simp only [SecureTx.readPolicy, Tx.eval_bind, Tx.eval_query, none, Tx.expect, eval_ofExcept]

section
variable (policies : g.tables.policies = [T.policy]) (orders : ParseOrders)
include policies orders

theorem eval_currentPolicy : (SecureTx.currentPolicy orders T.topic).eval g = (g, .ok T.policy.signed) := by
  have mine : T.policy.objectID = T.topic := T.own
  refine eval_readPolicy orders ?_
  rw [maxVersion, policies, filter_singleton, decide_eq_true mine]
  rfl

theorem eval_loadPolicyVersion (version : Int) : (SecureTx.loadPolicyVersion orders T.topic version).eval g =
      (g, if version = T.policy.version then .ok T.policy.signed else .error errNotFound) := by
  by_cases same : version = T.policy.version
  · rw [if_pos same]
    refine eval_readPolicy orders ?_
    rw [policyVersion, policies, find?_singleton, if_pos (decide_eq_true ⟨T.own, same.symm⟩)]
  · rw [if_neg same]
    refine eval_readPolicy_none orders ?_
    rw [policyVersion, policies, find?_singleton, if_neg fun h => same (of_decide_eq_true h).2.symm]

end

theorem eval_authorize_check (own : T.OwnKeys) (keys : g.tables.agentKeys = T.keyRows)
    (policies : g.tables.policies = [T.policy]) (orders : AuthorizeOrders) (now : Time) (r : Credentials) :
    (SecureTx.authorize cfg orders now T.scope r).eval g =
      (g, r.check cfg now T.policy.signed ((T.keys.get r.keyID).map AgentKey.stored) (T.doc.allows id r.rule r.keyID)) := by
  have lookup : (SecureTx.lookupKey r.keyID).eval g = (g, .ok ((T.keys.get r.keyID).map AgentKey.stored)) := by
    show (g, Except.ok (g.tables.agentKeys.get? r.keyID)) = _
    rw [keys, keyRows, Table.get?_mapRows]
    rfl
  have allows : T.doc.allows orders.agent r.rule r.keyID = T.doc.allows id r.rule r.keyID :=
    Document.allows_order own orders.agent id r.rule r.keyID
  have current := eval_currentPolicy policies orders.current
  have cited := eval_loadPolicyVersion policies orders.cited r.version
  rw [topic] at current cited
  simp only [SecureTx.authorize, Tx.eval_bind, Tx.require, eval_ofExcept, if_pos T.kind, lookup, Tx.expect,
    Credentials.check]
  cases ((T.keys.get r.keyID).map AgentKey.stored).filter fun k => k.belongsToCaller r.subjectKey r.tokenID with
  | none => rfl
  | some =>
    simp only [current]
    cases acceptPolicyVersion cfg now T.policy.signed r.version r.hash with
    | error => rfl
    | ok =>
      simp only [cited, show T.policy.signed.version = T.policy.version from rfl]
      by_cases version : r.version = T.policy.version
      · simp only [if_pos version, show T.policy.signed.document = T.doc from rfl, allows]
        split_ifs <;> rfl
      · simp only [if_neg version]

theorem grant_eq (r : Credentials) : T.grant r = (T.keys.get r.keyID).filter fun k =>
    k.belongsToCaller r.subjectKey r.tokenID ∧ r.version = T.signed.version ∧ (r.hash = "" ∨ r.hash = T.signed.hash) ∧
      T.doc.allows id r.rule r.keyID := rfl

theorem grant_stored (r : Credentials) : (((T.keys.get r.keyID).map AgentKey.stored).filter fun k =>
    k.belongsToCaller r.subjectKey r.tokenID ∧ r.version = T.policy.signed.version ∧
      (r.hash = "" ∨ r.hash = T.policy.signed.hash) ∧ T.doc.allows id r.rule r.keyID) = (T.grant r).map AgentKey.stored := by
  rw [grant_eq]
  cases T.keys.get r.keyID with
  | none => rfl
  | some =>
    simp only [map_some, filter_some, AgentKey.belongsToCaller_stored]
    rw [show T.policy.signed.version = T.signed.version from rfl, show T.policy.signed.hash = T.signed.hash from rfl]
    split_ifs <;> rfl

structure Stands (T : TopicSetup) (s : SecureBus) (g : SecureWorld) : Prop where
  keys : s.keyStore = T.keys
  policies : s.topics.policies T.topic = [T.signed]
  keyRows : g.tables.agentKeys = T.keyRows
  policyRows : g.tables.policies = [T.policy]

section
variable (own : T.OwnKeys) (stands : T.Stands s g) {checked now : Time}
include own stands

variable (order : Nat → Nat)

theorem exec_authorize (now : Time) (r : Credentials) :
    ∃ e, (SecureBus.authorize cfg order now T.scope r.rule r.keyID r.subjectKey r.tokenID r.version r.hash).run.exec s =
      (s, match T.grant r with
        | some key => .ok (key, T.signed)
        | none => .error e) := by
  obtain ⟨e, checked⟩ := r.check_eq cfg now T.signed (T.keys.get r.keyID) (T.doc.allows id r.rule r.keyID)
  refine ⟨e, ?_⟩
  rw [exec_authorize_check cfg own stands.keys stands.policies, checked, grant_eq]

theorem eval_authorize (orders : AuthorizeOrders) (now : Time) (r : Credentials) :
    ∃ e, (SecureTx.authorize cfg orders now T.scope r).eval g =
      (g, match T.grant r with
        | some key => .ok (key.stored, T.policy.signed)
        | none => .error e) := by
  obtain ⟨e, checked⟩ := r.check_eq cfg now T.policy.signed ((T.keys.get r.keyID).map AgentKey.stored)
    (T.doc.allows id r.rule r.keyID)
  refine ⟨e, ?_⟩
  rw [eval_authorize_check cfg own stands.keyRows stands.policyRows, checked, grant_stored]
  cases T.grant r <;> rfl

theorem exec_publish (input : PublishInput) :
    ∃ e, (SecureBus.publish cfg order checked now T.scope input).run.exec s =
      match T.admits input.credentials input.signature (input.message now T.topic).envelope with
      | none => (s, .error e)
      | some (key, sig) =>
        ({ s with topics := (Topics.addMessage T.topic T.doc.chain key sig (input.message now T.topic).envelope
            (input.message now T.topic) s.topics).1 },
          (Topics.addMessage T.topic T.doc.chain key sig (input.message now T.topic).envelope
            (input.message now T.topic) s.topics).2) := by
  obtain ⟨e, authorized⟩ : ∃ e, (SecureBus.authorize cfg order checked T.scope .publish input.keyID input.subjectKey
      input.tokenID input.policyVersion input.policyHash).run.exec s = (s, match T.grant input.credentials with
        | some key => .ok (key, T.signed)
        | none => .error e) := exec_authorize cfg own stands order checked input.credentials
  rw [SecureBus.publish, exec_bind_eq, authorized, admits]
  cases T.grant input.credentials with
  | none => exact ⟨e, rfl⟩
  | some key =>
    refine ⟨errInvalidSignature, ?_⟩
    simp only [exec_bind_eq, SecureBus.checkSignature, exec_expect, bind_eq_bind, Option.bind_some]
    rw [topic]
    cases (decodeB64 input.signature).filter fun sig =>
      Topics.verifyAgentSig key sig (input.message now T.scope.objectID).envelope <;> rfl

theorem exec_attest (input : AttestInput) : ∃ e, (SecureBus.attest cfg order checked now T.scope input).run.exec s =
      match T.attests now input (Topics.findMsg (s.topics.messages T.topic) input.messageID) with
      | none => (s, .error e)
      | some (att, _) => ({ s with topics := (Topics.addAttestation T.topic att s.topics).1 },
          (Topics.addAttestation T.topic att s.topics).2) := by
  obtain ⟨e, authorized⟩ : ∃ e, (SecureBus.authorize cfg order checked T.scope .attest input.keyID input.subjectKey
      input.tokenID input.policyVersion "").run.exec s = (s, match T.grant input.credentials with
        | some key => .ok (key, T.signed)
        | none => .error e) := exec_authorize cfg own stands order checked input.credentials
  rw [SecureBus.attest, exec_bind_eq, authorized, attests]
  cases T.grant input.credentials with
  | none => exact ⟨e, rfl⟩
  | some key =>
    simp only [bind_eq_bind, Option.bind_some]
    by_cases status : input.status = "ok" ∨ input.status = "deny"
    · by_cases comment : input.comment.utf8ByteSize ≤ orElse 0 T.doc.attestation.commentMaxBytes 4096
      · rw [if_pos ⟨status, comment⟩]
        have read : (SecureBus.getMessage T.scope input.messageID).run.exec s =
            (s, Topics.getMessage T.topic input.messageID s.topics) := rfl
        rw [require_pos status, require_pos (by exact comment), exec_bind_eq, read, Topics.getMessage]
        cases Topics.findMsg (s.topics.messages T.topic) input.messageID with
        | none => exact ⟨errNotFound, rfl⟩
        | some msg =>
          refine ⟨errInvalidSignature, ?_⟩
          simp only [exec_bind_eq, SecureBus.checkSignature, exec_expect, Option.bind_some]
          rw [topic]
          cases (decodeB64 input.signature).filter fun sig =>
            Topics.verifyAgentSig key sig (input.attestation now T.scope.objectID msg).envelope <;> rfl
      · rw [if_neg fun both => comment both.2]
        refine ⟨"comment too long", ?_⟩
        rw [require_pos status, require_neg (by exact comment), exec_ofExcept]
    · rw [if_neg fun both => status both.1]
      refine ⟨"status must be ok or deny", ?_⟩
      rw [require_neg status, exec_ofExcept]

variable [PgLib]

theorem eval_publish (orders : AuthorizeOrders) (input : PublishInput) :
    ∃ e, (SecureTx.publish cfg orders checked now T.scope input).eval g =
      match T.admits input.credentials input.signature (input.message now T.topic).envelope with
      | none => (g, .error e)
      | some (_, sig) => (SecureTx.storing T.doc.chain T.topic (input.message now T.topic) sig).eval g := by
  obtain ⟨e, authorized⟩ := eval_authorize cfg own stands orders checked input.credentials
  rw [SecureTx.publish, Tx.eval_bind, authorized, admits]
  cases T.grant input.credentials with
  | none => exact ⟨e, rfl⟩
  | some key =>
    refine ⟨errInvalidSignature, ?_⟩
    have verified : ∀ sig, Topics.verifyAgentSig key.stored sig (input.message now T.topic).envelope =
        Topics.verifyAgentSig key sig (input.message now T.topic).envelope := fun sig => rfl
    simp only [SecureTx.checkSignature, Tx.expect, bind_eq_bind, Option.bind_some]
    rw [Tx.eval_bind, eval_ofExcept]
    rw [topic] at verified ⊢
    simp only [verified]
    cases (decodeB64 input.signature).filter fun sig =>
      Topics.verifyAgentSig key sig (input.message now T.scope.objectID).envelope <;> rfl

theorem eval_attest (orders : AuthorizeOrders) (input : AttestInput) :
    ∃ e, (SecureTx.attest cfg orders checked now T.scope input).eval g =
      match T.attests now input ((g.tables.findMessage T.topic input.messageID).map MessageRow.message) with
      | none => (g, .error e)
      | some (att, sig) => (SecureTx.superseding T.topic input.messageID input.keyID att sig).eval g := by
  obtain ⟨e, authorized⟩ := eval_authorize cfg own stands orders checked input.credentials
  rw [SecureTx.attest, Tx.eval_bind, authorized, attests]
  cases T.grant input.credentials with
  | none => exact ⟨e, rfl⟩
  | some key =>
    simp only [bind_eq_bind, Option.bind_some]
    by_cases status : input.status = "ok" ∨ input.status = "deny"
    · by_cases comment : input.comment.utf8ByteSize ≤ orElse 0 T.doc.attestation.commentMaxBytes 4096
      · rw [if_pos ⟨status, comment⟩]
        have limit : input.comment.utf8ByteSize ≤ orElse 0 T.policy.signed.document.attestation.commentMaxBytes 4096 :=
          comment
        simp only [Tx.eval_bind, Tx.require, eval_ofExcept, if_pos status, if_pos limit, SecureTx.getMessage, Tx.expect,
          Tx.eval_query, topic]
        cases g.tables.findMessage T.scope.objectID input.messageID with
        | none => exact ⟨errNotFound, rfl⟩
        | some row =>
          refine ⟨errInvalidSignature, ?_⟩
          have verified : ∀ sig, Topics.verifyAgentSig key.stored sig
              (input.attestation now T.scope.objectID row.message).envelope =
                Topics.verifyAgentSig key sig (input.attestation now T.scope.objectID row.message).envelope :=
            fun sig => rfl
          simp only [Tx.eval_pure, SecureTx.checkSignature, Tx.expect, eval_ofExcept, map_some,
            Option.bind_some, verified]
          cases (decodeB64 input.signature).filter fun sig =>
            Topics.verifyAgentSig key sig (input.attestation now T.scope.objectID row.message).envelope with
          | none => rfl
          | some sig =>
            simp only [Option.bind_some, Option.pure_def, SecureTx.superseding, Tx.eval_bind, Tx.eval_query,
              Tx.eval_pure]
      · rw [if_neg fun both => comment both.2]
        have limit : ¬ input.comment.utf8ByteSize ≤ orElse 0 T.policy.signed.document.attestation.commentMaxBytes 4096 :=
          comment
        refine ⟨"comment too long", ?_⟩
        simp only [Tx.eval_bind, Tx.require, eval_ofExcept, if_pos status, if_neg limit]
    · rw [if_neg fun both => status both.1]
      refine ⟨"status must be ok or deny", ?_⟩
      simp only [Tx.eval_bind, Tx.require, eval_ofExcept, if_neg status]

end
end TopicSetup
end SynaMcp
