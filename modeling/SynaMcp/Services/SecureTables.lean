import Mathlib.Data.List.Sort
import Mathlib.Data.List.MinMax
import SynaMcp.Lib.Transactions
import SynaMcp.Services.SecureSteps

/-! The secure bus in Postgres: the tables of its migration, and each method as the
transaction it runs. A statement locks what makes the others wait. The locks of foreign
keys are left out: without them there are only more interleavings. -/
namespace SynaMcp
open Keyed Transactions GoMaps Signing

/-- What the database and its driver do to values: the bytes that come with an error of
the base64 decoding, the payload as `JSONB` keeps it, and the text of a time that was
read back. -/
class PgLib where
  decodedPart : String → Bytes
  jsonb : JsonObject → JsonObject
  rfc3339Local : Time → String

@[reducible] def PgLib.plain : PgLib where
  decodedPart _ := []
  jsonb payload := payload
  rfc3339Local _ := "now"

/-- `TIMESTAMPTZ` keeps microseconds. -/
def micro (t : Time) : Time := t / 1000 * 1000

structure PolicyRow where
  objectID : String
  version : Int
  document : Document
  hash : Bytes
  signature : Bytes
  signerKID : String
  createdAt : Time

structure MessageRow where
  id : Int
  objectID : String
  authorKeyID : String
  policyVersion : Int
  policyHash : Bytes
  nonce : String
  payload : JsonObject
  hash : Bytes
  prevHash : Option Bytes
  signature : Bytes
  createdAt : Time
  deriving DecidableEq, Repr

structure AttestationRow where
  id : Int
  objectID : String
  messageID : Int
  signerKeyID : String
  policyVersion : Int
  status : String
  comment : String
  messageHash : Bytes
  signature : Bytes
  createdAt : Time
  supersededAt : Option Time := none
  deriving DecidableEq, Repr

structure SubscriptionRow where
  objectID : String
  consumer : String
  lastEventID : Int
  deriving DecidableEq, Repr

structure DeliveryRow where
  objectID : String
  consumer : String
  messageID : Int
  deriving DecidableEq, Repr

def SubscriptionRow.key (r : SubscriptionRow) : String × String := (r.objectID, r.consumer)

def SubscriptionRow.movedIf (key : String × String) (last : Int) (r : SubscriptionRow) : SubscriptionRow :=
  if r.key = key then { r with lastEventID := last } else r

theorem SubscriptionRow.key_movedIf {key last} (r : SubscriptionRow) : (movedIf key last r).key = r.key := by
  unfold movedIf
  split <;> rfl

def AgentKey.revokedIf (keyID : String) (now : Time) (k : AgentKey) : AgentKey :=
  if k.keyID = keyID then { k with revokedAt := some (micro now) } else k

theorem AgentKey.keyID_revokedIf {keyID now} (k : AgentKey) : (revokedIf keyID now k).keyID = k.keyID := by
  unfold revokedIf
  split <;> rfl

structure SecureTables where
  agentKeys : Table AgentKey.keyID
  policies : List PolicyRow
  messages : List MessageRow
  attestations : List AttestationRow
  events : List SecureEvent
  subscriptions : Table SubscriptionRow.key
  deliveries : List DeliveryRow

def SecureTables.empty : SecureTables := ⟨.empty, [], [], [], [], .empty, []⟩

/-- What a transaction can hold: an entry of a unique index, or a row. -/
inductive SecureLock where
  | key (keyID : String)
  | policy (objectID : String) (version : Int)
  | messageID (id : Int)
  | nonce (objectID nonce : String)
  | message (id : Int)
  | attestationID (id : Int)
  | attestation (id : Int)
  | eventID (id : Int)
  | subscription (objectID consumer : String)
  | delivery (objectID consumer : String) (messageID : Int)
  deriving DecidableEq

/-- The read of a publication that is told from the others: the last message of a
topic whose messages are chained. -/
inductive SecureTag where
  | chain (objectID : String)
  deriving DecidableEq

inductive SecureSequence where
  | messages
  | attestations
  | events
  deriving DecidableEq

abbrev SecureTx := Tx SecureTables SecureLock SecureTag SecureSequence

section
variable [Signing] [PgLib]

/-- `DecodeB64` where its error is not looked at. -/
def decodeBytes (s : String) : Bytes := (decodeB64 s).getD (PgLib.decodedPart s)

/-- The empty text is stored as `NULL`. -/
def decodeOpt (s : String) : Option Bytes := if s = "" then none else some (decodeBytes s)

def SecureMessage.row (id : Int) (sig : Bytes) (m : SecureMessage) : MessageRow :=
  { id := id, objectID := m.objectID, authorKeyID := m.authorKeyID, policyVersion := m.policyVersion,
    policyHash := decodeBytes m.policyHash, nonce := m.nonce, payload := PgLib.jsonb m.payload,
    hash := hashCanonical m.envelope, prevHash := decodeOpt m.prevHash, signature := sig,
    createdAt := micro m.createdAt }

def Attestation.row (id : Int) (sig : Bytes) (a : Attestation) : AttestationRow :=
  { id := id, objectID := a.objectID, messageID := a.messageID, signerKeyID := a.signerKeyID,
    policyVersion := a.policyVersion, status := a.status, comment := a.comment,
    messageHash := decodeBytes a.messageHash, signature := sig, createdAt := micro a.createdAt }

end

section
variable [Signing]

def optText (bytes : Option Bytes) : String :=
  match bytes with
  | none => ""
  | some bytes => if bytes = [] then "" else b64 bytes

def MessageRow.message (r : MessageRow) : SecureMessage :=
  { id := r.id, objectID := r.objectID, authorKeyID := r.authorKeyID, policyVersion := r.policyVersion,
    policyHash := b64 r.policyHash, nonce := r.nonce, payload := r.payload, hash := b64 r.hash,
    prevHash := optText r.prevHash, signature := b64 r.signature, createdAt := r.createdAt }

def AttestationRow.attestation (r : AttestationRow) : Attestation :=
  { id := r.id, objectID := r.objectID, messageID := r.messageID, signerKeyID := r.signerKeyID,
    policyVersion := r.policyVersion, status := r.status, comment := r.comment,
    messageHash := b64 r.messageHash, signature := b64 r.signature, createdAt := r.createdAt,
    supersededAt := r.supersededAt }

def PolicyRow.signed (r : PolicyRow) : SignedPolicy :=
  { document := r.document, hash := b64 r.hash, signature := b64 r.signature
    signerKID := r.signerKID, version := r.version, createdAt := r.createdAt }

end

def Envelope.dated (text : String) (e : Envelope) : Envelope :=
  e.map fun field => if field.1 = "createdAt" then ("createdAt", .text text) else field

namespace SecureTables

/-! The queries. -/

variable (objectID : String)

def maxVersion (t : SecureTables) : Option PolicyRow :=
  (t.policies.filter fun r => r.objectID = objectID).argmax PolicyRow.version

def policyVersion (version : Int) (t : SecureTables) : Option PolicyRow :=
  t.policies.find? fun r => r.objectID = objectID ∧ r.version = version

def topicMessages (t : SecureTables) : List MessageRow :=
  t.messages.filter fun r => r.objectID = objectID

def lastMessage (t : SecureTables) : Option MessageRow :=
  (t.topicMessages objectID).argmax MessageRow.id

def findMessage (id : Int) (t : SecureTables) : Option MessageRow :=
  t.messages.find? fun r => r.objectID = objectID ∧ r.id = id

theorem findMessage_id {objectID id} {t : SecureTables} {row}
    (h : t.findMessage objectID id = some row) : row.id = id := by
  have found := List.find?_some h
  simp only [decide_eq_true_eq] at found
  exact found.2

def attestationsOf (messageID : Int) (t : SecureTables) : List AttestationRow :=
  t.attestations.filter fun r => r.objectID = objectID ∧ r.messageID = messageID

/-- In the order of their numbers. -/
def listAttestations [Signing] (objectID : String) (messageID : Int) (t : SecureTables) : List Attestation :=
  ((t.attestationsOf objectID messageID).insertionSort fun a b => a.id ≤ b.id).map AttestationRow.attestation

def standing (messageID : Int) (keyID : String) (t : SecureTables) : List Int :=
  ((t.attestationsOf objectID messageID).filter fun r => r.signerKeyID = keyID ∧ r.supersededAt = none).map
    AttestationRow.id

variable (objectID consumer : String)

def lastEventID (t : SecureTables) : Int :=
  ((t.subscriptions.get? (objectID, consumer)).map SubscriptionRow.lastEventID).getD 0

variable (last : Int)

/-- The first events after a number, in their order. -/
def eventsAfter (limit : Nat) (t : SecureTables) : List SecureEvent :=
  ((t.events.filter fun e => e.objectID = objectID ∧ last < e.id).insertionSort fun a b => a.id ≤ b.id).take limit

def delivered (messageID : Int) (t : SecureTables) : Bool :=
  t.deliveries.contains ⟨objectID, consumer, messageID⟩

/-- The ranges over the agents are in the orders that are given, and so are the rows,
for which the query names no order. -/
def messageView [Signing] (rows : Nat → Nat) (orders : Nat → Nat → Nat) (doc : Document) (msg : SecureMessage)
    (objectID : String) (t : SecureTables) : MessageView where
  authorKeyID := msg.authorKeyID
  authorName := (doc.agentNameForKey (orders 0) msg.authorKeyID).getD ""
  attestations :=
    (range rows ((t.attestationsOf objectID msg.id).filter fun r => r.supersededAt = none)).mapIdx fun i r =>
      { agentName := (doc.agentNameForKey (orders (i + 1)) r.signerKeyID).getD ""
        keyID := r.signerKeyID, status := r.status }

/-! The writes. -/

def insertKey (k : AgentKey) (t : SecureTables) : SecureTables := { t with agentKeys := t.agentKeys.put k }

def insertPolicy (r : PolicyRow) (t : SecureTables) : SecureTables := { t with policies := t.policies ++ [r] }

def insertMessage (r : MessageRow) (t : SecureTables) : SecureTables := { t with messages := t.messages ++ [r] }

def insertAttestation (r : AttestationRow) (t : SecureTables) : SecureTables :=
  { t with attestations := t.attestations ++ [r] }

def insertEvent (e : SecureEvent) (t : SecureTables) : SecureTables := { t with events := t.events ++ [e] }

/-- `ON CONFLICT DO NOTHING`. -/
def insertDelivery (r : DeliveryRow) (t : SecureTables) : SecureTables :=
  if t.deliveries.contains r then t else { t with deliveries := t.deliveries ++ [r] }

theorem mem_insertDelivery {r d} {t : SecureTables} :
    d ∈ (t.insertDelivery r).deliveries ↔ d = r ∨ d ∈ t.deliveries := by
  unfold insertDelivery
  split
  · next mem =>
    refine ⟨.inr, fun h => h.elim (fun same => ?_) id⟩
    subst same
    simpa using mem
  · simp [or_comm]

def revokeKey (keyID : String) (now : Time) (t : SecureTables) : SecureTables :=
  { t with agentKeys := t.agentKeys.mapRows (AgentKey.revokedIf keyID now) AgentKey.keyID_revokedIf }

/-- Only rows that still stand are written. -/
def supersede (ids : List Int) (time : Time) (t : SecureTables) : SecureTables :=
  { t with attestations := t.attestations.map fun r =>
      if r.id ∈ ids ∧ r.supersededAt = none then { r with supersededAt := some (micro time) } else r }

/-- On a conflict the row keeps its number; the filter, which is never read, is left out. -/
def subscribe (t : SecureTables) : SecureTables :=
  if t.subscriptions.Has (objectID, consumer) then t
  else { t with subscriptions := t.subscriptions.put ⟨objectID, consumer, last⟩ }

@[simp] theorem deliveries_subscribe {objectID consumer last} {t : SecureTables} :
    (t.subscribe objectID consumer last).deliveries = t.deliveries := by
  unfold subscribe
  split <;> rfl

def setLastEvent (t : SecureTables) : SecureTables :=
  { t with
    subscriptions :=
      t.subscriptions.mapRows (SubscriptionRow.movedIf (objectID, consumer) last) SubscriptionRow.key_movedIf }

end SecureTables

structure ParseOrders where
  agents : Nat → Nat
  conditions : Nat → Nat

structure AuthorizeOrders where
  current : ParseOrders
  cited : ParseOrders
  agent : Nat → Nat

structure ConsumeOrders where
  policy : ParseOrders
  rows : Nat → Nat → Nat
  agents : Nat → Nat → Nat → Nat

def errDuplicateKey : String := "duplicate key value violates unique constraint"

def errNotNull : String := "null value violates not-null constraint"

/-- What statements answer after one that failed. -/
def errAborted : String := "current transaction is aborted, commands ignored until end of transaction block"

namespace SecureTx

def lookupKey (keyID : String) : SecureTx (Option AgentKey) := .query fun t => t.agentKeys.get? keyID

section
variable [Signing] (orders : ParseOrders)

/-- `ParseDocument` validates what it reads. The document itself reads back as it was. -/
def readPolicy (find : SecureTables → Option PolicyRow) : SecureTx SignedPolicy := do
  let row ← .expect (← .query find) errNotFound
  .ofExcept (row.document.validateDocument orders.agents orders.conditions)
  return row.signed

variable (objectID : String)

def currentPolicy : SecureTx SignedPolicy :=
  readPolicy orders (SecureTables.maxVersion objectID)

def loadPolicyVersion (version : Int) : SecureTx SignedPolicy :=
  readPolicy orders (SecureTables.policyVersion objectID version)

def getPolicy (scope : Scope) (version : Int) : SecureTx SignedPolicy := do
  .require (scope.kind = .securebus) errKindMismatch
  if 0 < version then loadPolicyVersion orders scope.objectID version else currentPolicy orders scope.objectID

def keys (order : Nat → Nat) (scope : Scope) : SecureTx (List AgentKey) := do
  .require (scope.kind = .securebus) errKindMismatch
  let pol ← currentPolicy orders scope.objectID
  let found ← .each (fun a : String × AgentRef => lookupKey a.2.keyID) (range order pol.document.agents.rows)
  return found.filterMap id

def getMessage (id : Int) : SecureTx SecureMessage := do
  let row ← .expect (← .query (SecureTables.findMessage objectID id)) errNotFound
  return row.message

def insertKey (k : AgentKey) : SecureTx AgentKey := do
  .acquire (.key k.keyID)
  let clash ← .query fun t => t.agentKeys.get? k.keyID
  .require (clash = none) errDuplicateKey
  .change (.insertKey { k with createdAt := micro k.createdAt })
  return k

/-- The challenge is kept outside the database; `consumed` is what came of using it up. -/
def register (env : Env) (consumed : Except String Unit) (input : RegisterInput) : SecureTx AgentKey := do
  .require (input.subjectKey ≠ "" ∧ input.publicKey ≠ [] ∧ input.nonce ≠ "" ∧ input.signature ≠ [])
    "subjectKey, publicKey, nonce, and signature required"
  let alg ← .ofExcept (AgentKeys.checkAlgorithm input)
  .ofExcept consumed
  .require (AgentKeys.provesPossession alg input) "invalid proof-of-possession signature"
  insertKey (AgentKeys.newKey env alg input)

end

def revocable (keyID subjectKey : String) (t : SecureTables) : Bool :=
  (t.agentKeys.get? keyID).any fun k => k.subjectKey = subjectKey ∧ k.revokedAt = none

/-- The row is looked at again once its lock is had. -/
def revoke (now : Time) (keyID subjectKey : String) : SecureTx Unit := do
  .require (← .query (revocable keyID subjectKey)) "key not found"
  .acquire (.key keyID)
  .require (← .query (revocable keyID subjectKey)) "key not found"
  .change (.revokeKey keyID now)

def publication (objectID : String) (msg : SecureMessage) (id eventID : Int) : SecureEvent :=
  { id := eventID, objectID := objectID, kind := .messagePublished, messageID := id, createdAt := micro msg.createdAt }

def witnessing (objectID : String) (att : Attestation) (id eventID : Int) : SecureEvent :=
  { id := eventID, objectID := objectID, kind := .attestationAdded, messageID := att.messageID,
    attestationID := some id, createdAt := micro att.createdAt }

def addEvent (event : Int → SecureEvent) : SecureTx Unit := do
  let id ← .nextval .events
  .acquire (.eventID id)
  .require (!(← .query fun t => t.events.any fun e => e.id = id)) errDuplicateKey
  .change (.insertEvent (event id))

variable [Signing]

def putPolicy [PolicyLib] (cfg : SecureConfig) (orders : SecureBus.PutOrders) (issued now : Time) (scope : Scope)
    (doc : Document) : SecureTx SignedPolicy := do
  .require (scope.kind = .securebus) errKindMismatch
  let doc :=
    { doc with
      topicID := scope.objectID
      schema := policySchemaID
      issuedAt := if doc.issuedAt = "" then rfc3339 issued else doc.issuedAt }
  .ofExcept (doc.validateDocument orders.agents orders.conditions)
  let _ ← .each (fun a : String × AgentRef => do
      let key ← lookupKey a.2.keyID
      .require (key.any fun k => k.revokedAt.isNone)
        ("agent key " ++ quote a.2.keyID ++ " missing or revoked"))
    (range orders.keys doc.agents.rows)
  let last ← .query (SecureTables.maxVersion scope.objectID)
  let next := ((last.map PolicyRow.version).map (· + 1)).getD 1
  let doc := { doc with version := next }
  let (hash, sig) ← .ofExcept (PolicySigner.signDocument cfg.signer doc)
  let row : PolicyRow :=
    { objectID := scope.objectID, version := next, document := doc, hash := hash, signature := sig
      signerKID := (cfg.signer.map PolicySigner.kid).getD "", createdAt := micro now }
  .acquire (.policy scope.objectID next)
  .require ((← .query (SecureTables.policyVersion scope.objectID next)).isNone) errDuplicateKey
  .change (.insertPolicy row)
  return { row.signed with createdAt := now }

def authorize (cfg : SecureConfig) (orders : AuthorizeOrders) (now : Time) (scope : Scope) (request : Credentials) :
    SecureTx (AgentKey × SignedPolicy) := do
  .require (scope.kind = .securebus) errKindMismatch
  let found ← lookupKey request.keyID
  let key ← .expect (found.filter fun k => k.belongsToCaller request.subjectKey request.tokenID) errKeyNotAllowed
  let cur ← currentPolicy orders.current scope.objectID
  .ofExcept (acceptPolicyVersion cfg now cur request.version request.hash)
  let pol ← loadPolicyVersion orders.cited scope.objectID request.version
  .require (pol.document.allows orders.agent request.rule request.keyID) errForbiddenByPolicy
  return (key, pol)

def checkSignature (key : AgentKey) (signature : String) (envelope : Envelope) : SecureTx Bytes :=
  .expect ((decodeB64 signature).filter fun sig => Topics.verifyAgentSig key sig envelope) errInvalidSignature

/-- `SELECT ... FOR UPDATE`: the row that was found is locked, and not looked for again.
It is the row that was found, since no statement updates a message. -/
def lockLast (objectID prevHash : String) : SecureTx Unit := do
  match ← .tagged (.chain objectID) (SecureTables.lastMessage objectID) with
  | none => return ()
  | some last =>
    .acquire (.message last.id)
    .require (last.hash = [] ∨ prevHash ≠ "" ∧ prevHash = b64 last.hash)
      "prevHash required/mismatch when chain enabled"

def link (chain : Bool) (objectID prevHash : String) : SecureTx Unit :=
  if chain then lockLast objectID prevHash else pure ()

variable [PgLib]

/-- The row of the message, and its places in the two unique indices. -/
def addMessage (msg : SecureMessage) (sig : Bytes) : SecureTx Int := do
  let id ← .nextval .messages
  .require (msg.policyHash ≠ "") errNotNull
  .acquire (.messageID id)
  .acquire (.nonce msg.objectID msg.nonce)
  .require (!(← .query fun t => t.messages.any fun r =>
    r.id = id ∨ r.objectID = msg.objectID ∧ r.nonce = msg.nonce)) errDuplicateKey
  .change (.insertMessage (msg.row id sig))
  return id

variable (cfg : SecureConfig) (orders : AuthorizeOrders) (checked now : Time) (scope : Scope)

def publish (input : PublishInput) : SecureTx SecureMessage := do
  let (key, pol) ← authorize cfg orders checked scope input.credentials
  let msg := input.message now scope.objectID
  let sig ← checkSignature key input.signature msg.envelope
  link pol.document.chain scope.objectID input.prevHash
  let id ← addMessage msg sig
  addEvent (publication scope.objectID msg id)
  return { msg with id := id }

def lockAttestations : List Int → SecureTx Unit
  | [] => pure ()
  | id :: rest => do
      .acquire (.attestation id)
      lockAttestations rest

def addAttestation (att : Attestation) (sig : Bytes) : SecureTx Int := do
  let id ← .nextval .attestations
  .acquire (.attestationID id)
  .require (!(← .query fun t => t.attestations.any fun r => r.id = id)) errDuplicateKey
  .change (.insertAttestation (att.row id sig))
  return id

def attest (input : AttestInput) : SecureTx Attestation := do
  let (key, pol) ← authorize cfg orders checked scope input.credentials
  .require (input.status = "ok" ∨ input.status = "deny") "status must be ok or deny"
  let maxComment := orElse 0 pol.document.attestation.commentMaxBytes 4096
  .require (input.comment.utf8ByteSize ≤ maxComment) "comment too long"
  let msg ← getMessage scope.objectID input.messageID
  let att := input.attestation now scope.objectID msg
  let sig ← checkSignature key input.signature att.envelope
  let standing ← .query (SecureTables.standing scope.objectID input.messageID input.keyID)
  lockAttestations standing
  .change (.supersede standing att.createdAt)
  let id ← addAttestation att sig
  addEvent (witnessing scope.objectID att id)
  return { att with id := id }

/-- The events one by one, up to `max` messages that match and were not delivered. -/
def deliverEvents (orders : ConsumeOrders) (objectID consumer : String) (doc : Document) (cond : Condition)
    (max : Nat) : Nat → List SecureEvent → List SecureMessage → SecureTx (List SecureMessage)
  | _, [], out => pure out
  | n, ev :: rest, out => do
      if ← .query (SecureTables.delivered objectID consumer ev.messageID) then
        deliverEvents orders objectID consumer doc cond max (n + 1) rest out
      else
        match ← .query (SecureTables.findMessage objectID ev.messageID) with
        | none => deliverEvents orders objectID consumer doc cond max (n + 1) rest out
        | some row =>
          let view ← .query (SecureTables.messageView (orders.rows n) (orders.agents n) doc row.message objectID)
          if cond.matchCondition view then
            .acquire (.delivery objectID consumer row.id)
            .change (SecureTables.insertDelivery ⟨objectID, consumer, row.id⟩)
            let out := out ++ [row.message]
            if max ≤ out.length then return out
            else deliverEvents orders objectID consumer doc cond max (n + 1) rest out
          else deliverEvents orders objectID consumer doc cond max (n + 1) rest out

def maxSeen (last : Int) (evs : List SecureEvent) : Int :=
  evs.foldl (fun seen e => if seen < e.id then e.id else seen) last

/-- `max*5` in 64 bits, where it is not below zero. -/
def fetchLimit (max : Nat) : Option Nat := if max * 5 % 2 ^ 64 < 2 ^ 63 then some (max * 5 % 2 ^ 64) else none

/-- A limit below zero is an error, which is not looked at before the next statement. -/
def fetch (objectID : String) (last : Int) (max : Nat) : SecureTx (List SecureEvent) := do
  let limit ← .expect (fetchLimit max) errAborted
  .query (SecureTables.eventsAfter objectID last limit)

/-- The number that is stored at the end is the largest of the events fetched. -/
def consume [PolicyLib] (orders : ConsumeOrders) (scope : Scope) (consumer conditionName : String)
    (adHoc : Option JsonObject) (max : Int) : SecureTx (List SecureMessage) := do
  .require (scope.kind = .securebus) errKindMismatch
  let consumer := consumerName consumer
  let max := orTen max
  let pol ← currentPolicy orders.policy scope.objectID
  let cond ← .ofExcept (resolveCondition pol.document conditionName adHoc)
  let last ← .query (SecureTables.lastEventID scope.objectID consumer)
  .acquire (.subscription scope.objectID consumer)
  .change (.subscribe scope.objectID consumer last)
  let evs ← fetch scope.objectID last max
  let out ← deliverEvents orders scope.objectID consumer pol.document cond max 0 evs []
  .change (.setLastEvent scope.objectID consumer (maxSeen last evs))
  return out

/-- The check of an attestation with the key that was found. A time that was read back
is in the zone of the server. -/
def attestationCheck (a : Attestation) (key : Option AgentKey) : AttestationCheck :=
  { signerKeyID := a.signerKeyID, status := a.status
    signatureOk := SecureBus.signatureOk key a.signature (a.envelope.dated (PgLib.rfc3339Local a.createdAt))
    keyRevokedAt := key.bind AgentKey.revokedAt, superseded := a.supersededAt.isSome }

def readEnvelope (objectID : String) (msg : SecureMessage) : Envelope :=
  { msg with objectID := objectID }.envelope.dated (PgLib.rfc3339Local msg.createdAt)

def checkAttestation (a : Attestation) : SecureTx AttestationCheck := do
  let key ← lookupKey a.signerKeyID
  return attestationCheck a key

def verify (scope : Scope) (messageID : Int) : SecureTx VerifyResult := do
  .require (scope.kind = .securebus) errKindMismatch
  let msg ← getMessage scope.objectID messageID
  let atts ← .query (SecureTables.listAttestations scope.objectID messageID)
  let key ← lookupKey msg.authorKeyID
  let envelope := readEnvelope scope.objectID msg
  let checks ← .each checkAttestation atts
  return { message := msg, attestations := atts
           signatureOk := SecureBus.signatureOk key msg.signature envelope
           hashOk := b64 (hashCanonical envelope) = msg.hash
           policyVersion := msg.policyVersion, attestationChecks := checks }

end SecureTx

/-- The calls of the service and of its key store, with the times they read and the
orders of their ranges. -/
inductive SecureCall where
  | register (env : Env) (consumed : Except String Unit) (input : RegisterInput)
  | revoke (now : Time) (keyID subjectKey : String)
  | putPolicy (orders : SecureBus.PutOrders) (issued now : Time) (scope : Scope) (doc : Document)
  | getPolicy (orders : ParseOrders) (scope : Scope) (version : Int)
  | keys (orders : ParseOrders) (order : Nat → Nat) (scope : Scope)
  | publish (orders : AuthorizeOrders) (checked now : Time) (scope : Scope) (input : PublishInput)
  | attest (orders : AuthorizeOrders) (checked now : Time) (scope : Scope) (input : AttestInput)
  | consume (orders : ConsumeOrders) (scope : Scope) (consumer conditionName : String) (adHoc : Option JsonObject)
      (max : Int)
  | verify (scope : Scope) (messageID : Int)

inductive SecureReply where
  | key (k : AgentKey)
  | keys (ks : List AgentKey)
  | done
  | policy (sp : SignedPolicy)
  | message (m : SecureMessage)
  | attestation (a : Attestation)
  | messages (ms : List SecureMessage)
  | verified (r : VerifyResult)

def SecureCall.transaction [Signing] [PgLib] [PolicyLib] (cfg : SecureConfig) : SecureCall → SecureTx SecureReply
  | .register env consumed input => .key <$> .register env consumed input
  | .revoke now keyID subjectKey => (fun _ => .done) <$> .revoke now keyID subjectKey
  | .putPolicy orders issued now scope doc => .policy <$> .putPolicy cfg orders issued now scope doc
  | .getPolicy orders scope version => .policy <$> .getPolicy orders scope version
  | .keys orders order scope => .keys <$> .keys orders order scope
  | .publish orders checked now scope input => .message <$> .publish cfg orders checked now scope input
  | .attest orders checked now scope input => .attestation <$> .attest cfg orders checked now scope input
  | .consume orders scope consumer conditionName adHoc max =>
    .messages <$> .consume orders scope consumer conditionName adHoc max
  | .verify scope messageID => .verified <$> .verify scope messageID

end SynaMcp
