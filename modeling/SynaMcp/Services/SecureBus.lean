import SynaMcp.Services.Policy

/-! Secure buses: signed policies and messages, attestations, and the delivery to
consumers. Each method works in several critical sections; lookups of agent keys are
sections of the key store. -/
namespace SynaMcp
open Keyed Sections Function Signing Try

structure SecureMessage where
  id : Int := 0
  objectID : String
  authorKeyID : String
  policyVersion : Int
  policyHash : String
  nonce : String
  payload : JsonObject
  hash : String
  prevHash : String
  signature : String
  createdAt : Time
  deriving DecidableEq, Repr

structure Attestation where
  id : Int := 0
  objectID : String
  messageID : Int
  signerKeyID : String
  policyVersion : Int
  status : String
  comment : String
  messageHash : String
  signature : String
  createdAt : Time
  supersededAt : Option Time := none
  deriving DecidableEq, Repr

inductive SecureEventKind where
  | messagePublished
  | attestationAdded
  deriving DecidableEq, Repr

structure SecureEvent where
  id : Int
  objectID : String
  kind : SecureEventKind
  messageID : Int
  attestationID : Option Int := none
  createdAt : Time
  deriving DecidableEq, Repr

structure PublishInput where
  keyID : String
  subjectKey : String
  tokenID : String
  policyVersion : Int
  policyHash : String
  nonce : String
  createdAt : Time
  payload : Option JsonObject
  signature : String
  prevHash : String
  deriving DecidableEq, Repr

structure AttestInput where
  keyID : String
  subjectKey : String
  tokenID : String
  messageID : Int
  policyVersion : Int
  status : String
  comment : String
  createdAt : Time
  signature : String
  deriving DecidableEq, Repr

/-- What is kept for each topic, and for each consumer of a topic the last event it
was given and the messages delivered to it. -/
structure Topics where
  policies : String → List SignedPolicy
  messages : String → List SecureMessage
  attests : String → List Attestation
  events : String → List SecureEvent
  lastEventID : String → String → Int
  delivered : String → String → List Int

structure SecureBus where
  topics : Topics
  keyStore : AgentKeys

structure SecureConfig where
  grace : Int
  signer : Option PolicySigner

/-- `NewService`; without a positive number of seconds the grace is five minutes. -/
def SecureConfig.new (signer : Option PolicySigner) (graceSeconds : Int) : SecureConfig where
  grace := if graceSeconds * 1000000000 ≤ 0 then 5 * minute else graceSeconds * 1000000000
  signer := signer

def errInvalidSignature : String := "invalid signature"

def errForbiddenByPolicy : String := "forbidden by topic policy"

def errStalePolicy : String := "stale policy version"

def errKeyNotAllowed : String := "key not allowed for caller"

namespace Topics
variable (objectID : String)

def getPolicy (version : Int) (s : Topics) : Except String SignedPolicy :=
  match (s.policies objectID).getLast? with
  | none => .error errNotFound
  | some last =>
    if version ≤ 0 then .ok last
    else
      match (s.policies objectID).find? fun sp => sp.version = version with
      | some sp => .ok sp
      | none => .error errNotFound

def loadPolicyVersion (version : Int) (s : Topics) : Except String SignedPolicy :=
  match (s.policies objectID).find? fun sp => sp.version = version with
  | some sp => .ok sp
  | none => .error errNotFound

def findMsg (msgs : List SecureMessage) (id : Int) : Option SecureMessage := msgs.find? fun m => m.id = id

def getMessage (id : Int) (s : Topics) : Except String SecureMessage :=
  match findMsg (s.messages objectID) id with
  | some m => .ok m
  | none => .error errNotFound

def listAttestations (messageID : Int) (s : Topics) : Except String (List Attestation) :=
  .ok ((s.attests objectID).filter fun a => a.messageID = messageID)

section
variable [Signing]

/-- The next version is signed and appended in one section. -/
def addPolicy [PolicyLib] (cfg : SecureConfig) (now : Time) (objectID : String) (doc : Document) (s : Topics) :
    Topics × Except String SignedPolicy :=
  let next :=
    match (s.policies objectID).getLast? with
    | some last => last.version + 1
    | none => 1
  let doc := { doc with version := next }
  match PolicySigner.signDocument cfg.signer doc with
  | .error e => (s, .error e)
  | .ok (hash, sig) =>
    let sp : SignedPolicy :=
      { document := doc, hash := b64 hash, signature := b64 sig
        signerKID := (cfg.signer.map PolicySigner.kid).getD "", version := next, createdAt := now }
    ({ s with policies := update s.policies objectID (s.policies objectID ++ [sp]) }, .ok sp)

variable (key : AgentKey) (sig : Bytes) (envelope : Envelope)

def verifyAgentSig : Bool :=
  let digest := hashCanonical envelope
  if key.algorithm = "" ∨ key.algorithm = "ed25519" then verifyEd25519 key.publicKey digest sig
  else if key.algorithm = "ecdsa-p256" then verifyECDSAP256 key.publicKey digest sig
  else false

/-- The message with its link to the last one, which the service fills in where the
message has none. -/
def chainMessage (msg : SecureMessage) (last : Option SecureMessage) : Except String SecureMessage :=
  match last with
  | none => .ok msg
  | some last =>
    if msg.prevHash = "" then
      let envelope := envelope ++ [("prevHash", .text last.hash)]
      if verifyAgentSig key sig envelope then
        .ok { msg with prevHash := last.hash, hash := b64 (hashCanonical envelope) }
      else .error "prevHash required when chain enabled"
    else if msg.prevHash ≠ last.hash then .error "prevHash mismatch"
    else .ok msg

def addMessage (objectID : String) (chain : Bool) (key : AgentKey) (sig : Bytes) (envelope : Envelope)
    (msg : SecureMessage) (s : Topics) : Topics × Except String SecureMessage :=
  let msgs := s.messages objectID
  match chainMessage key sig envelope msg (if chain then msgs.getLast? else none) with
  | .error e => (s, .error e)
  | .ok msg =>
    let msg := { msg with id := msgs.length + 1 }
    let event : SecureEvent :=
      { id := (s.events objectID).length + 1, objectID := objectID, kind := .messagePublished,
        messageID := msg.id, createdAt := msg.createdAt }
    ({ s with
        messages := update s.messages objectID (msgs ++ [msg])
        events := update s.events objectID (s.events objectID ++ [event]) },
      .ok msg)

end

/-- The standing attestation of the same message by the same key is superseded. -/
def supersede (att a : Attestation) : Attestation :=
  if a.messageID = att.messageID ∧ a.signerKeyID = att.signerKeyID ∧ a.supersededAt = none then
    { a with supersededAt := some att.createdAt }
  else a

def addAttestation (att : Attestation) (s : Topics) : Topics × Except String Attestation :=
  let attests := (s.attests objectID).map (supersede att)
  let att := { att with id := attests.length + 1 }
  let event : SecureEvent :=
    { id := (s.events objectID).length + 1, objectID := objectID, kind := .attestationAdded,
      messageID := att.messageID, attestationID := some att.id, createdAt := att.createdAt }
  ({ s with
      attests := update s.attests objectID (attests ++ [att])
      events := update s.events objectID (s.events objectID ++ [event]) },
    .ok att)

/-- The ranges over the agents are in the orders that are given: one for the author,
and one for each standing attestation. -/
def messageView (orders : Nat → Nat → Nat) (attests : List Attestation) (doc : Document) (msg : SecureMessage) :
    MessageView where
  authorKeyID := msg.authorKeyID
  authorName := (doc.agentNameForKey (orders 0) msg.authorKeyID).getD ""
  attestations :=
    (attests.filter fun a => a.messageID = msg.id ∧ a.supersededAt = none).mapIdx fun i a =>
      { agentName := (doc.agentNameForKey (orders (i + 1)) a.signerKeyID).getD ""
        keyID := a.signerKeyID, status := a.status }

structure Cursor where
  last : Int
  delivered : List Int
  out : List SecureMessage := []

/-- The events after the cursor, up to the first `max` messages that match and were
not delivered. -/
def scan (orders : Nat → Nat → Nat → Nat) (msgs : List SecureMessage) (attests : List Attestation)
    (doc : Document) (cond : Condition) (max : Nat) : Nat → List SecureEvent → Cursor → Cursor
  | _, [], c => c
  | n, ev :: rest, c =>
    if ev.id ≤ c.last then scan orders msgs attests doc cond max (n + 1) rest c
    else
      let c := { c with last := ev.id }
      if ev.messageID ∈ c.delivered then scan orders msgs attests doc cond max (n + 1) rest c
      else
        match findMsg msgs ev.messageID with
        | none => scan orders msgs attests doc cond max (n + 1) rest c
        | some msg =>
          if cond.matchCondition (messageView (orders n) attests doc msg) then
            let c := { c with out := c.out ++ [msg], delivered := msg.id :: c.delivered }
            if max ≤ c.out.length then c else scan orders msgs attests doc cond max (n + 1) rest c
          else scan orders msgs attests doc cond max (n + 1) rest c

def deliver (orders : Nat → Nat → Nat → Nat) (objectID consumer : String) (doc : Document) (cond : Condition)
    (max : Nat) (s : Topics) : Topics × Except String (List SecureMessage) :=
  let start : Cursor := { last := s.lastEventID objectID consumer, delivered := s.delivered objectID consumer }
  let c := scan orders (s.messages objectID) (s.attests objectID) doc cond max 0 (s.events objectID) start
  ({ s with
      lastEventID := update s.lastEventID objectID (update (s.lastEventID objectID) consumer c.last)
      delivered := update s.delivered objectID (update (s.delivered objectID) consumer c.delivered) },
    .ok c.out)

end Topics

structure AttestationCheck where
  signerKeyID : String
  status : String
  signatureOk : Bool
  keyRevokedAt : Option Time
  superseded : Bool
  deriving DecidableEq, Repr

structure VerifyResult where
  message : SecureMessage
  attestations : List Attestation
  signatureOk : Bool
  hashOk : Bool
  policyVersion : Int
  attestationChecks : List AttestationCheck
  deriving DecidableEq, Repr

section
variable [Signing]

def decodeB64 (s : String) : Option Bytes := if s = "" then none else Signing.decodeB64 s

/-- What a message signs; `prevHash` is a field of it only where there is one. -/
def SecureMessage.envelope (m : SecureMessage) : Envelope :=
  [("objectId", .text m.objectID), ("policyVersion", .number m.policyVersion), ("policyHash", .text m.policyHash),
    ("authorKeyId", .text m.authorKeyID), ("nonce", .text m.nonce),
    ("createdAt", .text (rfc3339Nano m.createdAt)), ("payload", .object m.payload)] ++
    if m.prevHash ≠ "" then [("prevHash", .text m.prevHash)] else []

def Attestation.envelope (a : Attestation) : Envelope :=
  [("messageId", .number a.messageID), ("messageHash", .text a.messageHash),
    ("policyVersion", .number a.policyVersion), ("signerKeyId", .text a.signerKeyID), ("status", .text a.status),
    ("comment", .text a.comment), ("createdAt", .text (rfc3339Nano a.createdAt))]

def PublishInput.message (now : Time) (objectID : String) (input : PublishInput) : SecureMessage :=
  let m : SecureMessage :=
    { objectID := objectID, authorKeyID := input.keyID, policyVersion := input.policyVersion,
      policyHash := input.policyHash, nonce := input.nonce, payload := input.payload.getD [], hash := "",
      prevHash := input.prevHash, signature := input.signature, createdAt := zeroTime input.createdAt now }
  { m with hash := b64 (hashCanonical m.envelope) }

def AttestInput.attestation (now : Time) (objectID : String) (msg : SecureMessage) (input : AttestInput) :
    Attestation :=
  { objectID := objectID, messageID := input.messageID, signerKeyID := input.keyID,
    policyVersion := input.policyVersion, status := input.status, comment := input.comment,
    messageHash := msg.hash, signature := input.signature, createdAt := zeroTime input.createdAt now }

end

def Document.allows (order : Nat → Nat) (d : Document) (rule : Rule) (keyID : String) : Bool :=
  match d.agentNameForKey order keyID with
  | some name => d.may rule name
  | none => false

def acceptPolicyVersion (cfg : SecureConfig) (now : Time) (current : SignedPolicy) (wantVersion : Int)
    (wantHash : String) : Except String Unit :=
  if wantVersion = current.version ∧ (wantHash = "" ∨ wantHash = current.hash) then .ok ()
  else if wantVersion = current.version - 1 ∧ now - current.createdAt ≤ cfg.grace then .ok ()
  else .error errStalePolicy

namespace SecureBus

def onTopics {ρ : Type} (p : Try Topics ρ) : Try SecureBus ρ :=
  ExceptT.mk (p.run.zoom SecureBus.topics fun topics s => { s with topics := topics })

def onKeys {ρ : Type} (p : Try AgentKeys ρ) : Try SecureBus ρ :=
  ExceptT.mk (p.run.zoom SecureBus.keyStore fun keys s => { s with keyStore := keys })

def lookupKey (keyID : String) : Try SecureBus (Option AgentKey) := onKeys (read fun keys => .ok (keys.get keyID))

variable (scope : Scope)

def getPolicy (version : Int) : Try SecureBus SignedPolicy := do
  require (scope.kind = .securebus) errKindMismatch
  onTopics (read (Topics.getPolicy scope.objectID version))

def currentPolicy : Try SecureBus SignedPolicy := getPolicy scope 0

def loadPolicyVersion (version : Int) : Try SecureBus SignedPolicy :=
  onTopics (read (Topics.loadPolicyVersion scope.objectID version))

def getMessage (id : Int) : Try SecureBus SecureMessage :=
  onTopics (read (Topics.getMessage scope.objectID id))

def keys (order : Nat → Nat) (scope : Scope) : Try SecureBus (List AgentKey) := do
  require (scope.kind = .securebus) errKindMismatch
  let pol ← currentPolicy scope
  let found ← .each (fun a : String × AgentRef => lookupKey a.2.keyID) (GoMaps.range order pol.document.agents.rows)
  return found.filterMap id

variable [PolicyLib]

def consume (orders : Nat → Nat → Nat → Nat) (scope : Scope) (consumer conditionName : String)
    (adHoc : Option JsonObject) (max : Int) : Try SecureBus (List SecureMessage) := do
  require (scope.kind = .securebus) errKindMismatch
  let pol ← currentPolicy scope
  let cond ← .ofExcept (resolveCondition pol.document conditionName adHoc)
  onTopics (.atomic (Topics.deliver orders scope.objectID (consumerName consumer) pol.document cond (orTen max)))

/-- Polls until the request ends, as the bus does. -/
def subscribe {objectID : String} (consumer condition : String) (adHoc : Option JsonObject) :
    List ((Nat → Nat → Nat → Nat) × Except String (ScopeOf objectID)) → List SecureMessage →
      Prog SecureBus (List SecureMessage × String)
  | [], sent => pure (sent, "context canceled")
  | (_, .error e) :: _, sent => pure (sent, e)
  | (orders, .ok scope) :: rest, sent => do
      match ← (consume orders scope consumer condition adHoc 10).run with
      | .error e => return (sent, e)
      | .ok messages => subscribe consumer condition adHoc rest (sent ++ messages)

variable [Signing]

/-- The orders of the ranges over a document, in `PutPolicy`. -/
structure PutOrders where
  agents : Nat → Nat
  conditions : Nat → Nat
  keys : Nat → Nat

def putPolicy (cfg : SecureConfig) (orders : PutOrders) (issued now : Time) (scope : Scope) (doc : Document) :
    Try SecureBus SignedPolicy := do
  require (scope.kind = .securebus) errKindMismatch
  let doc :=
    { doc with
      topicID := scope.objectID
      schema := policySchemaID
      issuedAt := if doc.issuedAt = "" then rfc3339 issued else doc.issuedAt }
  .ofExcept (doc.validateDocument orders.agents orders.conditions)
  let _ ← .each (fun a : String × AgentRef => do
      let key ← lookupKey a.2.keyID
      require (key.any fun k => k.revokedAt.isNone) ("agent key " ++ quote a.2.keyID ++ " missing or revoked"))
    (GoMaps.range orders.keys doc.agents.rows)
  onTopics (.atomic (Topics.addPolicy cfg now scope.objectID doc))

variable (cfg : SecureConfig) (order : Nat → Nat)

def authorize (now : Time) (scope : Scope) (rule : Rule)
    (keyID subjectKey tokenID : String) (version : Int) (hash : String) :
    Try SecureBus (AgentKey × SignedPolicy) := do
  require (scope.kind = .securebus) errKindMismatch
  let found ← lookupKey keyID
  let key ← expect (found.filter fun k => k.belongsToCaller subjectKey tokenID) errKeyNotAllowed
  let cur ← currentPolicy scope
  .ofExcept (acceptPolicyVersion cfg now cur version hash)
  let pol ← loadPolicyVersion scope version
  require (pol.document.allows order rule keyID) errForbiddenByPolicy
  return (key, pol)

def checkSignature (key : AgentKey) (signature : String) (envelope : Envelope) : Try SecureBus Bytes :=
  expect ((decodeB64 signature).filter fun sig => Topics.verifyAgentSig key sig envelope) errInvalidSignature

variable (checked now : Time) (scope : Scope)

def publish (input : PublishInput) : Try SecureBus SecureMessage := do
  let (key, pol) ← authorize cfg order checked scope .publish input.keyID input.subjectKey input.tokenID
    input.policyVersion input.policyHash
  let msg := input.message now scope.objectID
  let sig ← checkSignature key input.signature msg.envelope
  onTopics (.atomic (Topics.addMessage scope.objectID pol.document.chain key sig msg.envelope msg))

def attest (input : AttestInput) : Try SecureBus Attestation := do
  let (key, pol) ← authorize cfg order checked scope .attest input.keyID input.subjectKey input.tokenID
    input.policyVersion ""
  require (input.status = "ok" ∨ input.status = "deny") "status must be ok or deny"
  let maxComment := orElse 0 pol.document.attestation.commentMaxBytes 4096
  require (input.comment.utf8ByteSize ≤ maxComment) "comment too long"
  let msg ← getMessage scope input.messageID
  let att := input.attestation now scope.objectID msg
  let _ ← checkSignature key input.signature att.envelope
  onTopics (.atomic (Topics.addAttestation scope.objectID att))

def signatureOk (key : Option AgentKey) (signature : String) (envelope : Envelope) : Bool :=
  match key, decodeB64 signature with
  | some key, some sig => Topics.verifyAgentSig key sig envelope
  | _, _ => false

def checkAttestation (a : Attestation) : Try SecureBus AttestationCheck := do
  let key ← lookupKey a.signerKeyID
  return { signerKeyID := a.signerKeyID, status := a.status,
           signatureOk := signatureOk key a.signature a.envelope,
           keyRevokedAt := key.bind AgentKey.revokedAt, superseded := a.supersededAt.isSome }

def verify (scope : Scope) (messageID : Int) : Try SecureBus VerifyResult := do
  require (scope.kind = .securebus) errKindMismatch
  let msg ← getMessage scope messageID
  let atts ← onTopics (read (Topics.listAttestations scope.objectID messageID))
  let key ← lookupKey msg.authorKeyID
  -- The envelope names the topic the call was made for.
  let envelope := { msg with objectID := scope.objectID }.envelope
  let checks ← .each checkAttestation atts
  return { message := msg, attestations := atts
           signatureOk := signatureOk key msg.signature envelope
           hashOk := b64 (hashCanonical envelope) = msg.hash
           policyVersion := msg.policyVersion, attestationChecks := checks }

end SecureBus
end SynaMcp
