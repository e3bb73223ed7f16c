import SynaMcp.Lib.Serial
import SynaMcp.Services.SecureRuns

/-! The records of a secure bus. What is accepted is stored with the digest and the
signature of the envelope that `Verify` rebuilds, and neither the record nor the key
changes afterwards. -/
namespace SynaMcp
open Function (update update_self update_of_ne)
open Keyed Sections List SecureBus Signing Topics

theorem Topics.scan_last (orders : Nat → Nat → Nat → Nat) (msgs : List SecureMessage) (attests : List Attestation)
    (doc : Document) (cond : Condition) (max n : Nat) (events : List SecureEvent) (c : Cursor) :
    (scan orders msgs attests doc cond max n events c).last = c.last ∨
      ∃ ev ∈ events, (scan orders msgs attests doc cond max n events c).last = ev.id := by
  have further : ∀ {ev : SecureEvent} {rest : List SecureEvent} {last : Int},
      (last = ev.id ∨ ∃ later ∈ rest, last = later.id) → ∃ some ∈ ev :: rest, last = some.id := by
    rintro ev rest last (rfl | ⟨later, mem, rfl⟩)
    · exact ⟨ev, mem_cons_self, rfl⟩
    · exact ⟨later, mem_cons_of_mem _ mem, rfl⟩
  fun_induction scan orders msgs attests doc cond max n events c with
  | case1 => exact .inl rfl
  | case2 n ev rest c skipped ih =>
    refine ih.imp id ?_
    rintro ⟨later, mem, last⟩
    exact ⟨later, mem_cons_of_mem _ mem, last⟩
  | case3 n ev rest c new c' seen ih | case4 n ev rest c new c' unseen missing ih => exact .inr (further ih)
  | case5 n ev rest => exact .inr ⟨ev, mem_cons_self, rfl⟩
  | case6 n ev rest c new c' unseen msg found matching c'' room ih
  | case7 n ev rest c new c' unseen msg found other ih => exact .inr (further ih)

/-- Messages and events are numbered, and no consumer is ahead of the events. -/
structure SecureBus.Numbered (s : SecureBus) : Prop where
  messages : ∀ id, Serial.Numbered SecureMessage.id (s.topics.messages id)
  events : ∀ id, Serial.Numbered SecureEvent.id (s.topics.events id)
  cursor : ∀ id consumer, s.topics.lastEventID id consumer ≤ (s.topics.events id).length

theorem numbered_update {α number f id} {x : α}
    (h : ∀ other, Serial.Numbered number (f other)) (next : number x = (f id).length + 1) (other : String) :
    Serial.Numbered number (update f id (f id ++ [x]) other) := by
  by_cases same : other = id
  · subst same
    rw [update_self]
    exact (h other).append next
  · rw [update_of_ne same]
    exact h other

theorem length_update {α : Type} (f : String → List α) (id : String) (x : α) (other : String) :
    (f other).length ≤ (update f id (f id ++ [x]) other).length := by
  by_cases same : other = id
  · subst same
    simp
  · rw [update_of_ne same]

namespace SecureBus.Numbered
variable {s : SecureBus}

section
variable (h : s.Numbered)
include h

theorem store (objectID : String) (m : SecureMessage) : Numbered { s with topics := s.topics.store objectID m } := by
  refine ⟨numbered_update h.messages rfl, numbered_update h.events rfl, fun id consumer => ?_⟩
  exact (h.cursor id consumer).trans (Int.ofNat_le.mpr (length_update _ _ _ _))

theorem addAttestation (objectID : String) (att : Attestation) :
    Numbered { s with topics := (addAttestation objectID att s.topics).1 } := by
  refine ⟨h.messages, numbered_update h.events rfl, fun id consumer => ?_⟩
  exact (h.cursor id consumer).trans (Int.ofNat_le.mpr (length_update _ _ _ _))

theorem deliver (orders : Nat → Nat → Nat → Nat) (objectID consumer : String) (doc : Document)
    (cond : Condition) (max : Nat) :
    Numbered { s with topics := (Topics.deliver orders objectID consumer doc cond max s.topics).1 } := by
  refine ⟨h.messages, h.events, fun id name => ?_⟩
  simp only [Topics.deliver]
  by_cases topic : id = objectID
  · subst topic
    rw [update_self]
    by_cases own : name = consumer
    · subst own
      rw [update_self]
      rcases scan_last orders (s.topics.messages id) (s.topics.attests id) doc cond max 0 (s.topics.events id)
        ⟨s.topics.lastEventID id name, s.topics.delivered id name, []⟩ with same | ⟨ev, mem, last⟩
      · rw [same]
        exact h.cursor id name
      · rw [last]
        exact (h.events id).le_length mem
    · rw [update_of_ne own]
      exact h.cursor id name
  · rw [update_of_ne topic]
    exact h.cursor id name

theorem findMsg {id m} (mem : m ∈ s.topics.messages id) :
    findMsg (s.topics.messages id) m.id = some m := (h.messages id).find? mem

end

variable [Signing] [PolicyLib] {cfg : SecureConfig}

theorem step {t} {i : CallID} {c} (h : s.Numbered) (moved : i.Step cfg c s t) : t.Numbered := by
  cases i with
  | service =>
    obtain ⟨_, _, rfl⟩ := moved
    exact ⟨h.messages, h.events, h.cursor⟩
  | object =>
    cases moved with
    | idle => exact h
    | policy => exact ⟨h.messages, h.events, h.cursor⟩
    | message => exact h.store _ _
    | attestation => exact h.addAttestation _ _
    | delivery found | poll polled found => exact h.deliver _ _ _ _ _ _

end SecureBus.Numbered

theorem numbered_at [ServiceLib] [Signing] [PolicyLib] {cfg} {kafka : Bool} {events}
    (draws : DrawsKeys cfg (.new kafka) events) (n : Nat) : (busAt cfg (.new kafka) events n).Numbered := by
  induction n with
  | zero => exact ⟨fun _ => Serial.numbered_nil, fun _ => Serial.numbered_nil, fun _ _ => le_rfl⟩
  | succ n ih =>
    rcases step_at draws n with same | ⟨_, _, _, _, _, moved⟩
    · rw [same]
      exact ih
    · exact ih.step moved

section
variable [Signing] {s t : SecureBus} {key : AgentKey} {objectID : String}

def SecureBus.Signs (s : SecureBus) (keyID signature : String) (envelope : Envelope) : Prop :=
  signatureOk (s.keyStore.get keyID) signature envelope = true

theorem AgentKey.Keeps.verifyAgentSig {k k'} (h : k'.Keeps k) (sig : Bytes) (envelope : Envelope) :
    Topics.verifyAgentSig k' sig envelope = Topics.verifyAgentSig k sig envelope := by
  have same : { k' with revokedAt := k.revokedAt } = k := h
  have algorithm := congrArg AgentKey.algorithm same
  have publicKey := congrArg AgentKey.publicKey same
  simp only [Topics.verifyAgentSig, ← algorithm, ← publicKey]

theorem SecureBus.signs_of_key {keyID signature envelope sig}
    (stored : s.keyStore.get keyID = some key) (decoded : decodeB64 signature = some sig)
    (verifies : Topics.verifyAgentSig key sig envelope = true) : s.Signs keyID signature envelope := by
  simp only [SecureBus.Signs, signatureOk, stored, decoded, verifies]

theorem Evolves.signs {keyID signature envelope} (h : Evolves s t)
    (signed : s.Signs keyID signature envelope) : t.Signs keyID signature envelope := by
  unfold SecureBus.Signs signatureOk at signed
  split at signed
  · next key sig stored decoded =>
    obtain ⟨_, stored', keeps⟩ := h.keys keyID key stored
    exact signs_of_key stored' decoded ((keeps.verifyAgentSig sig envelope).trans signed)
  · cases signed

namespace SecureMessage

theorem envelope_link {m : SecureMessage} {hash} (unlinked : m.prevHash = "") :
    { m with prevHash := hash }.envelope = m.envelope ++ if hash ≠ "" then [("prevHash", .text hash)] else [] := by
  by_cases empty : hash = ""
  · simp [envelope, unlinked, empty]
  · simp [envelope, unlinked, empty]

end SecureMessage

namespace Topics

theorem chainMessage_ok {key sig envelope msg linked last} (h : chainMessage key sig envelope msg last = .ok linked) :
    linked = msg ∨ ∃ l, last = some l ∧ msg.prevHash = "" ∧
      verifyAgentSig key sig (envelope ++ [("prevHash", .text l.hash)]) = true ∧
      linked = { msg with
        prevHash := l.hash
        hash := b64 (hashCanonical (envelope ++ [("prevHash", .text l.hash)])) } := by
  unfold chainMessage at h
  split at h
  · cases h
    exact .inl rfl
  · next l =>
    simp only at h
    split at h
    · next unlinked =>
      split at h
      · next verifies =>
        cases h
        exact .inr ⟨l, rfl, unlinked, verifies, rfl⟩
      · cases h
    · split at h
      · cases h
      · cases h
        exact .inl rfl

variable {key : AgentKey} {sig : Bytes} {msg linked : SecureMessage} {last : Option SecureMessage}

theorem chainMessage_signed (h : chainMessage key sig msg.envelope msg last = .ok linked)
    (signed : verifyAgentSig key sig msg.envelope = true) : verifyAgentSig key sig linked.envelope = true := by
  obtain rfl | ⟨l, _, unlinked, verifies, rfl⟩ := chainMessage_ok h
  · exact signed
  · show verifyAgentSig key sig { msg with prevHash := l.hash }.envelope = true
    rw [SecureMessage.envelope_link unlinked]
    split
    · exact verifies
    · rw [append_nil]
      exact signed

theorem chainMessage_fields {envelope} (h : chainMessage key sig envelope msg last = .ok linked) :
    linked.objectID = msg.objectID ∧ linked.authorKeyID = msg.authorKeyID ∧
      linked.policyVersion = msg.policyVersion ∧ linked.signature = msg.signature := by
  obtain rfl | ⟨_, _, _, _, rfl⟩ := chainMessage_ok h <;> exact ⟨rfl, rfl, rfl, rfl⟩

theorem chainMessage_hash (h : chainMessage key sig msg.envelope msg last = .ok linked)
    (hashed : msg.hash = b64 (hashCanonical msg.envelope)) (digest : ∀ l, last = some l → l.hash ≠ "") :
    linked.hash = b64 (hashCanonical linked.envelope) := by
  obtain rfl | ⟨l, found, unlinked, _, rfl⟩ := chainMessage_ok h
  · exact hashed
  · have linkedEnvelope : { msg with prevHash := l.hash }.envelope = msg.envelope ++ [("prevHash", .text l.hash)] := by
      rw [SecureMessage.envelope_link unlinked, if_pos (digest l found)]
    show _ = b64 (hashCanonical { msg with prevHash := l.hash }.envelope)
    rw [linkedEnvelope]

end Topics

structure SecureMessage.Sound (s : SecureBus) (objectID : String) (m : SecureMessage) : Prop where
  objectID : m.objectID = objectID
  hash : m.hash = b64 (hashCanonical m.envelope)
  signed : s.Signs m.authorKeyID m.signature m.envelope

structure Ledger (s : SecureBus) : Prop where
  messages : ∀ id, ∀ m ∈ s.topics.messages id, m.Sound s id
  attests : ∀ id, ∀ a ∈ s.topics.attests id, s.Signs a.signerKeyID a.signature a.envelope

theorem SecureMessage.Sound.moved {m : SecureMessage} (h : m.Sound s objectID)
    (moved : Evolves s t) : m.Sound t objectID := ⟨h.objectID, h.hash, moved.signs h.signed⟩

theorem Ledger.moved (h : Ledger s) (moved : Evolves s t) (messages : t.topics.messages = s.topics.messages)
    (attests : t.topics.attests = s.topics.attests) : Ledger t where
  messages id m mem := by
    rw [messages] at mem
    exact (h.messages id m mem).moved moved
  attests id a mem := by
    rw [attests] at mem
    exact moved.signs (h.attests id a mem)

theorem Granted.signs {cfg order now signature request pol sig envelope}
    (h : Granted Evolves cfg order now objectID request s key pol) (decoded : decodeB64 signature = some sig)
    (verifies : Topics.verifyAgentSig key sig envelope = true) : s.Signs request.keyID signature envelope := by
  obtain ⟨_, before, stored⟩ := h.known
  exact before.signs (signs_of_key stored decoded verifies)

end

section
variable [Signing] {s : SecureBus} {cfg : SecureConfig} {order : Nat → Nat} {checked now : Time} {scope : Scope}
  {key : AgentKey} {pol : SignedPolicy} {sig : Bytes} {a : Attestation} {R : SecureBus → SecureBus → Prop} {t : SecureBus}

theorem Ledger.publish {input : PublishInput}
    {linked} (h : Ledger s) (digests : ∀ e : Envelope, b64 (hashCanonical e) ≠ "")
    (found : Publishable Evolves cfg order checked now scope input s key pol sig)
    (chained : chainMessage key sig (input.message now scope.objectID).envelope (input.message now scope.objectID)
      (if pol.document.chain then (s.topics.messages scope.objectID).getLast? else none) = .ok linked) :
    Ledger { s with topics := s.topics.store scope.objectID linked } := by
  have moved := Evolves.store scope.objectID linked s
  have lastHash : ∀ l, (if pol.document.chain then (s.topics.messages scope.objectID).getLast? else none) = some l →
      l.hash ≠ "" := by
    intro l last
    split at last
    · rw [(h.messages _ l (mem_of_getLast? last)).hash]
      exact digests l.envelope
    · cases last
  have hash := chainMessage_hash chained rfl lastHash
  have verifies := chainMessage_signed chained found.signed
  obtain ⟨objectID, authorKeyID, _, signature⟩ := chainMessage_fields chained
  have signed := found.granted.signs found.decoded verifies
  have sound : (s.topics.numbered scope.objectID linked).Sound s scope.objectID := by
    refine ⟨objectID, hash, ?_⟩
    show s.Signs linked.authorKeyID linked.signature linked.envelope
    rw [authorKeyID, signature]
    exact signed
  refine ⟨fun id m mem => ?_, fun id a mem => moved.signs (h.attests id a mem)⟩
  by_cases same : id = scope.objectID
  · subst same
    simp only [store, update_self, mem_append, mem_singleton] at mem
    rcases mem with old | rfl
    · exact (h.messages _ m old).moved moved
    · exact sound.moved moved
  · simp only [store, update_of_ne same] at mem
    exact (h.messages id m mem).moved moved

theorem Attestation.signs_supersede {att} (h : s.Signs a.signerKeyID a.signature a.envelope) :
    s.Signs (supersede att a).signerKeyID (supersede att a).signature (supersede att a).envelope := by
  unfold supersede
  split <;> exact h

theorem Ledger.attest {input : AttestInput} {msg}
    (h : Ledger s) (found : Attestable Evolves cfg order checked now scope input s key pol msg sig) :
    Ledger { s with topics := (addAttestation scope.objectID
      (input.attestation now scope.objectID msg) s.topics).1 } := by
  have moved := Evolves.addAttestation scope.objectID (input.attestation now scope.objectID msg) s
  have signed := found.granted.signs found.decoded found.signed
  refine ⟨fun id m mem => (h.messages id m mem).moved moved, fun id a mem => ?_⟩
  by_cases same : id = scope.objectID
  · subst same
    simp only [addAttestation, update_self, mem_append, mem_map, mem_singleton] at mem
    rcases mem with ⟨old, mem, rfl⟩ | rfl
    · exact moved.signs (Attestation.signs_supersede (h.attests _ old mem))
    · exact moved.signs signed
  · simp only [addAttestation, update_of_ne same] at mem
    exact moved.signs (h.attests id a mem)

theorem Published.stored {order checked now scope input s m}
    (h : Published cfg R order checked now scope input s m t) : m ∈ t.topics.messages scope.objectID := by
  obtain ⟨_, _, _, _, _, _, rfl, rfl⟩ := h
  simp [store]

theorem Attested.stored {order checked now scope input s}
    (h : Attested cfg R order checked now scope input s a t) : a ∈ t.topics.attests scope.objectID := by
  obtain ⟨_, _, _, _, _, added⟩ := h
  obtain ⟨after, result⟩ := Prod.mk.inj added
  cases result
  rw [← after]
  simp

theorem ledger_new (kafkaConfigured : Bool) : Ledger (Services.new kafkaConfigured).secureBus where
  messages _ _ mem := by cases mem
  attests _ _ mem := by cases mem

variable [PolicyLib]

theorem Ledger.step (digests : ∀ e : Envelope, b64 (hashCanonical e) ≠ "")
    {i : CallID} {c} (h : Ledger s) (moved : i.Step cfg c s t) : Ledger t := by
  have evolved := moved.evolves
  cases i with
  | service =>
    obtain ⟨_, _, rfl⟩ := moved
    exact h.moved evolved rfl rfl
  | object =>
    cases moved with
    | idle => exact h
    | policy => exact h.moved evolved rfl rfl
    | message found chained => exact h.publish digests found chained
    | attestation found => exact h.attest found
    | delivery found | poll polled found => exact h.moved evolved rfl rfl

end

namespace SecureBus
variable [Signing] {s : SecureBus}

/-- What `Verify` finds of an attestation, in one state. -/
def checkOf (s : SecureBus) (a : Attestation) : AttestationCheck :=
  { signerKeyID := a.signerKeyID, status := a.status,
    signatureOk := signatureOk (s.keyStore.get a.signerKeyID) a.signature a.envelope,
    keyRevokedAt := (s.keyStore.get a.signerKeyID).bind AgentKey.revokedAt, superseded := a.supersededAt.isSome }

theorem verify_exec {scope msg} (kind : scope.kind = .securebus)
    (found : findMsg (s.topics.messages scope.objectID) msg.id = some msg) (own : msg.objectID = scope.objectID) :
    (verify scope msg.id).run.exec s =
      (s, .ok
        { message := msg
          attestations := (s.topics.attests scope.objectID).filter fun a => a.messageID = msg.id
          signatureOk := signatureOk (s.keyStore.get msg.authorKeyID) msg.signature msg.envelope
          hashOk := b64 (hashCanonical msg.envelope) = msg.hash
          policyVersion := msg.policyVersion
          attestationChecks :=
            ((s.topics.attests scope.objectID).filter fun a => a.messageID = msg.id).map s.checkOf }) := by
  have required : (Try.require (scope.kind = .securebus) errKindMismatch : Try SecureBus Unit).run.exec s =
      (s, .ok ()) := by
    rw [Try.require, if_pos kind]
    rfl
  have read : (getMessage scope msg.id).run.exec s = (s, .ok msg) := by
    have stored : Topics.getMessage scope.objectID msg.id s.topics = .ok msg := by
      simp only [Topics.getMessage, found]
    exact congrArg (Prod.mk s) stored
  have checked := Try.exec_each (f := checkAttestation) (g := s.checkOf) (s := s) (fun _ => rfl)
    ((s.topics.attests scope.objectID).filter fun a => a.messageID = msg.id)
  refine (Try.exec_bind required).trans ((Try.exec_bind read).trans ?_)
  refine (Try.exec_bind (p := onTopics _) rfl).trans ((Try.exec_bind (p := lookupKey _) rfl).trans ?_)
  refine (Try.exec_bind checked).trans ?_
  rw [← own]
  rfl

end SecureBus

section
variable [ServiceLib] [Signing] [PolicyLib] {cfg : SecureConfig} {kafka : Bool}
  {events : List ServiceEvent}

theorem ledger_at (digests : ∀ e : Envelope, b64 (hashCanonical e) ≠ "")
    (draws : DrawsKeys cfg (.new kafka) events) (n : Nat) : Ledger (busAt cfg (.new kafka) events n) := by
  induction n with
  | zero => exact ledger_new kafka
  | succ n ih =>
    rcases step_at draws n with same | ⟨_, _, _, _, _, moved⟩
    · rw [same]
      exact ih
    · exact ih.step digests moved

/-- A message that `Publish` has accepted, chained or not, verifies in every later
state, and so does every attestation of it that `Attest` has accepted by then. -/
theorem accepted_records_verify (digests : ∀ e : Envelope, Signing.b64 (Signing.hashCanonical e) ≠ "")
    (draws : DrawsKeys cfg (Services.new kafka) events) {n : Nat} {principal objectID : String} {k : Nat}
    {order : Nat → Nat} {checked now : Time} {scope : ScopeOf objectID} {input : PublishInput} {m : SecureMessage}
    (accepted : Ends (CallID.prog cfg) (Services.new kafka) events n (.object principal objectID k)
      (.publish order checked now scope input) (.message (.ok m)))
    {later : Nat} (after : n < later) (reader : ScopeOf objectID) (kind : reader.val.kind = .securebus) :
    ∃ v, (SecureBus.verify reader m.id).run.exec (busAt cfg (Services.new kafka) events later) =
        (busAt cfg (Services.new kafka) events later, .ok v) ∧
      v.message = m ∧ v.hashOk = true ∧ v.signatureOk = true ∧
      (∀ check ∈ v.attestationChecks, check.signatureOk = true) ∧
      ∀ n' principal' k' order' checked' now' (scope' : ScopeOf objectID) input' a, n' < later →
        Ends (CallID.prog cfg) (Services.new kafka) events n' (.object principal' objectID k')
          (.attest order' checked' now' scope' input') (.attestation (.ok a)) →
        a.messageID = m.id →
        ∃ (j : Nat) (stored : Attestation) (check : AttestationCheck), v.attestations[j]? = some stored ∧
          stored.unmarked = a.unmarked ∧ v.attestationChecks[j]? = some check ∧
          check.signerKeyID = a.signerKeyID ∧ check.signatureOk = true := by
  have ledger := ledger_at digests draws later
  have published : Published cfg Evolves order checked now scope input (busAt cfg (.new kafka) events n) m
    (busAt cfg (.new kafka) events (n + 1)) := post_at draws accepted
  have stored := ((evolves_at draws after).messages objectID).subset (scope.property ▸ published.stored)
  have sound := ledger.messages objectID m stored
  have signs : ∀ a ∈ (busAt cfg (.new kafka) events later).topics.attests objectID,
      ((busAt cfg (.new kafka) events later).checkOf a).signatureOk = true := ledger.attests objectID
  have found := (numbered_at draws later).findMsg stored
  obtain ⟨reader, rfl⟩ := reader
  refine ⟨_, verify_exec kind found sound.objectID, rfl, ?_, sound.signed, ?_, ?_⟩
  · exact decide_eq_true sound.hash.symm
  · intro check mem
    obtain ⟨a, listed, rfl⟩ := List.mem_map.mp mem
    exact signs a (mem_of_mem_filter listed)
  · intro n' principal' k' order' checked' now' scope' input' a earlier attested own
    have added : Attested cfg Evolves order' checked' now' scope' input' (busAt cfg (.new kafka) events n') a
      (busAt cfg (.new kafka) events (n' + 1)) := post_at draws attested
    have listed := mem_map_of_mem (f := Attestation.unmarked) (scope'.property ▸ added.stored)
    obtain ⟨a', mem, same⟩ := List.mem_map.mp (((evolves_at draws earlier).attests reader.objectID).subset listed)
    have messageID : a'.messageID = m.id := (congrArg Attestation.messageID same).trans own
    have kept : a' ∈ ((busAt cfg (.new kafka) events later).topics.attests reader.objectID).filter
        fun a => a.messageID = m.id := List.mem_filter.mpr ⟨mem, decide_eq_true messageID⟩
    obtain ⟨j, at_j⟩ := mem_iff_getElem?.mp kept
    refine ⟨j, a', _, at_j, same, ?_, congrArg Attestation.signerKeyID same, signs a' mem⟩
    simp only [getElem?_map, at_j, Option.map_some]

end

def annPublishes : List ServiceEvent :=
  annSetsUp (sampleDocument true) ++
    CallID.alone (.object "ann" "t" 1) (.publish id 2 2 (secureScope "t") (samplePublication "n" "h")) 4 ++
    CallID.alone (.object "ann" "t" 2) (.attest id 3 3 (secureScope "t") (sampleAttestation 1 "ok")) 5

theorem ann_publication_verifies :
    ∃ v, (@SecureBus.verify .echo (secureScope "t") 1).run.exec
        (@busAt .plain .echo .plain sampleConfig (.new false) annPublishes 19) =
          (@busAt .plain .echo .plain sampleConfig (.new false) annPublishes 19, .ok v) ∧
      v.hashOk = true ∧ v.signatureOk = true ∧ v.attestationChecks.map AttestationCheck.signatureOk = [true] := by
  obtain ⟨v, verified, _, hashOk, signatureOk, _⟩ := @accepted_records_verify .plain .echo .plain sampleConfig false
    annPublishes echo_digests (by decide) 12 "ann" "t" 1 _ _ _ _ _ sampleMessage
    ⟨rfl, rfl, rfl, rfl⟩ 19 (by decide) (secureScope "t") rfl
  refine ⟨v, verified, hashOk, signatureOk, ?_⟩
  cases verified
  rfl

end SynaMcp
