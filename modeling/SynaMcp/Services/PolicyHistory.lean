import SynaMcp.Services.LedgerForm
import SynaMcp.Services.TableLedger

/-! The policies of a topic in memory. A policy is stored as it was given, so it
describes the registered keys only if the caller has copied them. A message is stored
with the hash that its author gave, which is not compared where it is omitted or where
the version is the one before. -/
namespace SynaMcp
open Keyed Sections Signing Topics Function

/-- The versions of a topic's policy count from one, each with its own document. -/
structure Topics.History [Signing] [PolicyLib] (s : Topics) (topic : String) : Prop where
  versions : Serial.Numbered SignedPolicy.version (s.policies topic)
  documents : ∀ sp ∈ s.policies topic, sp.document.version = sp.version ∧ sp.document.schema = policySchemaID ∧
    sp.document.topicID = topic
  hashes : ∀ sp ∈ s.policies topic, sp.hash = b64 (PolicyLib.hashDocument sp.document)

section
variable [Signing]

def AgentRef.Describes (r : AgentRef) (k : AgentKey) : Prop :=
  r.alg = k.algorithm ∧ decodeB64 r.publicKey = some k.publicKey

/-- Whether a signature verifies with what the policy says of the agent. -/
def AgentRef.verifies (r : AgentRef) (sig : Bytes) (envelope : Envelope) : Bool :=
  match decodeB64 r.publicKey with
  | none => false
  | some publicKey =>
    let digest := hashCanonical envelope
    if r.alg = "" ∨ r.alg = "ed25519" then verifyEd25519 publicKey digest sig
    else if r.alg = "ecdsa-p256" then verifyECDSAP256 publicKey digest sig
    else false

theorem AgentRef.Describes.verifies {r : AgentRef} {k} (h : r.Describes k) (sig : Bytes)
    (envelope : Envelope) : r.verifies sig envelope = verifyAgentSig k sig envelope := by
  obtain ⟨alg, publicKey⟩ := h
  simp only [AgentRef.verifies, publicKey, alg, verifyAgentSig]

theorem AgentRef.Describes.of_verifier {r : AgentRef} {k k'} (same : k'.verifier = k.verifier) :
    r.Describes k' ↔ r.Describes k := by
  obtain ⟨algorithm, publicKey⟩ := Prod.mk.inj same
  rw [Describes, Describes, algorithm, publicKey]

namespace Document
variable {doc : Document} {key key' : String → Option AgentKey}

/-- Every agent of the policy has a registered key, as the policy describes it: what
verifies by the policy is what the server accepts. -/
def DescribesKeys (doc : Document) (key : String → Option AgentKey) : Prop :=
  ∀ a ∈ doc.agents.rows, ∃ k, key a.2.keyID = some k ∧ a.2.Describes k ∧
    ∀ sig envelope, a.2.verifies sig envelope = verifyAgentSig k sig envelope

def CopiesKeys (doc : Document) (key : String → Option AgentKey) : Prop :=
  ∀ a ∈ doc.agents.rows, ∀ k ∈ key a.2.keyID, a.2.Describes k

/-- Keys that were there when the policy was stored are there later, and verify what
they did. -/
theorem describesKeys_iff (known : ∀ a ∈ doc.agents.rows, ∃ k, key a.2.keyID = some k)
    (kept : ∀ keyID k, key keyID = some k → ∃ k', key' keyID = some k' ∧ k'.verifier = k.verifier) :
    doc.DescribesKeys key' ↔ doc.CopiesKeys key := by
  constructor
  · intro described a mem k stored
    obtain ⟨_, stored', same⟩ := kept _ k stored
    obtain ⟨_, stored'', describes, _⟩ := described a mem
    obtain rfl := Option.some.inj (stored'.symm.trans stored'')
    exact (AgentRef.Describes.of_verifier same).mp describes
  · intro copied a mem
    obtain ⟨k, stored⟩ := known a mem
    obtain ⟨k', stored', same⟩ := kept _ k stored
    have describes := (AgentRef.Describes.of_verifier same).mpr (copied a mem k stored)
    exact ⟨k', stored', describes, describes.verifies⟩

end Document
end

section
variable [Signing] [PolicyLib] {cfg : SecureConfig} {s t : SecureBus} {topic : String}

theorem Topics.History.nextVersion_eq {s : Topics} (h : s.History topic) :
    s.nextVersion topic = (s.policies topic).length + 1 := by
  unfold nextVersion
  split
  · next last found =>
    rw [h.versions.getLast? found]
  · next none =>
    rw [List.getLast?_eq_none_iff.mp none]
    rfl

theorem Topics.History.step {i : CallID} {c} (h : s.topics.History topic) (moved : i.Step cfg c s t) :
    t.topics.History topic := by
  cases i with
  | service =>
    obtain ⟨_, _, rfl⟩ := moved
    exact h
  | object =>
    cases moved with
    | idle | message | attestation | delivery | poll => exact ⟨h.versions, h.documents, h.hashes⟩
    | @policy _ _ _ scope _ sp _ _ _ issues =>
      by_cases same : topic = scope.val.objectID
      · subst same
        have after : (s.topics.issue scope.val.objectID sp).policies scope.val.objectID =
            s.topics.policies scope.val.objectID ++ [sp] := update_self _ _ _
        refine ⟨?_, fun p mem => ?_, fun p mem => ?_⟩
        · rw [after]
          exact h.versions.append (issues.version.trans h.nextVersion_eq)
        all_goals
          rw [after] at mem
          rcases List.mem_append.mp mem with old | new
        · exact h.documents p old
        · cases List.mem_singleton.mp new
          rw [issues.document]
          exact ⟨rfl, rfl, rfl⟩
        · exact h.hashes p old
        · cases List.mem_singleton.mp new
          exact issues.hash
      · have before : (s.topics.issue scope.val.objectID sp).policies topic = s.topics.policies topic :=
          update_of_ne same _ _
        constructor
        all_goals rw [before]
        · exact h.versions
        · exact h.documents
        · exact h.hashes

end

section
variable [ServiceLib] [Signing] [PolicyLib] (cfg : SecureConfig) (store : Services) (events : List ServiceEvent)
  (topic : String)

/-- The event of that number of the run is the section of a `PutPolicy` of the document
that stores it, as the policy `sp`. -/
structure PutAt (n : Nat) (doc : Document) (sp : SignedPolicy) : Prop where
  called : ∃ principal k orders issued now scope, events[n]? = some (.advance (.object principal topic k)) ∧
    (Journal.before (CallID.prog cfg) store events n).made (.object principal topic k) =
      some (.putPolicy orders issued now scope doc)
  agents : sp.document.agents = doc.agents
  known : ∀ a ∈ doc.agents.rows, ∃ k, (busAt cfg store events n).keyStore.get a.2.keyID = some k
  appends : (busAt cfg store events (n + 1)).topics.policies topic = (busAt cfg store events n).topics.policies topic ++ [sp]

end

section
variable [ServiceLib] [Signing] [PolicyLib] {cfg : SecureConfig} {kafka : Bool} {events : List ServiceEvent}
  {topic : String} (draws : DrawsKeys cfg (.new kafka) events)
include draws

theorem history_at (n : Nat) : (busAt cfg (.new kafka) events n).topics.History topic := by
  induction n with
  | zero =>
    refine ⟨Serial.numbered_nil, fun sp mem => ?_, fun sp mem => ?_⟩
    all_goals cases mem
  | succ n ih =>
    rcases step_at draws n with same | ⟨_, _, _, _, _, moved⟩
    · rw [same]
      exact ih
    · exact ih.step moved

theorem policies_step (n : Nat) : (busAt cfg (.new kafka) events (n + 1)).topics.policies topic =
        (busAt cfg (.new kafka) events n).topics.policies topic ∨
      ∃ sp doc, PutAt cfg (.new kafka) events topic n doc sp := by
  rcases topics_step_at draws n with same | ⟨principal, objectID, k, _, event, made, _, moved⟩
  · exact .inl (by rw [same])
  · generalize after : busAt cfg (.new kafka) events (n + 1) = t at moved
    cases moved with
    | idle | message | attestation | delivery | poll => exact .inl rfl
    | @policy orders issued now scope doc sp _ _ keys issues =>
      by_cases same : topic = objectID
      · subst same
        refine .inr ⟨sp, doc, ⟨principal, k, orders, issued, now, scope, event, made⟩, ?_, fun a mem => ?_, ?_⟩
        · rw [issues.document]
          rfl
        · obtain ⟨_, key, before, stored, _⟩ := keys a mem
          obtain ⟨key', stored', _⟩ := before.keys _ key stored
          exact ⟨key', stored'⟩
        · rw [after]
          simp only [issue]
          rw [scope.property, update_self]
      · left
        simp only [issue]
        rw [update_of_ne fun equal => same (equal.trans scope.property)]

theorem put_iff {n sp} : sp ∈ (busAt cfg (.new kafka) events n).topics.policies topic ↔
      ∃ k < n, ∃ doc, PutAt cfg (.new kafka) events topic k doc sp :=
  Serial.mem_iff_accepted (fun n => (busAt cfg (.new kafka) events n).topics.policies topic)
    (fun k sp => ∃ doc, PutAt cfg (.new kafka) events topic k doc sp) rfl (policies_step draws)
    fun _ _ ⟨_, put⟩ => put.appends

/-- A policy describes the registered keys, then and later, if it was given so. -/
theorem PutAt.describes_iff {k n doc sp} (h : PutAt cfg (.new kafka) events topic k doc sp) (lt : k < n) :
    sp.document.DescribesKeys (busAt cfg (.new kafka) events n).keyStore.get ↔
      doc.CopiesKeys (busAt cfg (.new kafka) events k).keyStore.get := by
  have same : sp.document.DescribesKeys (busAt cfg (.new kafka) events n).keyStore.get ↔
      doc.DescribesKeys (busAt cfg (.new kafka) events n).keyStore.get := by
    rw [Document.DescribesKeys, Document.DescribesKeys, h.agents]
  refine same.trans (Document.describesKeys_iff h.known fun keyID key stored => ?_)
  obtain ⟨key', stored', keeps⟩ := (evolves_at draws (Nat.le_of_lt lt)).keys keyID key stored
  refine ⟨key', stored', ?_⟩
  rw [← show { key' with revokedAt := key.revokedAt } = key from keeps]
  rfl

end

def SecureMessage.CitesPolicy (m : SecureMessage) (policies : List SignedPolicy) : Prop :=
  ∃ sp ∈ policies, sp.version = m.policyVersion ∧ m.policyHash = sp.hash

instance (m : SecureMessage) (policies : List SignedPolicy) : Decidable (m.CitesPolicy policies) :=
  inferInstanceAs (Decidable (∃ sp ∈ policies, sp.version = m.policyVersion ∧ m.policyHash = sp.hash))

/-- The request gives a hash, and where it cites a version that is not the last one, the
hash of that version. -/
def PublishInput.GivesHash (input : PublishInput) (policies : List SignedPolicy) : Prop :=
  input.policyHash ≠ "" ∧ ∀ last ∈ policies.getLast?, input.policyVersion ≠ last.version →
    ∀ sp ∈ policies, sp.version = input.policyVersion → input.policyHash = sp.hash

theorem acceptPolicyVersion_cases {cfg now cur version hash}
    (h : acceptPolicyVersion cfg now cur version hash = .ok ()) :
    version = cur.version ∧ (hash = "" ∨ hash = cur.hash) ∨ version = cur.version - 1 := by
  unfold acceptPolicyVersion at h
  split at h
  · next current => exact .inl current
  · split at h
    · next previous => exact .inr previous.1
    · cases h

theorem Topics.getPolicy_zero {topic s cur} (h : getPolicy topic 0 s = .ok cur) : cur ∈ s.policies topic := by
  unfold getPolicy at h
  split at h
  · cases h
  · next last found =>
    cases h
    exact List.mem_of_getLast? found

section
variable [ServiceLib] [Signing] [PolicyLib] (cfg : SecureConfig) (store : Services) (events : List ServiceEvent)
  (topic : String)

/-- The event of that number of the run ends a `Publish` of the input in the topic with the message. -/
def PublishesAt (n : Nat) (input : PublishInput) (m : SecureMessage) : Prop :=
  ∃ principal k order checked now scope, Ends (CallID.prog cfg) store events n (.object principal topic k)
    (.publish order checked now scope input) (.message (.ok m))

end

section
variable [ServiceLib] [Signing] [PolicyLib] {cfg : SecureConfig} {kafka : Bool} {events : List ServiceEvent}
  {topic : String} {n : Nat} {m : SecureMessage} {input : PublishInput}

omit [ServiceLib] in
theorem Granted.hash_iff (digests : ∀ d, b64 (PolicyLib.hashDocument d) ≠ "") {order now request s key pol} (history : s.topics.History topic) (h : Granted Evolves cfg order now topic request s key pol) :
    request.hash = pol.hash ↔ request.hash ≠ "" ∧ ∀ last ∈ (s.topics.policies topic).getLast?, request.version ≠ last.version →
      ∀ sp ∈ s.topics.policies topic, sp.version = request.version → request.hash = sp.hash := by
  obtain ⟨mem, version⟩ := h.policy_mem
  obtain ⟨_, _, before, current, accepted⟩ := h.current
  have seen := (before.policies topic).subset (getPolicy_zero current)
  have hashed : request.hash = pol.hash → request.hash ≠ "" := by
    intro same
    rw [same, history.hashes pol mem]
    exact digests _
  rw [← version]
  by_cases given : request.hash = ""
  · exact ⟨fun same => absurd given (hashed same), fun h => absurd given h.1⟩
  · rw [and_iff_right given]
    refine history.versions.holds_iff (P := fun sp => request.hash = sp.hash) mem seen ?_
    rw [version]
    exact (acceptPolicyVersion_cases accepted).imp (fun is => ⟨is.1, is.2.resolve_left given⟩) id

theorem publishedAt_iff {store} :
    PublishedAt cfg store events topic n m ↔ ∃ input, PublishesAt cfg store events topic n input m := by
  constructor
  · rintro ⟨principal, k, order, checked, now, scope, input, ended⟩
    exact ⟨input, principal, k, order, checked, now, scope, ended⟩
  · rintro ⟨input, principal, k, order, checked, now, scope, ended⟩
    exact ⟨principal, k, order, checked, now, scope, input, ended⟩

variable (draws : DrawsKeys cfg (.new kafka) events)
include draws

theorem PublishesAt.nonce (h : PublishesAt cfg (.new kafka) events topic n input m) : m.nonce = input.nonce := by
  obtain ⟨_, _, order, checked, now, scope, ended⟩ := h
  obtain ⟨_, _, _, _, _, chained, rfl, _⟩ : Published cfg Evolves order checked now scope input _ m _ :=
    post_at draws ended
  obtain rfl | ⟨_, _, _, _, rfl⟩ := chainMessage_ok chained <;> rfl

/-- A message cites its policy, then and later, if its author gave the hash. -/
theorem PublishesAt.cites_iff (digests : ∀ d, b64 (PolicyLib.hashDocument d) ≠ "") {k}
    (h : PublishesAt cfg (.new kafka) events topic k input m) (lt : k < n) :
    m.CitesPolicy ((busAt cfg (.new kafka) events n).topics.policies topic) ↔
      input.GivesHash ((busAt cfg (.new kafka) events k).topics.policies topic) := by
  obtain ⟨_, _, order, checked, now, ⟨scope, rfl⟩, ended⟩ := h
  obtain ⟨_, pol, _, linked, found, chained, rfl, _⟩ : Published cfg Evolves order checked now scope input _ m _ :=
    post_at draws ended
  have fields : linked.policyVersion = input.policyVersion ∧ linked.policyHash = input.policyHash := by
    obtain rfl | ⟨_, _, _, _, rfl⟩ := chainMessage_ok chained <;> exact ⟨rfl, rfl⟩
  have hash := found.granted.hash_iff digests (history_at draws k)
  obtain ⟨mem, version⟩ := found.granted.policy_mem
  have later := ((evolves_at draws (Nat.le_of_lt lt)).policies _).subset mem
  refine Iff.trans ⟨?_, fun same => ⟨pol, later, version.trans fields.1.symm, fields.2.trans same⟩⟩ hash
  rintro ⟨sp, stored, cited, given⟩
  have same := (history_at draws n).versions.inj stored later (cited.trans (fields.1.trans version.symm))
  exact fields.2.symm.trans (given.trans (congrArg SignedPolicy.hash same))

theorem nonces_iff : (((busAt cfg (.new kafka) events n).topics.messages topic).map SecureMessage.nonce).Nodup ↔
      ∀ k < n, ∀ input m, PublishesAt cfg (.new kafka) events topic k input m →
        ∀ m' ∈ (busAt cfg (.new kafka) events k).topics.messages topic, m'.nonce ≠ input.nonce := by
  refine (Serial.nodup_map_iff_accepted (fun n => (busAt cfg (.new kafka) events n).topics.messages topic)
    (PublishedAt cfg (.new kafka) events topic) SecureMessage.nonce rfl (messages_step draws)
    fun _ _ => PublishedAt.appends draws).trans (forall_congr' fun k => forall_congr' fun _ => ?_)
  constructor
  · intro new input m publishes m' mem same
    refine new m (publishedAt_iff.mpr ⟨input, publishes⟩) (List.mem_map.mpr ⟨m', mem, ?_⟩)
    exact same.trans (publishes.nonce draws).symm
  · intro new m published stored
    obtain ⟨input, publishes⟩ := publishedAt_iff.mp published
    obtain ⟨m', mem, same⟩ := List.mem_map.mp stored
    exact new input m publishes m' mem (same.trans (publishes.nonce draws))

end
end SynaMcp
