import Mathlib.Data.List.Chain
import SynaMcp.Services.Delivery

/-! The shape of the records of a secure bus in memory: the chain of the messages of a
topic, and how messages, attestations and events belong together. -/
namespace SynaMcp
open Keyed Sections List Serial Topics
variable (s : Topics) (topic : String)

def Topics.Chained : Prop := (s.messages topic).IsChain fun a b => b.prevHash = a.hash

section
variable [Signing]

theorem Topics.chainMessage_links {key sig envelope msg linked l}
    (h : chainMessage key sig envelope msg (some l) = .ok linked) : linked.prevHash = l.hash := by
  simp only [chainMessage] at h
  split at h
  · split at h
    · cases h
      rfl
    · cases h
  · split at h
    · cases h
    · next same =>
      cases h
      exact not_not.mp same

omit [Signing] in
theorem Granted.policy_mem {cfg order now topic request s key pol}
    (h : Granted Evolves cfg order now topic request s key pol) :
    pol ∈ s.topics.policies topic ∧ pol.version = request.version := by
  obtain ⟨_, before, loaded⟩ := h.cited
  unfold loadPolicyVersion at loaded
  split at loaded
  · next found =>
    cases loaded
    have version : pol.version = request.version := by simpa using find?_some found
    exact ⟨(before.policies topic).subset (mem_of_find?_eq_some found), version⟩
  · cases loaded

variable [PolicyLib] {cfg : SecureConfig} {s t : SecureBus} {topic : String}

theorem Topics.Chained.step {i : CallID} {c} (h : s.topics.Chained topic)
    (on : ∀ sp ∈ s.topics.policies topic, sp.document.chain = true) (moved : i.Step cfg c s t) :
    t.topics.Chained topic := by
  cases i with
  | service =>
    obtain ⟨_, _, rfl⟩ := moved
    exact h
  | object =>
    cases moved with
    | idle | policy kind valid keys issues => exact h
    | @message _ _ _ scope _ _ pol _ _ found chained =>
      unfold Topics.Chained at h ⊢
      by_cases same : topic = scope.val.objectID
      · subst same
        rw [if_pos (on pol found.granted.policy_mem.1)] at chained
        simp only [Topics.store, Function.update_self]
        refine List.isChain_append.mpr ⟨h, isChain_singleton _, fun a last b new => ?_⟩
        cases Option.some.inj new
        rw [Option.mem_def.mp last] at chained
        have links := chainMessage_links chained
        exact links
      · simp only [Topics.store, Function.update_of_ne same]
        exact h
    | attestation found | delivery found | poll polled found => exact h

end

section
variable [ServiceLib] [Signing] [PolicyLib] {cfg : SecureConfig} {kafka : Bool} {events : List ServiceEvent}

/-- Where every version of the policy has the chain on, the chain is unbroken, and the
hash of every message is that of its own envelope, with the link in it. -/
theorem memory_chain_unbroken (digests : ∀ e : Envelope, Signing.b64 (Signing.hashCanonical e) ≠ "")
    (draws : DrawsKeys cfg (Services.new kafka) events) {topic : String} {n : Nat}
    (on : ∀ sp ∈ (busAt cfg (Services.new kafka) events n).topics.policies topic, sp.document.chain = true) :
    ((busAt cfg (Services.new kafka) events n).topics.messages topic).IsChain (fun a b => b.prevHash = a.hash) ∧
      ∀ m ∈ (busAt cfg (Services.new kafka) events n).topics.messages topic,
        m.hash = Signing.b64 (Signing.hashCanonical m.envelope) := by
  refine ⟨?_, fun m mem => ((ledger_at digests draws n).messages topic m mem).hash⟩
  show (busAt cfg (.new kafka) events n).topics.Chained topic
  induction n with
  | zero => exact isChain_nil
  | succ n ih =>
    have earlier : ∀ sp ∈ (busAt cfg (.new kafka) events n).topics.policies topic,
        sp.document.chain = true :=
      fun sp mem => on sp (((evolves_at draws (Nat.le_succ n)).policies topic).subset mem)
    rcases step_at draws n with same | ⟨_, _, _, _, _, moved⟩
    · rw [same]
      exact ih earlier
    · exact (ih earlier).step earlier moved

end

def annLinks : List ServiceEvent :=
  annSetsUp (sampleDocument true) ++
    CallID.alone (.object "ann" "t" 1) (.publish id 2 2 (secureScope "t") (samplePublication "n" "h")) 4 ++
    CallID.alone (.object "ann" "t" 2)
      (.publish id 3 3 (secureScope "t") { samplePublication "m" "i" with prevHash := "h" }) 4

theorem ann_links_her_messages :
    ((@busAt .plain .echo .plain sampleConfig (.new false) annLinks 18).topics.messages "t").map SecureMessage.hash =
        ["h", "i"] ∧
      ((@busAt .plain .echo .plain sampleConfig (.new false) annLinks 18).topics.messages "t").IsChain
        (fun a b => b.prevHash = a.hash) :=
  ⟨by decide, (@memory_chain_unbroken .plain .echo .plain sampleConfig false annLinks Signing.echo_digests (by decide) "t" 18
    (by decide)).1⟩

def Topics.attestsBy (messageID : Int) (keyID : String) : List Attestation :=
  (s.attests topic).filter fun a => a.messageID = messageID ∧ a.signerKeyID = keyID

def Topics.eventsOf (kind : SecureEventKind) : List SecureEvent :=
  (s.events topic).filter fun e => e.kind = kind

theorem Topics.mem_eventsOf {s : Topics} {topic kind e} :
    e ∈ s.eventsOf topic kind ↔ e ∈ s.events topic ∧ e.kind = kind := by
  rw [eventsOf, mem_filter, decide_eq_true_eq]

structure Topics.Formed (s : Topics) (topic : String) : Prop where
  attestIDs : Serial.Numbered Attestation.id (s.attests topic)
  published : (s.eventsOf topic .messagePublished).map SecureEvent.messageID = (s.messages topic).map SecureMessage.id
  attested : (s.eventsOf topic .attestationAdded).map (fun e => (e.messageID, e.attestationID)) =
    (s.attests topic).map fun a => (a.messageID, some a.id)
  referred : ∀ a ∈ s.attests topic, ∃ m ∈ s.messages topic, m.id = a.messageID ∧ m.hash = a.messageHash
  standing : ∀ messageID keyID,
    (s.attestsBy topic messageID keyID).filter (fun a => a.supersededAt = none) =
      (s.attestsBy topic messageID keyID).getLast?.toList

namespace Topics
variable (att a : Attestation)

theorem supersede_signerKeyID : (supersede att a).signerKeyID = a.signerKeyID := by
  unfold supersede
  split <;> rfl

theorem supersede_id : (supersede att a).id = a.id := by
  unfold supersede
  split <;> rfl

theorem supersede_messageHash : (supersede att a).messageHash = a.messageHash := by
  unfold supersede
  split <;> rfl

theorem filter_supersede (att : Attestation) (as : List Attestation) (messageID : Int) (keyID : String) :
    (as.map (supersede att)).filter (fun a => a.messageID = messageID ∧ a.signerKeyID = keyID) =
      (as.filter fun a => a.messageID = messageID ∧ a.signerKeyID = keyID).map (supersede att) := by
  rw [filter_map]
  refine congrArg _ (filter_congr fun a _ => ?_)
  simp only [Function.comp_apply, supersede_messageID, supersede_signerKeyID]

theorem filter_standing_supersede {att} {as : List Attestation}
    (own : ∀ a ∈ as, a.messageID = att.messageID ∧ a.signerKeyID = att.signerKeyID) :
    (as.map (supersede att)).filter (fun a => a.supersededAt = none) = [] := by
  rw [filter_eq_nil_iff]
  intro b marked
  obtain ⟨a, mem, rfl⟩ := List.mem_map.mp marked
  obtain ⟨message, signer⟩ := own a mem
  unfold supersede
  split
  · simp
  · next other => simpa using fun stands => other ⟨message, signer, stands⟩

theorem map_supersede_of_ne {att} {as : List Attestation}
    (other : ∀ a ∈ as, ¬(a.messageID = att.messageID ∧ a.signerKeyID = att.signerKeyID)) :
    as.map (supersede att) = as := by
  refine (map_congr_left fun a mem => ?_).trans (map_id as)
  unfold supersede
  rw [if_neg fun same => other a mem ⟨same.1, same.2.1⟩, id]

theorem attestsBy_addAttestation {topic att s messageID keyID} :
    (addAttestation topic att s).1.attestsBy topic messageID keyID =
      (s.attestsBy topic messageID keyID).map (supersede att) ++
        if att.messageID = messageID ∧ att.signerKeyID = keyID then [{ att with id := (s.attests topic).length + 1 }]
        else [] := by
  simp only [attestsBy, addAttestation, Function.update_self, filter_append, filter_supersede, length_map]
  by_cases own : att.messageID = messageID ∧ att.signerKeyID = keyID
  · simp [own]
  · simp [own]

namespace Formed
variable {s t : Topics} {topic : String}

theorem of_eq (h : s.Formed topic) (messages : t.messages topic = s.messages topic)
    (attests : t.attests topic = s.attests topic) (events : t.events topic = s.events topic) : t.Formed topic := by
  constructor
  · rw [attests]
    exact h.attestIDs
  · rw [eventsOf, events, messages]
    exact h.published
  · rw [eventsOf, events, attests]
    exact h.attested
  · rw [attests, messages]
    exact h.referred
  · simp only [attestsBy, attests]
    exact h.standing

theorem store (h : s.Formed topic) (objectID : String) (m : SecureMessage) : (s.store objectID m).Formed topic := by
  by_cases same : topic = objectID
  · subst same
    refine ⟨h.attestIDs, ?_, ?_, fun a mem => ?_, h.standing⟩
    · have published := h.published
      simp only [eventsOf] at published
      simp [Topics.store, eventsOf, published, numbered]
    · have attested := h.attested
      simp only [eventsOf] at attested
      simp [Topics.store, eventsOf, attested]
    · obtain ⟨m', mem', facts⟩ := h.referred a mem
      refine ⟨m', ?_, facts⟩
      simp only [Topics.store, Function.update_self]
      exact mem_append_left _ mem'
  · refine h.of_eq ?_ rfl ?_ <;> simp [Topics.store, Function.update_of_ne same]

theorem addAttestation (h : s.Formed topic) {objectID} {att : Attestation}
    (refers : ∃ m ∈ s.messages objectID, m.id = att.messageID ∧ m.hash = att.messageHash)
    (new : att.supersededAt = none) : (addAttestation objectID att s).1.Formed topic := by
  by_cases same : topic = objectID
  · subst same
    refine ⟨?_, ?_, ?_, fun a mem => ?_, fun messageID keyID => ?_⟩
    · have ids : Serial.Numbered Attestation.id ((s.attests topic).map (supersede att)) := by
        intro j a marked
        rw [getElem?_map] at marked
        obtain ⟨b, stored, rfl⟩ := Option.map_eq_some_iff.mp marked
        rw [supersede_id]
        exact h.attestIDs j b stored
      simp only [Topics.addAttestation, Function.update_self]
      exact ids.append rfl
    · have published := h.published
      simp only [eventsOf] at published
      simp [Topics.addAttestation, eventsOf, published]
    · have attested := h.attested
      simp only [eventsOf] at attested
      simp [Topics.addAttestation, eventsOf, attested, supersede_messageID, supersede_id]
    · simp only [Topics.addAttestation, Function.update_self, mem_append, mem_map, mem_singleton] at mem
      rcases mem with ⟨b, mem, rfl⟩ | rfl
      · rw [supersede_messageID, supersede_messageHash]
        exact h.referred b mem
      · exact refers
    · rw [attestsBy_addAttestation]
      have mine : ∀ a ∈ s.attestsBy topic messageID keyID, a.messageID = messageID ∧ a.signerKeyID = keyID :=
        fun a mem => by simpa using (List.mem_filter.mp mem).2
      split
      · next own =>
        obtain ⟨rfl, rfl⟩ := own
        rw [filter_append, filter_standing_supersede mine]
        simp [new]
      · next other =>
        rw [append_nil, map_supersede_of_ne fun a mem same => other ?_]
        · exact h.standing messageID keyID
        · rw [← same.1, ← same.2]
          exact mine a mem
  · refine h.of_eq rfl ?_ ?_ <;> simp [Topics.addAttestation, Function.update_of_ne same]

end Formed
end Topics

section
variable [Signing] [PolicyLib] {cfg : SecureConfig} {s t : SecureBus} {topic : String}

omit [PolicyLib] in
theorem Attestable.refers {order checked now scope input key pol msg sig}
    (h : Attestable Evolves cfg order checked now scope input s key pol msg sig) :
    msg ∈ s.topics.messages scope.objectID ∧ msg.id = input.messageID := by
  obtain ⟨_, before, found⟩ := h.message
  unfold getMessage at found
  split at found
  · next stored =>
    cases found
    exact ⟨(before.messages _).subset (mem_of_find?_eq_some stored), findMsg_id stored⟩
  · cases found

theorem Topics.Formed.step {i : CallID} {c} (h : s.topics.Formed topic) (moved : i.Step cfg c s t) :
    t.topics.Formed topic := by
  cases i with
  | service =>
    obtain ⟨_, _, rfl⟩ := moved
    exact h
  | object =>
    cases moved with
    | idle => exact h
    | policy => exact h.of_eq rfl rfl rfl
    | message => exact h.store _ _
    | attestation found => exact h.addAttestation ⟨_, found.refers.1, found.refers.2, rfl⟩ rfl
    | delivery found | poll polled found => exact h.of_eq rfl rfl rfl

end

section
variable [ServiceLib] [Signing] [PolicyLib] (cfg : SecureConfig) (store : Services) (events : List ServiceEvent)
  (topic : String)

/-- The event of that number of the run ends a `Publish` in the topic with the message. -/
def PublishedAt (n : Nat) (m : SecureMessage) : Prop :=
  ∃ principal k order checked now scope input, Ends (CallID.prog cfg) store events n (.object principal topic k)
    (.publish order checked now scope input) (.message (.ok m))

/-- It ends an `Attest` in the topic with the attestation. -/
def AttestedAt (n : Nat) (a : Attestation) : Prop :=
  ∃ principal k order checked now scope input, Ends (CallID.prog cfg) store events n (.object principal topic k)
    (.attest order checked now scope input) (.attestation (.ok a))

end

section
variable [ServiceLib] [Signing] [PolicyLib] {cfg : SecureConfig}
  {objectID : String} {m : SecureMessage} {a : Attestation} {j : Nat}

section
variable (principal : String) (k : Nat) (order : Nat → Nat) (checked now : Time) (scope : ScopeOf objectID)
include principal k order checked now scope

theorem CallID.publish_commits (input : PublishInput) :
    Commits (fun s t : Services => t.secureBus = s.secureBus) (fun r => ∃ m, r = .message (.ok m))
      (CallID.prog cfg (.object principal objectID k) (.publish order checked now scope input)) := by
  refine Commits.map (Commits.zoom (fun _ _ => rfl) (SecureBus.publish_commits cfg order checked now scope input)) ?_
  rintro _ ⟨m, rfl⟩
  exact ⟨m, rfl⟩

theorem CallID.attest_commits (input : AttestInput) :
    Commits (fun s t : Services => t.secureBus = s.secureBus) (fun r => ∃ a, r = .attestation (.ok a))
      (CallID.prog cfg (.object principal objectID k) (.attest order checked now scope input)) := by
  refine Commits.map (Commits.zoom (fun _ _ => rfl) (SecureBus.attest_commits cfg order checked now scope input)) ?_
  rintro _ ⟨a, rfl⟩
  exact ⟨a, rfl⟩

end

variable {kafka : Bool} {events : List ServiceEvent} {topic : String} (draws : DrawsKeys cfg (.new kafka) events)
include draws

theorem formed_at (n : Nat) : (busAt cfg (.new kafka) events n).topics.Formed topic := by
  induction n with
  | zero =>
    refine ⟨numbered_nil, rfl, rfl, fun a mem => ?_, fun _ _ => rfl⟩
    cases mem
  | succ n ih =>
    rcases step_at draws n with same | ⟨_, _, _, _, _, moved⟩
    · rw [same]
      exact ih
    · exact ih.step moved

theorem PublishedAt.appends {n} (h : PublishedAt cfg (.new kafka) events topic n m) :
    (busAt cfg (.new kafka) events (n + 1)).topics.messages topic =
      (busAt cfg (.new kafka) events n).topics.messages topic ++ [m] := by
  obtain ⟨_, _, order, checked, now, ⟨scope, rfl⟩, input, ended⟩ := h
  obtain ⟨_, _, _, _, _, _, rfl, after⟩ : Published cfg Evolves order checked now scope input _ m _ :=
    post_at draws ended
  rw [after]
  simp [Topics.store]

theorem AttestedAt.appends {n} (h : AttestedAt cfg (.new kafka) events topic n a) :
    a.unmarked = a ∧ ((busAt cfg (.new kafka) events (n + 1)).topics.attests topic).map Attestation.unmarked =
      ((busAt cfg (.new kafka) events n).topics.attests topic).map Attestation.unmarked ++ [a] := by
  obtain ⟨_, _, order, checked, now, ⟨scope, rfl⟩, input, ended⟩ := h
  obtain ⟨_, _, _, _, _, added⟩ : Attested cfg Evolves order checked now scope input _ a _ :=
    post_at draws ended
  obtain ⟨after, result⟩ := Prod.mk.inj added
  cases result
  refine ⟨rfl, ?_⟩
  rw [← after]
  simp only [Function.update_self, map_append, map_map]
  refine congrArg₂ _ (map_congr_left fun b _ => Attestation.unmarked_supersede _ b) rfl

theorem messages_step (n : Nat) : (busAt cfg (.new kafka) events (n + 1)).topics.messages topic =
        (busAt cfg (.new kafka) events n).topics.messages topic ∨
      ∃ m, PublishedAt cfg (.new kafka) events topic n m := by
  rcases topics_step_at draws n with same | ⟨principal, objectID, k, _, event, made, _, moved⟩
  · exact .inl (by rw [same])
  · generalize after : busAt cfg (.new kafka) events (n + 1) = t at moved ⊢
    cases moved with
    | idle | policy | attestation | delivery | poll => exact .inl rfl
    | @message order checked now scope input =>
      by_cases same : topic = objectID
      · subst same
        rcases Journal.ends_of_change (CallID.publish_commits principal k order checked now scope input)
          (by exact fun _ => rfl) event made with unchanged | ⟨_, ⟨m, rfl⟩, ended⟩
        · rw [← after]
          exact .inl (congrArg (fun bus : SecureBus => bus.topics.messages topic) unchanged)
        · exact .inr ⟨m, principal, k, order, checked, now, scope, input, ended⟩
      · left
        simp only [Topics.store]
        rw [Function.update_of_ne fun equal => same (equal.trans scope.property)]

/-- The attestations of a topic change only where an `Attest` ends with one, or by their marks. -/
theorem attests_step (n : Nat) :
    ((busAt cfg (.new kafka) events (n + 1)).topics.attests topic).map Attestation.unmarked =
        ((busAt cfg (.new kafka) events n).topics.attests topic).map Attestation.unmarked ∨
      ∃ a, AttestedAt cfg (.new kafka) events topic n a := by
  rcases topics_step_at draws n with same | ⟨principal, objectID, k, _, event, made, _, moved⟩
  · exact .inl (by rw [same])
  · generalize after : busAt cfg (.new kafka) events (n + 1) = t at moved ⊢
    cases moved with
    | idle | policy | message | delivery | poll => exact .inl rfl
    | @attestation order checked now scope input =>
      by_cases same : topic = objectID
      · subst same
        rcases Journal.ends_of_change (CallID.attest_commits principal k order checked now scope input)
          (by exact fun _ => rfl) event made with unchanged | ⟨_, ⟨a, rfl⟩, ended⟩
        · rw [← after]
          exact .inl (congrArg (fun bus : SecureBus => (bus.topics.attests topic).map Attestation.unmarked) unchanged)
        · exact .inr ⟨a, principal, k, order, checked, now, scope, input, ended⟩
      · left
        simp only [Topics.addAttestation]
        rw [Function.update_of_ne fun equal => same (equal.trans scope.property)]

theorem published_iff {n} : m ∈ (busAt cfg (.new kafka) events n).topics.messages topic ↔
      ∃ k < n, PublishedAt cfg (.new kafka) events topic k m :=
  mem_iff_accepted (fun n => (busAt cfg (.new kafka) events n).topics.messages topic)
    (PublishedAt cfg (.new kafka) events topic) rfl (messages_step draws) fun _ _ => PublishedAt.appends draws

theorem PublishedAt.unique {k} (hj : PublishedAt cfg (.new kafka) events topic j m)
    (hk : PublishedAt cfg (.new kafka) events topic k m) : j = k :=
  accepted_once (fun n => (busAt cfg (.new kafka) events n).topics.messages topic)
    (PublishedAt cfg (.new kafka) events topic) rfl (messages_step draws) (fun _ _ => PublishedAt.appends draws)
    (fun n => ((numbered_at draws n).messages topic).nodup_map.of_map _) hj hk

theorem attested_iff {n} : a ∈ ((busAt cfg (.new kafka) events n).topics.attests topic).map .unmarked ↔
      ∃ k < n, AttestedAt cfg (.new kafka) events topic k a :=
  mem_iff_accepted
    (fun n => ((busAt cfg (.new kafka) events n).topics.attests topic).map Attestation.unmarked)
    (AttestedAt cfg (.new kafka) events topic) rfl (attests_step draws)
    fun _ _ accepted => (accepted.appends draws).2

theorem attestIDs_at (n : Nat) : ((((busAt cfg (.new kafka) events n).topics.attests topic).map
    Attestation.unmarked).map Attestation.id).Nodup := by
  rw [map_map]
  exact (formed_at draws n).attestIDs.nodup_map

theorem AttestedAt.unique {k} (hj : AttestedAt cfg (.new kafka) events topic j a)
    (hk : AttestedAt cfg (.new kafka) events topic k a) : j = k :=
  accepted_once
    (fun n => ((busAt cfg (.new kafka) events n).topics.attests topic).map Attestation.unmarked)
    (AttestedAt cfg (.new kafka) events topic) rfl (attests_step draws)
    (fun _ _ accepted => (accepted.appends draws).2) (fun n => (attestIDs_at draws n).of_map _) hj hk

omit draws
variable (cfg kafka events topic)

structure LedgerFormed (n : Nat) (s : Topics) : Prop where
  /-- Messages and events are numbered from one, in their order. -/
  messageIDs : Serial.Numbered SecureMessage.id (s.messages topic)
  eventIDs : Serial.Numbered SecureEvent.id (s.events topic)
  /-- There is one event for each accepted publication and each accepted attestation. -/
  published : ∀ k m, k < n → PublishedAt cfg (.new kafka) events topic k m →
    ∃! e, e ∈ s.events topic ∧ e.kind = .messagePublished ∧ e.messageID = m.id
  attested : ∀ k a, k < n → AttestedAt cfg (.new kafka) events topic k a →
    ∃! e, e ∈ s.events topic ∧ e.kind = .attestationAdded ∧ e.messageID = a.messageID ∧ e.attestationID = some a.id
  /-- And there are no other events. -/
  accepted : ∀ e ∈ s.events topic,
    (e.kind = .messagePublished ∧
      ∃! k, k < n ∧ ∃ m, PublishedAt cfg (.new kafka) events topic k m ∧ m.id = e.messageID) ∨
    (e.kind = .attestationAdded ∧ ∃! k, k < n ∧ ∃ a, AttestedAt cfg (.new kafka) events topic k a ∧
      a.messageID = e.messageID ∧ some a.id = e.attestationID)
  eventRefers : ∀ e ∈ s.events topic, ∃ m ∈ s.messages topic, m.id = e.messageID
  attestRefers : ∀ a ∈ s.attests topic, ∃ m ∈ s.messages topic, m.id = a.messageID ∧ m.hash = a.messageHash
  /-- Of the attestations of a message by a key, the last one stands, and no other. -/
  standing : ∀ messageID keyID,
    (s.attestsBy topic messageID keyID).filter (fun a => a.supersededAt = none) =
      (s.attestsBy topic messageID keyID).getLast?.toList

variable {cfg kafka events topic}

theorem memory_ledger_well_formed (draws : DrawsKeys cfg (Services.new kafka) events) (n : Nat) :
    LedgerFormed cfg kafka events topic n (busAt cfg (Services.new kafka) events n).topics := by
  have numbered := numbered_at draws n
  have formed : (busAt cfg (.new kafka) events n).topics.Formed topic := formed_at draws n
  have messages := (numbered.messages topic).nodup_map
  have attests : (((busAt cfg (.new kafka) events n).topics.attests topic).map
      fun a => (a.messageID, some a.id)).Nodup := by
    refine List.Nodup.of_map (fun key : Int × Option Int => key.2.getD 0) ?_
    rw [map_map]
    exact formed.attestIDs.nodup_map
  have publications : ∀ e, e ∈ (busAt cfg (.new kafka) events n).topics.events topic →
      e.kind = .messagePublished → ∃ m ∈ (busAt cfg (.new kafka) events n).topics.messages topic,
        m.id = e.messageID := by
    intro e mem kind
    have listed := mem_map_of_mem (f := SecureEvent.messageID) (Topics.mem_eventsOf.mpr ⟨mem, kind⟩)
    exact List.mem_map.mp (formed.published ▸ listed)
  have witnesses : ∀ e, e ∈ (busAt cfg (.new kafka) events n).topics.events topic →
      e.kind = .attestationAdded → ∃ a ∈ (busAt cfg (.new kafka) events n).topics.attests topic,
        a.messageID = e.messageID ∧ some a.id = e.attestationID := by
    intro e mem kind
    have listed := mem_map_of_mem (f := fun e : SecureEvent => (e.messageID, e.attestationID))
      (Topics.mem_eventsOf.mpr ⟨mem, kind⟩)
    obtain ⟨a, mem, same⟩ := List.mem_map.mp (formed.attested ▸ listed)
    exact ⟨a, mem, Prod.mk.inj same⟩
  refine ⟨numbered.messages topic, numbered.events topic, fun k m lt accepted => ?_, fun k a lt accepted => ?_,
    fun e mem => ?_, fun e mem => ?_, formed.referred, formed.standing⟩
  · obtain ⟨e, ⟨mem, same⟩, unique⟩ := existsUnique_of_map_eq formed.published messages
      ((published_iff draws).mpr ⟨k, lt, accepted⟩)
    obtain ⟨mem, kind⟩ := Topics.mem_eventsOf.mp mem
    refine ⟨e, ⟨mem, kind, same⟩, fun e' other => unique e' ?_⟩
    exact ⟨Topics.mem_eventsOf.mpr ⟨other.1, other.2.1⟩, other.2.2⟩
  · have listed := (attested_iff draws).mpr ⟨k, lt, accepted⟩
    obtain ⟨_, stored, rfl⟩ := List.mem_map.mp listed
    obtain ⟨e, ⟨mem, same⟩, unique⟩ := existsUnique_of_map_eq formed.attested attests stored
    obtain ⟨mem, kind⟩ := Topics.mem_eventsOf.mp mem
    refine ⟨e, ⟨mem, kind, Prod.mk.inj same⟩, fun e' other => unique e' ?_⟩
    exact ⟨Topics.mem_eventsOf.mpr ⟨other.1, other.2.1⟩, Prod.ext other.2.2.1 other.2.2.2⟩
  · cases kind : e.kind with
    | messagePublished =>
      obtain ⟨m, stored, same⟩ := publications e mem kind
      obtain ⟨k, lt, accepted⟩ := (published_iff draws).mp stored
      refine .inl ⟨rfl, k, ⟨lt, m, accepted, same⟩, ?_⟩
      rintro k' ⟨lt', m', accepted', same'⟩
      have stored' := (published_iff draws).mpr ⟨k', lt', accepted'⟩
      obtain rfl := (numbered.messages topic).inj stored stored' (same.trans same'.symm)
      exact accepted'.unique draws accepted
    | attestationAdded =>
      obtain ⟨a, stored, message, same⟩ := witnesses e mem kind
      have listed := mem_map_of_mem (f := Attestation.unmarked) stored
      obtain ⟨k, lt, accepted⟩ := (attested_iff draws).mp listed
      refine .inr ⟨rfl, k, ⟨lt, a.unmarked, accepted, message, same⟩, ?_⟩
      rintro k' ⟨lt', a', accepted', _, same'⟩
      have listed' := (attested_iff draws).mpr ⟨k', lt', accepted'⟩
      have equal : a.id = a'.id := Option.some.inj (same.trans same'.symm)
      obtain rfl := inj_on_of_nodup_map (attestIDs_at draws n) listed listed' equal
      exact accepted'.unique draws accepted
  · cases kind : e.kind with
    | messagePublished => exact publications e mem kind
    | attestationAdded =>
      obtain ⟨a, stored, message, _⟩ := witnesses e mem kind
      obtain ⟨m, mem, same, _⟩ := formed.referred a stored
      exact ⟨m, mem, same.trans message⟩

end

theorem ann_ledger_well_formed :
    (@busAt .plain .echo .plain sampleConfig (.new false) annPublishes 19).topics.events "t" ≠ [] ∧
      @LedgerFormed .plain .echo .plain sampleConfig false annPublishes "t" 19
        (@busAt .plain .echo .plain sampleConfig (.new false) annPublishes 19).topics :=
  ⟨by decide, @memory_ledger_well_formed .plain .echo .plain sampleConfig false annPublishes "t" (by decide) 19⟩

end SynaMcp
