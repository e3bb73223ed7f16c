import SynaMcp.Services.Delivery

/-! The rules of a policy that the service does not look at: the statuses that may be
given, whether an attestation may be superseded, and who may read. -/
namespace SynaMcp
open Keyed Sections Journal List

section
variable [Digests]

/-- The caller holds a key, not revoked, of an agent that the policy lists for reading. -/
def HoldsReadingKey (doc : Document) (p : Principal) (s : SecureBus) : Prop :=
  ∃ name ∈ doc.rules.subscribe, ∃ a ∈ doc.agents.get? name, ∃ key ∈ s.keyStore.get a.2.keyID,
    key.subjectKey = subjectKeyForPrincipal p ∧ key.revokedAt = none

instance (doc : Document) (p : Principal) (s : SecureBus) : Decidable (HoldsReadingKey doc p s) :=
  inferInstanceAs (Decidable (∃ name ∈ doc.rules.subscribe, ∃ a ∈ doc.agents.get? name,
    ∃ key ∈ s.keyStore.get a.2.keyID, key.subjectKey = subjectKeyForPrincipal p ∧ key.revokedAt = none))

def AttestationPolicy.Lists (policy : AttestationPolicy) (status : String) : Prop :=
  policy.statuses ≠ [] → status ∈ policy.statuses

instance (policy : AttestationPolicy) (status : String) : Decidable (policy.Lists status) :=
  inferInstanceAs (Decidable (policy.statuses ≠ [] → status ∈ policy.statuses))

namespace ObjectCall
variable {objectID : String}

def attests? : ObjectCall objectID → Option AttestInput
  | .attest _ _ _ _ input => some input
  | _ => none

def readScopes : ObjectCall objectID → List (ScopeOf objectID)
  | .secureConsume _ scope _ _ _ _ => [scope]
  | .secureSubscribe _ _ _ polls => polls.filterMap fun poll => poll.2.toOption
  | _ => []

/-- The call attests with a status that is listed, does not take the place of an
attestation that stands unless it may, and reads for holders of reading keys. -/
def KeepsRules (c : ObjectCall objectID) (s : SecureBus) : Prop :=
  ∀ sp ∈ (s.topics.policies objectID).getLast?,
    (∀ input ∈ c.attests?, sp.document.attestation.Lists input.status ∧
      (sp.document.attestation.supersede = false → ∀ a ∈ s.topics.attests objectID,
        ¬ (a.messageID = input.messageID ∧ a.signerKeyID = input.keyID ∧ a.supersededAt = none))) ∧
    ∀ scope ∈ c.readScopes, HoldsReadingKey sp.document scope.val.principal s

instance (c : ObjectCall objectID) (s : SecureBus) : Decidable (c.KeepsRules s) :=
  inferInstanceAs (Decidable (∀ sp ∈ (s.topics.policies objectID).getLast?,
    (∀ input ∈ c.attests?, sp.document.attestation.Lists input.status ∧
      (sp.document.attestation.supersede = false → ∀ a ∈ s.topics.attests objectID,
        ¬ (a.messageID = input.messageID ∧ a.signerKeyID = input.keyID ∧ a.supersededAt = none))) ∧
    ∀ scope ∈ c.readScopes, HoldsReadingKey sp.document scope.val.principal s))

end ObjectCall

/-- A section of a call on the topic runs in a state in which the call keeps the rules. -/
def SectionKeepsRules (topic : String) (J : Journal CallID Services Outcome CallID.Call) : ServiceEvent → Prop
  | .advance (.object principal objectID k) =>
    objectID = topic → ∀ c ∈ J.made (.object principal objectID k), J.result (.object principal objectID k) = none →
      ObjectCall.KeepsRules c J.store.secureBus
  | _ => True

instance (topic : String) (J : Journal CallID Services Outcome CallID.Call) :
    (e : ServiceEvent) → Decidable (SectionKeepsRules topic J e)
  | .advance (.object principal objectID k) =>
    inferInstanceAs (Decidable (objectID = topic → ∀ c ∈ J.made (.object principal objectID k),
      J.result (.object principal objectID k) = none → ObjectCall.KeepsRules c J.store.secureBus))
  | .advance (.service _) => .isTrue trivial
  | .call _ _ => .isTrue trivial

end

def AttestationPolicy.Governs (policy : AttestationPolicy) (attests : List Attestation) : Prop :=
  ∀ a ∈ attests, policy.Lists a.status ∧ (policy.supersede = false → a.supersededAt = none)

theorem AttestationPolicy.Governs.add {policy : AttestationPolicy} {topic att s}
    (h : policy.Governs (s.attests topic)) (listed : policy.Lists att.status) (standing : att.supersededAt = none)
    (free : policy.supersede = false → ∀ a ∈ s.attests topic,
      ¬ (a.messageID = att.messageID ∧ a.signerKeyID = att.signerKeyID ∧ a.supersededAt = none)) :
    policy.Governs ((Topics.addAttestation topic att s).1.attests topic) := by
  intro a mem
  simp only [Topics.addAttestation, Function.update_self, mem_append, mem_map, mem_singleton] at mem
  rcases mem with ⟨old, mem, rfl⟩ | rfl
  · unfold Topics.supersede
    split
    · next same => exact ⟨(h old mem).1, fun never => absurd same (free never old mem)⟩
    · exact h old mem
  · exact ⟨listed, fun _ => standing⟩

section
variable [Digests] [ServiceLib] [Signing] [PolicyLib] {cfg : SecureConfig} {kafka : Bool} {events : List ServiceEvent}
  {topic : String} {sp : SignedPolicy} (draws : DrawsKeys cfg (.new kafka) events)
  (sole : (busAt cfg (.new kafka) events events.length).topics.policies topic = [sp])
  (keeps : Runs.Guarded (SectionKeepsRules topic) (step (CallID.prog cfg)) (quiet (.new kafka)) events)
include draws sole keeps

theorem keeps_at {n principal k c u cur} (event : events[n]? = some (.advance (.object principal topic k)))
    (made : (before (CallID.prog cfg) (.new kafka) events n).made (.object principal topic k) = some c)
    (pending : (before (CallID.prog cfg) (.new kafka) events n).result (.object principal topic k) = none)
    (before : Evolves u (busAt cfg (.new kafka) events n)) (current : Topics.getPolicy topic 0 u.topics = .ok cur) :
    (∀ input ∈ c.attests?, sp.document.attestation.Lists input.status ∧ (sp.document.attestation.supersede = false →
        ∀ a ∈ (busAt cfg (.new kafka) events n).topics.attests topic,
          ¬ (a.messageID = input.messageID ∧ a.signerKeyID = input.keyID ∧ a.supersededAt = none))) ∧
    ∀ scope ∈ c.readScopes, HoldsReadingKey sp.document scope.val.principal (busAt cfg (.new kafka) events n) := by
  have only := (before.sole (sole_at draws sole n) current).2
  refine keeps.input event rfl c made pending sp ?_
  exact (congrArg getLast? only).trans rfl

theorem governs_at (n : Nat) :
    sp.document.attestation.Governs ((busAt cfg (.new kafka) events n).topics.attests topic) := by
  induction n with
  | zero =>
    intro a mem
    cases mem
  | succ n ih =>
    rcases topics_step_at draws n with same | ⟨_, _, _, _, event, made, pending, moved⟩
    · rw [same]
      exact ih
    · generalize after : busAt cfg (.new kafka) events (n + 1) = t at moved ⊢
      cases moved with
      | idle | policy | message => exact ih
      | @attestation _ _ _ scope input _ _ _ _ found =>
        obtain ⟨scope, rfl⟩ := scope
        by_cases own : topic = scope.objectID
        · subst own
          obtain ⟨_, _, before, current, _⟩ := found.granted.current
          obtain ⟨listed, free⟩ := (keeps_at draws sole keeps event made pending before current).1 input rfl
          exact ih.add listed rfl free
        · simp only [Topics.addAttestation, Function.update_of_ne own]
          exact ih
      | delivery | poll => exact ih

/-- Whoever is given messages of the topic reads for a holder of a reading key. -/
theorem reader_holds_key {n consumer}
    (delivered : (busAt cfg (.new kafka) events (n + 1)).topics.delivered topic consumer ≠
      (busAt cfg (.new kafka) events n).topics.delivered topic consumer) :
    ∃ principal k, ∃ c : ObjectCall topic, events[n]? = some (.advance (.object principal topic k)) ∧
      (before (CallID.prog cfg) (.new kafka) events n).made (.object principal topic k) = some c ∧
      ∃ scope ∈ c.readScopes, ∀ scope ∈ c.readScopes,
        HoldsReadingKey sp.document scope.val.principal (busAt cfg (.new kafka) events n) := by
  rcases topics_step_at draws n with same | ⟨principal, _, k, _, event, made, pending, moved⟩
  · exact absurd (congrArg (fun t : Topics => t.delivered topic consumer) same) delivered
  · rcases delivered_cases moved topic consumer with same | ⟨rfl, consumes | polls⟩
    · exact absurd same delivered
    · obtain ⟨_, ⟨scope, rfl⟩, _, _, _, _, _, _, rfl, _, found⟩ := consumes
      obtain ⟨_, before, current⟩ := found.current
      refine ⟨principal, k, _, event, made, ⟨scope, rfl⟩, List.mem_singleton.mpr rfl, ?_⟩
      exact (keeps_at draws sole keeps event made pending before current).2
    · obtain ⟨_, _, _, polls, _, ⟨scope, rfl⟩, _, _, rfl, _, polled, found⟩ := polls
      obtain ⟨_, before, current⟩ := found.current
      refine ⟨principal, k, _, event, made, ⟨scope, rfl⟩, ?_, ?_⟩
      · exact List.mem_filterMap.mpr ⟨_, polled, rfl⟩
      · exact (keeps_at draws sole keeps event made pending before current).2

/-- In a run whose sections keep the rules of the policy, attestations have listed
statuses and are superseded only where they may be, and messages are returned to holders
of reading keys. -/
theorem policy_holds_when_kept (n : Nat) :
    (∀ a ∈ (busAt cfg (Services.new kafka) events n).topics.attests topic,
      (sp.document.attestation.statuses ≠ [] → a.status ∈ sp.document.attestation.statuses) ∧
      (sp.document.attestation.supersede = false → a.supersededAt = none)) ∧
    (∀ principal k orders scope consumer condition adHoc max out,
      Ends (CallID.prog cfg) (Services.new kafka) events n (.object principal topic k)
        (.secureConsume orders scope consumer condition adHoc max) (.messages (.ok out)) → out ≠ [] →
      HoldsReadingKey sp.document scope.val.principal (busAt cfg (Services.new kafka) events n)) ∧
    ∀ consumer, (busAt cfg (Services.new kafka) events (n + 1)).topics.delivered topic consumer ≠
        (busAt cfg (Services.new kafka) events n).topics.delivered topic consumer →
      ∃ principal k, ∃ c : ObjectCall topic, events[n]? = some (.advance (.object principal topic k)) ∧
        (Journal.before (CallID.prog cfg) (Services.new kafka) events n).made (.object principal topic k) = some c ∧
        ∃ scope ∈ c.readScopes, ∀ scope ∈ c.readScopes,
          HoldsReadingKey sp.document scope.val.principal (busAt cfg (Services.new kafka) events n) := by
  refine ⟨governs_at draws sole keeps n, ?_, fun consumer => reader_holds_key draws sole keeps⟩
  intro principal k orders scope consumer condition adHoc max out ended _
  have delivered : Delivered orders scope consumer condition adHoc max (busAt cfg (.new kafka) events n) out
    (busAt cfg (.new kafka) events (n + 1)) := post_at draws ended
  obtain ⟨_, _, found, _⟩ := delivered
  obtain ⟨scope, rfl⟩ := scope
  obtain ⟨_, before, current⟩ := found.current
  have holds := (keeps_at draws sole keeps ended.event ended.made ended.running before current).2
  exact holds _ (List.mem_singleton.mpr rfl)

end

/-- A policy that lists one status, lets no attestation be superseded, and lists the
readers that are given. -/
def strictDocument (readers : List String) : Document where
  version := 1
  agents := Table.empty.put ("ann", { keyID := "k_1", alg := "ed25519", publicKey := "pk" })
  rules := { publish := ["ann"], attest := ["ann"], subscribe := readers }
  attestation := { statuses := ["ok"], supersede := false }
  conditions := .empty

def strictSigned (readers : List String) : SignedPolicy where
  document := { strictDocument readers with topicID := "t", schema := policySchemaID, issuedAt := "now" }
  hash := ""
  signature := ""
  signerKID := "kid"
  version := 1
  createdAt := 1

def readerScope (subjectKey : String) : ScopeOf "t" :=
  ⟨{ (secureScope "t").val with method := "consume", principal := { subjectKey := subjectKey } }, rfl⟩

def annIsAttested (readers statuses : List String) (reader : String) : List ServiceEvent :=
  annSetsUp (strictDocument readers) ++
    CallID.alone (.object "ann" "t" 1) (.publish id 2 2 (secureScope "t") (samplePublication "n" "h")) 4 ++
    (statuses.mapIdx fun j status =>
      CallID.alone (.object "ann" "t" (j + 2)) (.attest id 3 3 (secureScope "t") (sampleAttestation 1 status)) 5).flatten ++
    CallID.alone (.object "bob" "t" 0) (.secureConsume (fun _ _ => id) (readerScope reader) "" "" none 10) 2

theorem ann_keeps_the_policy :
    (@busAt .plain .echo .plain sampleConfig (.new false) (annIsAttested ["ann"] ["ok"] "ann") 22).topics.delivered
        "t" "default" = [1] ∧
      ∀ a ∈ (@busAt .plain .echo .plain sampleConfig (.new false) (annIsAttested ["ann"] ["ok"] "ann") 22).topics.attests
        "t", a.status = "ok" ∧ a.supersededAt = none := by
  have holds := @policy_holds_when_kept .plain .plain .echo .plain sampleConfig false
    (annIsAttested ["ann"] ["ok"] "ann") "t" (strictSigned ["ann"]) (by decide) rfl (by decide) 22
  refine ⟨rfl, fun a mem => ?_⟩
  obtain ⟨listed, standing⟩ := holds.1 a mem
  exact ⟨List.mem_singleton.mp (listed (by decide)), standing rfl⟩

def eveReads : List ServiceEvent := annIsAttested [] ["deny", "ok"] "eve"

/-- The service accepts a status that is not listed, supersedes where it may not, and
returns messages to a reader that is not listed. -/
theorem policy_is_not_enforced :
    (@busAt .plain .echo .plain sampleConfig (.new false) eveReads 28).topics.policies "t" = [strictSigned []] ∧
      ((@busAt .plain .echo .plain sampleConfig (.new false) eveReads 28).topics.attests "t").map
        (fun a => (a.status, a.supersededAt)) = [("deny", some 3), ("ok", none)] ∧
      (@Services.run .plain .echo .plain sampleConfig (.new false) eveReads).result (.object "bob" "t" 0) =
        some (.messages (.ok [sampleMessage])) ∧
      ¬ @HoldsReadingKey .plain (strictSigned []).document { subjectKey := "eve" }
        (@busAt .plain .echo .plain sampleConfig (.new false) eveReads 28) :=
  ⟨rfl, rfl, rfl, by decide⟩

end SynaMcp
