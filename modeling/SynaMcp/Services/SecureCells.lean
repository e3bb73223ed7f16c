import SynaMcp.Services.SecureBus

/-! The footprints of the secure bus: which of its cells each method reads and writes. -/
namespace SynaMcp
open Sections Topics Function

inductive SecureCell where
  | topic (k : Cell)
  | keys
  deriving DecidableEq

abbrev TopicValue : Cell → Type :=
  Cell.Value (List SignedPolicy × List SecureMessage × List Attestation × List SecureEvent) (Int × List Int)

def SecureCell.Value : SecureCell → Type
  | .topic k => TopicValue k
  | .keys => AgentKeys

namespace Topics

def cell (s : Topics) : (k : Cell) → TopicValue k :=
  Cell.look (fun id => (s.policies id, s.messages id, s.attests id, s.events id))
    fun id name => (s.lastEventID id name, s.delivered id name)

variable {objectID : String}

theorem addPolicy_within [Signing] [PolicyLib] {cfg now doc} :
    Within cell (Cell.own objectID) (Cell.own objectID) (.atomic (addPolicy cfg now objectID doc)) := by
  apply within_own
  · intro s other ne
    simp only [addPolicy]
    split
    · rfl
    · simp [update_of_ne ne]
  · intro s
    simp only [addPolicy]
    split <;> rfl
  · intro s t same
    simp only [Prod.mk.injEq] at same
    obtain ⟨policies, messages, attests, events⟩ := same
    simp only [addPolicy, policies]
    split
    · exact ⟨by rw [policies, messages, attests, events], rfl⟩
    · simp [messages, attests, events]

theorem addMessage_within [Signing] {chain key sig envelope msg} : Within cell (Cell.own objectID) (Cell.own objectID)
      (.atomic (addMessage objectID chain key sig envelope msg)) := by
  apply within_own
  · intro s other ne
    simp only [addMessage]
    split
    · rfl
    · simp [update_of_ne ne]
  · intro s
    simp only [addMessage]
    split <;> rfl
  · intro s t same
    simp only [Prod.mk.injEq] at same
    obtain ⟨policies, messages, attests, events⟩ := same
    simp only [addMessage, messages, events]
    split
    · exact ⟨by rw [policies, messages, attests, events], rfl⟩
    · simp [policies, attests]

theorem addAttestation_within {att} :
    Within cell (Cell.own objectID) (Cell.own objectID) (.atomic (addAttestation objectID att)) := by
  apply within_own
  · intro s other ne
    simp [addAttestation, update_of_ne ne]
  · exact fun _ => rfl
  · intro s t same
    simp only [Prod.mk.injEq] at same
    obtain ⟨policies, messages, attests, events⟩ := same
    simp [addAttestation, policies, messages, attests, events]

theorem deliver_within {orders consumer doc cond max} : Within cell (Cell.seen objectID consumer) (Cell.cursor objectID consumer)
      (.atomic (deliver orders objectID consumer doc cond max)) := by
  apply within_cursor
  · exact fun _ => rfl
  · intro s other n apart
    simp only [deliver, update_update_of_ne apart]
  · intro s t object cursor
    simp only [Prod.mk.injEq] at object cursor
    obtain ⟨_, messages, attests, events⟩ := object
    obtain ⟨last, delivered⟩ := cursor
    simp [deliver, messages, attests, events, last, delivered]

section
variable {s t : Topics} (same : s.cell (.object objectID) = t.cell (.object objectID))
include same

theorem policies_eq : s.policies objectID = t.policies objectID := congrArg Prod.fst same

theorem messages_eq : s.messages objectID = t.messages objectID := congrArg (fun v => v.2.1) same

theorem attests_eq : s.attests objectID = t.attests objectID := congrArg (fun v => v.2.2.1) same

end
end Topics

namespace SecureBus

def cell (s : SecureBus) : (k : SecureCell) → k.Value
  | .topic k => s.topics.cell k
  | .keys => s.keyStore

theorem topics_part :
    Part SecureCell.topic Topics.cell cell SecureBus.topics fun topics s => { s with topics := topics } where
  view _ _ := rfl
  get_set _ _ := rfl
  frame s t k out := by
    cases k with
    | topic k => exact absurd ⟨k, rfl⟩ out
    | keys => rfl

theorem keys_part :
    Part (fun _ : Unit => SecureCell.keys) (fun (s : AgentKeys) _ => s) cell SecureBus.keyStore
      fun keys s => { s with keyStore := keys } where
  view _ _ := rfl
  get_set _ _ := rfl
  frame s t k out := by
    cases k with
    | topic => rfl
    | keys => exact absurd ⟨(), rfl⟩ out

variable {ρ : Type} {R W : Set SecureCell} {scope : Scope}

theorem onTopics_within {p : Try Topics ρ} {R' W'} (h : Within Topics.cell R' W' p.run)
    (reads : ∀ k ∈ R', .topic k ∈ R) (writes : ∀ k ∈ W', .topic k ∈ W) (sub : W ⊆ R) :
    Within cell R W (onTopics p).run := by
  refine (topics_part.within h).mono ?_ ?_ sub
  · rintro _ ⟨k, mem, rfl⟩
    exact reads k mem
  · rintro _ ⟨k, mem, rfl⟩
    exact writes k mem

theorem read_within {f : Topics → Except String ρ} {id}
    (same : ∀ s t : Topics, s.cell (.object id) = t.cell (.object id) → f s = f t)
    (object : .topic (.object id) ∈ R) (sub : W ⊆ R) : Within cell R W (onTopics (.read f)).run := by
  have own : Within Topics.cell (Cell.own id) ∅ (.read f) := within_read same
  refine onTopics_within own (fun k mem => ?_) (fun k mem => nomatch mem) sub
  rw [Set.mem_singleton_iff.mp mem]
  exact object

theorem write_within {f : Topics → Topics × Except String ρ} {id}
    (h : Within Topics.cell (Cell.own id) (Cell.own id) (.atomic f))
    (written : .topic (.object id) ∈ W) (sub : W ⊆ R) : Within cell R W (onTopics (.atomic f)).run := by
  refine onTopics_within h (fun k mem => ?_) (fun k mem => ?_) sub
  · rw [Set.mem_singleton_iff.mp mem]
    exact sub written
  · rw [Set.mem_singleton_iff.mp mem]
    exact written

theorem lookupKey_within {keyID} (keys : .keys ∈ R) (sub : W ⊆ R) : Within cell R W (lookupKey keyID).run := by
  have own : Within (fun (s : AgentKeys) (_ : Unit) => s) Set.univ ∅
      (.read fun keys : AgentKeys => (.ok (keys.get keyID) : Except String (Option AgentKey))) := by
    refine .read (fun s t agree => ?_) (Set.empty_subset _)
    have equal : s = t := agree () trivial
    rw [equal]
  refine (keys_part.within own).mono ?_ ?_ sub
  · rintro _ ⟨_, _, rfl⟩
    exact keys
  · rintro _ ⟨_, mem, _⟩
    exact nomatch mem

section
variable (object : .topic (.object scope.objectID) ∈ R) (sub : W ⊆ R) {version : Int} {order : Nat → Nat}
include object sub

theorem getPolicy_within : Within cell R W (getPolicy scope version).run := by
  refine .attempt (.done _) fun _ => read_within (fun s t same => ?_) object sub
  simp only [Topics.getPolicy, policies_eq same]

theorem loadPolicyVersion_within : Within cell R W (loadPolicyVersion scope version).run := by
  refine read_within (fun s t same => ?_) object sub
  simp only [Topics.loadPolicyVersion, policies_eq same]

theorem getMessage_within {id : Int} : Within cell R W (getMessage scope id).run := by
  refine read_within (fun s t same => ?_) object sub
  simp only [Topics.getMessage, messages_eq same]

variable (keys : .keys ∈ R)
include keys

theorem keys_within : Within cell R W (SecureBus.keys order scope).run := by
  refine .attempt (.done _) fun _ => (getPolicy_within object sub).attempt fun pol => ?_
  exact (Within.each (fun a => lookupKey_within keys sub) _).attempt fun _ => .done _

theorem authorize_within {cfg now rule keyID subjectKey tokenID hash} :
    Within cell R W (authorize cfg order now scope rule keyID subjectKey tokenID version hash).run := by
  refine .attempt (.done _) fun _ => (lookupKey_within keys sub).attempt fun found => ?_
  refine .attempt (.done _) fun key => (getPolicy_within object sub).attempt fun cur => ?_
  refine .attempt (.done _) fun _ => (loadPolicyVersion_within object sub).attempt fun pol => ?_
  exact .attempt (.done _) fun _ => .done _

theorem verify_within [Signing] {messageID : Int} : Within cell R W (verify scope messageID).run := by
  refine .attempt (.done _) fun _ => (getMessage_within object sub).attempt fun msg => ?_
  refine .attempt (read_within (fun s t same => ?_) object sub) fun atts => ?_
  · simp only [Topics.listAttestations, attests_eq same]
  · refine (lookupKey_within keys sub).attempt fun key => ?_
    exact (Within.each (fun a => (lookupKey_within keys sub).attempt fun _ => .done _) atts).attempt fun _ => .done _

end

section
variable (written : .topic (.object scope.objectID) ∈ W) (sub : W ⊆ R) (keys : .keys ∈ R)
variable [Signing] {cfg : SecureConfig} {order : Nat → Nat} {checked now : Time}
include written sub keys

theorem putPolicy_within [PolicyLib] {orders doc} :
    Within cell R W (putPolicy cfg orders checked now scope doc).run := by
  refine .attempt (.done _) fun _ => .attempt (.done _) fun _ => ?_
  refine (Within.each (fun a => (lookupKey_within keys sub).attempt fun _ => .done _) _).attempt fun _ => ?_
  exact write_within addPolicy_within written sub

theorem publish_within {input} : Within cell R W (publish cfg order checked now scope input).run := by
  refine (authorize_within (sub written) sub keys).attempt fun allowed => ?_
  refine .attempt (.done _) fun sig => ?_
  exact write_within addMessage_within written sub

theorem attest_within {input} : Within cell R W (attest cfg order checked now scope input).run := by
  refine (authorize_within (sub written) sub keys).attempt fun allowed => ?_
  refine .attempt (.done _) fun _ => .attempt (.done _) fun _ => ?_
  refine (getMessage_within (sub written) sub).attempt fun msg => .attempt (.done _) fun _ => ?_
  exact write_within addAttestation_within written sub

end

section
variable [PolicyLib] {consumer condition : String} {adHoc : Option JsonObject}

theorem consume_within {orders : Nat → Nat → Nat → Nat} {max} (object : .topic (.object scope.objectID) ∈ R)
    (moved : .topic (.consumer scope.objectID (consumerName consumer)) ∈ W) (sub : W ⊆ R) :
    Within cell R W (consume orders scope consumer condition adHoc max).run := by
  refine .attempt (.done _) fun _ => (getPolicy_within object sub).attempt fun pol => ?_
  refine .attempt (.done _) fun cond => onTopics_within deliver_within (fun k mem => ?_) (fun k mem => ?_) sub
  · rcases mem with rfl | rfl
    · exact object
    · exact sub moved
  · rw [Set.mem_singleton_iff.mp mem]
    exact moved

theorem subscribe_within {objectID} {polls : List ((Nat → Nat → Nat → Nat) × Except String (ScopeOf objectID))} {sent}
    (object : .topic (.object objectID) ∈ R) (moved : .topic (.consumer objectID (consumerName consumer)) ∈ W)
    (sub : W ⊆ R) : Within cell R W (subscribe consumer condition adHoc polls sent) := by
  induction polls generalizing sent with
  | nil => exact .done _
  | cons poll rest ih =>
    obtain ⟨_, _ | ⟨_, rfl⟩⟩ := poll
    · exact .done _
    · refine (consume_within object moved sub).bind fun result => ?_
      cases result with
      | error => exact .done _
      | ok => exact ih

end
end SecureBus
end SynaMcp
