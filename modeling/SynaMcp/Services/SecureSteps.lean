import SynaMcp.Lib.Commits
import SynaMcp.Services.SecureBus

/-! What the methods of the secure bus do in their critical sections, whatever other
calls do in between: what each has seen, and when, at the section that writes. -/
namespace SynaMcp
open Keyed Sections Topics Function Signing

structure Credentials where
  rule : Rule
  (keyID subjectKey tokenID : String)
  version : Int
  hash : String
  deriving DecidableEq, Repr

def PublishInput.credentials (input : PublishInput) : Credentials :=
  ⟨.publish, input.keyID, input.subjectKey, input.tokenID, input.policyVersion, input.policyHash⟩

def AttestInput.credentials (input : AttestInput) : Credentials :=
  ⟨.attest, input.keyID, input.subjectKey, input.tokenID, input.policyVersion, ""⟩

/-- The request was granted: each lookup was made in a state from which the present
one has come about by steps of `R`. -/
structure Granted (R : SecureBus → SecureBus → Prop) (cfg : SecureConfig) (order : Nat → Nat) (now : Time)
    (objectID : String) (request : Credentials) (s : SecureBus) (key : AgentKey) (pol : SignedPolicy) : Prop where
  known : ∃ u, R u s ∧ u.keyStore.get request.keyID = some key
  owner : key.belongsToCaller request.subjectKey request.tokenID = true
  current : ∃ u cur, R u s ∧ Topics.getPolicy objectID 0 u.topics = .ok cur ∧
    acceptPolicyVersion cfg now cur request.version request.hash = .ok ()
  cited : ∃ u, R u s ∧ loadPolicyVersion objectID request.version u.topics = .ok pol
  allowed : pol.document.allows order request.rule request.keyID = true

theorem Granted.moved {R cfg order now objectID request s t key pol}
    (h : Granted R cfg order now objectID request s key pol) (trans : ∀ {a b c}, R a b → R b c → R a c)
    (moved : R s t) : Granted R cfg order now objectID request t key pol where
  known := by
    obtain ⟨u, before, stored⟩ := h.known
    exact ⟨u, trans before moved, stored⟩
  owner := h.owner
  current := by
    obtain ⟨u, cur, before, current⟩ := h.current
    exact ⟨u, cur, trans before moved, current⟩
  cited := by
    obtain ⟨u, before, cited⟩ := h.cited
    exact ⟨u, trans before moved, cited⟩
  allowed := h.allowed

/-- The key was registered and not revoked in a state from which the present one has
come about by steps of `R`. -/
def HadKey (R : SecureBus → SecureBus → Prop) (keyID : String) (s : SecureBus) : Prop :=
  ∃ u key, R u s ∧ u.keyStore.get keyID = some key ∧ key.revokedAt = none

theorem HadKey.moved {R keyID s t} (h : HadKey R keyID s)
    (trans : ∀ {a b c}, R a b → R b c → R a c) (moved : R s t) : HadKey R keyID t := by
  obtain ⟨u, key, before, stored, standing⟩ := h
  exact ⟨u, key, trans before moved, stored, standing⟩

structure Publishable [Signing] (R : SecureBus → SecureBus → Prop) (cfg : SecureConfig) (order : Nat → Nat)
    (checked now : Time) (scope : Scope) (input : PublishInput) (s : SecureBus) (key : AgentKey)
    (pol : SignedPolicy) (sig : Bytes) : Prop where
  kind : scope.kind = .securebus
  granted : Granted R cfg order checked scope.objectID input.credentials s key pol
  decoded : decodeB64 input.signature = some sig
  signed : verifyAgentSig key sig (input.message now scope.objectID).envelope = true

/-- What an attestation has found when it comes to be stored; the message was looked
up in a section of its own. -/
structure Attestable [Signing] (R : SecureBus → SecureBus → Prop) (cfg : SecureConfig) (order : Nat → Nat)
    (checked now : Time) (scope : Scope) (input : AttestInput) (s : SecureBus) (key : AgentKey)
    (pol : SignedPolicy) (msg : SecureMessage) (sig : Bytes) : Prop where
  kind : scope.kind = .securebus
  granted : Granted R cfg order checked scope.objectID input.credentials s key pol
  status : input.status = "ok" ∨ input.status = "deny"
  comment : input.comment.utf8ByteSize ≤ orElse 0 pol.document.attestation.commentMaxBytes 4096
  message : ∃ u, R u s ∧ getMessage scope.objectID input.messageID u.topics = .ok msg
  decoded : decodeB64 input.signature = some sig
  signed : verifyAgentSig key sig (input.attestation now scope.objectID msg).envelope = true

structure Deliverable [PolicyLib] (R : SecureBus → SecureBus → Prop) (scope : Scope) (condition : String)
    (adHoc : Option JsonObject) (s : SecureBus) (pol : SignedPolicy) (cond : Condition) : Prop where
  kind : scope.kind = .securebus
  current : ∃ u, R u s ∧ Topics.getPolicy scope.objectID 0 u.topics = .ok pol
  resolved : resolveCondition pol.document condition adHoc = .ok cond

/-- The document that `PutPolicy` validates and signs. -/
def Document.issue [Signing] (issued : Time) (objectID : String) (doc : Document) : Document :=
  { doc with
    topicID := objectID
    schema := policySchemaID
    issuedAt := if doc.issuedAt = "" then rfc3339 issued else doc.issuedAt }

namespace Topics
variable (objectID : String)

def numbered (m : SecureMessage) (s : Topics) : SecureMessage :=
  { m with id := (s.messages objectID).length + 1 }

def store (m : SecureMessage) (s : Topics) : Topics :=
  { s with
    messages := update s.messages objectID (s.messages objectID ++ [s.numbered objectID m])
    events := update s.events objectID (s.events objectID ++
      [{ id := (s.events objectID).length + 1, objectID := objectID, kind := .messagePublished,
         messageID := (s.messages objectID).length + 1, createdAt := m.createdAt }]) }

def nextVersion (s : Topics) : Int :=
  match (s.policies objectID).getLast? with
  | some last => last.version + 1
  | none => 1

structure Issues [Signing] [PolicyLib] (s : Topics) (objectID : String) (doc : Document) (sp : SignedPolicy) : Prop where
  version : sp.version = s.nextVersion objectID
  document : sp.document = { doc with version := sp.version }
  hash : sp.hash = b64 (PolicyLib.hashDocument sp.document)

def issue (sp : SignedPolicy) (s : Topics) : Topics :=
  { s with policies := update s.policies objectID (s.policies objectID ++ [sp]) }

variable [Signing]

theorem addMessage_cases (objectID : String) (chain : Bool) (key : AgentKey) (sig : Bytes) (envelope : Envelope)
    (msg : SecureMessage) (s : Topics) : (∃ e, addMessage objectID chain key sig envelope msg s = (s, .error e)) ∨
      ∃ linked, chainMessage key sig envelope msg (if chain then (s.messages objectID).getLast? else none) =
          .ok linked ∧ addMessage objectID chain key sig envelope msg s =
          (s.store objectID linked, .ok (s.numbered objectID linked)) := by
  simp only [addMessage]
  cases chainMessage key sig envelope msg (if chain then (s.messages objectID).getLast? else none) with
  | error e => exact .inl ⟨e, rfl⟩
  | ok linked => exact .inr ⟨linked, rfl, rfl⟩

theorem addPolicy_cases [PolicyLib] (cfg : SecureConfig) (now : Time) (objectID : String) (doc : Document)
    (s : Topics) : (∃ e, addPolicy cfg now objectID doc s = (s, .error e)) ∨
      ∃ sp, s.Issues objectID doc sp ∧ addPolicy cfg now objectID doc s = (s.issue objectID sp, .ok sp) := by
  unfold addPolicy
  dsimp only
  split
  · next e refused => exact .inl ⟨e, rfl⟩
  · next hash sig signed =>
    exact .inr ⟨_, ⟨rfl, rfl, congrArg b64 (PolicySigner.signDocument_ok signed)⟩, rfl⟩

end Topics

namespace SecureBus
variable {T : Terms SecureBus} {α : Type} {s t : SecureBus}

section
variable {post : SecureBus → α → SecureBus → Prop}

theorem readTopics_safe {f} (h : ∀ u, T.rely t u → T.assume u → ∀ a, f u.topics = .ok a → post u a u) :
    Try.Safe T post (onTopics (.read f)) s t :=
  fun u moved ok => ⟨T.guar_refl u ok, h u moved ok⟩

theorem writeTopics_safe {f} (h : ∀ u, T.rely t u → T.assume u → T.guar u { u with topics := (f u.topics).1 } ∧
      ∀ a, (f u.topics).2 = .ok a → post u a { u with topics := (f u.topics).1 }) :
    Try.Safe T post (onTopics (.atomic f)) s t := h

end

theorem lookupKey_safe {post keyID}
    (h : ∀ u, T.rely t u → T.assume u → post u (u.keyStore.get keyID) u) : Try.Safe T post (lookupKey keyID) s t := by
  intro u moved ok
  refine ⟨T.guar_refl u ok, fun a read => ?_⟩
  cases read
  exact h u moved ok

theorem getPolicy_safe {post scope version} (h : ∀ u, T.rely t u → T.assume u → ∀ pol,
      Topics.getPolicy scope.objectID version u.topics = .ok pol → post u pol u) :
    Try.Safe T post (getPolicy scope version) s t :=
  Try.Safe.bind (Try.Safe.require fun _ => readTopics_safe h)

theorem authorize_safe {post cfg order now scope} (request : Credentials)
    (h : scope.kind = .securebus → ∀ u key pol, T.rely t u →
      Granted T.rely cfg order now scope.objectID request u key pol → post u (key, pol) u) :
    Try.Safe T post (authorize cfg order now scope request.rule request.keyID request.subjectKey request.tokenID
      request.version request.hash) s t := by
  refine Try.Safe.bind (Try.Safe.require fun kind => ?_)
  refine Try.Safe.bind (lookupKey_safe fun u₁ moved₁ _ => ?_)
  refine Try.Safe.bind (Try.Safe.expect fun key found => ?_)
  obtain ⟨stored, owner⟩ := Option.filter_eq_some_iff.mp found
  refine Try.Safe.bind (getPolicy_safe fun u₂ moved₂ _ cur current => ?_)
  refine Try.Safe.bind (Try.Safe.ofExcept fun _ accepted => ?_)
  refine Try.Safe.bind (readTopics_safe fun u₃ moved₃ _ pol cited => ?_)
  refine Try.Safe.bind (Try.Safe.require fun allowed => Try.Safe.pure ?_)
  refine h kind u₃ key pol (T.rely_trans (T.rely_trans moved₁ moved₂) moved₃) ?_
  exact
    { known := ⟨u₁, T.rely_trans moved₂ moved₃, stored⟩
      owner := owner
      current := ⟨u₂, cur, moved₃, current, accepted⟩
      cited := ⟨u₃, T.rely_refl u₃, cited⟩
      allowed := allowed }

section
variable [Signing]

theorem checkSignature_safe {post key signature envelope}
    (h : ∀ sig, decodeB64 signature = some sig → verifyAgentSig key sig envelope = true → post s sig t) :
    Try.Safe T post (checkSignature key signature envelope) s t := by
  refine Try.Safe.expect fun sig found => ?_
  obtain ⟨decoded, verifies⟩ := Option.filter_eq_some_iff.mp found
  exact h sig decoded verifies

variable {cfg : SecureConfig} {order : Nat → Nat} {checked now : Time} {scope : Scope}

theorem publish_safe {post input}
    (h : ∀ u key pol sig, T.assume u → Publishable T.rely cfg order checked now scope input u key pol sig →
      let added := addMessage scope.objectID pol.document.chain key sig
        (input.message now scope.objectID).envelope (input.message now scope.objectID) u.topics
      T.guar u { u with topics := added.1 } ∧ ∀ m, added.2 = .ok m → post u m { u with topics := added.1 }) :
    Try.Safe T post (publish cfg order checked now scope input) s t := by
  refine Try.Safe.bind (authorize_safe input.credentials fun kind u key pol _ granted => ?_)
  refine Try.Safe.bind (checkSignature_safe fun sig decoded signed => ?_)
  refine writeTopics_safe fun v further ok => ?_
  exact h v key pol sig ok ⟨kind, granted.moved T.rely_trans further, decoded, signed⟩

theorem attest_safe {post input}
    (h : ∀ u key pol msg sig, T.assume u →
      Attestable T.rely cfg order checked now scope input u key pol msg sig →
      let added := addAttestation scope.objectID (input.attestation now scope.objectID msg) u.topics
      T.guar u { u with topics := added.1 } ∧ ∀ a, added.2 = .ok a → post u a { u with topics := added.1 }) :
    Try.Safe T post (attest cfg order checked now scope input) s t := by
  refine Try.Safe.bind (authorize_safe input.credentials fun kind u key pol _ granted => ?_)
  refine Try.Safe.bind (Try.Safe.require fun status => ?_)
  refine Try.Safe.bind (Try.Safe.require fun comment => ?_)
  refine Try.Safe.bind (readTopics_safe fun v moved _ msg found => ?_)
  refine Try.Safe.bind (checkSignature_safe fun sig decoded signed => ?_)
  refine writeTopics_safe fun w further ok => ?_
  have granted' := granted.moved T.rely_trans (T.rely_trans moved further)
  exact h w key pol msg sig ok ⟨kind, granted', status, comment, ⟨v, further, found⟩, decoded, signed⟩

end

section
variable [PolicyLib] {scope : Scope} {consumer condition : String} {adHoc : Option JsonObject}

theorem consume_safe {post orders max}
    (h : ∀ u pol cond, T.assume u → Deliverable T.rely scope condition adHoc u pol cond →
      let delivered := deliver orders scope.objectID (consumerName consumer) pol.document cond (orTen max) u.topics
      T.guar u { u with topics := delivered.1 } ∧
        ∀ out, delivered.2 = .ok out → post u out { u with topics := delivered.1 }) :
    Try.Safe T post (consume orders scope consumer condition adHoc max) s t := by
  refine Try.Safe.bind (Try.Safe.require fun kind => ?_)
  refine Try.Safe.bind (getPolicy_safe fun u _ _ pol current => ?_)
  refine Try.Safe.bind (Try.Safe.ofExcept fun cond resolved => ?_)
  refine writeTopics_safe fun v further ok => ?_
  exact h v pol cond ok ⟨kind, ⟨u, further, current⟩, resolved⟩

theorem subscribe_safe {objectID polls sent}
    (h : ∀ orders (scope : ScopeOf objectID), (orders, .ok scope) ∈ polls → ∀ u pol cond, T.assume u →
      Deliverable T.rely scope condition adHoc u pol cond →
      T.guar u { u with topics := (deliver orders scope.val.objectID (consumerName consumer) pol.document cond
        (orTen 10) u.topics).1 }) :
    Safe T (fun _ _ _ => True) (subscribe consumer condition adHoc polls sent) s t := by
  induction polls generalizing s t sent with
  | nil => trivial
  | cons poll rest ih =>
    obtain ⟨orders, opened⟩ := poll
    cases opened with
    | error => trivial
    | ok scope =>
      refine .bind ?_
      have consumed : Try.Safe T (fun _ _ _ => True) (consume orders scope consumer condition adHoc 10) s t :=
        consume_safe fun u pol cond ok found =>
          ⟨h orders scope List.mem_cons_self u pol cond ok found, fun _ _ => trivial⟩
      refine .imp consumed fun s r t _ => ?_
      cases r with
      | error => trivial
      | ok => exact ih fun orders scope mem => h orders scope (List.mem_cons_of_mem _ mem)

variable [Signing]

theorem putPolicy_safe {post cfg orders issued now doc}
    (h : scope.kind = .securebus → ∀ u, T.assume u →
      (doc.issue issued scope.objectID).validateDocument orders.agents orders.conditions = .ok () →
      (∀ a ∈ doc.agents.rows, HadKey T.rely a.2.keyID u) →
      let added := addPolicy cfg now scope.objectID (doc.issue issued scope.objectID) u.topics
      T.guar u { u with topics := added.1 } ∧ ∀ sp, added.2 = .ok sp → post u sp { u with topics := added.1 }) :
    Try.Safe T post (putPolicy cfg orders issued now scope doc) s t := by
  refine Try.Safe.bind (Try.Safe.require fun kind => ?_)
  refine Try.Safe.bind (Try.Safe.ofExcept fun _ valid => ?_)
  have looked : ∀ (a : String × AgentRef) s t, Try.Safe T (fun _ _ u => T.rely t u ∧ HadKey T.rely a.2.keyID u) (do
      let key ← lookupKey a.2.keyID
      .require (key.any fun k => k.revokedAt.isNone)
        ("agent key " ++ quote a.2.keyID ++ " missing or revoked")) s t := by
    intro a s t
    refine Try.Safe.bind (lookupKey_safe fun u moved _ => Try.Safe.require fun found => ⟨moved, ?_⟩)
    obtain ⟨key, stored, standing⟩ := (Option.any_eq_true _ _).mp found
    exact ⟨u, key, T.rely_refl u, stored, Option.isNone_iff_eq_none.mp standing⟩
  refine Try.Safe.bind (.imp (Try.Safe.each_rely (fun _ _ _ had => had.moved T.rely_trans) looked _)
    fun _ _ t all _ ok => ?_)
  refine writeTopics_safe fun u moved ok' => h kind u ok' valid fun a mem => ?_
  exact ((all _ ok).2 a (GoMaps.mem_range.mpr mem)).moved T.rely_trans moved

end

theorem checkAttestation_safe [Signing] (a : Attestation) : Try.Safe T (fun _ _ _ => True) (checkAttestation a) s t :=
  Try.Safe.bind (lookupKey_safe fun _ _ _ => Try.Safe.pure trivial)

theorem verify_safe [Signing] (scope : Scope) (messageID : Int) :
    Try.Safe T (fun _ _ _ => True) (verify scope messageID) s t := by
  refine Try.Safe.bind (Try.Safe.require fun _ => ?_)
  refine Try.Safe.bind (readTopics_safe fun _ _ _ msg _ => ?_)
  refine Try.Safe.bind (readTopics_safe fun _ _ _ atts _ => ?_)
  refine Try.Safe.bind (lookupKey_safe fun _ _ _ => ?_)
  refine Try.Safe.bind (.imp (Try.Safe.each (fun a s t _ => checkAttestation_safe a) atts trivial) ?_)
  exact fun _ _ _ _ _ _ => Try.Safe.pure trivial

theorem keys_safe (order : Nat → Nat) (scope : Scope) : Try.Safe T (fun _ _ _ => True) (keys order scope) s t := by
  refine Try.Safe.bind (Try.Safe.require fun _ => ?_)
  refine Try.Safe.bind (getPolicy_safe fun _ _ _ pol _ => ?_)
  refine Try.Safe.bind (.imp (Try.Safe.each (fun a s t _ => lookupKey_safe fun _ _ _ => trivial) _ trivial) ?_)
  exact fun _ _ _ _ _ _ => Try.Safe.pure trivial

/-! The methods that write do so in their last section, and then return a record. -/

theorem readTopics_quiet {f : Topics → Except String α} :
    Quiet (fun s t : SecureBus => t = s) (onTopics (.read f)).run := fun _ => ⟨rfl, trivial⟩

theorem currentPolicy_quiet (scope : Scope) : Quiet (fun s t : SecureBus => t = s) (currentPolicy scope).run :=
  .andThen (p := .require _ _) trivial fun _ => readTopics_quiet

theorem authorize_quiet (cfg : SecureConfig) (order : Nat → Nat) (now : Time) (scope : Scope) (request : Credentials) :
    Quiet (fun s t : SecureBus => t = s) (authorize cfg order now scope request.rule request.keyID request.subjectKey
      request.tokenID request.version request.hash).run := by
  refine .andThen (p := .require _ _) trivial fun _ => ?_
  refine .andThen (p := lookupKey _) (fun _ => ⟨rfl, trivial⟩) fun found => ?_
  refine .andThen (p := .expect _ _) trivial fun key => ?_
  refine (currentPolicy_quiet scope).andThen fun cur => ?_
  refine .andThen (p := .ofExcept _) trivial fun _ => ?_
  refine readTopics_quiet.andThen fun pol => ?_
  exact .andThen (p := .require _ _) trivial fun _ => trivial

theorem publish_commits [Signing] (cfg : SecureConfig) (order : Nat → Nat) (checked now : Time) (scope : Scope)
    (input : PublishInput) :
    Commits (fun s t : SecureBus => t = s) (fun r => ∃ m, r = .ok m) (publish cfg order checked now scope input).run := by
  refine (authorize_quiet cfg order checked scope input.credentials).attempt fun granted => ?_
  refine Quiet.attempt (p := checkSignature _ _ _) trivial fun sig => ?_
  refine fun s => ⟨?_, trivial⟩
  obtain ⟨_, refused⟩ | ⟨_, _, added⟩ := addMessage_cases scope.objectID granted.2.document.chain granted.1
    sig (input.message now scope.objectID).envelope (input.message now scope.objectID) s.topics
  · left
    show { s with topics := (addMessage _ _ _ _ _ _ s.topics).1 } = s
    rw [refused]
  · exact .inr ⟨_, rfl, _, congrArg Prod.snd added⟩

theorem attest_commits [Signing] (cfg : SecureConfig) (order : Nat → Nat) (checked now : Time) (scope : Scope)
    (input : AttestInput) :
    Commits (fun s t : SecureBus => t = s) (fun r => ∃ a, r = .ok a) (attest cfg order checked now scope input).run := by
  refine (authorize_quiet cfg order checked scope input.credentials).attempt fun granted => ?_
  refine Quiet.attempt (p := Try.require _ _) trivial fun _ => ?_
  refine Quiet.attempt (p := Try.require _ _) trivial fun _ => ?_
  refine readTopics_quiet.attempt fun msg => ?_
  refine Quiet.attempt (p := checkSignature _ _ _) trivial fun _ => ?_
  exact fun s => ⟨.inr ⟨_, rfl, _, rfl⟩, trivial⟩

theorem consume_commits [PolicyLib] (orders : Nat → Nat → Nat → Nat) (scope : Scope) (consumer condition : String)
    (adHoc : Option JsonObject) (max : Int) : Commits (fun s t : SecureBus => t = s) (fun r => ∃ out, r = .ok out)
      (consume orders scope consumer condition adHoc max).run := by
  refine Quiet.attempt (p := Try.require _ _) trivial fun _ => ?_
  refine (currentPolicy_quiet scope).attempt fun pol => ?_
  refine Quiet.attempt (p := Try.ofExcept _) trivial fun cond => ?_
  exact fun s => ⟨.inr ⟨_, rfl, _, rfl⟩, trivial⟩

end SecureBus
end SynaMcp
