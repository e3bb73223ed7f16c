import SynaMcp.Services.Canonical
import SynaMcp.Services.Nonces

/-! The bytes that are signed. They determine the envelope, so that no envelope of one
kind can be taken for one of another, and an attestation is about one stored message. -/
namespace SynaMcp
open Keyed Sections Transactions Envelope List GoJson Signing

section
variable [GoJson]

def Field.json : Field → Json Float64
  | .text s => .string s
  | .number n => .number (float64 n)
  | .object o => .object (o.map fun f => (f.1, decode f.2))

def Envelope.json (e : Envelope) : Json Float64 := .object (e.map fun f => (f.1, f.2.json))

/-- The canonical JSON of the envelope. The key store has an encoder of its own, which
does the same for an envelope of texts. -/
def Envelope.signedBytes (e : Envelope) : Except String Bytes := canonicalJSON (goValue e.json)

end

namespace Envelope
variable [GoJson] {e e' : Envelope}

theorem keys_json (e : Envelope) : (e.map fun f => (f.1, f.2.json)).map Prod.fst = e.map Prod.fst := by
  rw [map_map]
  rfl

section
variable (same : e.json.Same e'.json)
include same

theorem keys_of_same (key : String) (mem : key ∈ e.map Prod.fst) : key ∈ e'.map Prod.fst := by
  have perm := Json.Same.keys same
  rw [keys_json, keys_json] at perm
  exact perm.mem_iff.mp mem

section
variable (distinct : (e'.map Prod.fst).Nodup)
include distinct

theorem field_of_same {key f f'} (mem : (key, f) ∈ e) (mem' : (key, f') ∈ e') : f.json.Same f'.json :=
  Json.Same.field same (by rw [keys_json]; exact distinct) (mem_map_of_mem mem) (mem_map_of_mem mem')

theorem text_of_same (key : String) {s t} (mem : (key, .text s) ∈ e) (mem' : (key, .text t) ∈ e') : s = t := by
  cases field_of_same same distinct mem mem' with
  | string => rfl

theorem number_of_same (key : String) {m n}
    (mem : (key, .number m) ∈ e) (mem' : (key, .number n) ∈ e') : float64 m = float64 n := by
  have fields := field_of_same same distinct mem mem'
  generalize left : Field.json (.number m) = a at fields
  generalize right : Field.json (.number n) = b at fields
  cases fields with
  | number => exact Json.number.inj (left.trans right.symm)
  | _ => cases left

end

end

theorem exists_signedBytes (rounding : GoJson.Rounding) (e : Envelope) : ∃ bytes, e.signedBytes = .ok bytes := by
  refine ⟨_, canonicalJSON_goValue_ok_iff.mpr ⟨fun n mem => ?_, rfl⟩⟩
  rw [json, Json.numbers_object] at mem
  obtain ⟨_, own, mem⟩ := List.mem_flatMap.mp mem
  obtain ⟨⟨_, field⟩, _, rfl⟩ := List.mem_map.mp own
  cases field with
  | text => cases mem
  | number m =>
    cases List.mem_singleton.mp mem
    exact rounding.finite m
  | object =>
    rw [Field.json, Json.numbers_object] at mem
    obtain ⟨_, own, mem⟩ := List.mem_flatMap.mp mem
    obtain ⟨h, _, rfl⟩ := List.mem_map.mp own
    exact rounding.decoded h.2 n mem

end Envelope

section
variable [Signing]

theorem Attestation.keys_nodup (a : Attestation) : (a.envelope.map Prod.fst).Nodup :=
  show ["messageId", "messageHash", "policyVersion", "signerKeyId", "status", "comment", "createdAt"].Nodup by decide

theorem SecureMessage.keys_nodup (m : SecureMessage) : (m.envelope.map Prod.fst).Nodup := by
  unfold SecureMessage.envelope
  split
  · exact show ["objectId", "policyVersion", "policyHash", "authorKeyId", "nonce", "createdAt", "payload", "prevHash"].Nodup
      by decide
  · exact show ["objectId", "policyVersion", "policyHash", "authorKeyId", "nonce", "createdAt", "payload"].Nodup by decide

/-- The digests are those of the canonical JSON, by a hash without collisions, and
digests can be read back from their texts. -/
structure Hashing [GoJson] (sha256 : Bytes → Bytes) : Prop where
  canonical : ∀ e bytes, Envelope.signedBytes e = .ok bytes → hashCanonical e = sha256 bytes
  injective : Function.Injective sha256
  roundTrip : ∀ bytes, Signing.decodeB64 (b64 bytes) = some bytes
  digests : ∀ e, b64 (hashCanonical e) ≠ ""

variable [GoJson] {sha256 : Bytes → Bytes}

theorem Hashing.b64_injective (hashing : Hashing sha256) {x y} (same : b64 x = b64 y) : x = y := by
  have decoded := hashing.roundTrip x
  rw [same, hashing.roundTrip] at decoded
  exact (Option.some.inj decoded).symm

theorem Hashing.same (hashing : Hashing sha256) (readable : GoJson.Readable) (rounding : GoJson.Rounding) {e e'}
    (equal : hashCanonical e = hashCanonical e') : e.json.Same e'.json := by
  obtain ⟨bytes, first⟩ := exists_signedBytes rounding e
  obtain ⟨bytes', second⟩ := exists_signedBytes rounding e'
  rw [hashing.canonical e bytes first, hashing.canonical e' bytes' second] at equal
  obtain rfl := hashing.injective equal
  exact same_of_canonicalJSON readable first second

end

section
variable [Signing] [PgLib]

def MessageRow.Stamped (r : MessageRow) : Prop :=
  ∃ m : SecureMessage, r.hash = hashCanonical m.envelope ∧ r.objectID = m.objectID ∧ r.nonce = m.nonce

def stampTerms : SecureTerms where
  inv g := ∀ r ∈ g.tables.messages, r.Stamped
  rel _ _ := True
  part _ _ _ := True
  exclusive _ := false
  rel_refl _ := trivial
  rel_trans _ _ := trivial
  part_refl _ _ := trivial
  part_trans _ _ := trivial

theorem stampTerms_commits [PolicyLib] {cfg F c a}
    (wrote : Wrote stampTerms cfg F c a) : stampTerms.Commits (fun _ _ _ => True) F a := by
  intro g inv known
  refine ⟨?_, trivial, fun _ _ => trivial, trivial⟩
  have kept : (F.own g.tables).messages = g.tables.messages → ∀ r ∈ (F.own g.tables).messages, r.Stamped := by
    intro same
    rw [same]
    exact inv
  cases wrote with
  | @published _ _ now scope input _ _ sig id _ own =>
    have after : (F.own g.tables).messages =
        g.tables.messages ++ [(input.message now scope.objectID).row id sig] := by
      rw [own]
      rfl
    intro r mem
    rw [after] at mem
    rcases List.mem_append.mp mem with old | new
    · exact inv r old
    · rw [List.mem_singleton.mp new]
      exact ⟨_, rfl, rfl, rfl⟩
  | consumed own =>
    obtain ⟨_, _, is⟩ := SecureTx.consumed_eq _ _ _ _ _ g.tables
    rw [← own] at is
    exact kept (by rw [is])
  | gotPolicy own | gotKeys own | registered own | revoked own | policy own | attested own | verified own =>
    exact kept (by rw [own]; rfl)

def stampContract [PolicyLib] (cfg : SecureConfig) : Database.Contract (SecureCall.transaction cfg) where
  toTerms := stampTerms
  admits _ := True
  post _ _ _ _ := True
  right c _ := Tx.wp_mono (fun _ _ => stampTerms_commits) (transaction_wrote (fun _ _ inv => inv) cfg c)

theorem stamped_at [PolicyLib] {ι} [DecidableEq ι] {cfg tables}
    {events : List (Event ι SecureCall)} (new : tables.messages = []) (n : Nat) {r}
    (mem : r ∈ (tablesAt cfg tables events n).messages) : r.Stamped := by
  have start : stampTerms.inv ⟨tables, fun _ => 0⟩ := by
    intro r (mem : r ∈ tables.messages)
    rw [new] at mem
    cases mem
  exact (Database.sound_before (stampContract cfg) start
    (Database.guarded_of_shared (stampContract cfg) (fun _ => rfl) (fun _ => trivial) tables events) n).inv r mem

end

/-- What signed bytes determine: a JSON value, up to the order of keys; the kind of
envelope; and for an attestation the topic and the message, among those stored at that
moment. -/
structure BytesDetermine [ServiceLib] [Signing] [PgLib] [PolicyLib] [GoJson] {ι : Type} [DecidableEq ι] (cfg : SecureConfig)
    (kafka : Bool) (events : List ServiceEvent) (tables : SecureTables) (tableEvents : List (Event ι SecureCall)) (n : Nat) :
    Prop where
  values : ∀ a b bytes, canonicalJSON (goValue a) = .ok bytes → canonicalJSON (goValue b) = .ok bytes → a.Same b
  message_attestation : ∀ (m : SecureMessage) (a : Attestation) bytes, m.envelope.signedBytes = .ok bytes →
    a.envelope.signedBytes ≠ .ok bytes
  message_registration : ∀ (m : SecureMessage) (r : RegisterInput) bytes, m.envelope.signedBytes = .ok bytes →
    r.envelope.signedBytes ≠ .ok bytes
  attestation_registration : ∀ (a : Attestation) (r : RegisterInput) bytes, a.envelope.signedBytes = .ok bytes →
    r.envelope.signedBytes ≠ .ok bytes
  memory : ∀ topic topic', ∀ m ∈ (busAt cfg (.new kafka) events n).topics.messages topic,
    ∀ m' ∈ (busAt cfg (.new kafka) events n).topics.messages topic', ∀ now now' (input input' : AttestInput) bytes,
    input.messageID = m.id → input'.messageID = m'.id →
    (input.attestation now topic m).envelope.signedBytes = .ok bytes →
    (input'.attestation now' topic' m').envelope.signedBytes = .ok bytes →
    topic = topic' ∧ (m.id ≤ 2 ^ 53 → m'.id ≤ 2 ^ 53 → m = m')
  stored : ∀ r ∈ (tablesAt cfg tables tableEvents n).messages, ∀ r' ∈ (tablesAt cfg tables tableEvents n).messages,
    ∀ now now' (input input' : AttestInput) bytes,
    (input.attestation now r.objectID r.message).envelope.signedBytes = .ok bytes →
    (input'.attestation now' r'.objectID r'.message).envelope.signedBytes = .ok bytes → r = r'

section
variable [ServiceLib] [Signing] [PgLib] [PolicyLib] [GoJson] {sha256 : Bytes → Bytes} {cfg : SecureConfig} {kafka : Bool}
  {events : List ServiceEvent} {ι : Type} [DecidableEq ι] {tables : SecureTables} {tableEvents : List (Event ι SecureCall)}

omit [ServiceLib] [PgLib] [PolicyLib] in
theorem Hashing.messages_same (hashing : Hashing sha256) (readable : GoJson.Readable) (rounding : GoJson.Rounding)
    {a a' : Attestation} {e e'} (same : a.envelope.json.Same a'.envelope.json)
    (hash : a.messageHash = b64 (hashCanonical e))
    (hash' : a'.messageHash = b64 (hashCanonical e')) : e.json.Same e'.json := by
  have equal : a.messageHash = a'.messageHash :=
    text_of_same same a'.keys_nodup "messageHash" (by simp [Attestation.envelope]) (by simp [Attestation.envelope])
  rw [hash, hash'] at equal
  exact hashing.same readable rounding (hashing.b64_injective equal)

omit [ServiceLib] [PgLib] [PolicyLib] in
theorem SecureMessage.topic_of_same {m m' : SecureMessage} (same : m.envelope.json.Same m'.envelope.json) :
    m.objectID = m'.objectID ∧ m.nonce = m'.nonce :=
  ⟨text_of_same same m'.keys_nodup "objectId" (by simp [envelope]) (by simp [envelope]),
    text_of_same same m'.keys_nodup "nonce" (by simp [envelope]) (by simp [envelope])⟩

omit [ServiceLib] [PgLib] [PolicyLib] [GoJson] in
theorem RegisterInput.mem_keys {r : RegisterInput} {key} (mem : key ∈ r.envelope.map Prod.fst) :
    key ∈ ["nonce", "publicKey", "tokenId", "sessionId"] := by
  unfold RegisterInput.envelope at mem
  split at mem <;> simp at mem ⊢ <;> tauto

theorem signed_bytes_determine (hashing : Hashing sha256) (readable : GoJson.Readable) (rounding : GoJson.Rounding)
    (draws : DrawsKeys cfg (Services.new kafka) events) (new : tables.messages = []) (n : Nat) :
    BytesDetermine cfg kafka events tables tableEvents n where
  values a b bytes := same_of_canonicalJSON readable
  message_attestation m a bytes first second := by
    have mem := keys_of_same (same_of_canonicalJSON readable first second) "objectId"
      (by simp [SecureMessage.envelope])
    simp [Attestation.envelope] at mem
  message_registration m r bytes first second := by
    have mem := keys_of_same (same_of_canonicalJSON readable first second) "objectId"
      (by simp [SecureMessage.envelope])
    exact absurd (RegisterInput.mem_keys mem) (by decide)
  attestation_registration a r bytes first second := by
    have mem := keys_of_same (same_of_canonicalJSON readable first second) "messageId"
      (by simp [Attestation.envelope])
    exact absurd (RegisterInput.mem_keys mem) (by decide)
  memory topic topic' m mem m' mem' now now' input input' bytes own own' first second := by
    have same := same_of_canonicalJSON readable first second
    have ledger := ledger_at hashing.digests draws n
    have numbered := numbered_at draws n
    have sound := ledger.messages topic m mem
    have sound' := ledger.messages topic' m' mem'
    have topics := (SecureMessage.topic_of_same
      (hashing.messages_same readable rounding same sound.hash sound'.hash)).1
    rw [sound.objectID, sound'.objectID] at topics
    subst topics
    refine ⟨rfl, fun bound bound' => (numbered.messages topic).inj mem mem' ?_⟩
    have ids := number_of_same same (Attestation.keys_nodup _) "messageId" mem_cons_self mem_cons_self
    have pos := (numbered.messages topic).pos mem
    have pos' := (numbered.messages topic).pos mem'
    simp only [AttestInput.attestation, own, own'] at ids
    exact rounding.float64_injective (by omega) (by omega) ids
  stored r mem r' mem' now now' input input' bytes first second := by
    have same := same_of_canonicalJSON readable first second
    obtain ⟨_, hash, topic, nonce⟩ := stamped_at new n mem
    obtain ⟨_, hash', topic', nonce'⟩ := stamped_at new n mem'
    obtain ⟨topics, nonces⟩ := SecureMessage.topic_of_same (hashing.messages_same readable rounding same
      (congrArg b64 hash) (congrArg b64 hash'))
    have key : (r.objectID, r.nonce) = (r'.objectID, r'.nonce) := by rw [topic, topic', nonce, nonce', topics, nonces]
    exact inj_on_of_nodup_map (nonceKeys_at new n) mem mem' key

end

/-- A signature is accepted whatever it is, and a digest is what is hashed, after a mark. -/
@[reducible] noncomputable def Signing.whole : Signing :=
  { echo with
    hashCanonical := fun e => 98 :: ((@Envelope.signedBytes .paired e).toOption).getD []
    verifyEd25519 := fun _ _ _ => true }

theorem whole_hashing : @Hashing .whole .paired (98 :: ·) := by
  refine @Hashing.mk .whole .paired (98 :: ·) (fun e bytes ok => ?_) (fun _ _ same => (List.cons.inj same).2)
    Signing.echo_roundTrip (fun e => Signing.echo_b64_ne (cons_ne_nil _ _))
  show 98 :: ((@Envelope.signedBytes .paired e).toOption).getD [] = 98 :: bytes
  rw [ok]
  rfl

/-- What Ann has signed. -/
theorem ann_signs_her_message :
    ((@busAt .plain .whole .plain sampleConfig (.new false) annPublishes 19).topics.messages "t").length = 1 ∧
      @BytesDetermine .plain .whole .plain .plain .paired Nat _ sampleConfig false annPublishes .empty [] 19 :=
  ⟨rfl, @signed_bytes_determine .plain .whole .plain .plain .paired (98 :: ·) sampleConfig false annPublishes Nat _
    .empty [] whole_hashing paired_readable paired_rounding (by decide) rfl 19⟩

end SynaMcp
