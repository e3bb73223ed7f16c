import SynaMcp.Services.TableSteps

/-! Records that the tables have accepted, and what a verification reads back of them.
The row keeps the time to the microsecond, and the two hashes as the bytes their texts
decode to; a record verifies exactly where these read back as they were signed. -/
namespace SynaMcp
open Keyed Transactions Database List SecureTables Table SecureBus SecureTx Signing Topics Tx

def AttestationRow.unmarked (r : AttestationRow) : AttestationRow := { r with supersededAt := none }

def AgentKey.verifier (k : AgentKey) : String × Bytes := (k.algorithm, k.publicKey)

theorem verifyAgentSig_verifier [Signing] {k k'} (same : k'.verifier = k.verifier) (sig : Bytes)
    (e : Envelope) : verifyAgentSig k' sig e = verifyAgentSig k sig e := by
  have algorithm : k'.algorithm = k.algorithm := congrArg Prod.fst same
  have publicKey : k'.publicKey = k.publicKey := congrArg Prod.snd same
  simp only [verifyAgentSig, algorithm, publicKey]

theorem verifyAgentSig_hash [Signing] {key sig e e'} (same : hashCanonical e = hashCanonical e') :
    verifyAgentSig key sig e = verifyAgentSig key sig e' := by
  simp only [verifyAgentSig, same]

theorem signatureOk_verifier [Signing] {k k'} (same : k'.verifier = k.verifier) (signature : String)
    (e : Envelope) : signatureOk (some k') signature e = signatureOk (some k) signature e := by
  unfold signatureOk
  cases decodeB64 signature with
  | none => rfl
  | some sig => exact verifyAgentSig_verifier same sig e

structure RecordsKept (s t : SecureTables) : Prop where
  messages : s.messages ⊆ t.messages
  attestations : s.attestations.map AttestationRow.unmarked ⊆ t.attestations.map AttestationRow.unmarked
  keys : ∀ keyID k, s.agentKeys.get? keyID = some k → ∃ k', t.agentKeys.get? keyID = some k' ∧ k'.verifier = k.verifier

theorem RecordsKept.refl (s : SecureTables) : RecordsKept s s :=
  ⟨fun _ mem => mem, fun _ mem => mem, fun _ k known => ⟨k, known, rfl⟩⟩

theorem RecordsKept.trans {s t u} (h : RecordsKept s t) (h' : RecordsKept t u) : RecordsKept s u := by
  refine ⟨fun r mem => h'.messages (h.messages mem), fun r mem => h'.attestations (h.attestations mem), fun keyID k known => ?_⟩
  obtain ⟨k', known', same⟩ := h.keys keyID k known
  obtain ⟨k'', known'', same'⟩ := h'.keys keyID k' known'
  exact ⟨k'', known'', same'.trans same⟩

structure RecordsSound [Signing] (t : SecureTables) : Prop where
  messageIDs : (t.messages.map MessageRow.id).Nodup
  attestationIDs : (t.attestations.map AttestationRow.id).Nodup
  hashed : ∀ r ∈ t.messages, Signing.b64 r.hash ≠ ""
  authors : ∀ r ∈ t.messages, ∃ k, t.agentKeys.get? r.authorKeyID = some k
  signers : ∀ r ∈ t.attestations, ∃ k, t.agentKeys.get? r.signerKeyID = some k

def SecureTables.Taken (t : SecureTables) : SecureLock ⊕ SecureTag → Prop
  | .inl (.messageID id) => id ∈ t.messages.map MessageRow.id
  | .inl (.attestationID id) => id ∈ t.attestations.map AttestationRow.id
  | .inl (.key keyID) => t.agentKeys.Has keyID
  | _ => False

def recordTerms [Signing] : SecureTerms where
  inv g := RecordsSound g.tables
  rel := RecordsKept
  part x s t := s.Taken x ↔ t.Taken x
  exclusive _ := false
  rel_refl := .refl
  rel_trans := .trans
  part_refl _ _ := Iff.rfl
  part_trans := Iff.trans

/-- What a verification reports of the tables: the row of the message with its author's
key, and rows of its attestations with their signers' keys. -/
structure Reported [Signing] [PgLib] (t : SecureTables) (scope : Scope) (messageID : Int) (r : VerifyResult) : Prop where
  message : ∃ row, t.findMessage scope.objectID messageID = some row ∧
    r.hashOk = decide (Signing.b64 (hashCanonical (readEnvelope scope.objectID row.message)) = row.message.hash) ∧
    ∀ key, t.agentKeys.get? row.authorKeyID = some key → r.signatureOk =
      signatureOk (some key) row.message.signature (readEnvelope scope.objectID row.message)
  checks : List.Forall₂ (fun a check =>
      (∃ row : AttestationRow, row.unmarked ∈ t.attestations.map AttestationRow.unmarked ∧ a = row.attestation) ∧
      ∀ key, t.agentKeys.get? a.signerKeyID = some key → check.signatureOk =
        signatureOk (some key) a.signature (a.envelope.dated (PgLib.rfc3339Local a.createdAt)))
    r.attestations r.attestationChecks

/-- A message that was accepted is stored, and its author's key verifies it; an
attestation likewise. -/
def SecureCall.records [Signing] [PgLib] : SecureCall → SecureReply → SecureTables → Prop
  | .publish _ _ now scope input, .message m, t =>
    m = { input.message now scope.objectID with id := m.id } ∧ ∃ sig key, m.row m.id sig ∈ t.messages ∧
      t.agentKeys.get? m.authorKeyID = some key ∧ verifyAgentSig key sig m.envelope = true
  | .attest _ _ now scope input, .attestation a, t =>
    (∃ msg, a = { input.attestation now scope.objectID msg with id := a.id } ∧ a.messageHash ≠ "" ∧
      ∃ bytes, a.messageHash = Signing.b64 bytes) ∧
    (∃ row ∈ t.messages, row.objectID = a.objectID ∧ row.id = a.messageID) ∧
    ∃ sig key, (a.row a.id sig).unmarked ∈ t.attestations.map .unmarked ∧
      t.agentKeys.get? a.signerKeyID = some key ∧ verifyAgentSig key sig a.envelope = true
  | .verify scope messageID, .verified r, t => Reported t scope messageID r
  | _, _, _ => True

namespace SecureTables
variable {t : SecureTables} {x : SecureLock ⊕ SecureTag}

theorem taken_insertKey {k} : (t.insertKey k).Taken x ↔ x = .inl (.key k.keyID) ∨ t.Taken x := by
  rcases x with (_ | _) | _ <;> simp [Taken, insertKey, eq_comm]

theorem taken_insertMessage {r} : (t.insertMessage r).Taken x ↔ x = .inl (.messageID r.id) ∨ t.Taken x := by
  rcases x with (_ | _) | _ <;> simp [Taken, insertMessage, or_comm]

theorem taken_insertAttestation {r} :
    (t.insertAttestation r).Taken x ↔ x = .inl (.attestationID r.id) ∨ t.Taken x := by
  rcases x with (_ | _) | _ <;> simp [Taken, insertAttestation, or_comm]

theorem supersede_map {β : Type} (f : AttestationRow → β) (same : ∀ r at', f { r with supersededAt := at' } = f r)
    (ids : List Int) (time : Time) : (t.supersede ids time).attestations.map f = t.attestations.map f := by
  rw [supersede, map_map]
  refine map_congr_left fun r _ => ?_
  simp only [Function.comp_apply]
  split
  · exact same r _
  · rfl

theorem taken_supersede {ids time} : (t.supersede ids time).Taken x ↔ t.Taken x := by
  have ids := supersede_map (t := t) AttestationRow.id (fun _ _ => rfl) ids time
  rcases x with (_ | _) | _ <;> simp only [Taken, ids] <;> rfl

theorem taken_revokeKey {keyID now} : (t.revokeKey keyID now).Taken x ↔ t.Taken x := by
  have has : ∀ k, (t.revokeKey keyID now).agentKeys.Has k ↔ t.agentKeys.Has k := by
    intro k
    rw [← isSome_get?_iff, ← isSome_get?_iff, revokeKey, get?_mapRows, Option.isSome_map]
  rcases x with (_ | _) | _ <;> simp only [Taken, has] <;> rfl

end SecureTables

namespace RecordsKept
variable {t : SecureTables}

theorem of_keys {t'} (messages : t'.messages = t.messages) (attestations : t'.attestations = t.attestations)
    (keys : ∀ keyID k, t.agentKeys.get? keyID = some k →
      ∃ k', t'.agentKeys.get? keyID = some k' ∧ k'.verifier = k.verifier) : RecordsKept t t' := by
  refine ⟨?_, ?_, keys⟩
  · rw [messages]
    exact List.Subset.refl _
  · rw [attestations]
    exact List.Subset.refl _

theorem revokeKey (keyID : String) (now : Time) : RecordsKept t (t.revokeKey keyID now) := by
  refine .of_keys rfl rfl fun other k is => ⟨AgentKey.revokedIf keyID now k, ?_, ?_⟩
  · rw [SecureTables.revokeKey, get?_mapRows, is, Option.map_some]
  · unfold AgentKey.revokedIf
    split <;> rfl

theorem insertKey {key} (free : ¬t.Taken (.inl (.key key.keyID))) : RecordsKept t (t.insertKey key) := by
  refine .of_keys rfl rfl fun other k is => ⟨k, ?_, rfl⟩
  rw [SecureTables.insertKey, get?_put_of_ne _ fun same => ?_]
  · exact is
  · exact free (isSome_get?_iff.mp (by rw [same, is]; rfl))

theorem insertMessage (r : MessageRow) : RecordsKept t (t.insertMessage r) :=
  ⟨fun _ mem => mem_append_left _ mem, List.Subset.refl _, fun _ k is => ⟨k, is, rfl⟩⟩

theorem insertAttestation (r : AttestationRow) : RecordsKept t (t.insertAttestation r) := by
  refine ⟨List.Subset.refl _, ?_, fun _ k is => ⟨k, is, rfl⟩⟩
  rw [SecureTables.insertAttestation, map_append]
  exact subset_append_left _ _

theorem supersede (ids : List Int) (time : Time) : RecordsKept t (t.supersede ids time) := by
  refine ⟨List.Subset.refl _, ?_, fun _ k is => ⟨k, is, rfl⟩⟩
  rw [supersede_map _ fun _ _ => rfl]
  exact List.Subset.refl _

theorem insertEvent {t'} (h : RecordsKept t t') (e : SecureEvent) : RecordsKept t (t'.insertEvent e) :=
  ⟨h.messages, h.attestations, h.keys⟩

end RecordsKept

section
variable [Signing]
  {F : SecureFrame} {g : SecureWorld} {held : List (SecureLock ⊕ SecureTag)} {t : SecureTables} {sig : Bytes} {b : Attestation}

namespace RecordsSound
variable {s t : SecureTables}

theorem of_eq (h : RecordsSound s) (messages : t.messages = s.messages) (attestations : t.attestations = s.attestations)
    (kept : RecordsKept s t) : RecordsSound t := by
  have known : ∀ keyID, (∃ k, s.agentKeys.get? keyID = some k) → ∃ k, t.agentKeys.get? keyID = some k := by
    rintro keyID ⟨k, is⟩
    obtain ⟨k', is', _⟩ := kept.keys keyID k is
    exact ⟨k', is'⟩
  refine ⟨?_, ?_, ?_, ?_, ?_⟩
  · rw [messages]
    exact h.messageIDs
  · rw [attestations]
    exact h.attestationIDs
  · rw [messages]
    exact h.hashed
  · rw [messages]
    exact fun r mem => known _ (h.authors r mem)
  · rw [attestations]
    exact fun r mem => known _ (h.signers r mem)

section
variable (h : RecordsSound t)
include h

theorem insertEvent (e : SecureEvent) : RecordsSound (t.insertEvent e) :=
  ⟨h.messageIDs, h.attestationIDs, h.hashed, h.authors, h.signers⟩

theorem insertMessage {r} (free : ¬t.Taken (.inl (.messageID r.id)))
    (hashed : Signing.b64 r.hash ≠ "") (author : ∃ k, t.agentKeys.get? r.authorKeyID = some k) :
    RecordsSound (t.insertMessage r) where
  messageIDs := by
    rw [SecureTables.insertMessage, map_append, nodup_append']
    exact ⟨h.messageIDs, nodup_singleton _, by simpa [SecureTables.Taken] using free⟩
  attestationIDs := h.attestationIDs
  hashed r' mem := by
    rcases List.mem_append.mp mem with old | new
    · exact h.hashed r' old
    · cases List.mem_singleton.mp new
      exact hashed
  authors r' mem := by
    rcases List.mem_append.mp mem with old | new
    · exact h.authors r' old
    · cases List.mem_singleton.mp new
      exact author
  signers := h.signers

theorem insertAttestation {r} (free : ¬t.Taken (.inl (.attestationID r.id)))
    (signer : ∃ k, t.agentKeys.get? r.signerKeyID = some k) : RecordsSound (t.insertAttestation r) where
  messageIDs := h.messageIDs
  attestationIDs := by
    rw [SecureTables.insertAttestation, map_append, nodup_append']
    exact ⟨h.attestationIDs, nodup_singleton _, by simpa [SecureTables.Taken] using free⟩
  hashed := h.hashed
  authors := h.authors
  signers r' mem := by
    rcases List.mem_append.mp mem with old | new
    · exact h.signers r' old
    · cases List.mem_singleton.mp new
      exact signer

theorem supersede (ids : List Int) (time : Time) : RecordsSound (t.supersede ids time) where
  messageIDs := h.messageIDs
  attestationIDs := by
    rw [supersede_map _ fun _ _ => rfl]
    exact h.attestationIDs
  hashed := h.hashed
  authors := h.authors
  signers r mem := by
    have keys := supersede_map (t := t) AttestationRow.signerKeyID (fun _ _ => rfl) ids time
    have named := mem_map_of_mem (f := AttestationRow.signerKeyID) mem
    rw [keys] at named
    obtain ⟨r', mem', same⟩ := List.mem_map.mp named
    rw [← same]
    exact h.signers r' mem'

theorem findMessage_of_mem {r} (mem : r ∈ t.messages) : t.findMessage r.objectID r.id = some r := by
  cases found : t.findMessage r.objectID r.id with
  | none =>
    have no := List.find?_eq_none.mp found r mem
    simp at no
  | some =>
    have id := findMessage_id found
    rw [inj_on_of_nodup_map h.messageIDs (mem_of_find?_eq_some found) mem id]

end

end RecordsSound

theorem recordTerms_commit {a} {post : SecureTables → SecureReply → SecureTables → Prop} (inv : RecordsSound g.tables)
    (messages : (F.own g.tables).messages = g.tables.messages)
    (attestations : (F.own g.tables).attestations = g.tables.attestations)
    (keys : (F.own g.tables).agentKeys = g.tables.agentKeys) (established : post g.tables a (F.own g.tables)) :
    recordTerms.Commit post F g a := by
  have kept : RecordsKept g.tables (F.own g.tables) := .of_keys messages attestations fun keyID k known => by
    rw [keys]
    exact ⟨k, known, rfl⟩
  refine ⟨inv.of_eq messages attestations kept, kept, fun x _ => ?_, established⟩
  show g.tables.Taken x ↔ (F.own g.tables).Taken x
  rcases x with (_ | _) | _ <;> simp only [SecureTables.Taken, messages, attestations, keys]

theorem free_of_seen {x}
    (h : recordTerms.Seen held (fun u => ¬u.tables.Taken x) g) (mem : x ∈ held) : ¬g.tables.Taken x := by
  obtain ⟨_, _, free, relied⟩ := h
  exact fun taken => free ((relied.part x mem).mpr taken)

theorem key_of_seen {keyID key} (h : recordTerms.Seen held (fun u => u.tables.agentKeys.get? keyID = some key) g) :
    ∃ key', g.tables.agentKeys.get? keyID = some key' ∧ key'.verifier = key.verifier := by
  obtain ⟨_, _, known, relied⟩ := h
  exact relied.rel.keys keyID key known

variable [PgLib]

theorem Reported.of_checked {scope messageID row key r} (inv : RecordsSound g.tables) (signatureOk : r.signatureOk =
      signatureOk key row.message.signature (readEnvelope scope.objectID row.message)) (hashOk : r.hashOk = decide
      (Signing.b64 (hashCanonical (readEnvelope scope.objectID row.message)) = row.message.hash))
    (h : SecureTx.Checked recordTerms scope messageID row key r g) : Reported g.tables scope messageID r := by
  constructor
  · obtain ⟨_, _, ⟨looked, _, sound, found, before⟩, after⟩ := h.author
    have mem := mem_of_find?_eq_some found
    have is := find?_some found
    simp only [decide_eq_true_eq] at is
    obtain ⟨k, known⟩ := sound.authors row mem
    obtain ⟨k', known', _⟩ := before.rel.keys _ k known
    obtain rfl : some k' = key := known'.symm.trans looked
    refine ⟨row, ?_, hashOk, fun key' now => ?_⟩
    · rw [← is.1, ← is.2]
      exact inv.findMessage_of_mem (after.rel.messages (before.rel.messages mem))
    · obtain ⟨_, known'', same⟩ := after.rel.keys _ k' known'
      obtain rfl := Option.some.inj (known''.symm.trans now)
      rw [signatureOk, signatureOk_verifier same]
  · obtain ⟨length, each⟩ := List.forall₂_iff_zip.mp h.checks
    refine List.forall₂_iff_zip.mpr ⟨length, fun {a check} pair => ?_⟩
    obtain ⟨key, rfl, _, _, ⟨looked, _, sound, listed, before⟩, after⟩ := each pair
    have reported := (of_mem_zip pair).1
    rw [← listed] at reported
    obtain ⟨row, sorted, rfl⟩ := List.mem_map.mp reported
    have mem := mem_of_mem_filter ((mem_insertionSort _).mp sorted)
    refine ⟨⟨row, ?_, rfl⟩, fun key' now => ?_⟩
    · exact after.rel.attestations (before.rel.attestations (mem_map_of_mem mem))
    · obtain ⟨k, known⟩ := sound.signers row mem
      obtain ⟨k', known', _⟩ := before.rel.keys _ k known
      obtain rfl : some k' = key := known'.symm.trans looked
      obtain ⟨_, known'', same⟩ := after.rel.keys _ k' known'
      obtain rfl := Option.some.inj (known''.symm.trans now)
      exact (signatureOk_verifier same _ _).symm

theorem recordTerms_commits [PolicyLib] (digests : ∀ e, Signing.b64 (hashCanonical e) ≠ "") {cfg}
    {c : SecureCall} {a} (wrote : Wrote recordTerms cfg F c a) : recordTerms.Commits (fun _ => c.records) F a := by
  intro g inv known
  cases wrote with
  | gotPolicy own | gotKeys own | policy own =>
    exact recordTerms_commit inv (by rw [own]; rfl) (by rw [own]; rfl) (by rw [own]; rfl) trivial
  | consumed own =>
    obtain ⟨_, _, is⟩ := consumed_eq _ _ _ _ _ g.tables
    rw [← own] at is
    exact recordTerms_commit inv (by rw [is]) (by rw [is]) (by rw [is]) trivial
  | @verified _ _ _ _ _ own _ signatureOk hashOk found =>
    refine recordTerms_commit inv (by rw [own]; rfl) (by rw [own]; rfl) (by rw [own]; rfl) ?_
    rw [own]
    exact Reported.of_checked inv signatureOk hashOk (found g inv known)
  | @revoked now keyID _ _ own =>
    refine ⟨?_, ?_, fun x _ => ?_, trivial⟩
    all_goals rw [own]
    · exact inv.of_eq rfl rfl (.revokeKey keyID now)
    · exact .revokeKey keyID now
    · exact SecureTables.taken_revokeKey.symm
  | @registered _ _ _ _ key own held fresh =>
    have free : ¬g.tables.Taken (.inl (.key key.keyID)) := by
      refine free_of_seen ((fresh g inv known).imp fun u _ _ none has => ?_) mem_cons_self
      have some := isSome_get?_iff.mpr has
      rw [none] at some
      cases some
    refine ⟨?_, ?_, fun x mine => ?_, trivial⟩
    all_goals rw [own]
    · exact inv.of_eq rfl rfl (.insertKey free)
    · exact .insertKey free
    · refine (SecureTables.taken_insertKey.trans (or_iff_right fun same => ?_)).symm
      subst same
      exact mine held
  | @published _ _ _ _ _ _ _ sig id _ own _ held _ _ signed found =>
    have found := found g inv known
    have free : ¬g.tables.Taken (.inl (.messageID id)) := by
      refine free_of_seen (found.fresh.imp fun u _ _ clear taken => ?_) mem_cons_self
      obtain ⟨r, mem, same⟩ := List.mem_map.mp taken
      exact (clear r mem).1 same
    obtain ⟨key', known', same⟩ := key_of_seen found.granted.known
    refine ⟨?_, ?_, fun x mine => ?_, rfl, sig, key', ?_, ?_, ?_⟩
    · rw [own]
      exact (inv.insertMessage free (digests _) ⟨key', known'⟩).insertEvent _
    · rw [own]
      exact (RecordsKept.insertMessage _).insertEvent _
    · rw [own]
      refine (SecureTables.taken_insertMessage.trans (or_iff_right fun same => ?_)).symm
      subst same
      exact mine (held mem_cons_self)
    · rw [own]
      exact mem_append_right _ (mem_singleton_self _)
    · rw [own]
      exact known'
    · rw [verifyAgentSig_verifier same]
      exact signed
  | @attested _ _ _ _ _ _ _ row sig standing id _ own _ held _ signed found =>
    have found := found g inv known
    have free : ¬g.tables.Taken (.inl (.attestationID id)) := by
      refine free_of_seen (found.fresh.imp fun u _ _ clear taken => ?_) mem_cons_self
      obtain ⟨r, mem, same⟩ := List.mem_map.mp taken
      exact clear r mem same
    obtain ⟨key', known', same⟩ := key_of_seen found.granted.known
    obtain ⟨_, sound, stored, relied⟩ := found.message
    have mem := mem_of_find?_eq_some stored
    have hashed := sound.hashed row mem
    have topic := find?_some stored
    simp only [decide_eq_true_eq] at topic
    refine ⟨?_, ?_, fun x mine => ?_, ⟨row.message, rfl, hashed, row.hash, rfl⟩, ⟨row, ?_, topic⟩, sig, key', ?_, ?_, ?_⟩
    · rw [own]
      refine RecordsSound.insertEvent (RecordsSound.insertAttestation (inv.supersede standing _) ?_ ?_) _
      · exact fun taken => free (SecureTables.taken_supersede.mp taken)
      · exact ⟨key', known'⟩
    · rw [own]
      exact ((RecordsKept.supersede standing _).trans (.insertAttestation _)).insertEvent _
    · rw [own]
      refine (SecureTables.taken_insertAttestation.trans ((or_iff_right fun same => ?_).trans taken_supersede)).symm
      subst same
      exact mine held
    · rw [own]
      exact relied.rel.messages mem
    · rw [own]
      exact mem_map_of_mem (mem_append_right _ (mem_singleton_self _))
    · rw [own]
      exact known'
    · rw [verifyAgentSig_verifier same]
      exact signed

def recordContract [PolicyLib] (cfg : SecureConfig) (digests : ∀ e, Signing.b64 (hashCanonical e) ≠ "") :
    Database.Contract (SecureCall.transaction cfg) where
  toTerms := recordTerms
  admits _ := True
  post c _ := c.records
  right c _ := wp_mono (fun _ _ => recordTerms_commits digests) (transaction_wrote (fun _ _ inv => inv) cfg c)

/-- The values that are not stored as they are signed read back as they were. -/
structure ReadsBack (policyHash prevHash : String) (createdAt : Time) : Prop where
  policyHash : Signing.b64 (decodeBytes policyHash) = policyHash
  prevHash : optText (decodeOpt prevHash) = prevHash
  createdAt : PgLib.rfc3339Local (micro createdAt) = rfc3339Nano createdAt

omit [PgLib] in
theorem SecureMessage.dated_envelope (m : SecureMessage) (text : String) : m.envelope.dated text =
      [("objectId", .text m.objectID), ("policyVersion", .number m.policyVersion), ("policyHash", .text m.policyHash),
        ("authorKeyId", .text m.authorKeyID), ("nonce", .text m.nonce), ("createdAt", .text text)] ++
      ("payload", .object m.payload) :: if m.prevHash ≠ "" then [("prevHash", .text m.prevHash)] else [] := by
  unfold SecureMessage.envelope Envelope.dated
  split <;> simp

def SecureMessage.reread (m : SecureMessage) : Envelope :=
  { m with policyHash := Signing.b64 (decodeBytes m.policyHash), prevHash := optText (decodeOpt m.prevHash) }.envelope.dated
    (PgLib.rfc3339Local (micro m.createdAt))

def Attestation.reread (a : Attestation) : Envelope := a.envelope.dated (PgLib.rfc3339Local (micro a.createdAt))

theorem SecureMessage.reread_eq_iff {m : SecureMessage} :
    m.reread = m.envelope ↔ ReadsBack m.policyHash m.prevHash m.createdAt := by
  have itself : m.envelope = m.envelope.dated (rfc3339Nano m.createdAt) := by
    rw [dated_envelope]
    rfl
  have optional : ∀ p q : String, ((if p ≠ "" then [("prevHash", Field.text p)] else []) =
      if q ≠ "" then [("prevHash", Field.text q)] else []) ↔ p = q := by
    intro p q
    by_cases hp : p = "" <;> by_cases hq : q = "" <;> simp [hp, hq, eq_comm]
  rw [itself, reread, dated_envelope, dated_envelope]
  simp only [cons_append, nil_append, List.cons.injEq, Prod.mk.injEq, Field.text.injEq, true_and, optional]
  exact ⟨fun ⟨policy, time, prev⟩ => ⟨policy, prev, time⟩, fun h => ⟨h.policyHash, h.createdAt, h.prevHash⟩⟩

theorem Attestation.reread_eq_iff {a : Attestation} :
    a.reread = a.envelope ↔ PgLib.rfc3339Local (micro a.createdAt) = rfc3339Nano a.createdAt := by
  simp [reread, envelope, Envelope.dated]

/-- What is encoded is decoded again, digests have a text, `JSONB` does not change
the canonical form of a payload, and what is encoded as the empty text is not a
signature. -/
structure Encodings : Prop where
  roundTrip : ∀ bytes, Signing.decodeB64 (Signing.b64 bytes) = some bytes
  digests : ∀ e, Signing.b64 (hashCanonical e) ≠ ""
  canonical : ∀ (before after : Envelope) (payload : JsonObject),
    hashCanonical (before ++ ("payload", .object (PgLib.jsonb payload)) :: after) =
      hashCanonical (before ++ ("payload", .object payload) :: after)
  signatures : ∀ key sig e, verifyAgentSig key sig e = true → Signing.b64 sig ≠ ""

namespace Encodings
variable (lib : Encodings)
include lib

theorem decodeB64_b64 {bytes} (text : Signing.b64 bytes ≠ "") : decodeB64 (Signing.b64 bytes) = some bytes := by
  rw [decodeB64, if_neg text, lib.roundTrip]

theorem signatureOk_b64 {key sig e} (text : Signing.b64 sig ≠ "") :
    signatureOk (some key) (Signing.b64 sig) e = verifyAgentSig key sig e := by
  unfold signatureOk
  rw [lib.decodeB64_b64 text]

theorem b64_injective {bytes bytes'} (same : Signing.b64 bytes = Signing.b64 bytes') : bytes = bytes' := by
  have decoded := lib.roundTrip bytes
  rw [same, lib.roundTrip] at decoded
  exact (Option.some.inj decoded).symm

theorem hash_readEnvelope (m : SecureMessage) (sig : Bytes) :
    hashCanonical (readEnvelope m.objectID (m.row m.id sig).message) = hashCanonical m.reread := by
  rw [readEnvelope, SecureMessage.dated_envelope, SecureMessage.reread, SecureMessage.dated_envelope]
  exact lib.canonical _ _ m.payload

end Encodings

theorem Reported.message_iff (lib : Encodings) (sound : RecordsSound t) {m : SecureMessage}
    {key} (stored : m.row m.id sig ∈ t.messages)
    (known : t.agentKeys.get? m.authorKeyID = some key) (signed : verifyAgentSig key sig m.envelope = true)
    {scope} (topic : scope.objectID = m.objectID) {r} (h : Reported t scope m.id r) :
    r.hashOk = true ∧ r.signatureOk = true ↔ hashCanonical m.reread = hashCanonical m.envelope := by
  obtain ⟨row, found, hashOk, signatureOk⟩ := h.message
  rw [topic] at found hashOk signatureOk
  have unique : some (m.row m.id sig) = some row := (sound.findMessage_of_mem stored).symm.trans found
  cases unique
  have digest := lib.hash_readEnvelope m sig
  have hash : r.hashOk = true ↔ hashCanonical m.reread = hashCanonical m.envelope := by
    rw [hashOk, decide_eq_true_eq, digest]
    exact ⟨lib.b64_injective, congrArg Signing.b64⟩
  refine ⟨fun ok => hash.mp ok.1, fun same => ⟨hash.mpr same, ?_⟩⟩
  have text := lib.signatures key sig m.envelope signed
  refine (signatureOk key known).trans ((lib.signatureOk_b64 text).trans ?_)
  rw [verifyAgentSig_hash (digest.trans same)]
  exact signed

theorem Reported.attestation_iff (lib : Encodings) (sound : RecordsSound t) {a : Attestation}
    {key} (stored : (a.row a.id sig).unmarked ∈ t.attestations.map .unmarked)
    (known : t.agentKeys.get? a.signerKeyID = some key) (signed : verifyAgentSig key sig a.envelope = true)
    {bytes} (hash : a.messageHash = Signing.b64 bytes) (text : a.messageHash ≠ "") {scope messageID r} (h : Reported t scope messageID r) {check}
    (pair : (b, check) ∈ r.attestations.zip r.attestationChecks) (same : b.id = a.id) :
    check.signatureOk = true ↔ verifyAgentSig key sig a.reread = true := by
  obtain ⟨⟨row, listed, rfl⟩, checked⟩ := (List.forall₂_iff_zip.mp h.checks).2 pair
  -- The row that was read is the one that was inserted, for the number is that of one row only.
  have unique : row.unmarked = (a.row a.id sig).unmarked := by
    obtain ⟨r₁, mem₁, is₁⟩ := List.mem_map.mp listed
    obtain ⟨r₂, mem₂, is₂⟩ := List.mem_map.mp stored
    have ids : r₁.id = r₂.id :=
      (congrArg AttestationRow.id is₁).trans (same.trans (congrArg AttestationRow.id is₂).symm)
    rw [← is₁, ← is₂, inj_on_of_nodup_map sound.attestationIDs mem₁ mem₂ ids]
  have signer : row.attestation.signerKeyID = a.signerKeyID := congrArg AttestationRow.signerKeyID unique
  have encoded : Signing.b64 (decodeBytes a.messageHash) = a.messageHash := by
    rw [hash] at text ⊢
    rw [decodeBytes, lib.decodeB64_b64 text, Option.getD_some]
  have rebuilt : row.attestation.envelope.dated (PgLib.rfc3339Local row.attestation.createdAt) = a.reread := by
    show row.unmarked.attestation.envelope.dated (PgLib.rfc3339Local row.unmarked.attestation.createdAt) = a.reread
    rw [unique]
    simp [Attestation.reread, Attestation.envelope, Envelope.dated, AttestationRow.attestation,
      AttestationRow.unmarked, Attestation.row, encoded]
  have signature : row.attestation.signature = Signing.b64 sig :=
    congrArg (fun r : AttestationRow => Signing.b64 r.signature) unique
  rw [checked key (by rw [signer]; exact known), rebuilt, signature,
    lib.signatureOk_b64 (lib.signatures key sig a.envelope signed)]

theorem listed_of_stored {a : Attestation} (stored : (a.row a.id sig).unmarked ∈ t.attestations.map .unmarked) :
    ∃ b ∈ t.listAttestations a.objectID a.messageID, b.id = a.id := by
  obtain ⟨row, mem, same⟩ := List.mem_map.mp stored
  have topic : row.objectID = a.objectID := congrArg AttestationRow.objectID same
  have number : row.messageID = a.messageID := congrArg AttestationRow.messageID same
  refine ⟨row.attestation, mem_map_of_mem ((mem_insertionSort _).mpr ?_), congrArg AttestationRow.id same⟩
  exact List.mem_filter.mpr ⟨mem, by simp only [topic, number, and_self, decide_true]⟩

theorem Reported.exists_check {scope messageID r} (h : Reported t scope messageID r) (mem : b ∈ r.attestations) :
    ∃ check, (b, check) ∈ r.attestations.zip r.attestationChecks := by
  rw [← map_fst_zip h.checks.length_eq.le] at mem
  obtain ⟨⟨_, check⟩, pair, rfl⟩ := List.mem_map.mp mem
  exact ⟨check, pair⟩

section
variable {g : SecureWorld} {scope : Scope}

theorem verify_reports (sound : RecordsSound g.tables) (kind : scope.kind = .securebus) {row}
    (stored : row ∈ g.tables.messages) (topic : row.objectID = scope.objectID) :
    ∃ r, (exec (SecureTx.verify scope row.id) g).2 = .ok r ∧
      r.attestations = g.tables.listAttestations scope.objectID row.id ∧ Reported g.tables scope row.id r := by
  have found := sound.findMessage_of_mem stored
  rw [topic] at found
  have each : ∀ a, eval (checkAttestation a) g =
      (g, .ok (SecureTx.attestationCheck a (g.tables.agentKeys.get? a.signerKeyID))) := fun _ => rfl
  have run : eval (SecureTx.verify scope row.id) g = (g, .ok
      { message := row.message, attestations := g.tables.listAttestations scope.objectID row.id
        signatureOk := signatureOk (g.tables.agentKeys.get? row.authorKeyID) row.message.signature
          (readEnvelope scope.objectID row.message)
        hashOk := Signing.b64 (hashCanonical (readEnvelope scope.objectID row.message)) = row.message.hash
        policyVersion := row.message.policyVersion
        attestationChecks := (g.tables.listAttestations scope.objectID row.id).map fun a =>
          SecureTx.attestationCheck a (g.tables.agentKeys.get? a.signerKeyID) }) := by
    simp only [SecureTx.verify, SecureTx.getMessage, SecureTx.lookupKey, require, expect, kind, if_true,
      eval_bind, eval_ofExcept, eval_query, found, eval_each each, eval_pure]
    rfl
  refine ⟨_, by rw [exec, run], rfl, ⟨row, found, rfl, fun key known => ?_⟩, ?_⟩
  · rw [known]
  · refine List.forall₂_map_right_iff.mpr (List.forall₂_same.mpr fun a listed => ?_)
    obtain ⟨row, sorted, rfl⟩ := List.mem_map.mp listed
    have mem := mem_of_mem_filter ((mem_insertionSort _).mp sorted)
    refine ⟨⟨row, mem_map_of_mem mem, rfl⟩, fun key known => ?_⟩
    rw [SecureTx.attestationCheck, known]

end

variable [PolicyLib] (cfg : SecureConfig) {ι : Type} [DecidableEq ι] (tables : SecureTables)
  (events : List (Event ι SecureCall))

/-- A verification reports this after so many events: one that runs there by itself, or a
call among the others that ends with the next event. -/
def Tells (later : Nat) (scope : Scope) (messageID : Int) (r : VerifyResult) : Prop :=
  (exec (SecureTx.verify scope messageID)
    (Database.before (SecureCall.transaction cfg) tables events later).toWorld).2 = .ok r ∨
  ∃ i, Database.Ends (SecureCall.transaction cfg) tables events later i (.verify scope messageID) (.verified r)

section
variable {tables} (lib : Encodings) (messages : tables.messages = []) (attestations : tables.attestations = [])
  {later : Nat} {i : ι} {scope reader : Scope} {orders : AuthorizeOrders} {checked now : Time}
include messages attestations

omit [PgLib] [PolicyLib] in
theorem recordsSound_start : RecordsSound tables := by
  constructor
  all_goals simp [messages, attestations]

include lib

theorem recordsSound_before (n : Nat) :
    RecordsSound (Database.before (SecureCall.transaction cfg) tables events n).tables := by
  have orderly := guarded_of_shared (recordContract cfg lib.digests) (fun _ => rfl) (fun _ => trivial) tables events
  exact (sound_before _ (recordsSound_start messages attestations) orderly n).inv

theorem recordsKept_between {n} (le : n ≤ later) :
    RecordsKept (Database.before (SecureCall.transaction cfg) tables events n).tables
      (Database.before (SecureCall.transaction cfg) tables events later).tables := by
  have orderly := guarded_of_shared (recordContract cfg lib.digests) (fun _ => rfl) (fun _ => trivial) tables events
  exact rel_between _ (recordsSound_start messages attestations) orderly le

variable {cfg events}

theorem records_of_ends {n c a} (ends : Database.Ends (SecureCall.transaction cfg) tables events n i c a) :
    c.records a (Database.before (SecureCall.transaction cfg) tables events (n + 1)).tables := by
  have orderly := guarded_of_shared (recordContract cfg lib.digests) (fun _ => rfl) (fun _ => trivial) tables events
  exact post_of_ends (recordContract cfg lib.digests) (recordsSound_start messages attestations) orderly ends

/-- Of a message that is stored a verification tells, and what it tells is what the
tables have then, or after the next event. -/
theorem tells_reported {messageID} (kind : scope.kind = .securebus) {row}
    (stored : row ∈ (Database.before (SecureCall.transaction cfg) tables events later).tables.messages)
    (topic : row.objectID = scope.objectID) (number : row.id = messageID) :
    (∃ r, Tells cfg tables events later scope messageID r ∧ r.attestations =
      (Database.before (SecureCall.transaction cfg) tables events later).tables.listAttestations scope.objectID messageID) ∧
    ∀ r, Tells cfg tables events later scope messageID r → ∃ n, later ≤ n ∧
      Reported (Database.before (SecureCall.transaction cfg) tables events n).tables scope messageID r := by
  subst number
  obtain ⟨r, told, listed, reported⟩ :=
    verify_reports (recordsSound_before cfg events lib messages attestations later) kind stored topic
  refine ⟨⟨r, .inl told, listed⟩, fun r' h => ?_⟩
  rcases h with alone | ⟨_, ends⟩
  · obtain rfl := Except.ok.inj (told.symm.trans alone)
    exact ⟨later, Nat.le_refl _, reported⟩
  · exact ⟨later + 1, Nat.le_succ _, records_of_ends lib messages attestations ends⟩

theorem message_verifies_iff {n input m}
    (ends : Database.Ends (SecureCall.transaction cfg) tables events n i (.publish orders checked now scope input)
      (.message m)) (after : n < later) (kind : reader.kind = .securebus) (topic : reader.objectID = scope.objectID) :
    (∃ r, Tells cfg tables events later reader m.id r) ∧ ∀ r, Tells cfg tables events later reader m.id r →
        (r.hashOk = true ∧ r.signatureOk = true ↔ hashCanonical m.reread = hashCanonical m.envelope) := by
  obtain ⟨is, sig, key, stored, known, signed⟩ := records_of_ends lib messages attestations ends
  have owner : m.objectID = reader.objectID := by
    rw [is, topic]
    rfl
  have kept := recordsKept_between cfg events lib messages attestations after
  obtain ⟨⟨r, told, _⟩, reports⟩ :=
    tells_reported lib messages attestations kind (kept.messages stored) owner (rfl : _ = m.id)
  refine ⟨⟨r, told⟩, fun r told => ?_⟩
  obtain ⟨n', le, reported⟩ := reports r told
  have kept := recordsKept_between cfg events lib messages attestations (Nat.le_trans after le)
  obtain ⟨_, known', same⟩ := kept.keys _ key known
  exact reported.message_iff lib (recordsSound_before cfg events lib messages attestations n') (kept.messages stored) known'
    ((verifyAgentSig_verifier same sig _).trans signed) owner.symm

theorem attestation_verifies_iff {n : Nat} {input a}
    (ends : Database.Ends (SecureCall.transaction cfg) tables events n i (.attest orders checked now scope input)
      (.attestation a)) (after : n < later) (kind : reader.kind = .securebus)
    (topic : reader.objectID = scope.objectID) : (∃ r b check, Tells cfg tables events later reader a.messageID r ∧
      (b, check) ∈ r.attestations.zip r.attestationChecks ∧ b.id = a.id) ∧
    ∃ key sig, verifyAgentSig key sig a.envelope = true ∧
      ∀ r b check, Tells cfg tables events later reader a.messageID r →
        (b, check) ∈ r.attestations.zip r.attestationChecks → b.id = a.id →
        (check.signatureOk = true ↔ verifyAgentSig key sig a.reread = true) := by
  obtain ⟨⟨msg, is, text, bytes, hash⟩, ⟨row, mem, home, number⟩, sig, key, stored, known, signed⟩ :=
    records_of_ends lib messages attestations ends
  have owner : row.objectID = reader.objectID := by
    rw [home, is, topic]
    rfl
  have kept := recordsKept_between cfg events lib messages attestations after
  obtain ⟨⟨r, told, listed⟩, reports⟩ :=
    tells_reported lib messages attestations kind (kept.messages mem) owner number
  constructor
  · obtain ⟨_, _, reported⟩ := reports r told
    have home : reader.objectID = a.objectID := by
      rw [is, topic]
      rfl
    obtain ⟨b, mem, same⟩ := listed_of_stored (kept.attestations stored)
    rw [← home, ← listed] at mem
    obtain ⟨check, pair⟩ := reported.exists_check mem
    exact ⟨r, b, check, told, pair, same⟩
  · refine ⟨key, sig, signed, fun r b check told pair same => ?_⟩
    obtain ⟨n', le, reported⟩ := reports r told
    have kept := recordsKept_between cfg events lib messages attestations (Nat.le_trans after le)
    obtain ⟨_, known', verifier⟩ := kept.keys _ key known
    rw [← verifyAgentSig_verifier verifier]
    exact reported.attestation_iff lib (recordsSound_before cfg events lib messages attestations n')
      (kept.attestations stored) known' ((verifyAgentSig_verifier verifier sig _).trans signed) hash text pair same

end

/-- A record that was accepted verifies from then on exactly where its time and its
hashes read back from the tables as they were signed. The digests of what was signed and
of what is rebuilt are assumed not to collide, and a signature not to verify both. -/
theorem table_records_verify_iff (lib : Encodings) (messages : tables.messages = [])
    (attestations : tables.attestations = []) :
    (∀ n i orders checked now scope input m,
      Database.Ends (SecureCall.transaction cfg) tables events n i (.publish orders checked now scope input) (.message m) →
      (Signing.hashCanonical m.reread = Signing.hashCanonical m.envelope → m.reread = m.envelope) →
      ∀ later, n < later → ∀ reader : Scope, reader.kind = .securebus → reader.objectID = scope.objectID →
        (∃ r, Tells cfg tables events later reader m.id r) ∧
        ∀ r, Tells cfg tables events later reader m.id r →
          (r.hashOk = true ∧ r.signatureOk = true ↔
            ReadsBack input.policyHash input.prevHash (zeroTime input.createdAt now))) ∧
    ∀ n i orders checked now scope input a,
      Database.Ends (SecureCall.transaction cfg) tables events n i (.attest orders checked now scope input)
        (.attestation a) →
      (∀ key sig, Topics.verifyAgentSig key sig a.envelope = true → Topics.verifyAgentSig key sig a.reread = true →
        a.reread = a.envelope) →
      ∀ later, n < later → ∀ reader : Scope, reader.kind = .securebus → reader.objectID = scope.objectID →
        (∃ r b check, Tells cfg tables events later reader a.messageID r ∧
          (b, check) ∈ r.attestations.zip r.attestationChecks ∧ b.id = a.id) ∧
        ∀ r b check, Tells cfg tables events later reader a.messageID r →
          (b, check) ∈ r.attestations.zip r.attestationChecks → b.id = a.id →
          (check.signatureOk = true ↔ PgLib.rfc3339Local (micro (zeroTime input.createdAt now)) =
            Signing.rfc3339Nano (zeroTime input.createdAt now)) := by
  constructor
  · intro n i orders checked now scope input m ends apart later after reader kind topic
    obtain ⟨told, reads⟩ := message_verifies_iff lib messages attestations ends after kind topic
    obtain ⟨is, _⟩ := records_of_ends lib messages attestations ends
    refine ⟨told, fun r told => (reads r told).trans ?_⟩
    refine (Iff.intro apart (congrArg _)).trans (SecureMessage.reread_eq_iff.trans ?_)
    rw [is]
    rfl
  · intro n i orders checked now scope input a ends binds later after reader kind topic
    obtain ⟨told, key, sig, signed, reads⟩ := attestation_verifies_iff lib messages attestations ends after kind topic
    obtain ⟨⟨_, is, _⟩, _⟩ := records_of_ends lib messages attestations ends
    refine ⟨told, fun r b check told pair same => (reads r b check told pair same).trans ?_⟩
    refine Iff.trans ⟨binds key sig signed, fun same => ?_⟩ (Attestation.reread_eq_iff.trans ?_)
    · rw [same]
      exact signed
    · rw [is]
      rfl

end

/-- Stand-ins in which the digest shows whether the time has a part below the
microsecond, as its text does. -/
@[reducible] def Signing.clock : Signing :=
  { echo with
    hashCanonical := fun e => [.ofNat (97 + e.length + if ("createdAt", .text "nanos") ∈ e then 1 else 0)]
    rfc3339Nano := fun t => if micro t = t then "now" else "nanos" }

theorem clock_encodings : @Encodings .clock .plain := by
  refine @Encodings.mk .clock .plain Signing.echo_roundTrip (fun _ => Signing.echo_b64_ne (cons_ne_nil _ _))
    (fun _ _ _ => rfl) (fun key sig e signed => Signing.echo_b64_ne fun empty => ?_)
  subst empty
  unfold verifyAgentSig at signed
  split_ifs at signed
  exact cons_ne_nil _ _ (of_decide_eq_true signed)

def annAttests (createdAt : Time) (signature : String) : List (Event Nat SecureCall) :=
  .begin 0 (.publish ⟨⟨id, id⟩, ⟨id, id⟩, id⟩ 2 2 (secureScope "t")
      { samplePublication "n" signature with policyHash := "p", createdAt := createdAt }) ::
    List.replicate 13 (.step 0) ++
  .begin 1 (.attest ⟨⟨id, id⟩, ⟨id, id⟩, id⟩ 2 2 (secureScope "t")
      { sampleAttestation 1 "ok" with createdAt := 1000 }) ::
    List.replicate 15 (.step 1)

set_option maxRecDepth 4000 in
theorem ann_verifies_from_tables :
    (∃ r, @Tells .clock .plain .plain sampleConfig Nat _ (annTables false) (annAttests 1000 "h") 30 (secureScope "t").1 1 r ∧
      r.hashOk = true ∧ r.signatureOk = true) ∧
    ∃ r b check, @Tells .clock .plain .plain sampleConfig Nat _ (annTables false) (annAttests 1000 "h") 30
        (secureScope "t").1 1 r ∧
      (b, check) ∈ r.attestations.zip r.attestationChecks ∧ b.id = 1 ∧ check.signatureOk = true := by
  obtain ⟨publishes, attests⟩ := @table_records_verify_iff .clock .plain .plain sampleConfig Nat _ (annTables false)
    (annAttests 1000 "h") clock_encodings rfl rfl
  constructor
  · obtain ⟨⟨r, told⟩, verifies⟩ := publishes 13 0 _ _ _ _ _ _ ⟨rfl, rfl, rfl, rfl⟩ (fun _ => rfl) 30 (by decide)
      (secureScope "t").1 rfl rfl
    exact ⟨r, told, (verifies r told).mpr (@ReadsBack.mk .clock .plain _ _ _ rfl rfl rfl)⟩
  · obtain ⟨⟨r, b, check, told, pair, same⟩, verifies⟩ := attests 29 1 _ _ _ _ _ _ ⟨rfl, rfl, rfl, rfl⟩
      (fun _ _ _ _ => rfl) 30 (by decide) (secureScope "t").1 rfl rfl
    exact ⟨r, b, check, told, pair, same, (verifies r b check told pair same).mpr rfl⟩

def nanosMessage : SecureMessage :=
  { sampleMessage with policyHash := "p", hash := "i", signature := "i", createdAt := 1 }

theorem ann_does_not_verify :
    (∃ orders input, @Database.Ends _ _ _ _ _ _ _ _ _ _ _ (@SecureCall.transaction .clock .plain .plain sampleConfig)
      (annTables false) (annAttests 1 "i") 13 0 (.publish orders 2 2 (secureScope "t") input) (.message nanosMessage)) ∧
    ∃ r, @Tells .clock .plain .plain sampleConfig Nat _ (annTables false) (annAttests 1 "i") 14 (secureScope "t").1 1 r ∧
      r.hashOk = false ∧ r.signatureOk = false := by
  refine ⟨⟨_, _, ⟨rfl, rfl, rfl, rfl⟩⟩, _, .inl rfl, ?_, ?_⟩
  all_goals decide

end SynaMcp
