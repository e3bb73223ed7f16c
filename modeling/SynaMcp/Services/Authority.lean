import SynaMcp.Services.Ledger

/-! Calls of the services one after the other. Every record of a secure bus was
stored by a call that was entitled to it when it was made. -/
namespace SynaMcp
variable {cfg : SecureConfig} {now : Time} {order : Nat → Nat}
open Keyed Sections List SecureBus Services Topics Function Runs

/-- What entitles a request to store a record that is signed so: the caller's own live
key, the signature, and a policy in force that names the key for the rule. -/
structure Authorized [Signing] (cfg : SecureConfig) (checked : Time) (topic : String) (request : Credentials)
    (signature : String) (envelope : Envelope) (s : SecureBus) (key : AgentKey) (sig : Bytes)
    (cur pol : SignedPolicy) : Prop where
  stored : s.keyStore.get request.keyID = some key
  subject : key.subjectKey = request.subjectKey
  token : key.tokenID ≠ "" → key.tokenID = request.tokenID
  live : key.revokedAt = none
  decoded : decodeB64 signature = some sig
  signed : verifyAgentSig key sig envelope = true
  current : getPolicy topic 0 s.topics = .ok cur
  version : request.version = cur.version ∨ request.version = cur.version - 1 ∧ checked - cur.createdAt ≤ cfg.grace
  cited : loadPolicyVersion topic request.version s.topics = .ok pol
  agent : ∃ name ref, (name, ref) ∈ pol.document.agents.rows ∧ ref.keyID = request.keyID ∧
    name ∈ pol.document.listOf request.rule

theorem AgentKey.belongsToCaller_iff {k : AgentKey} {subjectKey tokenID} :
    k.belongsToCaller subjectKey tokenID = true ↔
      k.subjectKey = subjectKey ∧ k.revokedAt = none ∧ (k.tokenID ≠ "" → k.tokenID = tokenID) := by
  unfold belongsToCaller
  by_cases bound : k.tokenID = ""
  · simp [bound]
  · by_cases empty : tokenID = ""
    · simp [bound, empty]
    · simp [bound, empty]

theorem acceptPolicyVersion_ok {cur version hash} (h : acceptPolicyVersion cfg now cur version hash = .ok ()) :
    version = cur.version ∨ version = cur.version - 1 ∧ now - cur.createdAt ≤ cfg.grace := by
  unfold acceptPolicyVersion at h
  split at h
  · next current => exact .inl current.1
  · split at h
    · next previous => exact .inr previous
    · cases h

theorem Document.agent_of_allows {d : Document} {rule keyID} (h : d.allows order rule keyID = true) :
    ∃ name ref, (name, ref) ∈ d.agents.rows ∧ ref.keyID = keyID ∧ name ∈ d.listOf rule := by
  unfold allows at h
  split at h
  · next name named =>
    obtain ⟨⟨name', ref⟩, found, rfl⟩ := Option.map_eq_some_iff.mp named
    have mem := GoMaps.mem_range.mp (mem_of_find?_eq_some found)
    exact ⟨name', ref, mem, by simpa using find?_some found, by simpa [may] using h⟩
  · cases h

theorem Granted.authorized [Signing] {topic : String} {request s key pol signature sig envelope} (h : Granted Eq cfg order now topic request s key pol)
    (decoded : decodeB64 signature = some sig) (signed : verifyAgentSig key sig envelope = true) :
    ∃ cur, Authorized cfg now topic request signature envelope s key sig cur pol := by
  obtain ⟨_, rfl, stored⟩ := h.known
  obtain ⟨_, cur, rfl, current, accepted⟩ := h.current
  obtain ⟨_, rfl, cited⟩ := h.cited
  obtain ⟨subject, live, token⟩ := AgentKey.belongsToCaller_iff.mp h.owner
  exact ⟨cur, stored, subject, token, live, decoded, signed, current, acceptPolicyVersion_ok accepted, cited,
    Document.agent_of_allows h.allowed⟩

def SecureBus.alone : Terms SecureBus where
  rely := Eq
  assume _ := True
  guar _ _ := True
  rely_refl _ := rfl
  rely_trans := Eq.trans
  guar_refl _ _ := trivial

def Topics.storingNothing : Terms Topics where
  rely _ _ := True
  assume _ := True
  guar s t := t.messages = s.messages ∧ t.attests = s.attests
  rely_refl _ := trivial
  rely_trans _ _ := trivial
  guar_refl _ _ := ⟨rfl, rfl⟩

section
variable [ServiceLib] [Signing] [PolicyLib] {cfg : SecureConfig} {s : Services}
  {α : Type} {principal objectID : String} {k : Nat} {order : Nat → Nat} {checked now : Time}

def Services.call (cfg : SecureConfig) (s : Services) (c : (i : CallID) × i.Call) : Services :=
  ((c.1.prog cfg c.2).exec s).1

omit [ServiceLib] [Signing] [PolicyLib] in
theorem Services.secureBus_exec (p : Prog SecureBus α) (outcome : α → Outcome) (s : Services) :
    ((do return outcome (← onSecureBus p) : Prog Services Outcome).exec s).1.secureBus = (p.exec s.secureBus).1 := by
  have bound := Prog.exec_bind (onSecureBus p) (fun a => (.done (outcome a) : Prog Services Outcome)) s
  refine (congrArg (fun r => r.1.secureBus) bound).trans ?_
  exact Prog.exec_zoom (fun _ _ => rfl) p s

theorem exec_publish {scope input t}
    (h : (s.call cfg ⟨.object principal objectID k, .publish order checked now scope input⟩).secureBus = t) :
    t = s.secureBus ∨ ∃ m, Published cfg Eq order checked now scope input s.secureBus m t := by
  have found : Try.Safe SecureBus.alone (Published cfg Eq order checked now scope input)
      (SecureBus.publish cfg order checked now scope input) s.secureBus s.secureBus := by
    refine publish_safe fun u key pol sig _ found => ⟨trivial, fun m added => ?_⟩
    obtain ⟨_, refused⟩ | ⟨linked, chained, stored⟩ := addMessage_cases scope.val.objectID pol.document.chain
      key sig (input.message now scope.val.objectID).envelope (input.message now scope.val.objectID) u.topics
    · rw [refused] at added
      cases added
    · rw [stored] at added ⊢
      cases added
      exact ⟨key, pol, sig, linked, found, chained, rfl, rfl⟩
  have after := (secureBus_exec _ Outcome.message s).symm.trans h
  rcases (publish_commits cfg order checked now scope input).exec found (fun _ => trivial) with
    same | ⟨⟨m, stored⟩, post⟩
  · exact .inl (after.symm.trans same)
  · exact .inr ⟨m, after ▸ post m stored⟩

theorem exec_attest {scope input t}
    (h : (s.call cfg ⟨.object principal objectID k, .attest order checked now scope input⟩).secureBus = t) :
    t = s.secureBus ∨ ∃ a, Attested cfg Eq order checked now scope input s.secureBus a t := by
  have found : Try.Safe SecureBus.alone (Attested cfg Eq order checked now scope input)
      (SecureBus.attest cfg order checked now scope input) s.secureBus s.secureBus :=
    attest_safe fun u key pol msg sig _ found =>
      ⟨trivial, fun a added => ⟨key, pol, msg, sig, found, Prod.ext rfl added⟩⟩
  have after := (secureBus_exec _ Outcome.attestation s).symm.trans h
  rcases (attest_commits cfg order checked now scope input).exec found (fun _ => trivial) with
    same | ⟨⟨a, stored⟩, post⟩
  · exact .inl (after.symm.trans same)
  · exact .inr ⟨a, after ▸ post a stored⟩

omit [ServiceLib] [Signing] [PolicyLib] in
theorem Services.keys_store_nothing {ρ p} {outcome : ρ → Outcome} {s t} :
    Safe ((Topics.storingNothing.lift SecureBus.topics).lift Services.secureBus) (fun _ _ _ => True)
      (do return outcome (← onKeys p)) s t := by
  have inner : Safe (Topics.storingNothing.lift SecureBus.topics) (fun _ _ _ => True)
      (p.zoom SecureBus.keyStore fun keys s => { s with keyStore := keys }) s.secureBus t.secureBus := by
    refine .zoom_other ?_ _ _
    exact fun _ _ => rfl
  exact Safe.bind (Safe.imp (Safe.lift (fun _ _ => rfl) inner) fun _ _ _ _ => trivial)

omit [ServiceLib] [Signing] [PolicyLib] in
theorem Services.secure_stores_nothing {p} {outcome : Except String α → Outcome}
    {s t}
    (h : Try.Safe (Topics.storingNothing.lift SecureBus.topics) (fun _ _ _ => True) p s.secureBus t.secureBus) :
    Safe ((Topics.storingNothing.lift SecureBus.topics).lift Services.secureBus) (fun _ _ _ => True)
      (do return outcome (← onSecureBus p.run)) s t :=
  Safe.bind (Safe.imp (Safe.lift (fun _ _ => rfl) h) fun _ _ _ _ => trivial)

omit [PolicyLib] in
theorem ServiceCall.stores_nothing (c : ServiceCall) (s : Services) :
    Safe ((Topics.storingNothing.lift SecureBus.topics).lift Services.secureBus) (fun _ _ _ => True) c.prog s s := by
  cases c with
  | tick => exact other_safe fun _ _ => rfl
  | _ => exact keys_store_nothing

theorem ObjectCall.stores_nothing (cfg : SecureConfig) (c : ObjectCall objectID) (s : Services) :
    (∃ order checked now scope input, c = .publish order checked now scope input) ∨
      (∃ order checked now scope input, c = .attest order checked now scope input) ∨
      Safe ((Topics.storingNothing.lift SecureBus.topics).lift Services.secureBus) (fun _ _ _ => True) (c.prog cfg)
        s s := by
  cases c with
  | publish order checked now scope input => exact .inl ⟨order, checked, now, scope, input, rfl⟩
  | attest order checked now scope input => exact .inr (.inl ⟨order, checked, now, scope, input, rfl⟩)
  | putPolicy orders issued now scope doc =>
    refine .inr (.inr (secure_stores_nothing (putPolicy_safe fun kind u _ valid _ => ?_)))
    obtain ⟨_, refused⟩ | ⟨_, _, added⟩ := addPolicy_cases cfg now scope.val.objectID
      (doc.issue issued scope.val.objectID) u.topics
    · rw [refused]
      exact ⟨⟨rfl, rfl⟩, fun _ _ => trivial⟩
    · rw [added]
      exact ⟨⟨rfl, rfl⟩, fun _ _ => trivial⟩
  | policy =>
    exact .inr (.inr (secure_stores_nothing (getPolicy_safe fun _ _ _ _ _ => trivial)))
  | verify scope messageID =>
    exact .inr (.inr (secure_stores_nothing (verify_safe scope messageID)))
  | keys order scope => exact .inr (.inr (secure_stores_nothing (keys_safe order scope)))
  | secureConsume =>
    refine .inr (.inr (secure_stores_nothing (consume_safe fun u pol cond _ _ => ?_)))
    exact ⟨⟨rfl, rfl⟩, fun _ _ => trivial⟩
  | secureSubscribe consumer condition adHoc polls =>
    have polling : Safe (Topics.storingNothing.lift SecureBus.topics) (fun _ _ _ => True)
        (SecureBus.subscribe consumer condition adHoc polls []) s.secureBus s.secureBus :=
      subscribe_safe fun _ _ _ _ _ _ _ _ => ⟨rfl, rfl⟩
    exact .inr (.inr (Safe.bind (Safe.imp (Safe.lift (fun _ _ => rfl) polling) fun _ _ _ _ => trivial)))
  | _ => exact .inr (.inr (other_safe fun _ _ => rfl))

theorem call_cases (cfg : SecureConfig) (s : Services) (c : (i : CallID) × i.Call) :
    ((s.call cfg c).secureBus.topics.messages = s.secureBus.topics.messages ∧
        (s.call cfg c).secureBus.topics.attests = s.secureBus.topics.attests) ∨
      (∃ principal objectID k order checked now scope input m,
        c = ⟨.object principal objectID k, .publish order checked now scope input⟩ ∧
        Published cfg Eq order checked now scope input s.secureBus m (s.call cfg c).secureBus) ∨
      ∃ principal objectID k order checked now scope input a,
        c = ⟨.object principal objectID k, .attest order checked now scope input⟩ ∧
        Attested cfg Eq order checked now scope input s.secureBus a (s.call cfg c).secureBus := by
  obtain ⟨i, c⟩ := c
  have unchanged : Safe ((Topics.storingNothing.lift SecureBus.topics).lift Services.secureBus) (fun _ _ _ => True)
      (i.prog cfg c) s s → (s.call cfg ⟨i, c⟩).secureBus.topics.messages = s.secureBus.topics.messages ∧
        (s.call cfg ⟨i, c⟩).secureBus.topics.attests = s.secureBus.topics.attests := by
    intro safe
    refine safe.exec_guar (fun _ => trivial) ?_
    exact fun h h' => ⟨h'.1.trans h.1, h'.2.trans h.2⟩
  cases i with
  | service => exact .inl (unchanged (ServiceCall.stores_nothing c s))
  | object principal objectID k =>
    rcases ObjectCall.stores_nothing cfg c s with
      ⟨order, checked, now, scope, input, rfl⟩ | ⟨order, checked, now, scope, input, rfl⟩ | safe
    · rcases exec_publish rfl with same | ⟨m, published⟩
      · rw [same]
        exact .inl ⟨rfl, rfl⟩
      · exact .inr (.inl ⟨principal, objectID, k, order, checked, now, scope, input, m, rfl, published⟩)
    · rcases exec_attest rfl with same | ⟨a, attested⟩
      · rw [same]
        exact .inl ⟨rfl, rfl⟩
      · exact .inr (.inr ⟨principal, objectID, k, order, checked, now, scope, input, a, rfl, attested⟩)
    · exact .inl (unchanged safe)

end

section
variable [Signing] {cfg : SecureConfig} {order : Nat → Nat} {checked now : Time} {scope : Scope} {s t : SecureBus}
  {topic : String}

/-- The message that a publication adds is as it was asked for, and the caller was
entitled to it. -/
theorem Published.authorized {input m m'}
    (h : Published cfg Eq order checked now scope input s m t) (old : m' ∉ s.topics.messages topic)
    (new : m' ∈ t.topics.messages topic) :
    topic = scope.objectID ∧ m'.objectID = topic ∧ m'.authorKeyID = input.keyID ∧
      m'.policyVersion = input.policyVersion ∧ ∃ key sig cur pol,
        Authorized cfg checked topic input.credentials m'.signature m'.envelope s key sig cur pol := by
  obtain ⟨key, pol, sig, linked, found, chained, rfl, rfl⟩ := h
  by_cases own : topic = scope.objectID
  · subst own
    simp only [store, update_self, mem_append, mem_singleton] at new
    rcases new with before | rfl
    · exact absurd before old
    · have verifies := chainMessage_signed chained found.signed
      obtain ⟨cur, authorized⟩ := found.granted.authorized found.decoded verifies
      obtain ⟨objectID, authorKeyID, policyVersion, signature⟩ := chainMessage_fields chained
      refine ⟨rfl, objectID, authorKeyID, policyVersion, key, sig, cur, pol, ?_⟩
      show Authorized cfg checked scope.objectID input.credentials linked.signature linked.envelope s key sig cur pol
      rw [signature]
      exact authorized
  · simp only [store, update_of_ne own] at new
    exact absurd new old

theorem Published.attests {input m}
    (h : Published cfg Eq order checked now scope input s m t) : t.topics.attests = s.topics.attests := by
  obtain ⟨_, _, _, _, _, _, _, rfl⟩ := h
  rfl

theorem Attested.messages {input a}
    (h : Attested cfg Eq order checked now scope input s a t) : t.topics.messages = s.topics.messages := by
  obtain ⟨_, _, _, _, _, added⟩ := h
  rw [← (Prod.mk.inj added).1]

theorem Attested.authorized {input} {a a' : Attestation} (h : Attested cfg Eq order checked now scope input s a t)
    (old : a'.unmarked ∉ (s.topics.attests topic).map .unmarked)
    (new : a'.unmarked ∈ (t.topics.attests topic).map .unmarked) :
    topic = scope.objectID ∧ a'.objectID = topic ∧ a'.signerKeyID = input.keyID ∧
      a'.policyVersion = input.policyVersion ∧ ∃ key sig cur pol,
        Authorized cfg checked topic input.credentials a'.signature a'.envelope s key sig cur pol := by
  obtain ⟨key, pol, msg, sig, found, added⟩ := h
  have after := (Prod.mk.inj added).1
  rw [← after] at new
  by_cases own : topic = scope.objectID
  · subst own
    have marked : ((s.topics.attests scope.objectID).map
        (supersede (input.attestation now scope.objectID msg))).map Attestation.unmarked =
          (s.topics.attests scope.objectID).map Attestation.unmarked := by
      rw [map_map]
      exact map_congr_left fun a _ => Attestation.unmarked_supersede _ a
    simp only [update_self, map_append, marked, mem_append] at new
    rcases new with before | last
    · exact absurd before old
    · have same := List.mem_singleton.mp last
      obtain ⟨cur, authorized⟩ := found.granted.authorized found.decoded found.signed
      refine ⟨rfl, congrArg Attestation.objectID same, congrArg Attestation.signerKeyID same,
        congrArg Attestation.policyVersion same, key, sig, cur, pol, ?_⟩
      show Authorized cfg checked scope.objectID input.credentials a'.unmarked.signature a'.unmarked.envelope s key sig
        cur pol
      rw [same]
      exact authorized
  · simp only [update_of_ne own] at new
    exact absurd new old

end

section
variable [ServiceLib] [Signing] [PolicyLib]

/-- In a run of calls one after the other every message and every attestation there is
was added by a call that was entitled to it in the state in which it was made. -/
theorem stored_records_were_authorized (cfg : SecureConfig) (kafka : Bool) (calls : List ((i : CallID) × i.Call))
    (topic : String) :
    (∀ m ∈ (Runs.run (Services.call cfg) (Services.new kafka) calls).secureBus.topics.messages topic,
      ∃ before principal k order checked now scope input rest,
        calls = before ++ ⟨.object principal topic k, .publish order checked now scope input⟩ :: rest ∧
        m ∉ (Runs.run (Services.call cfg) (Services.new kafka) before).secureBus.topics.messages topic ∧
        m ∈ ((Runs.run (Services.call cfg) (Services.new kafka) before).call cfg
          ⟨.object principal topic k, .publish order checked now scope input⟩).secureBus.topics.messages topic ∧
        m.objectID = topic ∧ m.authorKeyID = input.keyID ∧ m.policyVersion = input.policyVersion ∧
        ∃ key sig cur pol, Authorized cfg checked topic input.credentials m.signature m.envelope
          (Runs.run (Services.call cfg) (Services.new kafka) before).secureBus key sig cur pol) ∧
    ∀ a ∈ (Runs.run (Services.call cfg) (Services.new kafka) calls).secureBus.topics.attests topic,
      ∃ before principal k order checked now scope input rest,
        calls = before ++ ⟨.object principal topic k, .attest order checked now scope input⟩ :: rest ∧
        a.unmarked ∉ ((Runs.run (Services.call cfg) (Services.new kafka) before).secureBus.topics.attests topic).map
          Attestation.unmarked ∧
        a.unmarked ∈ (((Runs.run (Services.call cfg) (Services.new kafka) before).call cfg
          ⟨.object principal topic k, .attest order checked now scope input⟩).secureBus.topics.attests topic).map
            Attestation.unmarked ∧
        a.objectID = topic ∧ a.signerKeyID = input.keyID ∧ a.policyVersion = input.policyVersion ∧
        ∃ key sig cur pol, Authorized cfg checked topic input.credentials a.signature a.envelope
          (Runs.run (Services.call cfg) (Services.new kafka) before).secureBus key sig cur pol := by
  refine ⟨fun m stored => ?_, fun a stored => ?_⟩
  · obtain ⟨before, c, rest, split, old, new⟩ := run_first
      (P := fun s : Services => m ∈ s.secureBus.topics.messages topic) (s := Services.new kafka)
      (fun none => by cases none) stored
    obtain ⟨same, _⟩ | ⟨principal, _, k, order, checked, now, ⟨_, rfl⟩, input, _, rfl, published⟩ |
      ⟨_, _, _, _, _, _, _, _, a, rfl, attested⟩ :=
        call_cases cfg (run (Services.call cfg) (Services.new kafka) before) c
    · rw [same] at new
      exact absurd new old
    · obtain ⟨rfl, facts⟩ := published.authorized old new
      exact ⟨before, principal, k, order, checked, now, _, input, rest, split, old, new, facts⟩
    · rw [attested.messages] at new
      exact absurd new old
  · obtain ⟨before, c, rest, split, old, new⟩ := run_first
      (P := fun s : Services => a.unmarked ∈ (s.secureBus.topics.attests topic).map Attestation.unmarked)
      (s := Services.new kafka) (fun none => by cases none) (mem_map_of_mem stored)
    obtain ⟨_, same⟩ | ⟨_, _, _, _, _, _, _, _, _, rfl, published⟩ |
      ⟨principal, objectID, k, order, checked, now, ⟨scope, rfl⟩, input, a', rfl, attested⟩ :=
        call_cases cfg (run (Services.call cfg) (Services.new kafka) before) c
    · rw [same] at new
      exact absurd new old
    · rw [published.attests] at new
      exact absurd new old
    · obtain ⟨rfl, facts⟩ := attested.authorized old new
      exact ⟨before, principal, k, order, checked, now, _, input, rest, split, old, new, facts⟩

end
end SynaMcp
