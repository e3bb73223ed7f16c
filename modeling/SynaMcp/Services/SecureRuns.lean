import SynaMcp.Services.Isolation
import SynaMcp.Services.SecureSteps

/-! Runs of the services as runs of the secure bus: what a section of each call does to
the bus, and that keys and records are only ever added. -/
namespace SynaMcp
open Keyed Sections List Services AgentKeys Function Journal Topics

namespace Topics

theorem findMsg_id {msgs id m} (h : findMsg msgs id = some m) : m.id = id := by
  have found := find?_some h
  simpa using found

/-- What a delivery adds: stored messages that match, each once, and none of them
delivered before. -/
theorem scan_new (orders : Nat → Nat → Nat → Nat) (msgs : List SecureMessage) (attests : List Attestation)
    (doc : Document) (cond : Condition) (max n : Nat) (events : List SecureEvent) (c : Cursor) :
    ∃ new : List SecureMessage, (scan orders msgs attests doc cond max n events c).out = c.out ++ new ∧
      (scan orders msgs attests doc cond max n events c).delivered =
        (new.map SecureMessage.id).reverse ++ c.delivered ∧ (new.map SecureMessage.id).Nodup ∧
      ∀ m ∈ new, m.id ∉ c.delivered ∧ findMsg msgs m.id = some m ∧
        ∃ k, cond.matchCondition (messageView (orders k) attests doc m) = true := by
  induction events generalizing n c with
  | nil => exact ⟨[], by simp [scan]⟩
  | cons ev rest ih =>
    simp only [scan]
    split
    · exact ih (n + 1) c
    · split
      · exact ih (n + 1) { c with last := ev.id }
      · next undelivered =>
        split
        · exact ih (n + 1) { c with last := ev.id }
        · next msg found =>
          have named := findMsg_id found
          rw [← named] at undelivered found
          split
          · next matching =>
            split
            · refine ⟨[msg], rfl, rfl, by simp, fun m mem => ?_⟩
              cases List.mem_singleton.mp mem
              exact ⟨undelivered, found, n, matching⟩
            · obtain ⟨new, out, delivered, nodup, all⟩ := ih (n + 1)
                { last := ev.id, out := c.out ++ [msg], delivered := msg.id :: c.delivered }
              refine ⟨msg :: new, ?_, ?_, ?_, fun m mem => ?_⟩
              · rw [out]
                simp
              · rw [delivered]
                simp
              · simp only [map_cons, nodup_cons]
                refine ⟨fun mem => ?_, nodup⟩
                obtain ⟨m, mem, same⟩ := List.mem_map.mp mem
                exact (all m mem).1 (same ▸ mem_cons_self)
              · rcases List.mem_cons.mp mem with rfl | mem
                · exact ⟨undelivered, found, n, matching⟩
                · obtain ⟨new, rest⟩ := all m mem
                  exact ⟨fun old => new (mem_cons_of_mem _ old), rest⟩
          · exact ih (n + 1) { c with last := ev.id }

end Topics

/-- The attestation as it was stored, without the mark that it is superseded. -/
def Attestation.unmarked (a : Attestation) : Attestation := { a with supersededAt := none }

/-- The same key, which may have been revoked since. -/
def AgentKey.Keeps (k' k : AgentKey) : Prop := { k' with revokedAt := k.revokedAt } = k

/-- Keys and records are added and stay; of a key only its revocation changes, of an
attestation only the mark that it is superseded. -/
structure Evolves (s t : SecureBus) : Prop where
  keys : ∀ id k, s.keyStore.get id = some k → ∃ k', t.keyStore.get id = some k' ∧ k'.Keeps k
  policies : ∀ id, s.topics.policies id <+: t.topics.policies id
  messages : ∀ id, s.topics.messages id <+: t.topics.messages id
  attests : ∀ id, (s.topics.attests id).map Attestation.unmarked <+: (t.topics.attests id).map Attestation.unmarked
  events : ∀ id, s.topics.events id <+: t.topics.events id
  delivered : ∀ id consumer, s.topics.delivered id consumer <:+ t.topics.delivered id consumer

theorem AgentKey.Keeps.refl (k : AgentKey) : k.Keeps k := rfl

theorem AgentKey.Keeps.trans {k k' k'' : AgentKey} (h : k'.Keeps k) (h' : k''.Keeps k') : k''.Keeps k := by
  have later : { { k'' with revokedAt := k'.revokedAt } with revokedAt := k.revokedAt } = k := by
    rw [h']
    exact h
  exact later

theorem Attestation.unmarked_supersede (att a : Attestation) : (supersede att a).unmarked = a.unmarked := by
  unfold supersede
  split <;> rfl

theorem prefix_update {α : Type} (f : String → List α) (id : String) (xs : List α) (other : String) :
    f other <+: update f id (f id ++ xs) other := by
  by_cases same : other = id
  · subst same
    simp
  · simp [update_of_ne same]

namespace Evolves
variable {s t u : SecureBus}

theorem refl (s : SecureBus) : Evolves s s where
  keys _ k found := ⟨k, found, .refl k⟩
  policies _ := prefix_rfl
  messages _ := prefix_rfl
  attests _ := prefix_rfl
  events _ := prefix_rfl
  delivered _ _ := suffix_rfl

theorem trans (h : Evolves s t) (h' : Evolves t u) : Evolves s u where
  keys id k found := by
    obtain ⟨k', found', keeps⟩ := h.keys id k found
    obtain ⟨k'', found'', keeps'⟩ := h'.keys id k' found'
    exact ⟨k'', found'', keeps.trans keeps'⟩
  policies id := (h.policies id).trans (h'.policies id)
  messages id := (h.messages id).trans (h'.messages id)
  attests id := (h.attests id).trans (h'.attests id)
  events id := (h.events id).trans (h'.events id)
  delivered id consumer := (h.delivered id consumer).trans (h'.delivered id consumer)

theorem ofKeys {keys} (h : ∀ id k, s.keyStore.get id = some k → ∃ k', keys.get id = some k' ∧ k'.Keeps k) :
    Evolves s { s with keyStore := keys } := { refl s with keys := h }

variable (objectID : String)

theorem store (m : SecureMessage) (s : SecureBus) : Evolves s { s with topics := s.topics.store objectID m } :=
  { refl s with messages := prefix_update _ _ _, events := prefix_update _ _ _ }

theorem issue (sp : SignedPolicy) (s : SecureBus) : Evolves s { s with topics := s.topics.issue objectID sp } :=
  { refl s with policies := prefix_update _ _ _ }

theorem addAttestation (att : Attestation) (s : SecureBus) :
    Evolves s { s with topics := (Topics.addAttestation objectID att s.topics).1 } := by
  refine { refl s with attests := fun id => ?_, events := prefix_update _ _ _ }
  by_cases same : id = objectID
  · subst same
    have unmarked : ((s.topics.attests id).map (supersede att)).map Attestation.unmarked =
        (s.topics.attests id).map Attestation.unmarked := by
      rw [map_map]
      exact map_congr_left fun a _ => Attestation.unmarked_supersede att a
    simp only [Topics.addAttestation, update_self, map_append, unmarked]
    exact prefix_append _ _
  · simp only [Topics.addAttestation, update_of_ne same]
    exact prefix_rfl

theorem deliver (orders : Nat → Nat → Nat → Nat) (objectID consumer : String) (doc : Document) (cond : Condition)
    (max : Nat) (s : SecureBus) :
    Evolves s { s with topics := (Topics.deliver orders objectID consumer doc cond max s.topics).1 } := by
  refine { refl s with delivered := fun id name => ?_ }
  simp only [Topics.deliver]
  by_cases topic : id = objectID
  · subst topic
    rw [update_self]
    by_cases own : name = consumer
    · subst own
      rw [update_self]
      obtain ⟨_, _, delivered, _⟩ := scan_new orders (s.topics.messages id) (s.topics.attests id) doc cond
        max 0 (s.topics.events id) ⟨s.topics.lastEventID id name, s.topics.delivered id name, []⟩
      rw [delivered]
      exact suffix_append _ _
    · rw [update_of_ne own]
  · rw [update_of_ne topic]

end Evolves

section
variable [Signing] [PolicyLib] (cfg : SecureConfig) (s : SecureBus)

inductive ObjectStep {objectID : String} : ObjectCall objectID → SecureBus → Prop where
  | idle (c : ObjectCall objectID) : ObjectStep c s
  | policy {orders issued now scope doc sp} (kind : scope.val.kind = .securebus)
      (valid : (doc.issue issued scope.val.objectID).validateDocument orders.agents orders.conditions = .ok ())
      (keys : ∀ a ∈ doc.agents.rows, HadKey Evolves a.2.keyID s)
      (issues : s.topics.Issues scope.val.objectID (doc.issue issued scope.val.objectID) sp) :
      ObjectStep (.putPolicy orders issued now scope doc) { s with topics := s.topics.issue scope.val.objectID sp }
  | message {order checked now} {scope : ScopeOf objectID} {input key pol sig linked}
      (found : Publishable Evolves cfg order checked now scope input s key pol sig)
      (chained : chainMessage key sig (input.message now scope.val.objectID).envelope
        (input.message now scope.val.objectID)
        (if pol.document.chain then (s.topics.messages scope.val.objectID).getLast? else none) = .ok linked) :
      ObjectStep (.publish order checked now scope input)
        { s with topics := s.topics.store scope.val.objectID linked }
  | attestation {order checked now} {scope : ScopeOf objectID} {input key pol msg sig}
      (found : Attestable Evolves cfg order checked now scope input s key pol msg sig) :
      ObjectStep (.attest order checked now scope input)
        { s with topics := (Topics.addAttestation scope.val.objectID
            (input.attestation now scope.val.objectID msg) s.topics).1 }
  | delivery {orders} {scope : ScopeOf objectID} {consumer condition adHoc max pol cond}
      (found : Deliverable Evolves scope condition adHoc s pol cond) :
      ObjectStep (.secureConsume orders scope consumer condition adHoc max)
        { s with topics := (Topics.deliver orders scope.val.objectID (consumerName consumer) pol.document cond
            (orTen max) s.topics).1 }
  | poll {consumer condition adHoc polls orders} {scope : ScopeOf objectID} {pol cond} (polled : (orders, .ok scope) ∈ polls)
      (found : Deliverable Evolves scope condition adHoc s pol cond) :
      ObjectStep (.secureSubscribe consumer condition adHoc polls)
        { s with topics := (Topics.deliver orders scope.val.objectID (consumerName consumer) pol.document cond
            (orTen 10) s.topics).1 }

end

inductive KeyStep [Signing] (s : AgentKeys) : ServiceCall → AgentKeys → Prop where
  | challenges (c : ServiceCall) (challs : Table Challenge.nonce) : KeyStep s c { s with challs := challs }
  | registered {checkedAt env input alg}
      (fresh : s.get (newKey env alg input).keyID = none) :
      KeyStep s (.register checkedAt env input) { s with mem := s.mem.put (newKey env alg input) }
  | revoked {now keyID subjectKey k} (found : s.get keyID = some k)
      (owner : k.subjectKey = subjectKey) :
      KeyStep s (.revoke now keyID subjectKey) { s with mem := s.mem.put { k with revokedAt := some now } }

section
variable [Signing] [PolicyLib] (cfg : SecureConfig)

def CallID.Step : (i : CallID) → i.Call → SecureBus → SecureBus → Prop
  | .object _ _ _, c, s, t => ObjectStep cfg s c t
  | .service _, c, s, t => ∃ keys, KeyStep s.keyStore c keys ∧ t = { s with keyStore := keys }

end

def ServiceCall.Draws : ServiceCall → AgentKeys → Prop
  | .register _ env _, keys => keys.get ("k_" ++ (env.uuid 0).val) = none
  | _, _ => True

def CallID.Draws : (i : CallID) → i.Call → SecureBus → Prop
  | .object _ _ _, _, _ => True
  | .service _, c, s => ServiceCall.Draws c s.keyStore

instance : (c : ServiceCall) → (keys : AgentKeys) → Decidable (c.Draws keys)
  | .register _ env _, keys => inferInstanceAs (Decidable (keys.get ("k_" ++ (env.uuid 0).val) = none))
  | .tick .., _ => .isTrue trivial
  | .createChallenge .., _ => .isTrue trivial
  | .listKeys .., _ => .isTrue trivial
  | .revoke .., _ => .isTrue trivial

instance : (i : CallID) → (c : i.Call) → (s : SecureBus) → Decidable (i.Draws c s)
  | .object _ _ _, _, _ => .isTrue trivial
  | .service _, c, s => inferInstanceAs (Decidable (ServiceCall.Draws c s.keyStore))

section
variable [Signing] {s : SecureBus}

theorem KeyStep.evolves {c keys} (h : KeyStep s.keyStore c keys) : Evolves s { s with keyStore := keys } := by
  apply Evolves.ofKeys
  intro id k found
  cases h with
  | challenges => exact ⟨k, found, .refl k⟩
  | @registered _ env input alg fresh =>
    have other : (newKey env alg input).keyID ≠ id := by
      rintro rfl
      cases fresh.symm.trans found
    exact ⟨k, (Table.get?_put_of_ne _ other).trans found, .refl k⟩
  | @revoked now _ _ old stored =>
    by_cases same : old.keyID = id
    · have kept : k = old := by
        rw [← Table.key_of_get? stored, same] at stored
        exact Option.some.inj (found.symm.trans stored)
      subst kept
      subst same
      exact ⟨{ k with revokedAt := some now },
        Table.get?_put_self s.keyStore.mem { k with revokedAt := some now }, rfl⟩
    · exact ⟨k, (@Table.get?_put_of_ne _ _ AgentKey.keyID _ s.keyStore.mem { old with revokedAt := some now } id
        same).trans found, .refl k⟩

variable [PolicyLib] {cfg : SecureConfig} {t : SecureBus}

theorem ObjectStep.evolves {objectID} {c : ObjectCall objectID} (h : ObjectStep cfg s c t) : Evolves s t := by
  cases h with
  | idle => exact .refl s
  | policy => exact .issue _ _ s
  | message => exact .store _ _ s
  | attestation => exact .addAttestation _ _ s
  | delivery found | poll polled found => exact .deliver _ _ _ _ _ _ s

theorem CallID.Step.evolves {i : CallID} {c} (h : i.Step cfg c s t) : Evolves s t := by
  cases i with
  | object => exact ObjectStep.evolves h
  | service =>
    obtain ⟨_, moved, rfl⟩ := h
    exact moved.evolves

variable (R : SecureBus → SecureBus → Prop) (cfg) (order : Nat → Nat) (checked now : Time) (scope : Scope)

def Published (input : PublishInput) (s : SecureBus) (m : SecureMessage) (t : SecureBus) : Prop :=
  ∃ key pol sig linked, Publishable R cfg order checked now scope input s key pol sig ∧
    chainMessage key sig (input.message now scope.objectID).envelope (input.message now scope.objectID)
      (if pol.document.chain then (s.topics.messages scope.objectID).getLast? else none) = .ok linked ∧
    m = s.topics.numbered scope.objectID linked ∧ t = { s with topics := s.topics.store scope.objectID linked }

def Attested (input : AttestInput) (s : SecureBus) (a : Attestation) (t : SecureBus) : Prop :=
  ∃ key pol msg sig, Attestable R cfg order checked now scope input s key pol msg sig ∧
    Topics.addAttestation scope.objectID (input.attestation now scope.objectID msg) s.topics = (t.topics, .ok a)

omit [Signing] in
def Delivered (orders : Nat → Nat → Nat → Nat) (scope : Scope) (consumer condition : String)
    (adHoc : Option JsonObject) (max : Int) (s : SecureBus) (out : List SecureMessage) (t : SecureBus) : Prop :=
  ∃ pol cond, Deliverable Evolves scope condition adHoc s pol cond ∧
    Topics.deliver orders scope.objectID (consumerName consumer) pol.document cond (orTen max) s.topics =
      (t.topics, .ok out)

def CallID.Post : (i : CallID) → i.Call → SecureBus → Outcome → SecureBus → Prop
  | .object _ _ _, .publish order checked now scope input, s, .message (.ok m), t =>
    Published cfg Evolves order checked now scope input s m t
  | .object _ _ _, .attest order checked now scope input, s, .attestation (.ok a), t =>
    Attested cfg Evolves order checked now scope input s a t
  | .object _ _ _, .secureConsume orders scope consumer condition adHoc max, s, .messages (.ok out), t =>
    Delivered orders scope consumer condition adHoc max s out t
  | _, _, _, _, _ => True

def CallID.terms (i : CallID) (c : i.Call) : Terms SecureBus where
  rely := Evolves
  assume := i.Draws c
  guar s t := i.Step cfg c s t
  rely_refl := .refl
  rely_trans := .trans
  guar_refl s _ := by
    cases i with
    | object => exact .idle c
    | service => exact ⟨s.keyStore, .challenges c s.keyStore.challs, rfl⟩

end

namespace AgentKeys
variable [Signing] {env : Env} {binder : String} {now : Time}

def terms (c : ServiceCall) : Terms AgentKeys where
  rely _ _ := True
  assume := c.Draws
  guar s t := KeyStep s c t
  rely_refl _ := trivial
  rely_trans _ _ := trivial
  guar_refl s _ := .challenges c s.challs

variable {c : ServiceCall} {s t : AgentKeys}

theorem createChallenge_safe {ttl} :
    Safe (terms c) (fun _ _ _ => True) (.atomic (createChallenge env binder ttl)) s t := by
  refine .atomic fun u _ _ => ⟨?_, trivial⟩
  unfold createChallenge
  split
  · exact .challenges c u.challs
  · exact .challenges c _

theorem consumeChallenge_step {nonce} (s : AgentKeys) : KeyStep s c (consumeChallenge now nonce binder s).1 := by
  unfold consumeChallenge
  split
  · exact .challenges c s.challs
  · split
    · exact .challenges c s.challs
    · split
      · exact .challenges c _
      · split
        · exact .challenges c s.challs
        · exact .challenges c _

theorem revoke_safe {keyID subjectKey} :
    Safe (terms (.revoke now keyID subjectKey)) (fun _ _ _ => True) (.atomic (revoke now keyID subjectKey)) s t := by
  refine .atomic fun u _ _ => ⟨?_, trivial⟩
  unfold revoke
  split
  · exact .challenges _ u.challs
  · next k found =>
    split
    · exact .challenges _ u.challs
    · next owner => exact .revoked found (not_not.mp owner)

theorem register_safe {checkedAt input} :
    Try.Safe (terms (.register checkedAt env input)) (fun _ _ _ => True) (register checkedAt env input) s t := by
  refine Try.Safe.bind (Try.Safe.require fun _ => ?_)
  refine Try.Safe.bind (Try.Safe.ofExcept fun alg _ => ?_)
  refine Try.Safe.bind (.atomic fun u _ _ => ⟨consumeChallenge_step u, fun _ _ => ?_⟩)
  refine Try.Safe.bind (Try.Safe.require fun _ => ?_)
  exact .atomic fun v _ fresh => ⟨.registered fresh, fun _ _ => trivial⟩

end AgentKeys

namespace Services
variable {T : Terms SecureBus} {ρ ν : Type} {s t : Services}

theorem other_safe {other put} {p : Prog ν ρ} {outcome : ρ → Outcome}
    (apart : ∀ v s, (put v s).secureBus = s.secureBus) :
    Safe (T.lift secureBus) (fun _ _ _ => True) (do return outcome (← p.zoom other put)) s t :=
  .bind (.zoom_other apart s t)

theorem secure_safe {post : SecureBus → Outcome → SecureBus → Prop} {α p}
    {outcome : Except String α → Outcome} (found : SecureBus → α → SecureBus → Prop)
    (h : Try.Safe T found p s.secureBus t.secureBus) (result : ∀ s a t, found s a t → post s (outcome (.ok a)) t)
    (failure : ∀ s e t, post s (outcome (.error e)) t) :
    Safe (T.lift secureBus) (fun s r t => post s.secureBus r t.secureBus) (do return outcome (← onSecureBus p.run))
      s t := by
  refine .bind (.imp (.lift (fun _ _ => rfl) h) fun s r t holds => ?_)
  cases r with
  | error e => exact failure s.secureBus e t.secureBus
  | ok a => exact result s.secureBus a t.secureBus (holds a rfl)

end Services

section
variable [ServiceLib] [Signing] [PolicyLib] {cfg : SecureConfig} {s t : Services}

theorem ObjectCall.prog_safe {principal objectID : String} {n} (c : ObjectCall objectID) :
    Safe ((CallID.terms cfg (.object principal objectID n) c).lift Services.secureBus)
      (fun s r t => CallID.Post cfg (.object principal objectID n) c s.secureBus r t.secureBus) (c.prog cfg) s t := by
  cases c with
  | putPolicy orders issued now scope doc =>
    refine secure_safe (fun _ _ _ => True) ?_ (fun _ _ _ _ => trivial) fun _ _ _ => trivial
    refine SecureBus.putPolicy_safe fun kind u _ valid keys => ?_
    obtain ⟨_, refused⟩ | ⟨_, issues, added⟩ := addPolicy_cases cfg now scope.val.objectID
      (doc.issue issued scope.val.objectID) u.topics
    · rw [refused]
      exact ⟨.idle _, fun _ _ => trivial⟩
    · rw [added]
      exact ⟨.policy kind valid keys issues, fun _ _ => trivial⟩
  | policy =>
    refine secure_safe (fun _ _ _ => True) ?_ (fun _ _ _ _ => trivial) fun _ _ _ => trivial
    exact SecureBus.getPolicy_safe fun _ _ _ _ _ => trivial
  | publish order checked now scope input =>
    refine secure_safe (Published cfg Evolves order checked now scope input) ?_ (fun _ _ _ done => done)
      fun _ _ _ => trivial
    refine SecureBus.publish_safe fun u key pol sig _ found => ?_
    obtain ⟨_, refused⟩ | ⟨linked, chained, added⟩ := addMessage_cases scope.val.objectID pol.document.chain
      key sig (input.message now scope.val.objectID).envelope (input.message now scope.val.objectID) u.topics
    · rw [refused]
      refine ⟨.idle _, fun m failed => ?_⟩
      cases failed
    · rw [added]
      refine ⟨.message found chained, fun m stored => ?_⟩
      cases stored
      exact ⟨key, pol, sig, linked, found, chained, rfl, rfl⟩
  | attest order checked now scope input =>
    refine secure_safe (Attested cfg Evolves order checked now scope input) ?_ (fun _ _ _ done => done)
      fun _ _ _ => trivial
    exact SecureBus.attest_safe fun u key pol msg sig _ found =>
      ⟨.attestation found, fun a added => ⟨key, pol, msg, sig, found, Prod.ext rfl added⟩⟩
  | verify scope messageID =>
    exact secure_safe (fun _ _ _ => True) (SecureBus.verify_safe scope messageID)
      (fun _ _ _ _ => trivial) fun _ _ _ => trivial
  | keys order scope =>
    exact secure_safe (fun _ _ _ => True) (SecureBus.keys_safe order scope) (fun _ _ _ _ => trivial)
      fun _ _ _ => trivial
  | secureConsume orders scope consumer condition adHoc max =>
    refine secure_safe (Delivered orders scope consumer condition adHoc max) ?_ (fun _ _ _ done => done)
      fun _ _ _ => trivial
    exact SecureBus.consume_safe fun u pol cond _ found =>
      ⟨.delivery found, fun out delivered => ⟨pol, cond, found, Prod.ext rfl delivered⟩⟩
  | secureSubscribe consumer condition adHoc polls =>
    have polling : Safe (CallID.terms cfg (.object principal objectID n)
        (.secureSubscribe consumer condition adHoc polls)) (fun _ _ _ => True)
        (SecureBus.subscribe consumer condition adHoc polls []) s.secureBus t.secureBus :=
      SecureBus.subscribe_safe fun orders scope polled u pol cond _ found => .poll polled found
    exact Safe.bind (Safe.imp (Safe.lift (fun _ _ => rfl) polling) fun _ _ _ _ => trivial)
  | _ => exact other_safe fun _ _ => rfl

omit [ServiceLib] in
theorem Services.keys_safe {ρ n c p} {outcome : ρ → Outcome}
    (h : Safe (terms c) (fun _ _ _ => True) p s.secureBus.keyStore t.secureBus.keyStore) :
    Safe ((CallID.terms cfg (.service n) c).lift Services.secureBus) (fun _ _ _ => True)
      (do return outcome (← onKeys p)) s t := by
  have inner : Safe (CallID.terms cfg (.service n) c) (fun _ _ _ => True)
      (p.zoom SecureBus.keyStore fun keys s => { s with keyStore := keys }) s.secureBus t.secureBus := by
    refine .zoom (fun _ _ => rfl) (fun _ _ _ => trivial) (fun s draws => ?_) (fun s keys _ moved => ?_) h
    · exact draws
    · exact ⟨keys, moved, rfl⟩
  exact Safe.bind (Safe.imp (Safe.lift (fun _ _ => rfl) inner) fun _ _ _ _ => trivial)

theorem ServiceCall.prog_safe {n} (c : ServiceCall) :
    Safe ((CallID.terms cfg (.service n) c).lift Services.secureBus) (fun _ _ _ => True) c.prog s t := by
  cases c with
  | tick => exact other_safe fun _ _ => rfl
  | createChallenge => exact keys_safe createChallenge_safe
  | register =>
    exact keys_safe (.imp register_safe fun _ _ _ _ => trivial)
  | listKeys => exact keys_safe fun u _ _ => ⟨.challenges _ u.challs, trivial⟩
  | revoke => exact keys_safe revoke_safe

theorem CallID.prog_safe (i : CallID) (c : i.Call) : Safe ((i.terms cfg c).lift Services.secureBus)
      (fun s r t => i.Post cfg c s.secureBus r t.secureBus) (i.prog cfg c) s t := by
  cases i with
  | object => exact ObjectCall.prog_safe c
  | service => exact .imp (ServiceCall.prog_safe c) fun _ _ _ _ => trivial

end

section
variable [ServiceLib] [Signing] [PolicyLib] (cfg : SecureConfig)

def secureContract : Contract (CallID.prog cfg) where
  allowed _ _ := True
  terms i c := (i.terms cfg c).lift Services.secureBus
  post i c s r t := i.Post cfg c s.secureBus r t.secureBus
  good _ := True
  safe i c _ _ _ := CallID.prog_safe i c
  keeps _ _ _ _ _ _ _ := trivial
  compat _ _ _ _ _ _ _ _ _ _ owed := owed.evolves

instance (i : CallID) (c : i.Call) : Decidable ((secureContract cfg).allowed i c) := .isTrue trivial

instance (i : CallID) (c : i.Call) (s : Services) : Decidable (((secureContract cfg).terms i c).assume s) :=
  inferInstanceAs (Decidable (i.Draws c s.secureBus))

variable (store : Services) (events : List ServiceEvent)

/-- Registrations draw ids that no key has, in the states in which their sections run. -/
abbrev DrawsKeys : Prop :=
  Runs.Guarded (secureContract cfg).Meets (step (CallID.prog cfg)) (quiet store) events

/-- The secure bus before the event of that number. -/
def busAt (n : Nat) : SecureBus :=
  (before (CallID.prog cfg) store events n).store.secureBus

variable {cfg} {store} {events} (draws : DrawsKeys cfg store events)
include draws

/-- An event of the run leaves the secure bus, or is a section of a call that was made. -/
theorem step_at (n : Nat) : busAt cfg store events (n + 1) = busAt cfg store events n ∨
      ∃ i c, events[n]? = some (.advance i) ∧ (before (CallID.prog cfg) store events n).made i = some c ∧
        (before (CallID.prog cfg) store events n).result i = none ∧
        i.Step cfg c (busAt cfg store events n) (busAt cfg store events (n + 1)) := by
  rcases Contract.step_before (C := secureContract cfg) trivial draws n with
    same | ⟨i, c, event, made, pending, _, owed⟩
  · exact .inl (congrArg Services.secureBus same)
  · exact .inr ⟨i, c, event, made, pending, owed⟩

/-- An event of the run leaves the topics, or is a section of a call on an object. -/
theorem topics_step_at (n : Nat) : (busAt cfg store events (n + 1)).topics = (busAt cfg store events n).topics ∨
      ∃ principal objectID k, ∃ c : ObjectCall objectID, events[n]? = some (.advance (.object principal objectID k)) ∧
        (before (CallID.prog cfg) store events n).made (.object principal objectID k) = some c ∧
        (before (CallID.prog cfg) store events n).result (.object principal objectID k) = none ∧
        ObjectStep cfg (busAt cfg store events n) c (busAt cfg store events (n + 1)) := by
  rcases step_at draws n with same | ⟨i, c, moved⟩
  · exact .inl (by rw [same])
  · cases i with
    | service =>
      obtain ⟨_, _, _, _, _, after⟩ := moved
      exact .inl (by rw [after])
    | object principal objectID k => exact .inr ⟨principal, objectID, k, c, moved⟩

theorem evolves_at {m n} (le : m ≤ n) : Evolves (busAt cfg store events m) (busAt cfg store events n) :=
  Contract.rel_before (C := secureContract cfg) (R := fun s t => Evolves s.secureBus t.secureBus) trivial draws
    (fun s => .refl s.secureBus) (fun _ _ _ => .trans) (fun _ _ _ _ _ _ owed => owed.evolves) le

theorem post_at {n i c r} (h : Ends (CallID.prog cfg) store events n i c r) :
    i.Post cfg c (busAt cfg store events n) r (busAt cfg store events (n + 1)) :=
  (Contract.post_of_ends (C := secureContract cfg) trivial draws h).2

end

def secureScope (objectID : String) : ScopeOf objectID :=
  ⟨{ object := { id := objectID, kind := .securebus }, method := "publish", access := {}, principal := {} }, rfl⟩

def sampleConfig : SecureConfig := .new (some { kid := "kid", priv := [1] }) 0

def sampleDocument (chain : Bool) : Document where
  version := 1
  chain := chain
  agents := Table.empty.put ("ann", { keyID := "k_1", alg := "ed25519", publicKey := "pk" })
  rules := { publish := ["ann"], attest := ["ann"] }
  conditions := .empty

def sampleSigned (chain : Bool) : SignedPolicy where
  document := { sampleDocument chain with topicID := "t", schema := policySchemaID, issuedAt := "now" }
  hash := ""
  signature := ""
  signerKID := "kid"
  version := 1
  createdAt := 1

def samplePublication (nonce signature : String) : PublishInput where
  keyID := "k_1"
  subjectKey := "ann"
  tokenID := ""
  policyVersion := 1
  policyHash := ""
  nonce := nonce
  createdAt := 0
  payload := none
  signature := signature
  prevHash := ""

def sampleMessage : SecureMessage where
  id := 1
  objectID := "t"
  authorKeyID := "k_1"
  policyVersion := 1
  policyHash := ""
  nonce := "n"
  payload := []
  hash := "h"
  prevHash := ""
  signature := "h"
  createdAt := 2

def sampleAttestation (messageID : Int) (status : String) : AttestInput where
  keyID := "k_1"
  subjectKey := "ann"
  tokenID := ""
  messageID := messageID
  policyVersion := 1
  status := status
  comment := ""
  createdAt := 0
  signature := "h"

def CallID.alone (i : CallID) (c : i.Call) (sections : Nat) : List ServiceEvent :=
  .call i c :: List.replicate sections (.advance i)

def annSetsUp (doc : Document) : List ServiceEvent :=
  CallID.alone (.service 0) (.createChallenge (draws "c") "session" 0) 1 ++
    CallID.alone (.service 1) (.register 1 (draws "1")
      { subjectKey := "ann", tokenID := "", algorithm := "", publicKey := List.replicate 32 0, nonce := "c",
        signature := [100], binder := "session" }) 2 ++
    CallID.alone (.object "ann" "t" 0) (.putPolicy ⟨id, id, id⟩ 1 1 (secureScope "t") doc) 2

end SynaMcp
