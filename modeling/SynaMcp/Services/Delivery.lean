import SynaMcp.Lib.Feed
import SynaMcp.Services.Ledger

/-! Deliveries of a secure bus in memory. A message that was passed over comes back with
the next attestation of it, so that none is lost, and what was delivered is kept, so
that none is delivered twice. -/
namespace SynaMcp
open Function (update_self update_of_ne)
open Keyed Sections Feeds List Topics Journal Nat

section
variable {doc : Document} (distinct : (doc.agents.rows.map fun a => a.2.keyID).Nodup)
include distinct

theorem Document.agentNameForKey_order (order : Nat → Nat) (keyID : String) :
    doc.agentNameForKey order keyID = (doc.agents.rows.find? fun a => a.2.keyID = keyID).map Prod.fst := by
  unfold agentNameForKey
  rw [GoMaps.find?_range]
  intro a mem b mem' same same'
  have equal : a.2.keyID = b.2.keyID := (of_decide_eq_true same).trans (of_decide_eq_true same').symm
  exact inj_on_of_nodup_map distinct mem mem' equal

theorem Topics.messageView_order (orders orders' : Nat → Nat → Nat) (attests : List Attestation) (m : SecureMessage) :
    messageView orders attests doc m = messageView orders' attests doc m := by
  simp only [messageView, Document.agentNameForKey_order distinct]

end

/-- The message satisfies the condition by its standing attestations, in whatever
order the agents are looked through. -/
def SecureBus.Satisfies (s : SecureBus) (topic : String) (doc : Document) (cond : Condition) (m : SecureMessage) :
    Prop :=
  ∀ orders, cond.matchCondition (messageView orders (s.topics.attests topic) doc m) = true

theorem SecureBus.satisfies_iff {s : SecureBus} {topic doc cond m} (distinct : (doc.agents.rows.map fun a => a.2.keyID).Nodup) (orders : Nat → Nat → Nat) :
    cond.matchCondition (messageView orders (s.topics.attests topic) doc m) = true ↔
      s.Satisfies topic doc cond m := by
  refine ⟨fun h orders' => ?_, fun h => h orders⟩
  rw [messageView_order distinct orders' orders]
  exact h

namespace Topics
variable {orders : Nat → Nat → Nat → Nat} {msgs : List SecureMessage} {attests : List Attestation} {doc : Document}
  {cond : Condition} {max n : Nat} {events : List SecureEvent} {c : Cursor}
  {id : Int} {topic name : String} {s : Topics}

theorem scan_delivered (h : id ∈ c.delivered) :
    id ∈ (scan orders msgs attests doc cond max n events c).delivered := by
  obtain ⟨_, _, delivered, _⟩ := scan_new orders msgs attests doc cond max n events c
  rw [delivered]
  exact mem_append_right _ h

/-- A scan passes over no event: its message is delivered, or is not one to deliver,
or the scan was full before it. -/
theorem scan_covers (orders : Nat → Nat → Nat → Nat) (msgs : List SecureMessage) (max n : Nat) (c : Cursor)
    {good : SecureMessage → Prop}
    (uniform : ∀ k m, cond.matchCondition (messageView (orders k) attests doc m) = true ↔ good m)
    (sorted : events.Pairwise fun a b => a.id < b.id) (ev : SecureEvent) (mem : ev ∈ events) (pending : c.last < ev.id) :
    ev.messageID ∈ (scan orders msgs attests doc cond max n events c).delivered ∨
      (∀ m, findMsg msgs ev.messageID = some m → ¬ good m) ∨
      ((scan orders msgs attests doc cond max n events c).last < ev.id ∧
        max ≤ (scan orders msgs attests doc cond max n events c).out.length) := by
  fun_induction scan orders msgs attests doc cond max n events c with
  | case1 => cases mem
  | case2 n head rest c skipped ih =>
    rcases List.mem_cons.mp mem with rfl | mem
    · omega
    · exact ih (List.pairwise_cons.mp sorted).2 mem pending
  | case3 n head rest c new c' seen ih =>
    rcases List.mem_cons.mp mem with rfl | mem
    · exact .inl (scan_delivered seen)
    · exact ih (List.pairwise_cons.mp sorted).2 mem ((List.pairwise_cons.mp sorted).1 ev mem)
  | case4 n head rest c new c' unseen missing ih =>
    rcases List.mem_cons.mp mem with rfl | mem
    · refine .inr (.inl fun m found => ?_)
      cases missing.symm.trans found
    · exact ih (List.pairwise_cons.mp sorted).2 mem ((List.pairwise_cons.mp sorted).1 ev mem)
  | case5 n head rest c new c' unseen msg found matching c'' full =>
    rcases List.mem_cons.mp mem with rfl | mem
    · left
      rw [← findMsg_id found]
      exact mem_cons_self
    · exact .inr (.inr ⟨(List.pairwise_cons.mp sorted).1 ev mem, full⟩)
  | case6 n head rest c new c' unseen msg found matching c'' room ih =>
    rcases List.mem_cons.mp mem with rfl | mem
    · left
      rw [← findMsg_id found]
      exact scan_delivered mem_cons_self
    · exact ih (List.pairwise_cons.mp sorted).2 mem ((List.pairwise_cons.mp sorted).1 ev mem)
  | case7 n head rest c new c' unseen msg found other ih =>
    rcases List.mem_cons.mp mem with rfl | mem
    · refine .inr (.inl fun m found' => ?_)
      cases found.symm.trans found'
      exact fun satisfied => other ((uniform n msg).mpr satisfied)
    · exact ih (List.pairwise_cons.mp sorted).2 mem ((List.pairwise_cons.mp sorted).1 ev mem)

/-- What a delivery does: it returns stored messages that match, each once and none
that was delivered before, and keeps that they were. -/
theorem deliver_new {t out} (h : deliver orders topic name doc cond max s = (t, .ok out)) :
    t.delivered topic name = (out.map SecureMessage.id).reverse ++ s.delivered topic name ∧
      (out.map SecureMessage.id).Nodup ∧ ∀ m ∈ out, m.id ∉ s.delivered topic name ∧ m ∈ s.messages topic ∧
        ∃ k, cond.matchCondition (messageView (orders k) (s.attests topic) doc m) = true := by
  obtain ⟨new, returned, delivered, nodup, each⟩ := scan_new orders (s.messages topic) (s.attests topic) doc cond max 0
    (s.events topic) ⟨s.lastEventID topic name, s.delivered topic name, []⟩
  obtain ⟨after, result⟩ := Prod.mk.inj h
  obtain rfl : new = out := returned.symm.trans (Except.ok.inj result)
  refine ⟨?_, nodup, fun m mem => ?_⟩
  · rw [← after]
    simp only [update_self]
    exact delivered
  · obtain ⟨undelivered, found, matching⟩ := each m mem
    exact ⟨undelivered, mem_of_find?_eq_some found, matching⟩

theorem deliver_other {objectID consumer} (other : ¬ (objectID = topic ∧ consumer = name)) :
    (deliver orders objectID consumer doc cond max s).1.delivered topic name = s.delivered topic name := by
  simp only [deliver]
  by_cases same : topic = objectID
  · subst same
    rw [update_self, update_of_ne fun equal => other ⟨rfl, equal.symm⟩]
  · rw [update_of_ne same]

theorem supersede_messageID (att a : Attestation) : (supersede att a).messageID = a.messageID := by
  unfold supersede
  split <;> rfl

theorem supersede_of_ne {att a} (other : a.messageID ≠ att.messageID) : supersede att a = a := by
  unfold supersede
  rw [if_neg fun same => other same.1]

theorem standing_addAttestation {att} (other : id ≠ att.messageID) :
    ((addAttestation topic att s).1.attests topic).filter (fun a => a.messageID = id ∧ a.supersededAt = none) =
      (s.attests topic).filter (fun a => a.messageID = id ∧ a.supersededAt = none) := by
  have marked : ∀ as : List Attestation,
      (as.map (supersede att)).filter (fun a => a.messageID = id ∧ a.supersededAt = none) =
        as.filter (fun a => a.messageID = id ∧ a.supersededAt = none) := by
    intro as
    induction as with
    | nil => rfl
    | cons a rest ih =>
      rw [map_cons, filter_cons, filter_cons, ih]
      by_cases own : a.messageID = id
      · rw [supersede_of_ne (own ▸ other)]
      · simp [own, supersede_messageID]
  simp only [addAttestation, update_self, filter_append, marked]
  simp [Ne.symm other]

end Topics

section
variable (topic name : String) (doc : Document) (cond : Condition)

def SecureBus.feed (s : SecureBus) : Feed SecureMessage where
  stored m := m ∈ s.topics.messages topic
  wanted m := s.Satisfies topic doc cond m
  waiting m := ∃ ev ∈ s.topics.events topic, ev.messageID = m.id ∧ s.topics.lastEventID topic name < ev.id
  given m := m.id ∈ s.topics.delivered topic name

variable {topic name doc cond} {s t : SecureBus}

/-- What is true of a call in all its sections: nothing of the topic changes but what
only grows. -/
theorem covered_of_same (h : (s.feed topic name doc cond).Covered) (evolved : Evolves s t)
    (messages : t.topics.messages topic = s.topics.messages topic)
    (attests : t.topics.attests topic = s.topics.attests topic)
    (cursor : t.topics.lastEventID topic name = s.topics.lastEventID topic name) :
    (t.feed topic name doc cond).Covered := by
  refine h.step (fun m stored => .inl ?_) (fun m _ wanted => .inl ?_) (fun m given => ?_) fun m _ waits => .inl ?_
  · have after : m ∈ t.topics.messages topic := stored
    rw [messages] at after
    exact after
  · intro orders
    rw [← attests]
    exact wanted orders
  · exact (evolved.delivered topic name).subset given
  · obtain ⟨ev, mem, named, later⟩ := waits
    exact ⟨ev, (evolved.events topic).subset mem, named, cursor ▸ later⟩

theorem covered_store (h : (s.feed topic name doc cond).Covered) (numbered : s.Numbered) (msg : SecureMessage) :
    (SecureBus.feed topic name doc cond { s with topics := s.topics.store topic msg }).Covered := by
  have evolved := Evolves.store topic msg s
  refine h.step (fun m stored => ?_) (fun m _ wanted => .inl wanted) (fun m given => given) fun m _ waits => .inl ?_
  · simp only [SecureBus.feed, Topics.store, update_self, mem_append, mem_singleton] at stored ⊢
    rcases stored with old | rfl
    · exact .inl old
    · refine .inr ⟨_, .inr rfl, rfl, ?_⟩
      exact Int.lt_add_one_of_le (numbered.cursor topic name)
  · obtain ⟨ev, mem, named, later⟩ := waits
    exact ⟨ev, (evolved.events topic).subset mem, named, later⟩

theorem satisfies_of_addAttestation {att m} (other : m.id ≠ att.messageID)
    (h : SecureBus.Satisfies { s with topics := (Topics.addAttestation topic att s.topics).1 } topic doc cond m) :
    s.Satisfies topic doc cond m := by
  intro orders
  have after := h orders
  unfold messageView at after ⊢
  rwa [standing_addAttestation other] at after

theorem covered_addAttestation (h : (s.feed topic name doc cond).Covered) (numbered : s.Numbered)
    (att : Attestation) : (SecureBus.feed topic name doc cond
      { s with topics := (Topics.addAttestation topic att s.topics).1 }).Covered := by
  have evolved := Evolves.addAttestation topic att s
  refine h.step (fun m stored => .inl stored) (fun m _ wanted => ?_) (fun m given => given) fun m _ waits => .inl ?_
  · by_cases own : m.id = att.messageID
    · simp only [SecureBus.feed, Topics.addAttestation, update_self, mem_append, mem_singleton]
      refine .inr ⟨_, .inr rfl, own.symm, ?_⟩
      exact Int.lt_add_one_of_le (numbered.cursor topic name)
    · exact .inl (satisfies_of_addAttestation own wanted)
  · obtain ⟨ev, mem, named, later⟩ := waits
    exact ⟨ev, (evolved.events topic).subset mem, named, later⟩

section
variable {orders : Nat → Nat → Nat → Nat} {max : Nat}
  (distinct : (doc.agents.rows.map fun a => a.2.keyID).Nodup) (numbered : s.Numbered)
include distinct numbered

/-- After a delivery a record that waited was given, or is not wanted, or still waits
because the delivery was full. -/
theorem deliver_passes {m : SecureMessage} (stored : m ∈ s.topics.messages topic)
    (waits : (s.feed topic name doc cond).waiting m) :
    let t := { s with topics := (Topics.deliver orders topic name doc cond max s.topics).1 }
    (t.feed topic name doc cond).given m ∨ ¬ (t.feed topic name doc cond).wanted m ∨
      (t.feed topic name doc cond).waiting m ∧
        ∀ out, (Topics.deliver orders topic name doc cond max s.topics).2 = .ok out → max ≤ out.length := by
  obtain ⟨ev, mem, named, later⟩ := waits
  have found := numbered.findMsg stored
  have uniform : ∀ k m, cond.matchCondition (messageView (orders k) (s.topics.attests topic) doc m) = true ↔
      s.Satisfies topic doc cond m := fun k m => SecureBus.satisfies_iff distinct (orders k)
  have covers := scan_covers orders (s.topics.messages topic) max 0
    ⟨s.topics.lastEventID topic name, s.topics.delivered topic name, []⟩ uniform (numbered.events topic).pairwise
    ev mem later
  rw [named] at covers
  simp only [SecureBus.feed, Topics.deliver, update_self]
  rcases covers with given | unwanted | ⟨behind, full⟩
  · exact .inl given
  · exact .inr (.inl (unwanted m found))
  · refine .inr (.inr ⟨⟨ev, mem, named, behind⟩, fun out result => ?_⟩)
    cases result
    exact full

theorem covered_deliver (h : (s.feed topic name doc cond).Covered) : (SecureBus.feed topic name doc cond
      { s with topics := (Topics.deliver orders topic name doc cond max s.topics).1 }).Covered := by
  have evolved := Evolves.deliver orders topic name doc cond max s
  refine h.step (fun m stored => .inl stored) (fun m _ wanted => .inl wanted) (fun m given => ?_) fun m stored waits => ?_
  · exact (evolved.delivered topic name).subset given
  · rcases deliver_passes distinct numbered stored waits with given | unwanted | ⟨waits, _⟩
    · exact .inr (.inl given)
    · exact .inr (.inr unwanted)
    · exact .inl waits

end
end

/-- The consumer that the call reads a secure bus for, and the condition if it is a
`Consume`. -/
def ObjectCall.reading? {objectID : String} :
    ObjectCall objectID → Option (String × Option (String × Option JsonObject))
  | .secureConsume _ _ consumer condition adHoc _ => some (consumerName consumer, some (condition, adHoc))
  | .secureSubscribe consumer _ _ _ => some (consumerName consumer, none)
  | _ => none

/-- If the call reads for the consumer, it is a `Consume` with that condition. -/
def ObjectCall.Uses {objectID : String} (name condition : String) (adHoc : Option JsonObject)
    (c : ObjectCall objectID) : Prop :=
  ∀ r ∈ c.reading?, r.1 = name → r.2 = some (condition, adHoc)

def AlwaysUses (topic name condition : String) (adHoc : Option JsonObject) (events : List ServiceEvent) : Prop :=
  ∀ e ∈ events, match e with
    | .call (.object _ objectID _) c => objectID = topic → c.Uses name condition adHoc
    | _ => True

instance {objectID : String} {name condition : String} {adHoc : Option JsonObject} (c : ObjectCall objectID) :
    Decidable (c.Uses name condition adHoc) :=
  inferInstanceAs (Decidable (∀ r ∈ c.reading?, r.1 = name → r.2 = some (condition, adHoc)))

instance {topic name condition : String} {adHoc : Option JsonObject} {events : List ServiceEvent} :
    Decidable (AlwaysUses topic name condition adHoc events) :=
  @List.decidableBAll _ _ (fun e => match e with
    | .call (.object _ objectID _) c => inferInstanceAs (Decidable (objectID = topic → c.Uses name condition adHoc))
    | .call (.service _) _ => .isTrue trivial
    | .advance _ => .isTrue trivial) events

section
variable [PolicyLib] {s t : SecureBus} {topic name condition : String} {adHoc : Option JsonObject} {sp : SignedPolicy}
  {cond : Condition} {pol : SignedPolicy} {scope : Scope} {cond' : Condition} {objectID : String}

omit [PolicyLib] in
theorem Evolves.sole (before : Evolves s t) (sole : t.topics.policies topic <+: [sp])
    (current : Topics.getPolicy topic 0 s.topics = .ok pol) : pol = sp ∧ t.topics.policies topic = [sp] := by
  have found : pol ∈ s.topics.policies topic := by
    unfold Topics.getPolicy at current
    split at current
    · cases current
    · next last found =>
      rw [if_pos le_rfl] at current
      cases current
      exact mem_of_getLast? found
  have mem := (before.policies topic).subset found
  have length : [sp].length ≤ (t.topics.policies topic).length := length_pos_of_mem mem
  exact ⟨List.mem_singleton.mp (sole.subset mem), sole.eq_of_length_le length⟩

/-- Under the only policy there is, a delivery is made by its document and by the
condition of the consumer. -/
theorem Deliverable.sole
    (h : Deliverable Evolves scope condition adHoc s pol cond') (sole : s.topics.policies scope.objectID <+: [sp])
    (resolved : resolveCondition sp.document condition adHoc = .ok cond) : pol = sp ∧ cond' = cond := by
  obtain ⟨_, before, current⟩ := h.current
  obtain ⟨rfl, _⟩ := before.sole sole current
  exact ⟨rfl, Except.ok.inj (h.resolved.symm.trans resolved)⟩

theorem covered_consume {orders consumer max}
    (distinct : (sp.document.agents.rows.map fun a => a.2.keyID).Nodup)
    (numbered : s.Numbered) (sole : s.topics.policies topic <+: [sp])
    (resolved : resolveCondition sp.document condition adHoc = .ok cond) {condition' adHoc'}
    (uses : scope.objectID = topic → consumerName consumer = name → some (condition', adHoc') = some (condition, adHoc))
    (found : Deliverable Evolves scope condition' adHoc' s pol cond')
    (h : (s.feed topic name sp.document cond).Covered) :
    (SecureBus.feed topic name sp.document cond { s with topics := (Topics.deliver orders scope.objectID
      (consumerName consumer) pol.document cond' max s.topics).1 }).Covered := by
  have evolved := Evolves.deliver orders scope.objectID (consumerName consumer) pol.document cond' max s
  by_cases own : scope.objectID = topic ∧ consumerName consumer = name
  · obtain ⟨rfl, rfl⟩ := own
    cases uses rfl rfl
    obtain ⟨rfl, rfl⟩ := found.sole sole resolved
    exact covered_deliver distinct numbered h
  · refine covered_of_same h evolved rfl rfl ?_
    simp only [Topics.deliver]
    by_cases same : topic = scope.objectID
    · subst same
      rw [update_self, update_of_ne fun equal => own ⟨rfl, equal.symm⟩]
    · rw [update_of_ne same]

variable [Signing] {cfg : SecureConfig}

theorem covered_step {c : ObjectCall objectID}
    (distinct : (sp.document.agents.rows.map fun a => a.2.keyID).Nodup) (numbered : s.Numbered)
    (sole : s.topics.policies topic <+: [sp]) (resolved : resolveCondition sp.document condition adHoc = .ok cond)
    (uses : objectID = topic → c.Uses name condition adHoc) (moved : ObjectStep cfg s c t)
    (h : (s.feed topic name sp.document cond).Covered) : (t.feed topic name sp.document cond).Covered := by
  have evolved := moved.evolves
  cases moved with
  | idle => exact h
  | policy => exact covered_of_same h evolved rfl rfl rfl
  | @message _ _ _ scope =>
    by_cases own : topic = scope.val.objectID
    · subst own
      exact covered_store h numbered _
    · exact covered_of_same h evolved (update_of_ne own _ _) rfl rfl
  | @attestation _ _ _ scope =>
    by_cases own : topic = scope.val.objectID
    · subst own
      exact covered_addAttestation h numbered _
    · exact covered_of_same h evolved rfl (update_of_ne own _ _) rfl
  | @delivery _ scope _ _ _ _ _ _ found =>
    exact covered_consume distinct numbered sole resolved
      (fun own reads => uses (scope.property.symm.trans own) _ rfl reads) found h
  | @poll _ _ _ _ _ scope _ _ _ found =>
    exact covered_consume distinct numbered sole resolved
      (fun own reads => by cases uses (scope.property.symm.trans own) _ rfl reads) found h

theorem delivered_cases {c} (moved : ObjectStep cfg s c t) (topic name : String) :
    t.topics.delivered topic name = s.topics.delivered topic name ∨ objectID = topic ∧
      ((∃ orders scope consumer condition adHoc max pol cond,
        c = .secureConsume orders scope consumer condition adHoc max ∧ consumerName consumer = name ∧
          Deliverable Evolves scope condition adHoc s pol cond) ∨
      ∃ consumer condition adHoc polls orders, ∃ (scope : ScopeOf objectID), ∃ pol cond,
        c = .secureSubscribe consumer condition adHoc polls ∧ consumerName consumer = name ∧
          (orders, .ok scope) ∈ polls ∧ Deliverable Evolves scope condition adHoc s pol cond) := by
  cases moved with
  | idle | policy | message | attestation => exact .inl rfl
  | @delivery orders scope consumer condition adHoc max pol cond found =>
    obtain ⟨scope, rfl⟩ := scope
    by_cases own : scope.objectID = topic ∧ consumerName consumer = name
    · exact .inr ⟨own.1, .inl ⟨orders, _, consumer, condition, adHoc, max, pol, cond, rfl, own.2, found⟩⟩
    · exact .inl (deliver_other own)
  | @poll consumer condition adHoc polls orders scope pol cond polled found =>
    obtain ⟨scope, rfl⟩ := scope
    by_cases own : scope.objectID = topic ∧ consumerName consumer = name
    · exact .inr ⟨own.1, .inr ⟨consumer, condition, adHoc, polls, orders, _, pol, cond, rfl, own.2, polled, found⟩⟩
    · exact .inl (deliver_other own)

end

section
variable [ServiceLib] [Signing] [PolicyLib] (cfg : SecureConfig) (store : Services) (events : List ServiceEvent)
  (topic name : String)

/-- The event of that number ends a `Consume` of the consumer with the messages. -/
def Consumed (n : Nat) (max : Int) (out : List SecureMessage) : Prop :=
  ∃ principal k orders scope consumer condition adHoc, consumerName consumer = name ∧
    Ends (CallID.prog cfg) store events n (.object principal topic k)
      (.secureConsume orders scope consumer condition adHoc max) (.messages (.ok out))

end

section
variable [ServiceLib] [Signing] [PolicyLib] {cfg : SecureConfig} {out : List SecureMessage}

theorem CallID.consume_commits (cfg : SecureConfig) (principal : String) {objectID} (k : Nat) (orders : Nat → Nat → Nat → Nat)
    (scope : ScopeOf objectID) (consumer condition : String) (adHoc : Option JsonObject) (max : Int) :
    Commits (fun s t : Services => t.secureBus = s.secureBus) (fun r => ∃ out, r = .messages (.ok out))
      (CallID.prog cfg (.object principal objectID k)
        (.secureConsume orders scope consumer condition adHoc max)) := by
  refine Commits.map (Commits.zoom (fun _ _ => rfl)
    (SecureBus.consume_commits orders scope consumer condition adHoc max)) ?_
  rintro _ ⟨out, rfl⟩
  exact ⟨out, rfl⟩

variable {kafka : Bool} {events : List ServiceEvent} {topic name condition : String} {adHoc : Option JsonObject}
  {sp : SignedPolicy} {cond : Condition} (draws : DrawsKeys cfg (.new kafka) events)
include draws

theorem sole_at (sole : (busAt cfg (.new kafka) events events.length).topics.policies topic = [sp]) (n : Nat) :
    (busAt cfg (.new kafka) events n).topics.policies topic <+: [sp] := by
  have past : busAt cfg (.new kafka) events (max n events.length) =
      busAt cfg (.new kafka) events events.length := by
    simp only [busAt, before, take_length, take_of_length_le (le_max_right n events.length)]
  have evolved := evolves_at draws (le_max_left n events.length)
  rw [past] at evolved
  exact sole ▸ evolved.policies topic

variable (sole : (busAt cfg (.new kafka) events events.length).topics.policies topic = [sp])
  (resolved : resolveCondition sp.document condition adHoc = .ok cond)
  (always : AlwaysUses topic name condition adHoc events)
include sole resolved always

theorem Consumed.deliver {n max} (h : Consumed cfg (.new kafka) events topic name n max out) :
    ∃ orders, Topics.deliver orders topic name sp.document cond (orTen max)
      (busAt cfg (.new kafka) events n).topics = ((busAt cfg (.new kafka) events (n + 1)).topics, .ok out) := by
  obtain ⟨_, _, orders, scope, consumer, _, _, reads, ended⟩ := h
  have made := mem_of_mem_take (call_of_made ended.made)
  cases always _ made rfl _ rfl reads
  have delivered : Delivered orders scope consumer condition adHoc max (busAt cfg (.new kafka) events n) out
    (busAt cfg (.new kafka) events (n + 1)) := post_at draws ended
  obtain ⟨_, _, found, result⟩ := delivered
  obtain ⟨scope, rfl⟩ := scope
  obtain ⟨rfl, rfl⟩ := found.sole (sole_at draws sole n) resolved
  exact ⟨orders, reads ▸ result⟩

theorem returned_at {n id} (h : id ∈ (busAt cfg (.new kafka) events n).topics.delivered topic name) :
    ∃ n' < n, ∃ max out, Consumed cfg (.new kafka) events topic name n' max out ∧ ∃ m ∈ out, m.id = id := by
  induction n with
  | zero => cases h
  | succ n ih =>
    have earlier : id ∈ (busAt cfg (.new kafka) events n).topics.delivered topic name →
        ∃ n' < n + 1, ∃ max out, Consumed cfg (.new kafka) events topic name n' max out ∧ ∃ m ∈ out, m.id = id := by
      intro old
      obtain ⟨n', before, returned⟩ := ih old
      exact ⟨n', lt_succ_of_lt before, returned⟩
    rcases topics_step_at draws n with same | ⟨principal, objectID, k, c, event, made, _, moved⟩
    · rw [same] at h
      exact earlier h
    · have uses : objectID = topic → c.Uses name condition adHoc := always _ (mem_of_mem_take (call_of_made made))
      rcases delivered_cases moved topic name with same | ⟨rfl, consumes | polls⟩
      · rw [same] at h
        exact earlier h
      · obtain ⟨orders, scope, consumer, condition', adHoc', max, _, _, rfl, reads, _⟩ := consumes
        have commits := CallID.consume_commits cfg principal k orders scope consumer condition' adHoc' max
        rcases ends_of_change commits (by exact fun _ => rfl) event made with
          unchanged | ⟨_, ⟨out, rfl⟩, ended⟩
        · have same : busAt cfg (.new kafka) events (n + 1) = busAt cfg (.new kafka) events n := unchanged
          rw [same] at h
          exact earlier h
        · have consumed : Consumed cfg (.new kafka) events objectID name n max out :=
            ⟨principal, k, orders, scope, consumer, condition', adHoc', reads, ended⟩
          obtain ⟨_, delivered⟩ := consumed.deliver draws sole resolved always
          have added := (deliver_new delivered).1
          rw [added, mem_append, mem_reverse, mem_map] at h
          rcases h with new | old
          · exact ⟨n, lt_succ_self n, max, out, consumed, new⟩
          · exact earlier old
      · obtain ⟨_, _, _, polls, _, _, _, _, rfl, reads, _⟩ := polls
        cases uses rfl _ rfl reads

section
variable (distinct : (sp.document.agents.rows.map fun a => a.2.keyID).Nodup)
include distinct

theorem covered_at (n : Nat) : ((busAt cfg (.new kafka) events n).feed topic name sp.document cond).Covered := by
  induction n with
  | zero =>
    intro m stored
    cases stored
  | succ n ih =>
    rcases step_at draws n with same | ⟨i, c, _, made, _, moved⟩
    · rw [same]
      exact ih
    · cases i with
      | service =>
        obtain ⟨_, stepped, after⟩ := moved
        rw [after]
        exact covered_of_same ih stepped.evolves rfl rfl rfl
      | object principal objectID =>
        have uses : objectID = topic → c.Uses name condition adHoc := always _ (mem_of_mem_take (call_of_made made))
        exact covered_step distinct (numbered_at draws n) (sole_at draws sole n) resolved uses moved ih

/-- A `Consume` that has room has delivered all that satisfies the condition. -/
theorem Consumed.complete {n max}
    (h : Consumed cfg (.new kafka) events topic name n max out) (room : out.length < orTen max) {m}
    (stored : m ∈ (busAt cfg (.new kafka) events (n + 1)).topics.messages topic)
    (satisfied : (busAt cfg (.new kafka) events (n + 1)).Satisfies topic sp.document cond m) :
    m.id ∈ (busAt cfg (.new kafka) events (n + 1)).topics.delivered topic name := by
  obtain ⟨orders, delivered⟩ := h.deliver draws sole resolved always
  obtain ⟨after, result⟩ := Prod.mk.inj delivered
  unfold SecureBus.Satisfies at satisfied
  rw [← after] at stored satisfied ⊢
  rcases covered_at draws sole resolved always distinct n m stored satisfied with given | waits
  · exact ((Evolves.deliver orders topic name sp.document cond (orTen max) _).delivered topic name).subset given
  · rcases deliver_passes distinct (numbered_at draws n) stored waits with given | unwanted | ⟨_, full⟩
    · exact given
    · exact absurd satisfied unwanted
    · have bound := full out result
      omega

/-- A consumer with one condition is given every message at most once, when its standing
attestations satisfy the condition, and a `Consume` that returns fewer than it may
leaves none that satisfies it. -/
theorem delivery_complete_and_at_most_once :
    (∀ n max out, Consumed cfg (Services.new kafka) events topic name n max out →
      (out.map SecureMessage.id).Nodup ∧
      (∀ m ∈ out, (busAt cfg (Services.new kafka) events n).Satisfies topic sp.document cond m) ∧
      (out.length < orTen max → ∀ m ∈ (busAt cfg (Services.new kafka) events (n + 1)).topics.messages topic,
        (busAt cfg (Services.new kafka) events (n + 1)).Satisfies topic sp.document cond m →
        ∃ n' ≤ n, ∃ max' out', Consumed cfg (Services.new kafka) events topic name n' max' out' ∧ m ∈ out')) ∧
    ∀ n n' max max' out out', Consumed cfg (Services.new kafka) events topic name n max out →
      Consumed cfg (Services.new kafka) events topic name n' max' out' → n < n' →
      ∀ m ∈ out, ∀ m' ∈ out', m.id ≠ m'.id := by
  refine ⟨fun n max out consumed => ?_, fun n n' max max' out out' consumed consumed' before m mem m' mem' same => ?_⟩
  · obtain ⟨orders, delivered⟩ := consumed.deliver draws sole resolved always
    obtain ⟨_, nodup, each⟩ := deliver_new delivered
    refine ⟨nodup, fun m mem => ?_, fun room m stored satisfied => ?_⟩
    · obtain ⟨_, _, k, matching⟩ := each m mem
      exact (SecureBus.satisfies_iff distinct (orders k)).mp matching
    · have given := consumed.complete draws sole resolved always distinct room stored satisfied
      obtain ⟨n', before, max', out', consumed', m', mem', same⟩ := returned_at draws sole resolved always given
      obtain ⟨_, delivered'⟩ := consumed'.deliver draws sole resolved always
      have stored' := ((deliver_new delivered').2.2 m' mem').2.1
      have still := ((evolves_at draws (le_of_lt before)).messages topic).subset stored'
      obtain rfl := ((numbered_at draws (n + 1)).messages topic).inj still stored same
      exact ⟨n', Nat.lt_succ_iff.mp before, max', out', consumed', mem'⟩
  · obtain ⟨_, delivered⟩ := consumed.deliver draws sole resolved always
    obtain ⟨_, delivered'⟩ := consumed'.deliver draws sole resolved always
    have kept : m.id ∈ (busAt cfg (.new kafka) events (n + 1)).topics.delivered topic name := by
      rw [(deliver_new delivered).1]
      exact mem_append_left _ (List.mem_reverse.mpr (mem_map_of_mem mem))
    have still := ((evolves_at draws before).delivered topic name).subset kept
    rw [same] at still
    exact ((deliver_new delivered').2.2 m' mem').1 still

end

end

def annIsRead : List ServiceEvent :=
  annSetsUp (sampleDocument false) ++
    CallID.alone (.object "ann" "t" 1) (.publish id 2 2 (secureScope "t") (samplePublication "n" "h")) 4 ++
    CallID.alone (.object "bob" "t" 0) (.secureConsume (fun _ _ => id) (secureScope "t") "" "" none 10) 2

theorem ann_is_read_once :
    ∃ n' ≤ 15, ∃ max' out',
      @Consumed .plain .echo .plain sampleConfig (.new false) annIsRead "t" "default" n' max' out' ∧
        sampleMessage ∈ out' := by
  have delivers := @delivery_complete_and_at_most_once .plain .echo .plain sampleConfig false annIsRead "t" "default"
    "" none (sampleSigned false) { mode := "on_publish" } (by decide) rfl rfl
    (by decide) (by decide)
  have consumed : @Consumed .plain .echo .plain sampleConfig (.new false) annIsRead "t" "default" 15 10
      [sampleMessage] :=
    ⟨"bob", 0, _, _, "", _, _, rfl, rfl, rfl, rfl, rfl⟩
  exact (delivers.1 15 10 [sampleMessage] consumed).2.2 (by decide) sampleMessage mem_cons_self fun _ => rfl

end SynaMcp
