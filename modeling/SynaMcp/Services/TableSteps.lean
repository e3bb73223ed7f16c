import SynaMcp.Lib.TransactionLogic
import SynaMcp.Services.SecureRuns
import SynaMcp.Services.SecureTables

/-! What the transactions of the secure bus have found and written when they come to
commit, whatever the others commit between their statements. -/
namespace SynaMcp
open Keyed Transactions List SecureTables SecureTx Tx Signing

abbrev SecureTerms := Terms SecureTables SecureLock SecureTag SecureSequence

abbrev SecureWorld := World SecureTables SecureSequence

abbrev SecureFrame := Frame SecureTables SecureLock SecureTag SecureSequence

namespace SecureTx
variable {own : SecureTables → SecureTables} {Q : SecureFrame → Unit → Prop} {d : DeliveryRow} {held : List (SecureLock ⊕ SecureTag)} {out : List SecureMessage} {g : SecureWorld}

structure Granted [Signing] (T : SecureTerms) (cfg : SecureConfig) (orders : AuthorizeOrders) (now : Time)
    (objectID : String) (request : Credentials) (key : AgentKey) (pol : SignedPolicy) (g : SecureWorld) : Prop where
  known : T.Seen [] (fun u => u.tables.agentKeys.get? request.keyID = some key) g
  owner : key.belongsToCaller request.subjectKey request.tokenID = true
  current : T.Seen [] (fun u => ∃ row, u.tables.maxVersion objectID = some row ∧
    acceptPolicyVersion cfg now row.signed request.version request.hash = .ok ()) g
  cited : T.Seen [] (fun u => ∃ row, u.tables.policyVersion objectID request.version = some row ∧ row.signed = pol) g
  allowed : pol.document.allows orders.agent request.rule request.keyID = true

def Links [Signing] (last : Option MessageRow) (prevHash : String) : Prop :=
  ∀ row ∈ last, row.hash = [] ∨ prevHash ≠ "" ∧ prevHash = b64 row.hash

/-- What a publication has found when it commits. The last message was read before the
number was drawn, and what that read holds, if anything, is held since. -/
structure Published [Signing] (T : SecureTerms) (cfg : SecureConfig) (orders : AuthorizeOrders) (checked : Time)
    (scope : Scope) (input : PublishInput) (key : AgentKey) (pol : SignedPolicy) (id : Int) (g : SecureWorld) : Prop where
  granted : Granted T cfg orders checked scope.objectID input.credentials key pol g
  linked : pol.document.chain = true → T.Seen (T.guard (some (.chain scope.objectID))) (fun u =>
    Links (u.tables.lastMessage scope.objectID) input.prevHash ∧ (u.sequences .messages : Int) < id) g
  numbered : id ≤ g.sequences .messages
  hash : input.policyHash ≠ ""
  fresh : T.Seen [.inl (.messageID id), .inl (.nonce scope.objectID input.nonce)] (fun u => ∀ r ∈ u.tables.messages,
    r.id ≠ id ∧ ¬(r.objectID = scope.objectID ∧ r.nonce = input.nonce)) g

variable {T : SecureTerms} {F : SecureFrame} {α : Type}

section
variable {Q : SecureFrame → α → Prop}

theorem wp_lookupKey {keyID Q} (same : F.own = id) (h : ∀ F' k, F'.own = id → T.Follows F F' →
      T.Knows F' (T.Seen F.held fun u => F.known u ∧ u.tables.agentKeys.get? keyID = k) → Q F' k) :
    (lookupKey keyID).wp T Q F := wp_query same h

end

section
variable [Signing] {cfg : SecureConfig} {now : Time} {objectID : String} {request : Credentials} {key : AgentKey}

theorem Granted.moved {orders pol g g' held}
    (h : Granted T cfg orders now objectID request key pol g) (moved : T.Relied held g g') :
    Granted T cfg orders now objectID request key pol g' where
  known := h.known.moved moved (nil_subset _)
  owner := h.owner
  current := h.current.moved moved (nil_subset _)
  cited := h.cited.moved moved (nil_subset _)
  allowed := h.allowed

theorem wp_readPolicy {orders find Q} (same : F.own = id)
    (h : ∀ F' row, F'.own = id → T.Follows F F' → T.Knows F' (T.Seen F.held fun u => find u.tables = some row) →
      Q F' row.signed) : (readPolicy orders find).wp T Q F := by
  refine wp_bind (wp_query same fun F₁ found own follows seen => ?_)
  refine wp_bind (wp_expect fun row is => ?_)
  subst is
  refine wp_bind (wp_ofExcept fun _ _ => h F₁ row own follows fun g inv now => ?_)
  exact (seen g inv now).imp fun u _ _ is => is.2

theorem wp_authorize {orders scope Q} (same : F.own = id)
    (h : scope.kind = .securebus → ∀ F' key pol, F'.own = id → T.Follows F F' →
      T.Knows F' (Granted T cfg orders now scope.objectID request key pol) → Q F' (key, pol)) :
    (authorize cfg orders now scope request).wp T Q F := by
  refine wp_bind (wp_require fun kind => ?_)
  refine wp_bind (wp_lookupKey same fun F₁ found own₁ follows₁ looked => ?_)
  refine wp_bind (wp_expect fun key is => ?_)
  obtain ⟨rfl, owner⟩ := Option.filter_eq_some_iff.mp is
  refine wp_bind (wp_readPolicy own₁ fun F₂ cur own₂ follows₂ current => ?_)
  refine wp_bind (wp_ofExcept fun _ accepted => ?_)
  refine wp_bind (wp_readPolicy own₂ fun F₃ row own₃ follows₃ cited => ?_)
  refine wp_bind (wp_require fun allowed => ?_)
  refine h kind F₃ key row.signed own₃ (follows₁.trans (follows₂.trans follows₃)) fun g inv now => ?_
  have looked := (follows₂.trans follows₃).knows_seen follows₁.held looked g inv now
  have current := follows₃.knows_seen follows₂.held current g inv now
  exact
    { known := (looked.mono (nil_subset _)).imp fun u _ _ is => is.2
      owner := owner
      current := (current.mono (nil_subset _)).imp fun u _ _ is => ⟨cur, is, accepted⟩
      cited := ((cited g inv now).mono (nil_subset _)).imp fun u _ _ is => ⟨row, is, rfl⟩
      allowed := allowed }

theorem wp_checkSignature {signature envelope Q}
    (h : ∀ sig, decodeB64 signature = some sig → Topics.verifyAgentSig key sig envelope = true → Q F sig) :
    (checkSignature key signature envelope).wp T Q F := by
  refine wp_expect fun sig found => ?_
  obtain ⟨decoded, verifies⟩ := Option.filter_eq_some_iff.mp found
  exact h sig decoded verifies

theorem wp_link {chain prevHash Q} (same : F.own = id)
    (h : ∀ F', F'.own = id → T.Follows F F' → (chain = true → T.guard (some (.chain objectID)) ⊆ F'.held) →
      (chain = true → T.Knows F' (T.Seen (T.guard (some (.chain objectID))) fun u =>
        Links (u.tables.lastMessage objectID) prevHash)) → Q F' ()) : (link chain objectID prevHash).wp T Q F := by
  cases chain with
  | false => exact h F same .refl (fun no => by cases no) (fun no => by cases no)
  | true =>
    refine wp_bind (wp_tagged same fun F₁ last own₁ follows₁ guarded seen => ?_)
    cases last with
    | none =>
      refine h F₁ own₁ follows₁ (fun _ => guarded) fun _ g inv now => ?_
      refine (seen g inv now).imp fun u _ _ is row mem => ?_
      rw [show u.tables.lastMessage objectID = none from is] at mem
      cases mem
    | some last =>
      refine wp_bind (wp_acquire own₁ fun F₂ own₂ follows₂ _ => ?_)
      refine wp_require fun linked => ?_
      refine h F₂ own₂ (follows₁.trans follows₂) (fun _ x mem => follows₂.held (guarded mem)) fun _ => ?_
      refine follows₂.knows_seen guarded fun g inv now => ?_
      refine (seen g inv now).imp fun u _ _ is row mem => ?_
      rw [show u.tables.lastMessage objectID = some last from is] at mem
      obtain rfl := Option.some.inj mem
      exact linked

end

abbrev Draws (T : SecureTerms) : Prop := ∀ g x, T.inv g → T.inv (g.bump x)

theorem wp_addEvent (draws : Draws T) {event} (same : F.own = own)
    (h : ∀ F' id, F'.own = insertEvent (event id) ∘ own → T.Follows F F' → Q F' ()) : (addEvent event).wp T Q F := by
  refine wp_bind (wp_nextval same (fun g => draws g .events) fun F₁ id own₁ follows₁ _ _ => ?_)
  refine wp_bind (wp_acquire own₁ fun F₂ own₂ follows₂ _ => ?_)
  refine wp_bind (wp_query own₂ fun F₃ clash own₃ follows₃ _ => ?_)
  refine wp_bind (wp_require fun _ => ?_)
  refine wp_change own₃ fun F₄ own₄ follows₄ _ => ?_
  exact h F₄ id own₄ (follows₁.trans (follows₂.trans (follows₃.trans follows₄)))

section
variable [Signing] [PgLib]

theorem wp_addMessage (draws : Draws T) {msg sig Q} (same : F.own = id)
    (h : msg.policyHash ≠ "" → ∀ F' (id : Int), F'.own = insertMessage (msg.row id sig) → T.Follows F F' →
      [.inl (.messageID id), .inl (.nonce msg.objectID msg.nonce)] ⊆ F'.held →
      T.Knows F' (T.Seen F.held fun u => F.known u ∧ (u.sequences .messages : Int) < id) →
      T.Knows F' (fun g => id ≤ g.sequences .messages) →
      T.Knows F' (T.Seen [.inl (.messageID id), .inl (.nonce msg.objectID msg.nonce)] fun u =>
        ∀ r ∈ u.tables.messages, r.id ≠ id ∧ ¬(r.objectID = msg.objectID ∧ r.nonce = msg.nonce)) → Q F' id) :
    (addMessage msg sig).wp T Q F := by
  refine wp_bind (wp_nextval same (fun g => draws g .messages) fun F₁ id own₁ follows₁ drawn bound => ?_)
  refine wp_bind (wp_require fun given => ?_)
  refine wp_bind (wp_acquire own₁ fun F₂ own₂ follows₂ held₂ => ?_)
  refine wp_bind (wp_acquire own₂ fun F₃ own₃ follows₃ held₃ => ?_)
  refine wp_bind (wp_query own₃ fun F₄ clash own₄ follows₄ seen => ?_)
  refine wp_bind (wp_require fun none => ?_)
  refine wp_bind (wp_change own₄ fun F₅ own₅ follows₅ _ => ?_)
  have held : [.inl (.messageID id), .inl (.nonce msg.objectID msg.nonce)] ⊆ F₃.held := by
    simp only [cons_subset, nil_subset, and_true]
    exact ⟨follows₃.held held₂, held₃⟩
  have follows := (follows₂.trans (follows₃.trans (follows₄.trans follows₅)))
  refine h given F₅ id own₅ (follows₁.trans follows) ?_ ?_ ?_ ?_
  · exact fun x mem => follows₅.held (follows₄.held (held mem))
  · refine follows.knows_seen follows₁.held fun g inv now => (drawn g inv now).imp fun u _ _ is => ⟨is.1, ?_⟩
    have := is.2
    omega
  · refine follows.knows (fun g g' le relied => ?_) fun g inv now => ?_
    · exact le_trans le (Int.ofNat_le.mpr (relied.drawn .messages))
    · exact Int.ofNat_le.mpr (bound g inv now)
  · refine follows₅.knows_seen (fun x mem => follows₄.held (held mem)) fun g inv now => ?_
    refine ((seen g inv now).mono held).imp fun u _ _ is r mem => ?_
    have clear := is.2
    simp only [Bool.not_eq_eq_eq_not, Bool.not_true] at none
    subst none
    simp only [id_eq, any_eq_false, decide_eq_true_eq, not_or] at clear
    exact clear r mem

section
variable {cfg : SecureConfig} {orders : AuthorizeOrders} {checked now : Time} {scope : Scope}
  {own : SecureTables → SecureTables}

theorem wp_publish (draws : Draws T) {input Q} (h : scope.kind = .securebus → ∀ F key pol sig id eventID,
      F.own = insertEvent (publication scope.objectID (input.message now scope.objectID) id eventID) ∘
        insertMessage ((input.message now scope.objectID).row id sig) →
      [.inl (.messageID id), .inl (.nonce scope.objectID input.nonce)] ⊆ F.held →
      (pol.document.chain = true → T.guard (some (.chain scope.objectID)) ⊆ F.held) →
      decodeB64 input.signature = some sig →
      Topics.verifyAgentSig key sig (input.message now scope.objectID).envelope = true →
      T.Knows F (Published T cfg orders checked scope input key pol id) →
      Q F { input.message now scope.objectID with id := id }) :
    (publish cfg orders checked now scope input).wp T Q {} := by
  refine wp_bind (wp_authorize rfl fun kind F₁ key pol own₁ _ granted => ?_)
  refine wp_bind (wp_checkSignature fun sig decoded signed => ?_)
  refine wp_bind (wp_link own₁ fun F₂ own₂ follows₂ guarded linked => ?_)
  refine wp_bind (wp_addMessage draws own₂ fun given F₃ id own₃ follows₃ held drawn bound fresh => ?_)
  refine wp_bind (wp_addEvent draws own₃ fun F₄ eventID own₄ follows₄ => ?_)
  refine h kind F₄ key pol sig id eventID own₄ (fun x mem => follows₄.held (held mem))
    (fun chain x mem => follows₄.held (follows₃.held (guarded chain mem))) decoded signed fun g inv now => ?_
  have granted := (follows₂.trans (follows₃.trans follows₄)).knows (fun _ _ is relied => is.moved relied) granted
  have drawn := follows₄.knows_seen follows₃.held drawn
  have bound := follows₄.knows (fun g g' le relied => le_trans le (Int.ofNat_le.mpr (relied.drawn .messages))) bound
  have fresh := follows₄.knows_seen held fresh
  refine ⟨granted g inv now, fun chain => ?_, bound g inv now, given, fresh g inv now⟩
  -- The number was drawn in a world after the one in which the last message was read.
  obtain ⟨v, inv', ⟨known, less⟩, relied⟩ := drawn g inv now
  obtain ⟨u, inv'', links, before⟩ := linked chain v inv' known
  refine ⟨u, inv'', ⟨links, ?_⟩, before.trans (relied.mono (guarded chain))⟩
  exact lt_of_le_of_lt (Int.ofNat_le.mpr (before.drawn .messages)) less

omit [Signing] [PgLib] in
theorem wp_lockAttestations {ids Q}
    (same : F.own = own) (h : ∀ F', F'.own = own → T.Follows F F' → Q F' ()) : (lockAttestations ids).wp T Q F := by
  induction ids generalizing F with
  | nil => exact h F same .refl
  | cons id rest ih =>
    refine wp_bind (wp_acquire same fun F₁ own₁ follows₁ _ => ?_)
    exact ih own₁ fun F₂ own₂ follows₂ => h F₂ own₂ (follows₁.trans follows₂)

theorem wp_addAttestation (draws : Draws T) {att sig Q} (same : F.own = own)
    (h : ∀ F' (id : Int), F'.own = insertAttestation (att.row id sig) ∘ own → T.Follows F F' →
      .inl (.attestationID id) ∈ F'.held →
      T.Knows F' (T.Seen [.inl (.attestationID id)] fun u => ∀ r ∈ (own u.tables).attestations, r.id ≠ id) → Q F' id) :
    (addAttestation att sig).wp T Q F := by
  refine wp_bind (wp_nextval same (fun g => draws g .attestations) fun F₁ id own₁ follows₁ _ _ => ?_)
  refine wp_bind (wp_acquire own₁ fun F₂ own₂ follows₂ held₂ => ?_)
  refine wp_bind (wp_query own₂ fun F₃ clash own₃ follows₃ seen => ?_)
  refine wp_bind (wp_require fun none => ?_)
  refine wp_bind (wp_change own₃ fun F₄ own₄ follows₄ _ => ?_)
  have held : [.inl (.attestationID id)] ⊆ F₂.held := by simpa using held₂
  refine h F₄ id own₄ (follows₁.trans (follows₂.trans (follows₃.trans follows₄))) ?_ ?_
  · exact follows₄.held (follows₃.held held₂)
  · refine follows₄.knows_seen (fun x mem => follows₃.held (held mem)) fun g inv now => ?_
    refine ((seen g inv now).mono held).imp fun u _ _ is r mem => ?_
    have clear := is.2
    simp only [Bool.not_eq_eq_eq_not, Bool.not_true] at none
    subst none
    simp only [any_eq_false, decide_eq_true_eq] at clear
    exact clear r mem

structure Attested (T : SecureTerms) (cfg : SecureConfig) (orders : AuthorizeOrders) (checked : Time)
    (scope : Scope) (input : AttestInput) (key : AgentKey) (pol : SignedPolicy) (row : MessageRow) (id : Int)
    (g : SecureWorld) : Prop where
  granted : Granted T cfg orders checked scope.objectID input.credentials key pol g
  message : T.Seen [] (fun u => u.tables.findMessage scope.objectID input.messageID = some row) g
  fresh : T.Seen [.inl (.attestationID id)] (fun u => ∀ r ∈ u.tables.attestations, r.id ≠ id) g

theorem wp_attest (draws : Draws T) {input Q}
    (h : scope.kind = .securebus → ∀ F key pol row sig standing id eventID, F.own = insertEvent
          (witnessing scope.objectID (input.attestation now scope.objectID row.message) id eventID) ∘
        insertAttestation ((input.attestation now scope.objectID row.message).row id sig) ∘
        supersede standing (zeroTime input.createdAt now) →
      .inl (.attestationID id) ∈ F.held → decodeB64 input.signature = some sig →
      Topics.verifyAgentSig key sig (input.attestation now scope.objectID row.message).envelope = true →
      T.Knows F (Attested T cfg orders checked scope input key pol row id) →
      Q F { input.attestation now scope.objectID row.message with id := id }) :
    (attest cfg orders checked now scope input).wp T Q {} := by
  refine wp_bind (wp_authorize rfl fun kind F₁ key pol own₁ _ granted => ?_)
  refine wp_bind (wp_require fun _ => wp_bind (wp_require fun _ => ?_))
  refine wp_bind (wp_bind (wp_query own₁ fun F₂ found own₂ follows₂ seen => ?_))
  refine wp_bind (wp_expect fun row is => ?_)
  subst is
  refine wp_bind (wp_checkSignature fun sig decoded signed => ?_)
  refine wp_bind (wp_query own₂ fun F₃ standing own₃ follows₃ _ => ?_)
  refine wp_bind (wp_lockAttestations own₃ fun F₄ own₄ follows₄ => ?_)
  refine wp_bind (wp_change own₄ fun F₅ own₅ follows₅ _ => ?_)
  refine wp_bind (wp_addAttestation draws own₅ fun F₆ id own₆ follows₆ held fresh => ?_)
  refine wp_bind (wp_addEvent draws own₆ fun F₇ eventID own₇ follows₇ => ?_)
  have follows := follows₃.trans (follows₄.trans (follows₅.trans (follows₆.trans follows₇)))
  refine h kind F₇ key pol row sig standing id eventID own₇ (follows₇.held held) decoded signed fun g inv now => ?_
  have granted := (follows₂.trans follows).knows (fun _ _ is relied => is.moved relied) granted
  have seen := follows.knows_seen follows₂.held seen
  have fresh := follows₇.knows_seen (by simpa using held) fresh
  refine ⟨granted g inv now, ?_, ?_⟩
  · exact ((seen g inv now).mono (nil_subset _)).imp fun u _ _ is => is.2
  · refine (fresh g inv now).imp fun u _ _ clear r mem => ?_
    have clear := clear _ (mem_map_of_mem mem)
    split at clear <;> exact clear

end
end

variable (objectID consumer : String)

def deliverAll (ids : List Int) (t : SecureTables) : SecureTables :=
  ids.foldl (fun t id => t.insertDelivery ⟨objectID, consumer, id⟩) t

variable (last last' : Int) (ids : List Int) (t : SecureTables)

def consumed : SecureTables :=
  (deliverAll objectID consumer ids (t.subscribe objectID consumer last)).setLastEvent objectID consumer last'

theorem mem_deliverAll {objectID consumer ids t} : d ∈ (deliverAll objectID consumer ids t).deliveries ↔
      (∃ id ∈ ids, d = ⟨objectID, consumer, id⟩) ∨ d ∈ t.deliveries := by
  induction ids generalizing t with
  | nil => simp [deliverAll]
  | cons id rest ih =>
    have step := @ih (t.insertDelivery ⟨objectID, consumer, id⟩)
    simp only [deliverAll, foldl_cons] at step ⊢
    rw [step, mem_insertDelivery]
    simp only [mem_cons, exists_eq_or_imp]
    rw [or_left_comm, or_assoc]

theorem mem_consumed {objectID consumer last last' ids t} :
    d ∈ (consumed objectID consumer last last' ids t).deliveries ↔
      (∃ id ∈ ids, d = ⟨objectID, consumer, id⟩) ∨ d ∈ t.deliveries := by
  simp only [consumed, setLastEvent, mem_deliverAll, deliveries_subscribe]

theorem deliverAll_eq (ids : List Int) (t : SecureTables) :
    ∃ deliveries, deliverAll objectID consumer ids t = { t with deliveries := deliveries } := by
  induction ids generalizing t with
  | nil => exact ⟨t.deliveries, rfl⟩
  | cons id rest ih =>
    obtain ⟨deliveries, is⟩ := ih (t.insertDelivery ⟨objectID, consumer, id⟩)
    refine ⟨deliveries, is.trans ?_⟩
    unfold insertDelivery
    split <;> rfl

theorem consumed_eq : ∃ subscriptions deliveries, consumed objectID consumer last last' ids t =
      { t with subscriptions := subscriptions, deliveries := deliveries } := by
  obtain ⟨deliveries, is⟩ := deliverAll_eq objectID consumer ids (t.subscribe objectID consumer last)
  rw [consumed, is]
  unfold subscribe
  split
  · exact ⟨_, deliveries, rfl⟩
  · exact ⟨_, deliveries, rfl⟩

/-- The messages of a delivery: none of them twice, and each of them not delivered in a
world since which the parts that are held are as they were. -/
structure Handed (T : SecureTerms) (held : List (SecureLock ⊕ SecureTag)) (own : SecureTables → SecureTables)
    (objectID consumer : String) (out : List SecureMessage) (g : SecureWorld) : Prop where
  nodup : (out.map SecureMessage.id).Nodup
  new : ∀ m ∈ out, T.Seen held (fun u => (own u.tables).delivered objectID consumer m.id = false) g

theorem Handed.moved {objectID consumer g'}
    (h : Handed T held own objectID consumer out g) (moved : T.Relied held g g') :
    Handed T held own objectID consumer out g' :=
  ⟨h.nodup, fun m mem => (h.new m mem).moved moved (List.Subset.refl _)⟩

theorem delivered_insertDelivery {objectID consumer id other} {t : SecureTables} :
    (t.insertDelivery ⟨objectID, consumer, id⟩).delivered objectID consumer other = false ↔
      other ≠ id ∧ t.delivered objectID consumer other = false := by
  simp only [delivered, contains_eq_mem, decide_eq_false_iff_not, mem_insertDelivery,
    DeliveryRow.mk.injEq, true_and, not_or, ne_eq]

theorem Handed.mono {held' objectID consumer}
    (h : Handed T held' own objectID consumer out g) (sub : held ⊆ held') : Handed T held own objectID consumer out g :=
  ⟨h.nodup, fun m mem => (h.new m mem).mono sub⟩

theorem Handed.cons {objectID consumer m}
    (new : T.Seen held (fun u => (own u.tables).delivered objectID consumer m.id = false) g)
    (h : Handed T held (insertDelivery ⟨objectID, consumer, m.id⟩ ∘ own) objectID consumer out g) :
    Handed T held own objectID consumer (m :: out) g := by
  constructor
  · refine List.nodup_cons.mpr ⟨fun mem => ?_, h.nodup⟩
    obtain ⟨other, mem, same⟩ := List.mem_map.mp mem
    obtain ⟨_, _, is, _⟩ := h.new other mem
    exact (delivered_insertDelivery.mp is).1 same
  · intro other mem
    rcases List.mem_cons.mp mem with rfl | mem
    · exact new
    · exact (h.new other mem).imp fun u _ _ is => (delivered_insertDelivery.mp is).2

section
variable [Signing] {objectID consumer : String} {doc : Document} {own : SecureTables → SecureTables} {scope : Scope}

theorem wp_deliverEvents {orders cond max n evs out Q} (same : F.own = own)
    (h : ∀ F' new, F'.own = deliverAll objectID consumer (new.map SecureMessage.id) ∘ own → T.Follows F F' →
      T.Knows F' (Handed T F.held own objectID consumer new) → Q F' (out ++ new)) :
    (deliverEvents orders objectID consumer doc cond max n evs out).wp T Q F := by
  induction evs generalizing n F own out with
  | nil =>
    have done := h F [] same .refl fun _ _ _ => ⟨nodup_nil, fun m mem => by cases mem⟩
    rwa [append_nil] at done
  | cons ev rest ih =>
    -- An event that hands nothing over leaves the rest to the others.
    have skip : ∀ {F' : SecureFrame}, F'.own = own → T.Follows F F' →
        (deliverEvents orders objectID consumer doc cond max (n + 1) rest out).wp T Q F' := by
      intro F' own' follows
      refine ih own' fun F'' new own'' follows' handed => ?_
      exact h F'' new own'' (follows.trans follows') fun g inv now => (handed g inv now).mono follows.held
    refine wp_bind (wp_query same fun F₁ old own₁ follows₁ unseen => ?_)
    cases old with
    | true => exact skip own₁ follows₁
    | false =>
      refine wp_bind (wp_query own₁ fun F₂ found own₂ follows₂ stored => ?_)
      cases found with
      | none => exact skip own₂ (follows₁.trans follows₂)
      | some row =>
        refine wp_bind (wp_query own₂ fun F₃ view own₃ follows₃ _ => ?_)
        dsimp only
        split
        · refine wp_bind (wp_acquire own₃ fun F₄ own₄ follows₄ _ => ?_)
          refine wp_bind (wp_change own₄ fun F₅ own₅ follows₅ _ => ?_)
          have follows := follows₂.trans (follows₃.trans (follows₄.trans follows₅))
          have unseen : T.Knows F₅ (T.Seen F.held fun u =>
              (own u.tables).delivered objectID consumer row.id = false) := by
            intro g inv now
            obtain ⟨u, _, ⟨_, is⟩, _⟩ :=
              (follows₃.trans (follows₄.trans follows₅)).knows_seen follows₂.held stored g inv now
            rw [findMessage_id is]
            exact (follows.knows_seen follows₁.held unseen g inv now).imp fun u _ _ is => is.2
          split
          · refine h F₅ [row.message] own₅ (follows₁.trans follows) fun g inv now => ⟨by simp, fun m mem => ?_⟩
            cases List.mem_singleton.mp mem
            exact unseen g inv now
          · refine ih own₅ fun F₆ new own₆ follows₆ handed => ?_
            rw [append_assoc]
            refine h F₆ (row.message :: new) own₆ (follows₁.trans (follows.trans follows₆)) fun g inv now => ?_
            exact .cons (follows₆.knows_seen (follows₁.trans follows).held unseen g inv now)
              ((handed g inv now).mono (follows₁.trans follows).held)
        · exact skip own₃ (follows₁.trans (follows₂.trans follows₃))

omit [Signing] in
theorem wp_fetch {last max Q} (same : F.own = own)
    (h : ∀ F' evs, F'.own = own → T.Follows F F' → Q F' evs) : (fetch objectID last max).wp T Q F :=
  wp_bind (wp_expect fun _ _ => wp_query same fun F' evs own' follows _ => h F' evs own' follows)

/-- The subscription is locked before the deliveries are looked at. -/
theorem wp_consume [PolicyLib] {orders condition adHoc max Q} (h : ∀ F out last last',
      F.own = consumed scope.objectID (consumerName consumer) last last' (out.map SecureMessage.id) →
      .inl (.subscription scope.objectID (consumerName consumer)) ∈ F.held →
      T.Knows F (Handed T [.inl (.subscription scope.objectID (consumerName consumer))] id scope.objectID
        (consumerName consumer) out) → Q F out) : (consume orders scope consumer condition adHoc max).wp T Q {} := by
  refine wp_bind (wp_require fun _ => ?_)
  refine wp_bind (wp_readPolicy rfl fun F₁ pol own₁ _ _ => ?_)
  refine wp_bind (wp_ofExcept fun cond _ => ?_)
  refine wp_bind (wp_query own₁ fun F₂ last own₂ _ _ => ?_)
  refine wp_bind (wp_acquire own₂ fun F₃ own₃ _ locked => ?_)
  refine wp_bind (wp_change own₃ fun F₄ own₄ follows₄ _ => ?_)
  refine wp_bind (wp_fetch own₄ fun F₅ evs own₅ follows₅ => ?_)
  refine wp_bind (wp_deliverEvents own₅ fun F₆ out own₆ follows₆ handed => ?_)
  refine wp_bind (wp_change own₆ fun F₇ own₇ follows₇ _ => ?_)
  have held := follows₅.held (follows₄.held locked)
  have sub : [.inl (.subscription scope.objectID (consumerName consumer))] ⊆ F₅.held := by simpa using held
  refine h F₇ out last _ own₇ (follows₇.held (follows₆.held held)) ?_
  refine follows₇.knows (fun g g' is relied => is.moved (relied.mono (fun x mem => follows₆.held (sub mem)))) ?_
  intro g inv now
  have handed := (handed g inv now).mono sub
  refine ⟨handed.nodup, fun m mem => (handed.new m mem).imp fun u _ _ is => ?_⟩
  rw [Function.comp_apply, delivered, deliveries_subscribe] at is
  exact is

theorem wp_getPolicy {orders version Q}
    (h : ∀ F sp, F.own = id → Q F sp) : (getPolicy orders scope version).wp T Q {} := by
  refine wp_bind (wp_require fun _ => ?_)
  split
  · exact wp_readPolicy rfl fun F row own _ _ => h F row.signed own
  · exact wp_readPolicy rfl fun F row own _ _ => h F row.signed own

theorem wp_keys {orders order Q} (h : ∀ F ks, F.own = id → Q F ks) : (keys orders order scope).wp T Q {} := by
  refine wp_bind (wp_require fun _ => ?_)
  refine wp_bind (wp_readPolicy rfl fun F₁ row own₁ _ _ => ?_)
  refine wp_bind (wp_each (fun F => F.own = id) (fun _ _ _ => True) (fun _ _ _ _ _ _ => trivial) ?_
    own₁ fun F₂ found own₂ _ _ => h F₂ _ own₂)
  exact fun F a own => wp_lookupKey own fun F' k own' follows _ => ⟨own', follows, fun _ _ _ => trivial⟩

def HadKey (T : SecureTerms) (keyID : String) : SecureWorld → Prop :=
  T.Seen [] fun u => ∃ k, u.tables.agentKeys.get? keyID = some k ∧ k.revokedAt = none

omit [Signing] in
theorem HadKey.moved {keyID g g' held} (h : HadKey T keyID g) (moved : T.Relied held g g') : HadKey T keyID g' :=
  Terms.Seen.moved h moved (nil_subset _)

structure Issued [PolicyLib] (T : SecureTerms) (scope : Scope) (doc : Document) (row : PolicyRow) (g : SecureWorld) :
    Prop where
  hash : row.hash = PolicyLib.hashDocument row.document
  keys : ∀ a ∈ doc.agents.rows, HadKey T a.2.keyID g
  next : T.Seen [] (fun u => row.version = (((u.tables.maxVersion scope.objectID).map PolicyRow.version).map (· + 1)).getD 1) g
  fresh : T.Seen [.inl (.policy scope.objectID row.version)] (fun u =>
    u.tables.policyVersion scope.objectID row.version = none) g

theorem wp_putPolicy [PolicyLib] {cfg orders issued now Q}
    (h : ∀ F row, F.own = insertPolicy row → row.objectID = scope.objectID →
      row.document = { doc.issue issued scope.objectID with version := row.version } →
      .inl (.policy scope.objectID row.version) ∈ F.held → T.Knows F (Issued T scope doc row) →
      Q F { row.signed with createdAt := now }) : (putPolicy cfg orders issued now scope doc).wp T Q {} := by
  refine wp_bind (wp_require fun _ => wp_bind (wp_ofExcept fun _ _ => ?_))
  refine wp_bind (wp_each (fun F => F.own = id) (fun (a : String × AgentRef) _ => HadKey T a.2.keyID)
    (fun _ _ _ _ had => had.moved) ?_ rfl fun F₁ _ own₁ _ looked => ?_)
  · refine fun F a own => wp_bind (wp_lookupKey own fun F' k own' follows seen => ?_)
    refine wp_require fun found => ⟨own', follows, fun g inv now => ?_⟩
    obtain ⟨key, rfl, standing⟩ := (Option.any_eq_true _ _).mp found
    refine ((seen g inv now).mono (nil_subset _)).imp fun u _ _ is => ?_
    exact ⟨key, is.2, Option.isNone_iff_eq_none.mp standing⟩
  refine wp_bind (wp_query own₁ fun F₂ last own₂ follows₂ current => ?_)
  refine wp_bind (wp_ofExcept fun signed is => ?_)
  refine wp_bind (wp_acquire own₂ fun F₃ own₃ follows₃ held => ?_)
  refine wp_bind (wp_query own₃ fun F₄ clash own₄ follows₄ seen => ?_)
  refine wp_bind (wp_require fun clear => ?_)
  refine wp_bind (wp_change own₄ fun F₅ own₅ follows₅ _ => ?_)
  have follows := follows₃.trans (follows₄.trans follows₅)
  have each : T.Knows F₁ fun g => ∀ a ∈ GoMaps.range orders.keys doc.agents.rows, HadKey T a.2.keyID g :=
    fun g inv now => ((forall₂_and_left _ _).mp ((looked g inv now).imp fun _ _ had => ⟨had, trivial⟩)).1
  have each := (follows₂.trans follows).knows (fun _ _ all relied a mem => (all a mem).moved relied) each
  have current := follows.knows_seen (follows₂.held) current
  have sub : [.inl (.policy scope.objectID (((last.map PolicyRow.version).map (· + 1)).getD 1))] ⊆ F₃.held := by
    simpa using held
  have seen := follows₅.knows_seen (fun x mem => follows₄.held (sub mem)) fun g inv now => (seen g inv now).mono sub
  refine h F₅ _ own₅ rfl rfl (follows₅.held (follows₄.held held)) fun g inv now => ?_
  refine ⟨PolicySigner.signDocument_ok is, fun a mem => each g inv now a (GoMaps.mem_range.mpr mem), ?_, ?_⟩
  · refine ((current g inv now).mono (nil_subset _)).imp fun u _ _ is => ?_
    rw [show u.tables.maxVersion scope.objectID = last from is.2]
  · exact (seen g inv now).imp fun u _ _ is => is.2.trans (Option.isNone_iff_eq_none.mp clear)

theorem wp_register {env consumed input Q} (h : ∀ F key, F.own = .insertKey key → .inl (.key key.keyID) ∈ F.held →
      T.Knows F (T.Seen [.inl (.key key.keyID)] fun u => u.tables.agentKeys.get? key.keyID = none) →
      ∀ key', Q F key') : (register env consumed input).wp T Q {} := by
  refine wp_bind (wp_require fun _ => wp_bind (wp_ofExcept fun alg _ => ?_))
  refine wp_bind (wp_ofExcept fun _ _ => wp_bind (wp_require fun _ => ?_))
  refine wp_bind (wp_acquire rfl fun F₁ own₁ _ held => ?_)
  refine wp_bind (wp_query own₁ fun F₂ clash own₂ follows₂ seen => ?_)
  refine wp_bind (wp_require fun none => ?_)
  refine wp_bind (wp_change own₂ fun F₃ own₃ follows₃ _ => ?_)
  refine h F₃ _ own₃ (follows₃.held (follows₂.held held)) ?_ _
  refine follows₃.knows_seen (by simpa using follows₂.held held) fun g inv now => ?_
  exact ((seen g inv now).mono (by simpa using held)).imp fun u _ _ is => is.2.trans none

end

theorem wp_revoke {now keyID subjectKey}
    (h : ∀ F, F.own = revokeKey keyID now → .inl (.key keyID) ∈ F.held → Q F ()) :
    (revoke now keyID subjectKey).wp T Q {} := by
  refine wp_bind (wp_query rfl fun F₁ _ own₁ _ _ => wp_bind (wp_require fun _ => ?_))
  refine wp_bind (wp_acquire own₁ fun F₂ own₂ _ held => ?_)
  refine wp_bind (wp_query own₂ fun F₃ _ own₃ follows₃ _ => wp_bind (wp_require fun _ => ?_))
  exact wp_change own₃ fun F₄ own₄ follows₄ _ => h F₄ own₄ (follows₄.held (follows₃.held held))

section
variable [Signing] [PgLib]

/-- What a verification has found: the message, its attestations, and after them the
keys, each in a world of its own. -/
structure Checked (T : SecureTerms) (scope : Scope) (messageID : Int) (row : MessageRow) (key : Option AgentKey)
    (r : VerifyResult) (g : SecureWorld) : Prop where
  author : T.Seen [] (fun u => u.tables.agentKeys.get? row.authorKeyID = key ∧
    T.Seen [] (fun v => v.tables.findMessage scope.objectID messageID = some row) u) g
  listed : T.Seen [] (fun u => u.tables.listAttestations scope.objectID messageID = r.attestations) g
  checks : List.Forall₂ (fun a check => ∃ key, check = attestationCheck a key ∧
    T.Seen [] (fun u => u.tables.agentKeys.get? a.signerKeyID = key ∧
      T.Seen [] (fun v => v.tables.listAttestations scope.objectID messageID = r.attestations) u) g)
    r.attestations r.attestationChecks

theorem wp_verify {scope messageID Q}
    (h : ∀ F row key atts checks, F.own = id →
      let r : VerifyResult :=
        { message := row.message, attestations := atts
          signatureOk := SecureBus.signatureOk key row.message.signature (readEnvelope scope.objectID row.message)
          hashOk := b64 (hashCanonical (readEnvelope scope.objectID row.message)) = row.message.hash
          policyVersion := row.message.policyVersion, attestationChecks := checks }
      T.Knows F (Checked T scope messageID row key r) → Q F r) :
    (verify scope messageID).wp T Q {} := by
  refine wp_bind (wp_require fun _ => ?_)
  refine wp_bind (wp_bind (wp_query rfl fun F₁ found own₁ _ stored => ?_))
  refine wp_bind (wp_expect fun row is => ?_)
  subst is
  refine wp_bind (wp_query own₁ fun F₂ atts own₂ follows₂ listed => ?_)
  refine wp_bind (wp_lookupKey own₂ fun F₃ key own₃ follows₃ looked => ?_)
  have nil {l : List (SecureLock ⊕ SecureTag)} : [] ⊆ l := nil_subset l
  have stored₂ := follows₂.knows_seen nil fun g inv now => ((stored g inv now).mono nil).imp fun u _ _ is => is.2
  have listed₂ : T.Knows F₂ (T.Seen [] fun v => v.tables.listAttestations scope.objectID messageID = atts) :=
    fun g inv now => ((listed g inv now).mono nil).imp fun u _ _ is => is.2
  have author : T.Knows F₃ (T.Seen [] fun u => u.tables.agentKeys.get? row.authorKeyID = key ∧
      T.Seen [] (fun v => v.tables.findMessage scope.objectID messageID = some row) u) :=
    fun g inv now => ((looked g inv now).mono nil).imp fun u inv' _ is => ⟨is.2, stored₂ u inv' is.1⟩
  have listed₃ := follows₃.knows_seen nil listed₂
  refine wp_bind (wp_each
    (fun F => F.own = id ∧ T.Knows F (T.Seen [] fun v => v.tables.listAttestations scope.objectID messageID = atts))
    (fun a check g => ∃ key, check = attestationCheck a key ∧ T.Seen [] (fun u =>
      u.tables.agentKeys.get? a.signerKeyID = key ∧
        T.Seen [] (fun v => v.tables.listAttestations scope.objectID messageID = atts) u) g)
    ?_ ?_ ⟨own₃, listed₃⟩ fun F₄ checks kept follows₄ all => ?_)
  · rintro a check g g' ⟨key, same, seen⟩ relied
    exact ⟨key, same, seen.moved relied nil⟩
  · rintro F a ⟨own, listed⟩
    refine wp_bind (wp_lookupKey own fun F' k own' follows looked => ?_)
    refine ⟨⟨own', follows.knows_seen nil listed⟩, follows, fun g inv now => ⟨k, rfl, ?_⟩⟩
    exact ((looked g inv now).mono nil).imp fun u inv' _ is => ⟨is.2, listed u inv' is.1⟩
  · refine h F₄ row key atts checks kept.1 fun g inv now => ?_
    exact ⟨follows₄.knows_seen nil author g inv now, kept.2 g inv now, all g inv now⟩

end
end SecureTx

/-- What the transaction of a call has written when it commits, what it holds then, and
what it has found. -/
inductive Wrote [Signing] [PgLib] [PolicyLib] (T : SecureTerms) (cfg : SecureConfig) (F : SecureFrame) :
    SecureCall → SecureReply → Prop where
  | gotPolicy {orders scope version a} (own : F.own = id) :
      Wrote T cfg F (.getPolicy orders scope version) a
  | gotKeys {orders order scope a} (own : F.own = id) :
      Wrote T cfg F (.keys orders order scope) a
  | registered {env consumed input a key}
      (own : F.own = .insertKey key) (held : .inl (.key key.keyID) ∈ F.held)
      (fresh : T.Knows F (T.Seen [.inl (.key key.keyID)] fun u => u.tables.agentKeys.get? key.keyID = none)) :
      Wrote T cfg F (.register env consumed input) a
  | revoked {now keyID subjectKey a}
      (own : F.own = revokeKey keyID now) : Wrote T cfg F (.revoke now keyID subjectKey) a
  | policy {orders issued now scope doc a row} (own : F.own = insertPolicy row) (topic : row.objectID = scope.objectID)
      (document : row.document = { doc.issue issued scope.objectID with version := row.version })
      (held : .inl (.policy scope.objectID row.version) ∈ F.held) (found : T.Knows F (SecureTx.Issued T scope doc row)) :
      Wrote T cfg F (.putPolicy orders issued now scope doc) a
  | published {orders checked now scope input key pol sig id eventID}
      (own : F.own = insertEvent
          (publication scope.objectID (input.message now scope.objectID) id eventID) ∘
        insertMessage ((input.message now scope.objectID).row id sig))
      (kind : scope.kind = .securebus)
      (held : [.inl (.messageID id), .inl (.nonce scope.objectID input.nonce)] ⊆ F.held)
      (guarded : pol.document.chain = true → T.guard (some (.chain scope.objectID)) ⊆ F.held)
      (decoded : decodeB64 input.signature = some sig)
      (signed : Topics.verifyAgentSig key sig (input.message now scope.objectID).envelope = true)
      (found : T.Knows F (SecureTx.Published T cfg orders checked scope input key pol id)) :
      Wrote T cfg F (.publish orders checked now scope input)
        (.message { input.message now scope.objectID with id := id })
  | attested {orders checked now scope input key pol row sig standing id eventID}
      (own : F.own = insertEvent
          (witnessing scope.objectID (input.attestation now scope.objectID row.message) id eventID) ∘
        insertAttestation ((input.attestation now scope.objectID row.message).row id sig) ∘
        supersede standing (zeroTime input.createdAt now))
      (kind : scope.kind = .securebus) (held : .inl (.attestationID id) ∈ F.held)
      (decoded : decodeB64 input.signature = some sig)
      (signed : Topics.verifyAgentSig key sig (input.attestation now scope.objectID row.message).envelope = true)
      (found : T.Knows F (SecureTx.Attested T cfg orders checked scope input key pol row id)) :
      Wrote T cfg F (.attest orders checked now scope input)
        (.attestation { input.attestation now scope.objectID row.message with id := id })
  | consumed {orders scope consumer condition adHoc max out last last'}
      (own : F.own = SecureTx.consumed scope.objectID (consumerName consumer) last last' (out.map SecureMessage.id))
      (held : .inl (.subscription scope.objectID (consumerName consumer)) ∈ F.held)
      (handed : T.Knows F (SecureTx.Handed T [.inl (.subscription scope.objectID (consumerName consumer))] (fun t => t)
        scope.objectID (consumerName consumer) out)) :
      Wrote T cfg F (.consume orders scope consumer condition adHoc max) (.messages out)
  | verified {scope messageID row key r}
      (own : F.own = id) (message : r.message = row.message)
      (signatureOk : r.signatureOk =
        SecureBus.signatureOk key row.message.signature (readEnvelope scope.objectID row.message))
      (hashOk : r.hashOk = decide (b64 (hashCanonical (readEnvelope scope.objectID row.message)) = row.message.hash))
      (found : T.Knows F (SecureTx.Checked T scope messageID row key r)) :
      Wrote T cfg F (.verify scope messageID) (.verified r)

theorem transaction_wrote [Signing] [PgLib] [PolicyLib] {T} (draws : SecureTx.Draws T) (cfg : SecureConfig)
    (c : SecureCall) : (c.transaction cfg).wp T (Wrote T cfg · c) {} := by
  cases c with
  | register =>
    exact wp_map (wp_register fun F key own held fresh _ => .registered own held fresh)
  | revoke => exact wp_map (wp_revoke fun F own _ => .revoked own)
  | putPolicy =>
    exact wp_map (wp_putPolicy fun F row own topic document held found => .policy own topic document held found)
  | getPolicy =>
    exact wp_map (wp_getPolicy fun F sp own => .gotPolicy own)
  | keys =>
    exact wp_map (wp_keys fun F ks own => .gotKeys own)
  | publish =>
    refine wp_map (wp_publish draws fun kind F key pol sig id eventID own held guarded decoded signed found => ?_)
    exact .published own kind held guarded decoded signed found
  | attest =>
    refine wp_map (wp_attest draws fun kind F key pol row sig standing id eventID own held decoded signed found => ?_)
    exact .attested own kind held decoded signed found
  | consume =>
    exact wp_map (wp_consume fun F out last last' own held handed => .consumed own held handed)
  | verify =>
    exact wp_map (wp_verify fun F row key atts checks own found => .verified own rfl rfl rfl found)

def annTables (chain : Bool) : SecureTables :=
  { empty with
    agentKeys := Table.empty.put
      { keyID := "k_1", subjectKey := "ann", tokenID := "", algorithm := "ed25519", publicKey := [], publicKeyB64 := ""
        createdAt := 0 }
    policies := [{ objectID := "t", version := 1, document := (sampleSigned chain).document, hash := [112], signature := []
                   signerKID := "kid", createdAt := 1 }] }

def annStores (nonce prevHash signature : String) : SecureCall :=
  .publish ⟨⟨id, id⟩, ⟨id, id⟩, id⟩ 2 2 (secureScope "t")
    { samplePublication nonce signature with policyHash := "p", prevHash := prevHash }

def annRow (id : Int) (nonce : String) : MessageRow :=
  { id := id, objectID := "t", authorKeyID := "k_1", policyVersion := 1, policyHash := [], nonce := nonce, payload := []
    hash := [104], prevHash := none, signature := [104], createdAt := 0 }

def bobReads : SecureCall := .consume ⟨⟨id, id⟩, fun _ => id, fun _ _ => id⟩ (secureScope "t") "bob" "" none 1

end SynaMcp
