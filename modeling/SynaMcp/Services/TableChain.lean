import Mathlib.Data.List.Chain
import SynaMcp.Services.TableSteps

/-! The hash chain of a topic in the tables. A publication reads the last message, waits
for its row, and does not read again: another one that came first has then published
after the same message. -/
namespace SynaMcp
open Keyed Transactions List SecureTables

/-- A topic's messages in the order of their numbers, each after the first with the hash
of the one before it. -/
def SecureTables.Chained (topic : String) (t : SecureTables) : Prop :=
  ((t.topicMessages topic).insertionSort fun a b => a.id ≤ b.id).IsChain fun a b => b.prevHash = some a.hash

instance (topic : String) (t : SecureTables) : Decidable (t.Chained topic) :=
  inferInstanceAs (Decidable (List.IsChain _ _))

def SecureCall.ChainsOn (topic : String) : SecureCall → Prop
  | .putPolicy _ _ _ scope doc => scope.objectID = topic → doc.chain = true
  | _ => True

/-- A publication in the topic reads the last message only while no other one that has
read it is under way. -/
def ReadsApart {ι : Type} (topic : String) (db : Database ι SecureCall SecureTables SecureLock SecureTag SecureSequence
    SecureReply) : Event ι SecureCall → Prop
  | .step i => ∀ s ∈ db.sessions i, s.rest.tag = some (.chain topic) → ∀ j ∈ db.marks (.chain topic), j = i
  | _ => True

structure ChainKept (topic : String) (g : SecureWorld) : Prop where
  policies : ∀ p ∈ g.tables.policies, p.objectID = topic → p.document.chain = true
  bounded : ∀ r ∈ g.tables.messages, r.id ≤ g.sequences .messages
  hashed : ∀ r ∈ g.tables.messages, r.hash ≠ []
  linked : (g.tables.topicMessages topic).IsChain fun a b => a.id < b.id ∧ b.prevHash = some a.hash

def chainTerms (topic : String) : SecureTerms where
  inv := ChainKept topic
  rel _ _ := True
  part x s t := x = .inr (.chain topic) → s.topicMessages topic = t.topicMessages topic
  exclusive t := t = .chain topic
  rel_refl _ := trivial
  rel_trans _ _ := trivial
  part_refl _ _ _ := rfl
  part_trans h h' is := (h is).trans (h' is)

theorem SecureTables.topicMessages_insertMessage {topic row} {t : SecureTables} :
    (t.insertMessage row).topicMessages topic =
      if row.objectID = topic then t.topicMessages topic ++ [row] else t.topicMessages topic := by
  simp only [topicMessages, insertMessage, filter_append]
  by_cases own : row.objectID = topic <;> simp [own]

namespace ChainKept
variable {topic : String} {g : SecureWorld}

section
variable (h : ChainKept topic g)
include h

theorem bump (x : SecureSequence) : ChainKept topic (g.bump x) where
  policies := h.policies
  bounded r mem := by
    have grown := (Terms.Relied.bump : (chainTerms topic).Relied [] g (g.bump x)).drawn .messages
    exact le_trans (h.bounded r mem) (Int.ofNat_le.mpr grown)
  hashed := h.hashed
  linked := h.linked

theorem of_eq {t} (messages : t.messages = g.tables.messages)
    (policies : t.policies = g.tables.policies) : ChainKept topic { g with tables := t } where
  policies := by
    rw [policies]
    exact h.policies
  bounded := by
    rw [messages]
    exact h.bounded
  hashed := by
    rw [messages]
    exact h.hashed
  linked := by
    rw [SecureTables.topicMessages, messages]
    exact h.linked

theorem sorted : (g.tables.topicMessages topic).Pairwise fun a b => a.id < b.id := by
  have increasing := h.linked.imp fun a b is => is.1
  exact List.isChain_iff_pairwise.mp increasing

theorem chained : g.tables.Chained topic := by
  have sorted : (g.tables.topicMessages topic).Pairwise fun a b => a.id ≤ b.id := h.sorted.imp fun lt => le_of_lt lt
  unfold SecureTables.Chained
  rw [sorted.insertionSort_eq]
  exact h.linked.imp fun a b is => is.2

theorem lastMessage_eq {a} (last : (g.tables.topicMessages topic).getLast? = some a) :
    g.tables.lastMessage topic = some a := by
  obtain ⟨rows, split⟩ := getLast?_eq_some_iff.mp last
  have sorted := h.sorted
  rw [split] at sorted
  rw [lastMessage, split, argmax_concat]
  cases found : argmax MessageRow.id rows with
  | none => rfl
  | some c =>
    have lt := (List.pairwise_append.mp sorted).2.2 c (argmax_mem found) a (mem_singleton_self a)
    exact if_pos lt

theorem append {t} {row : MessageRow}
    (messages : t.messages = g.tables.messages ++ [row]) (policies : t.policies = g.tables.policies)
    (bounded : row.id ≤ g.sequences .messages) (hashed : row.hash ≠ [])
    (next : row.objectID = topic → ∀ a ∈ (g.tables.topicMessages topic).getLast?,
      a.id < row.id ∧ row.prevHash = some a.hash) :
    ChainKept topic { g with tables := t } where
  policies := by
    rw [policies]
    exact h.policies
  bounded r mem := by
    rw [messages] at mem
    rcases List.mem_append.mp mem with old | new
    · exact h.bounded r old
    · cases List.mem_singleton.mp new
      exact bounded
  hashed r mem := by
    rw [messages] at mem
    rcases List.mem_append.mp mem with old | new
    · exact h.hashed r old
    · cases List.mem_singleton.mp new
      exact hashed
  linked := by
    have rows : t.topicMessages topic = (g.tables.insertMessage row).topicMessages topic := by
      rw [SecureTables.topicMessages, messages]
      rfl
    show (t.topicMessages topic).IsChain _
    rw [rows, topicMessages_insertMessage]
    split
    · next own =>
      refine List.isChain_append.mpr ⟨h.linked, .singleton _, fun a last b first => ?_⟩
      cases first
      exact next own a last
    · exact h.linked

end

end ChainKept

theorem guard_chainTerms {topic} : (chainTerms topic).guard (some (.chain topic)) = [.inr (.chain topic)] := by
  simp [Terms.guard, chainTerms]

theorem chainTerms_commit {topic F g} {a : SecureReply} (inv : ChainKept topic g)
    (messages : ∀ t, (F.own t).messages = t.messages) (policies : ∀ t, (F.own t).policies = t.policies) :
    (chainTerms topic).Commit (fun _ _ _ => True) F g a := by
  refine ⟨inv.of_eq (messages _) (policies _), trivial, fun x _ _ => ?_, trivial⟩
  rw [SecureTables.topicMessages, SecureTables.topicMessages, messages]

section
variable [Signing] {orders : AuthorizeOrders} {key : AgentKey} {pol : SignedPolicy} {g : SecureWorld}

theorem granted_chain {cfg topic now request}
    (h : SecureTx.Granted (chainTerms topic) cfg orders now topic request key pol g) : pol.document.chain = true := by
  obtain ⟨_, inv, ⟨row, found, rfl⟩, _⟩ := h.cited
  have is := find?_some found
  simp only [decide_eq_true_eq] at is
  exact inv.policies row (mem_of_find?_eq_some found) is.1

variable [PgLib]

section
variable (roundTrip : ∀ bytes, Signing.decodeB64 (Signing.b64 bytes) = some bytes)
include roundTrip

theorem decodeOpt_b64 {bytes} (some_ : Signing.b64 bytes ≠ "") : decodeOpt (Signing.b64 bytes) = some bytes := by
  rw [decodeOpt, if_neg some_, decodeBytes, decodeB64, if_neg some_, roundTrip, Option.getD_some]

variable {cfg : SecureConfig} {topic : String}

theorem published_next {checked scope input id} (own : scope.objectID = topic)
    (h : SecureTx.Published (chainTerms topic) cfg orders checked scope input key pol id g)
    (chain : pol.document.chain = true) {a} (last : a ∈ (g.tables.topicMessages topic).getLast?) :
    a.id < id ∧ decodeOpt input.prevHash = some a.hash := by
  obtain ⟨u, inv, ⟨links, less⟩, relied⟩ := h.linked chain
  rw [own] at links relied
  have same : u.tables.topicMessages topic = g.tables.topicMessages topic :=
    relied.part (.inr (.chain topic)) (by rw [guard_chainTerms]; exact mem_singleton_self _) rfl
  rw [← same] at last
  have mem := (List.mem_filter.mp (mem_of_mem_getLast? last)).1
  refine ⟨lt_of_le_of_lt (inv.bounded a mem) less, ?_⟩
  rcases links a (inv.lastMessage_eq last) with empty | ⟨given, is⟩
  · exact absurd empty (inv.hashed a mem)
  · rw [is] at given ⊢
    exact decodeOpt_b64 roundTrip given

/-- Every call keeps the chain, given that digests are not empty and that what is
encoded is decoded again. -/
theorem chainTerms_commits [PolicyLib] (digests : ∀ e, Signing.hashCanonical e ≠ []) {F c} {a : SecureReply}
    (on : c.ChainsOn topic) (wrote : Wrote (chainTerms topic) cfg F c a) :
    (chainTerms topic).Commits (fun _ _ _ => True) F a := by
  intro g inv known
  cases wrote with
  | policy own scope document =>
    refine ⟨?_, trivial, fun x _ _ => by rw [own]; rfl, trivial⟩
    rw [own]
    refine ⟨fun p mem is => ?_, inv.bounded, inv.hashed, inv.linked⟩
    rcases List.mem_append.mp mem with old | new
    · exact inv.policies p old is
    · cases List.mem_singleton.mp new
      rw [document]
      exact on (scope.symm.trans is)
  | @published _ _ _ scope _ _ _ _ _ _ own _ _ guarded _ _ found =>
    have found := found g inv known
    refine ⟨?_, trivial, fun x free is => ?_, trivial⟩
    · rw [own]
      refine inv.append rfl rfl found.numbered (digests _) fun (here : scope.objectID = topic) a last => ?_
      subst here
      exact published_next roundTrip rfl found (granted_chain found.granted) last
    · rw [own]
      show _ = (g.tables.insertMessage _).topicMessages topic
      rw [topicMessages_insertMessage, if_neg]
      intro (here : scope.objectID = topic)
      subst here is
      refine free (guarded (granted_chain found.granted) ?_)
      rw [guard_chainTerms]
      exact mem_singleton_self _
  | consumed own =>
    refine chainTerms_commit inv (fun t => ?_) fun t => ?_
    all_goals
      obtain ⟨_, _, is⟩ := SecureTx.consumed_eq _ _ _ _ _ t
      rw [own, is]
  | gotPolicy own | gotKeys own | registered own | revoked own | attested own | verified own =>
    exact chainTerms_commit inv (fun t => by rw [own]; rfl) fun t => by rw [own]; rfl

end

def chainContract [PolicyLib] (cfg : SecureConfig) (topic : String)
    (roundTrip : ∀ bytes, Signing.decodeB64 (Signing.b64 bytes) = some bytes)
    (digests : ∀ e, Signing.hashCanonical e ≠ []) : Database.Contract (SecureCall.transaction cfg) where
  toTerms := chainTerms topic
  admits := SecureCall.ChainsOn topic
  post _ _ _ _ := True
  right c on := Tx.wp_mono (fun _ _ => chainTerms_commits roundTrip digests on)
    (transaction_wrote (fun g x (inv : ChainKept topic g) => inv.bump x) cfg c)

/-- In a run in which publications read the last message apart from one another, the
chain never forks. -/
theorem table_chain_holds_when_read_apart [PolicyLib] (cfg : SecureConfig)
    (roundTrip : ∀ bytes, Signing.decodeB64 (Signing.b64 bytes) = some bytes)
    (digests : ∀ e, Signing.hashCanonical e ≠ []) {ι : Type} [DecidableEq ι] {topic : String} {tables : SecureTables}
    (new : tables.messages = []) (policies : ∀ p ∈ tables.policies, p.objectID = topic → p.document.chain = true)
    {events : List (Event ι SecureCall)} (on : ∀ i c, .begin i c ∈ events → c.ChainsOn topic)
    (apart : Runs.Guarded (ReadsApart topic) (Database.step (SecureCall.transaction cfg)) (.quiet tables) events) (n : Nat) :
    (Database.before (SecureCall.transaction cfg) tables events n).tables.Chained topic := by
  have orderly : Runs.Guarded (Database.Orderly (chainTerms topic) (SecureCall.ChainsOn topic))
      (Database.step (SecureCall.transaction cfg)) (.quiet tables) events := by
    refine apart.imp fun db e mem ok => ?_
    cases e with
    | begin i c => exact on i c mem
    | step =>
      intro s running t tag exclusive
      obtain rfl : t = .chain topic := by simpa [chainTerms] using exclusive
      exact ok s running tag
    | abort i error | lose i error => trivial
  have start : ChainKept topic ⟨tables, fun _ => 0⟩ := by
    refine ⟨policies, ?_, ?_, ?_⟩
    · simp [new]
    · simp [new]
    · simp [SecureTables.topicMessages, new]
  have sound := Database.sound_before (chainContract cfg topic roundTrip digests) start orderly n
  exact ChainKept.chained sound.inv

end

instance {topic : String} (db : Database Nat SecureCall SecureTables SecureLock SecureTag SecureSequence SecureReply)
    (e : Event Nat SecureCall) : Decidable (ReadsApart topic db e) :=
  match e with
  | .begin _ _ => .isTrue trivial
  | .step i =>
    match running : db.sessions i with
    | none => .isTrue fun s is => by rw [running] at is; cases is
    | some s =>
      decidable_of_iff (s.rest.tag = some (.chain topic) → ∀ j ∈ db.marks (.chain topic), j = i)
        ⟨fun h s' is => by rw [running] at is; cases is; exact h, fun h => h s running⟩
  | .abort _ _ => .isTrue trivial
  | .lose _ _ => .isTrue trivial

def annPublishesTwice : List (Event Nat SecureCall) :=
  .begin 0 (annStores "n" "" "h") :: replicate 14 (.step 0) ++
    .begin 1 (annStores "m" "h" "i") :: replicate 15 (.step 1)

theorem annPublishesTwice_on (i : Nat) (c : SecureCall) (mem : .begin i c ∈ annPublishesTwice) : c.ChainsOn "t" := by
  simp only [annPublishesTwice, cons_append, mem_cons, mem_append, mem_replicate,
    Event.begin.injEq, reduceCtorEq, and_false, false_or, or_false] at mem
  rcases mem with ⟨_, rfl⟩ | ⟨_, rfl⟩ <;> trivial

set_option maxRecDepth 4000 in
theorem ann_keeps_the_chain :
    (@Database.before Nat _ _ _ _ _ _ _ _ _ _ (@SecureCall.transaction .echo .plain .plain sampleConfig) (annTables true)
      annPublishesTwice 31).tables.Chained "t" :=
  @table_chain_holds_when_read_apart .echo .plain .plain sampleConfig Signing.echo_roundTrip
    (fun e => List.cons_ne_nil _ _) Nat _ "t" (annTables true) rfl (by decide) annPublishesTwice annPublishesTwice_on
    (by decide) 31

/-- Ann publishes, and then twice at a time: both calls find the first message, and the
second one waits for its row. -/
def annPublishesAtOnce : List (Event Nat SecureCall) :=
  .begin 0 (annStores "n" "" "h") :: List.replicate 14 (.step 0) ++
    .begin 1 (annStores "m" "h" "i") :: List.replicate 5 (.step 1) ++
    .begin 2 (annStores "l" "h" "i") :: List.replicate 5 (.step 2) ++
    List.replicate 10 (.step 1) ++ List.replicate 11 (.step 2)

theorem annPublishesAtOnce_on (i : Nat) (c : SecureCall) (mem : .begin i c ∈ annPublishesAtOnce) : c.ChainsOn "t" := by
  simp only [annPublishesAtOnce, cons_append, append_assoc, mem_cons, mem_append,
    mem_replicate, Event.begin.injEq, reduceCtorEq, and_false, false_or, or_false] at mem
  rcases mem with ⟨_, rfl⟩ | ⟨_, rfl⟩ | ⟨_, rfl⟩ <;> trivial

set_option maxRecDepth 4000 in
theorem ann_forks_the_chain :
    (annTables true).messages = [] ∧ (∀ p ∈ (annTables true).policies, p.objectID = "t" → p.document.chain = true) ∧
      (∀ i c, .begin i c ∈ annPublishesAtOnce → c.ChainsOn "t") ∧
      ¬(@Database.before Nat _ _ _ _ _ _ _ _ _ _ (@SecureCall.transaction .echo .plain .plain sampleConfig)
        (annTables true) annPublishesAtOnce 48).tables.Chained "t" :=
  ⟨rfl, by decide, annPublishesAtOnce_on, by decide⟩

end SynaMcp
