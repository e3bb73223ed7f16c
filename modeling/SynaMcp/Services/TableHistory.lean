import SynaMcp.Services.PolicyHistory

/-! The policies of a topic in the tables. A transaction reads the largest version
and inserts the next; if another one has inserted it meanwhile, the primary key
refuses it. -/
namespace SynaMcp
open Keyed Transactions Database List SecureTables Signing

def SecureTables.topicPolicies (topic : String) (t : SecureTables) : List PolicyRow :=
  t.policies.filter fun r => r.objectID = topic

/-- The versions of a topic's policy count from one, each with its own document. -/
structure SecureTables.History [PolicyLib] (t : SecureTables) (topic : String) : Prop where
  versions : Serial.Numbered PolicyRow.version (t.topicPolicies topic)
  documents : ∀ r ∈ t.topicPolicies topic, r.document.version = r.version ∧ r.document.schema = policySchemaID ∧
    r.document.topicID = topic
  hashes : ∀ r ∈ t.topicPolicies topic, r.hash = PolicyLib.hashDocument r.document

def SecureTables.Entered (t : SecureTables) : SecureLock ⊕ SecureTag → Prop
  | .inl (.policy objectID version) => version ∈ (t.topicPolicies objectID).map PolicyRow.version
  | .inl (.key keyID) => t.agentKeys.Has keyID
  | _ => False

/-- Policies stay where they are, records stay, and keys verify what they did. -/
structure HistoryKept (s t : SecureTables) : Prop extends RecordsKept s t where
  policies : s.policies <+: t.policies

def historyTerms [PolicyLib] : SecureTerms where
  inv g := ∀ topic, g.tables.History topic
  rel := HistoryKept
  part x s t := s.Entered x ↔ t.Entered x
  exclusive _ := false
  rel_refl s := ⟨.refl s, prefix_rfl⟩
  rel_trans h h' := ⟨h.toRecordsKept.trans h'.toRecordsKept, h.policies.trans h'.policies⟩
  part_refl _ _ := Iff.rfl
  part_trans := Iff.trans

section
variable [Signing] [PgLib]

def MessageRow.CitesPolicy (r : MessageRow) (t : SecureTables) : Prop :=
  ∃ p ∈ t.topicPolicies r.objectID, p.version = r.policyVersion ∧ r.policyHash = p.hash

/-- Where the request cites a version that is not the last one, it gives its hash. -/
def PublishInput.GivesRowHash (input : PublishInput) (topic : String) (t : SecureTables) : Prop :=
  ∀ last ∈ t.maxVersion topic, input.policyVersion ≠ last.version →
    ∀ p ∈ t.topicPolicies topic, p.version = input.policyVersion → decodeBytes input.policyHash = p.hash

inductive HistoryWrite (s t : SecureTables) : SecureCall → Prop where
  | policy {orders issued now scope doc row}
      (topic : row.objectID = scope.objectID) (agents : row.document.agents = doc.agents)
      (known : ∀ a ∈ doc.agents.rows, ∃ k, s.agentKeys.get? a.2.keyID = some k)
      (policies : t.policies = s.policies ++ [row]) (messages : t.messages = s.messages) :
      HistoryWrite s t (.putPolicy orders issued now scope doc)
  | message {orders checked now scope input row}
      (topic : row.objectID = scope.objectID) (cited : ∃ p ∈ s.topicPolicies scope.objectID, p.version = row.policyVersion)
      (cites : (∀ bytes, Signing.decodeB64 (b64 bytes) = some bytes) →
        (row.CitesPolicy s ↔ input.GivesRowHash scope.objectID s))
      (messages : t.messages = s.messages ++ [row]) (policies : t.policies = s.policies) :
      HistoryWrite s t (.publish orders checked now scope input)
  | neither (c : SecureCall) (policies : t.policies = s.policies) (messages : t.messages = s.messages) :
      HistoryWrite s t c

end

namespace SecureTables
variable {s t : SecureTables} {topic : String} {row : PolicyRow}

theorem topicPolicies_insertPolicy : (t.insertPolicy row).topicPolicies topic =
      if row.objectID = topic then t.topicPolicies topic ++ [row] else t.topicPolicies topic := by
  simp only [topicPolicies, insertPolicy, filter_append]
  by_cases own : row.objectID = topic <;> simp [own]

theorem entered_insertPolicy {x} :
    (t.insertPolicy row).Entered x ↔ x = .inl (.policy row.objectID row.version) ∨ t.Entered x := by
  rcases x with (_ | ⟨objectID, _⟩ | _) | _
  case inl.policy =>
    simp only [Entered, topicPolicies_insertPolicy]
    by_cases own : row.objectID = objectID
    · subst own
      simp [or_comm, eq_comm]
    · simp [own, Ne.symm own]
  all_goals simp [Entered, insertPolicy]

theorem entered_insertKey {k x} : (t.insertKey k).Entered x ↔ x = .inl (.key k.keyID) ∨ t.Entered x := by
  rcases x with (_ | _ | _) | _ <;> simp [Entered, insertKey, topicPolicies, eq_comm]

theorem topicPolicies_prefix (h : s.policies <+: t.policies) (topic : String) :
    s.topicPolicies topic <+: t.topicPolicies topic := h.filter _

theorem entered_of_eq (policies : t.policies = s.policies) (keys : ∀ k, t.agentKeys.Has k ↔ s.agentKeys.Has k)
    (x : SecureLock ⊕ SecureTag) : s.Entered x ↔ t.Entered x := by
  rcases x with (_ | _ | _) | _ <;> simp only [Entered, topicPolicies, policies, keys]

variable [PolicyLib]

theorem History.of_eq (h : s.History topic) (policies : t.policies = s.policies) : t.History topic := by
  have same : t.topicPolicies topic = s.topicPolicies topic := by rw [topicPolicies, policies, topicPolicies]
  constructor
  all_goals rw [same]
  · exact h.versions
  · exact h.documents
  · exact h.hashes

theorem History.maxVersion_eq (h : s.History topic) : s.maxVersion topic = (s.topicPolicies topic).getLast? :=
  h.versions.argmax_eq

theorem History.next_eq (h : s.History topic) :
    (((s.maxVersion topic).map PolicyRow.version).map (· + 1)).getD 1 = ((s.topicPolicies topic).length + 1 : Int) := by
  rw [h.maxVersion_eq]
  cases last : (s.topicPolicies topic).getLast? with
  | none => simp [getLast?_eq_none_iff.mp last]
  | some =>
    have number := h.versions.getLast? last
    simp [number]

theorem History.insertPolicy (h : t.History topic)
    (next : row.objectID = topic → row.version = (t.topicPolicies topic).length + 1)
    (document : row.document.version = row.version ∧ row.document.schema = policySchemaID ∧
      row.document.topicID = row.objectID) (hash : row.hash = PolicyLib.hashDocument row.document) :
    (t.insertPolicy row).History topic := by
  have after : (t.insertPolicy row).topicPolicies topic = _ := topicPolicies_insertPolicy
  by_cases own : row.objectID = topic
  · rw [if_pos own] at after
    constructor
    all_goals rw [after]
    · exact h.versions.append (next own)
    · intro r mem
      rcases List.mem_append.mp mem with old | new
      · exact h.documents r old
      · cases List.mem_singleton.mp new
        exact own ▸ document
    · intro r mem
      rcases List.mem_append.mp mem with old | new
      · exact h.hashes r old
      · cases List.mem_singleton.mp new
        exact hash
  · rw [if_neg own] at after
    constructor
    all_goals rw [after]
    · exact h.versions
    · exact h.documents
    · exact h.hashes

end SecureTables

section
variable [PolicyLib] {g : SecureWorld} {F : SecureFrame} {a : SecureReply}

/-- A policy that found the largest version, and its own free under the lock, is the next one. -/
theorem SecureTx.Issued.version_eq {scope doc row}
    (h : SecureTx.Issued historyTerms scope doc row g) (history : g.tables.History scope.objectID) :
    row.version = (g.tables.topicPolicies scope.objectID).length + 1 := by
  obtain ⟨u, sound, next, before⟩ := h.next
  obtain ⟨v, _, free, since⟩ := h.fresh
  rw [(sound scope.objectID).next_eq] at next
  have grown := ( topicPolicies_prefix before.rel.policies scope.objectID).length_le
  -- The entry is free still, so no more than the policies that were read are there.
  have absent : row.version ∉ (g.tables.topicPolicies scope.objectID).map PolicyRow.version := by
    intro taken
    have entered : v.tables.Entered (.inl (.policy scope.objectID row.version)) :=
      (since.part _ mem_cons_self).mpr taken
    obtain ⟨r, mem, same⟩ := List.mem_map.mp entered
    obtain ⟨mem, topic⟩ := List.mem_filter.mp mem
    have none := find?_eq_none.mp free r mem
    simp only [decide_eq_true_eq] at topic none
    exact none ⟨topic, same⟩
  rcases Nat.lt_or_ge (u.tables.topicPolicies scope.objectID).length (g.tables.topicPolicies scope.objectID).length
    with more | same
  · refine absurd (List.mem_map.mpr ⟨_, getElem_mem more, ?_⟩) absent
    rw [history.versions _ _ (getElem?_eq_getElem more), next]
  · rw [next]
    omega

theorem historyTerms_commit {post} (inv : ∀ topic, g.tables.History topic)
    (policies : (F.own g.tables).policies = g.tables.policies) (kept : RecordsKept g.tables (F.own g.tables))
    (entered : ∀ x, x ∉ F.held → (g.tables.Entered x ↔ (F.own g.tables).Entered x))
    (established : post g.tables a (F.own g.tables)) : historyTerms.Commit post F g a := by
  refine ⟨fun topic => (inv topic).of_eq policies, ⟨kept, ?_⟩, entered, established⟩
  rw [policies]

variable [Signing]

/-- The policy that a request cites, and whether the hash it gives is that of the policy. -/
theorem SecureTx.Granted.hash_iff [PgLib] {cfg orders now topic request key pol} (history : g.tables.History topic)
    (given : request.hash ≠ "") (h : SecureTx.Granted historyTerms cfg orders now topic request key pol g) :
    ∃ p ∈ g.tables.topicPolicies topic, p.version = request.version ∧
      ((∀ bytes, Signing.decodeB64 (b64 bytes) = some bytes) →
        (decodeBytes request.hash = p.hash ↔ ∀ last ∈ g.tables.maxVersion topic, request.version ≠ last.version →
          ∀ p ∈ g.tables.topicPolicies topic, p.version = request.version → decodeBytes request.hash = p.hash)) := by
  obtain ⟨_, _, ⟨cited, found, _⟩, before⟩ := h.cited
  obtain ⟨_, _, ⟨cur, current, accepted⟩, since⟩ := h.current
  have is := find?_some found
  simp only [decide_eq_true_eq] at is
  have mem : cited ∈ g.tables.topicPolicies topic :=
    List.mem_filter.mpr ⟨before.rel.policies.subset (mem_of_find?_eq_some found), by simpa using is.1⟩
  have seen := ( topicPolicies_prefix since.rel.policies topic).subset (argmax_mem current)
  refine ⟨cited, mem, is.2, fun roundTrip => ?_⟩
  rw [← is.2, history.maxVersion_eq]
  refine history.versions.holds_iff (P := fun p => decodeBytes request.hash = p.hash) mem seen ?_
  rw [is.2]
  refine (acceptPolicyVersion_cases accepted).imp (fun same => ⟨same.1, ?_⟩) id
  have text : request.hash = b64 cur.hash := same.2.resolve_left given
  rw [text] at given ⊢
  rw [decodeBytes, decodeB64, if_neg given, roundTrip, Option.getD_some]

variable [PgLib]

theorem historyTerms_commits {cfg c}
    (wrote : Wrote historyTerms cfg F c a) : historyTerms.Commits (fun s _ t => HistoryWrite s t c) F a := by
  intro g inv known
  cases wrote with
  | gotPolicy own | gotKeys own | verified own =>
    refine historyTerms_commit inv (by rw [own]; rfl) (by rw [own]; exact .refl _) (fun x _ => ?_) ?_
    · rw [own]
      rfl
    · rw [own]
      exact .neither _ rfl rfl
  | consumed own =>
    obtain ⟨_, _, is⟩ := SecureTx.consumed_eq _ _ _ _ _ g.tables
    rw [← own] at is
    refine historyTerms_commit inv (by rw [is]) ?_ (fun x _ => ?_) ?_
    all_goals rw [is]
    · exact ⟨List.Subset.refl _, List.Subset.refl _, fun _ k known => ⟨k, known, rfl⟩⟩
    · exact entered_of_eq rfl (fun _ => Iff.rfl) x
    · exact .neither _ rfl rfl
  | @revoked now keyID _ _ own =>
    refine historyTerms_commit inv (by rw [own]; rfl) ?_ (fun x _ => ?_) ?_
    all_goals rw [own]
    · exact .revokeKey keyID now
    · exact entered_of_eq (s := g.tables) (t := g.tables.revokeKey keyID now) rfl
        (fun k => taken_revokeKey (x := .inl (.key k))) x
    · exact .neither _ rfl rfl
  | @registered _ _ _ _ key own held fresh =>
    have free : ¬g.tables.Taken (.inl (.key key.keyID)) := by
      intro has
      obtain ⟨u, _, none, relied⟩ := fresh g inv known
      have has : u.tables.agentKeys.Has key.keyID := (relied.part _ mem_cons_self).mpr has
      have some := Table.isSome_get?_iff.mpr has
      rw [none] at some
      cases some
    refine historyTerms_commit inv (by rw [own]; rfl) ?_ (fun x mine => ?_) ?_
    all_goals rw [own]
    · exact .insertKey free
    · refine (SecureTables.entered_insertKey.trans (or_iff_right fun same => ?_)).symm
      subst same
      exact mine held
    · exact .neither _ rfl rfl
  | @policy _ _ _ scope _ a _ own topic document held found =>
    have found := found g inv known
    have version := found.version_eq (inv scope.objectID)
    refine ⟨fun other => ?_, ⟨?_, ?_⟩, fun x mine => ?_, ?_⟩
    all_goals rw [own]
    · refine (inv other).insertPolicy (fun same => ?_) ?_ found.hash
      · rw [version, ← topic, same]
      · rw [document, topic]
        exact ⟨rfl, rfl, rfl⟩
    · exact ⟨List.Subset.refl _, List.Subset.refl _, fun _ k known => ⟨k, known, rfl⟩⟩
    · exact prefix_append _ _
    · refine (SecureTables.entered_insertPolicy.trans (or_iff_right fun same => ?_)).symm
      subst same
      rw [topic] at mine
      exact mine held
    · refine .policy topic ?_ (fun a mem => ?_) rfl rfl
      · rw [document]
        rfl
      · obtain ⟨_, _, ⟨k, stored, _⟩, relied⟩ := found.keys a mem
        obtain ⟨k', stored', _⟩ := relied.rel.keys _ k stored
        exact ⟨k', stored'⟩
  | @published orders checked now scope input _ _ sig id _ own _ _ _ _ _ found =>
    have found := found g inv known
    refine historyTerms_commit inv (by rw [own]; rfl) ?_ (fun x _ => ?_) ?_
    all_goals rw [own]
    · exact (RecordsKept.insertMessage _).insertEvent _
    · exact entered_of_eq rfl (fun _ => Iff.rfl) x
    · obtain ⟨p, mem, version, hash⟩ := found.granted.hash_iff (inv scope.objectID) found.hash
      refine @HistoryWrite.message _ _ _ _ orders checked now scope input ((input.message now scope.objectID).row id sig)
        rfl ⟨p, mem, version⟩ (fun roundTrip => ?_) rfl rfl
      have hash := hash roundTrip
      refine Iff.trans ⟨?_, fun same => ⟨p, mem, version, same⟩⟩ hash
      rintro ⟨p', mem', version', same⟩
      rw [(inv scope.objectID).versions.inj mem mem' (version.trans version'.symm)]
      exact same
  | @attested _ _ _ _ _ _ _ _ _ standing _ _ own =>
    refine historyTerms_commit inv (by rw [own]; rfl) ?_ (fun x _ => ?_) ?_
    all_goals rw [own]
    · exact ((RecordsKept.supersede standing _).trans (.insertAttestation _)).insertEvent _
    · exact entered_of_eq rfl (fun _ => Iff.rfl) x
    · exact .neither _ rfl rfl

def historyContract (cfg : SecureConfig) : Database.Contract (SecureCall.transaction cfg) where
  toTerms := historyTerms
  admits _ := True
  post c s _ t := HistoryWrite s t c
  right c _ := Tx.wp_mono (fun _ _ => historyTerms_commits) (transaction_wrote (fun _ _ inv => inv) cfg c)

end

section
variable [Signing] [PgLib] [PolicyLib] {ι : Type} [DecidableEq ι] (cfg : SecureConfig) (tables : SecureTables)
  (events : List (Event ι SecureCall))

abbrev tablesAt (n : Nat) : SecureTables := (Database.before (SecureCall.transaction cfg) tables events n).tables

/-- The event of that number of the run commits a `PutPolicy` of the document, which
stores the row. -/
structure RowPutAt (n : Nat) (doc : Document) (row : PolicyRow) : Prop where
  called : ∃ e orders issued now scope, events[n]? = some e ∧ row.objectID = scope.objectID ∧
    (Database.before (SecureCall.transaction cfg) tables events n).made e.session =
      some (.putPolicy orders issued now scope doc)
  agents : row.document.agents = doc.agents
  known : ∀ a ∈ doc.agents.rows, ∃ k, (tablesAt cfg tables events n).agentKeys.get? a.2.keyID = some k
  appends : (tablesAt cfg tables events (n + 1)).policies = (tablesAt cfg tables events n).policies ++ [row]

/-- It commits a `Publish` of the input, which stores the row. -/
structure RowPublishedAt (n : Nat) (input : PublishInput) (row : MessageRow) : Prop where
  called : ∃ e orders checked now scope, events[n]? = some e ∧ row.objectID = scope.objectID ∧
    (Database.before (SecureCall.transaction cfg) tables events n).made e.session =
      some (.publish orders checked now scope input)
  cited : ∃ p ∈ (tablesAt cfg tables events n).topicPolicies row.objectID, p.version = row.policyVersion
  cites : (∀ bytes, Signing.decodeB64 (b64 bytes) = some bytes) →
    (row.CitesPolicy (tablesAt cfg tables events n) ↔ input.GivesRowHash row.objectID (tablesAt cfg tables events n))
  appends : (tablesAt cfg tables events (n + 1)).messages = (tablesAt cfg tables events n).messages ++ [row]

end

section
variable [Signing] [PgLib] [PolicyLib] {ι : Type} [DecidableEq ι] {cfg : SecureConfig} {tables : SecureTables}
  {events : List (Event ι SecureCall)} (new : tables.policies = [])
include new

omit [Signing] [PgLib] in
theorem historySound_start (topic : String) : tables.History topic := by
  have none : tables.topicPolicies topic = [] := by rw [SecureTables.topicPolicies, new, filter_nil]
  constructor
  all_goals rw [none]
  · exact Serial.numbered_nil
  all_goals
    intro r mem
    cases mem

theorem tableHistory_at (n : Nat) (topic : String) : (tablesAt cfg tables events n).History topic :=
  (sound_before (historyContract cfg) (historySound_start new)
    (guarded_of_shared (historyContract cfg) (fun _ => rfl) (fun _ => trivial) tables events) n).inv topic

theorem historyKept_between {n m} (le : n ≤ m) :
    HistoryKept (tablesAt cfg tables events n) (tablesAt cfg tables events m) :=
  rel_between (historyContract cfg) (historySound_start new)
    (guarded_of_shared (historyContract cfg) (fun _ => rfl) (fun _ => trivial) tables events) le

variable (cfg events) in
theorem historyWrite_at (n : Nat) : tablesAt cfg tables events (n + 1) = tablesAt cfg tables events n ∨
      ∃ e c, events[n]? = some e ∧ (Database.before (SecureCall.transaction cfg) tables events n).made e.session = some c ∧
        HistoryWrite (tablesAt cfg tables events n) (tablesAt cfg tables events (n + 1)) c := by
  rcases step_before (historyContract cfg) (historySound_start new)
    (guarded_of_shared (historyContract cfg) (fun _ => rfl) (fun _ => trivial) tables events) n with
    same | ⟨e, c, a, event, made, _, post⟩
  · exact .inl same
  · exact .inr ⟨e, c, event, made, post⟩

theorem rows_step (n : Nat) :
    (tablesAt cfg tables events (n + 1)).policies = (tablesAt cfg tables events n).policies ∨
      ∃ row doc, RowPutAt cfg tables events n doc row := by
  rcases historyWrite_at cfg events new n with same | ⟨e, _, event, made, write⟩
  · exact .inl (congrArg SecureTables.policies same)
  · cases write with
    | @policy orders issued now scope doc row topic agents known policies =>
      exact .inr ⟨row, doc, ⟨e, orders, issued, now, scope, event, topic, made⟩, agents, known, policies⟩
    | message topic cited cites messages policies | neither _ policies messages => exact .inl policies

theorem rowPut_iff {n row} :
    row ∈ (tablesAt cfg tables events n).policies ↔ ∃ k < n, ∃ doc, RowPutAt cfg tables events k doc row :=
  Serial.mem_iff_accepted (fun n => (tablesAt cfg tables events n).policies)
    (fun k row => ∃ doc, RowPutAt cfg tables events k doc row) new (rows_step new) fun _ _ ⟨_, put⟩ => put.appends

theorem RowPutAt.describes_iff {k n doc row} (h : RowPutAt cfg tables events k doc row)
    (lt : k < n) : row.document.DescribesKeys (tablesAt cfg tables events n).agentKeys.get? ↔
      doc.CopiesKeys (tablesAt cfg tables events k).agentKeys.get? := by
  have same : row.document.DescribesKeys (tablesAt cfg tables events n).agentKeys.get? ↔
      doc.DescribesKeys (tablesAt cfg tables events n).agentKeys.get? := by
    rw [Document.DescribesKeys, Document.DescribesKeys, h.agents]
  exact same.trans (Document.describesKeys_iff h.known (historyKept_between new (Nat.le_of_lt lt)).keys)

theorem messageRows_step (n : Nat) :
    (tablesAt cfg tables events (n + 1)).messages = (tablesAt cfg tables events n).messages ∨
      ∃ row input, RowPublishedAt cfg tables events n input row := by
  rcases historyWrite_at cfg events new n with same | ⟨e, _, event, made, write⟩
  · exact .inl (congrArg SecureTables.messages same)
  · cases write with
    | policy topic agents known policies messages => exact .inl messages
    | @message orders checked now scope input row topic cited cites messages =>
      refine .inr ⟨row, input, ⟨e, orders, checked, now, scope, event, topic, made⟩, ?_, fun roundTrip => ?_, messages⟩
      all_goals rw [topic]
      · exact cited
      · exact cites roundTrip
    | neither _ policies messages => exact .inl messages

theorem rowPublished_iff (messages : tables.messages = []) {n row} :
    row ∈ (tablesAt cfg tables events n).messages ↔ ∃ k < n, ∃ input, RowPublishedAt cfg tables events k input row :=
  Serial.mem_iff_accepted (fun n => (tablesAt cfg tables events n).messages)
    (fun k row => ∃ input, RowPublishedAt cfg tables events k input row) messages (messageRows_step new)
    fun _ _ ⟨_, published⟩ => published.appends

/-- A row cites its policy, then and later, if its author gave the hash. -/
theorem RowPublishedAt.cites_iff (roundTrip : ∀ bytes, Signing.decodeB64 (b64 bytes) = some bytes) {k n input row} (h : RowPublishedAt cfg tables events k input row) (lt : k < n) :
    row.CitesPolicy (tablesAt cfg tables events n) ↔ input.GivesRowHash row.objectID (tablesAt cfg tables events k) := by
  have kept : HistoryKept (tablesAt cfg tables events k) (tablesAt cfg tables events n) :=
    historyKept_between new (Nat.le_of_lt lt)
  have grown := ( topicPolicies_prefix kept.policies row.objectID).subset
  refine Iff.trans ⟨?_, ?_⟩ (h.cites roundTrip)
  · rintro ⟨p, stored, version, hash⟩
    obtain ⟨p', mem, version'⟩ := h.cited
    have same := (tableHistory_at new n row.objectID).versions.inj (grown mem) stored (version'.trans version.symm)
    exact ⟨p', mem, version', same ▸ hash⟩
  · rintro ⟨p, mem, facts⟩
    exact ⟨p, grown mem, facts⟩

end

section
variable [ServiceLib] [Signing] [PolicyLib] [PgLib] (cfg : SecureConfig)

/-- However calls interleave, the versions of a policy count from one without a gap, each
with its own document and hash, in memory and in the tables. -/
theorem policy_history_contiguous :
    (∀ (kafka : Bool) (events : List ServiceEvent), DrawsKeys cfg (Services.new kafka) events → ∀ (topic : String) (n : Nat),
      (busAt cfg (Services.new kafka) events n).topics.History topic) ∧
    ∀ (ι : Type) [DecidableEq ι] (tables : SecureTables) (events : List (Event ι SecureCall)), tables.policies = [] →
      ∀ (topic : String) (n : Nat), (tablesAt cfg tables events n).History topic :=
  ⟨fun _ _ draws _ n => history_at draws n, fun _ _ _ _ new topic n => tableHistory_at new n topic⟩

/-- A policy that is stored describes the registered keys if and only if the one that
was given did so when it was stored. -/
theorem policies_describe_keys_iff :
    (∀ (kafka : Bool) (events : List ServiceEvent), DrawsKeys cfg (Services.new kafka) events → ∀ (topic : String) (n : Nat),
      ∀ sp ∈ (busAt cfg (Services.new kafka) events n).topics.policies topic,
        ∃ k < n, ∃ doc, PutAt cfg (Services.new kafka) events topic k doc sp ∧
          (sp.document.DescribesKeys (busAt cfg (Services.new kafka) events n).keyStore.get ↔
            doc.CopiesKeys (busAt cfg (Services.new kafka) events k).keyStore.get)) ∧
    ∀ (ι : Type) [DecidableEq ι] (tables : SecureTables) (events : List (Event ι SecureCall)), tables.policies = [] →
      ∀ n, ∀ row ∈ (tablesAt cfg tables events n).policies, ∃ k < n, ∃ doc, RowPutAt cfg tables events k doc row ∧
        (row.document.DescribesKeys (tablesAt cfg tables events n).agentKeys.get? ↔
          doc.CopiesKeys (tablesAt cfg tables events k).agentKeys.get?) := by
  constructor
  · intro kafka events draws topic n sp mem
    obtain ⟨k, lt, doc, put⟩ := (put_iff draws).mp mem
    exact ⟨k, lt, doc, put, put.describes_iff draws lt⟩
  · intro ι _ tables events new n row mem
    obtain ⟨k, lt, doc, put⟩ := (rowPut_iff new).mp mem
    exact ⟨k, lt, doc, put, put.describes_iff new lt⟩

/-- A message that is stored has the hash of the policy it cites if and only if its author
gave it, or it was compared. -/
theorem messages_cite_policies_iff (digests : ∀ d, Signing.b64 (PolicyLib.hashDocument d) ≠ "")
    (roundTrip : ∀ bytes, Signing.decodeB64 (Signing.b64 bytes) = some bytes) :
    (∀ (kafka : Bool) (events : List ServiceEvent), DrawsKeys cfg (Services.new kafka) events → ∀ (topic : String) (n : Nat),
      ∀ m ∈ (busAt cfg (Services.new kafka) events n).topics.messages topic,
        ∃ k < n, ∃ input, PublishesAt cfg (Services.new kafka) events topic k input m ∧
          (m.CitesPolicy ((busAt cfg (Services.new kafka) events n).topics.policies topic) ↔
            input.GivesHash ((busAt cfg (Services.new kafka) events k).topics.policies topic))) ∧
    ∀ (ι : Type) [DecidableEq ι] (tables : SecureTables) (events : List (Event ι SecureCall)), tables.policies = [] →
      tables.messages = [] → ∀ n, ∀ row ∈ (tablesAt cfg tables events n).messages,
        ∃ k < n, ∃ input, RowPublishedAt cfg tables events k input row ∧
          (row.CitesPolicy (tablesAt cfg tables events n) ↔
            input.GivesRowHash row.objectID (tablesAt cfg tables events k)) := by
  constructor
  · intro kafka events draws topic n m mem
    obtain ⟨k, lt, published⟩ := (published_iff draws).mp mem
    obtain ⟨input, publishes⟩ := publishedAt_iff.mp published
    exact ⟨k, lt, input, publishes, publishes.cites_iff draws digests lt⟩
  · intro ι _ tables events new messages n row mem
    obtain ⟨k, lt, input, published⟩ := (rowPublished_iff new messages).mp mem
    exact ⟨k, lt, input, published, published.cites_iff new roundTrip lt⟩

end

instance (r : MessageRow) (t : SecureTables) : Decidable (r.CitesPolicy t) :=
  inferInstanceAs (Decidable (∃ p ∈ t.topicPolicies r.objectID, p.version = r.policyVersion ∧ r.policyHash = p.hash))

@[reducible] def PolicyLib.sealed : PolicyLib where
  hashDocument _ := [112]
  decodeCondition _ := .ok {}

def annDocument : Document :=
  { sampleDocument false with
    agents := Table.empty.put
      ("ann", { keyID := "k_1", alg := "ed25519", publicKey := Signing.echo.b64 (replicate 32 0) }) }

def annCites (hash : String) : List ServiceEvent :=
  annSetsUp annDocument ++ CallID.alone (.object "ann" "t" 1)
    (.publish id 2 2 (secureScope "t") { samplePublication "n" "h" with policyHash := hash }) 4

def annKeyed : SecureTables :=
  { SecureTables.empty with
    agentKeys := Table.empty.put
      { keyID := "k_1", subjectKey := "ann", tokenID := "", algorithm := "ed25519", publicKey := replicate 32 0
        publicKeyB64 := "", createdAt := 0 } }

def annPuts (i : Nat) : List (Event Nat SecureCall) :=
  .begin i (.putPolicy ⟨id, id, id⟩ 1 1 (secureScope "t") annDocument) :: replicate 6 (.step i)

def annCitesRows : List (Event Nat SecureCall) :=
  annPuts 0 ++ .begin 1 (annStores "n" "" "h") :: replicate 13 (.step 1)

theorem ann_history_contiguous :
    (((@busAt .plain .echo .sealed sampleConfig (.new false) (annCites "p") 8).topics.policies "t").length = 1 ∧
      @Topics.History .echo .sealed (@busAt .plain .echo .sealed sampleConfig (.new false) (annCites "p") 8).topics "t") ∧
    (@tablesAt .echo .plain .sealed Nat _ sampleConfig annKeyed annCitesRows 7).policies.length = 1 ∧
      @SecureTables.History .sealed (@tablesAt .echo .plain .sealed Nat _ sampleConfig annKeyed annCitesRows 7) "t" := by
  have history := @policy_history_contiguous .plain .echo .sealed .plain sampleConfig
  exact ⟨⟨rfl, history.1 false (annCites "p") (by decide) "t" 8⟩, rfl, history.2 Nat annKeyed annCitesRows rfl "t" 7⟩

theorem ann_describes_her_key :
    ∀ sp ∈ (@busAt .plain .echo .sealed sampleConfig (.new false) (annCites "p") 8).topics.policies "t",
      ∃ k < 8, ∃ doc, @PutAt .plain .echo .sealed sampleConfig (.new false) (annCites "p") "t" k doc sp ∧
        (@Document.DescribesKeys .echo sp.document
            (@busAt .plain .echo .sealed sampleConfig (.new false) (annCites "p") 8).keyStore.get ↔
          @Document.CopiesKeys .echo doc (@busAt .plain .echo .sealed sampleConfig (.new false) (annCites "p") k).keyStore.get) :=
  (@policies_describe_keys_iff .plain .echo .sealed .plain sampleConfig).1 false (annCites "p") (by decide) "t" 8

/-- The policy that is stored names another key than the one that is registered. -/
theorem ann_describes_no_key :
    ∃ sp ∈ (@busAt .plain .echo .plain sampleConfig (.new false) (annSetsUp (sampleDocument false)) 8).topics.policies "t",
      ¬@Document.DescribesKeys .echo sp.document
        (@busAt .plain .echo .plain sampleConfig (.new false) (annSetsUp (sampleDocument false)) 8).keyStore.get := by
  refine ⟨_, mem_singleton_self _, fun described => ?_⟩
  obtain ⟨_, stored, ⟨_, publicKey⟩, _⟩ := described ("ann", { keyID := "k_1", alg := "ed25519", publicKey := "pk" })
    (mem_singleton_self _)
  cases stored
  revert publicKey
  decide

theorem ann_cites_the_policy :
    ∃ m ∈ (@busAt .plain .echo .sealed sampleConfig (.new false) (annCites "p") 13).topics.messages "t",
      ∃ k < 13, ∃ input, @PublishesAt .plain .echo .sealed sampleConfig (.new false) (annCites "p") "t" k input m ∧
        (m.CitesPolicy ((@busAt .plain .echo .sealed sampleConfig (.new false) (annCites "p") 13).topics.policies "t") ↔
          input.GivesHash ((@busAt .plain .echo .sealed sampleConfig (.new false) (annCites "p") k).topics.policies "t")) :=
  ⟨_, List.mem_singleton_self _, (@messages_cite_policies_iff .plain .echo .sealed .plain sampleConfig
    (fun _ => Signing.echo_b64_ne (List.cons_ne_nil _ _)) Signing.echo_roundTrip).1 false (annCites "p") (by decide) "t" 13
    _ (List.mem_singleton_self _)⟩

def annMiscitesRows : List (Event Nat SecureCall) :=
  annPuts 0 ++ annPuts 1 ++
    .begin 2 (.publish ⟨⟨id, id⟩, ⟨id, id⟩, id⟩ 2 2 (secureScope "t") { samplePublication "n" "h" with policyHash := "x" }) ::
      replicate 13 (.step 2)

/-- A hash that is omitted is accepted in memory, and any hash in the grace period. -/
theorem ann_cites_no_policy :
    (∃ m ∈ (@busAt .plain .echo .sealed sampleConfig (.new false) (annCites "") 13).topics.messages "t",
      ¬m.CitesPolicy ((@busAt .plain .echo .sealed sampleConfig (.new false) (annCites "") 13).topics.policies "t")) ∧
    ∃ r ∈ (@tablesAt .echo .plain .sealed Nat _ sampleConfig annKeyed annMiscitesRows 28).messages,
      ¬r.CitesPolicy (@tablesAt .echo .plain .sealed Nat _ sampleConfig annKeyed annMiscitesRows 28) :=
  ⟨by decide, by decide⟩

end SynaMcp
