import SynaMcp.Services.TableHistory

/-! Nonces of messages. In the tables a unique constraint keeps a second message with
the nonce of another one of its topic out. In memory nothing does. -/
namespace SynaMcp
open Keyed Transactions Database List

def SecureTables.Used (t : SecureTables) (key : String × String) : Prop :=
  key ∈ t.messages.map fun r => (r.objectID, r.nonce)

/-- No two messages of a topic have one nonce; messages stay where they are, and one with
a nonce comes only from who holds its entry. -/
def nonceTerms : SecureTerms where
  inv g := (g.tables.messages.map fun r => (r.objectID, r.nonce)).Nodup
  rel s t := s.messages <+: t.messages
  part x s t := ∀ objectID nonce, x = .inl (.nonce objectID nonce) → (s.Used (objectID, nonce) ↔ t.Used (objectID, nonce))
  exclusive _ := false
  rel_refl _ := prefix_rfl
  rel_trans := List.IsPrefix.trans
  part_refl _ _ _ _ _ := Iff.rfl
  part_trans h h' o n is := (h o n is).trans (h' o n is)

def SecureCall.usesNonce : SecureCall → SecureTables → SecureTables → Prop
  | .publish _ _ _ scope input, s, t =>
    ∃ r, t.messages = s.messages ++ [r] ∧ r.objectID = scope.objectID ∧ r.nonce = input.nonce
  | _, _, _ => True

theorem nonceTerms_commit {F g a} {post : SecureTables → SecureReply → SecureTables → Prop} (inv : nonceTerms.inv g)
    (same : (F.own g.tables).messages = g.tables.messages) (established : post g.tables a (F.own g.tables)) :
    nonceTerms.Commit post F g a := by
  refine ⟨?_, ?_, fun x _ o n _ => ?_, established⟩
  · show ((F.own g.tables).messages.map _).Nodup
    rw [same]
    exact inv
  · show g.tables.messages <+: (F.own g.tables).messages
    rw [same]
  · rw [SecureTables.Used, SecureTables.Used, same]

section
variable [Signing] [PgLib] [PolicyLib]

theorem nonceTerms_commits {cfg F c} {a : SecureReply}
    (wrote : Wrote nonceTerms cfg F c a) : nonceTerms.Commits (fun s _ t => c.usesNonce s t) F a := by
  intro g inv known
  cases wrote with
  | @published _ _ now scope input _ _ sig id _ own _ held _ _ _ found =>
    have free : ¬g.tables.Used (scope.objectID, input.nonce) := by
      obtain ⟨_, _, clear, relied⟩ := (found g inv known).fresh
      intro used
      have used := (relied.part _ (mem_cons_of_mem _ mem_cons_self) _ _ rfl).mpr used
      obtain ⟨r, mem, same⟩ := List.mem_map.mp used
      exact (clear r mem).2 (Prod.mk.inj same)
    have after : (F.own g.tables).messages =
        g.tables.messages ++ [(input.message now scope.objectID).row id sig] := by
      rw [own]
      rfl
    refine ⟨?_, ?_, fun x mine o n is => ?_, _, after, rfl, rfl⟩
    · show ((F.own g.tables).messages.map _).Nodup
      rw [after, map_append, nodup_append']
      exact ⟨inv, nodup_singleton _, List.disjoint_singleton.mpr free⟩
    · show g.tables.messages <+: (F.own g.tables).messages
      rw [after]
      exact prefix_append _ _
    · rw [SecureTables.Used, SecureTables.Used, after, map_append, mem_append]
      refine (or_iff_left fun new => mine ?_).symm
      obtain ⟨topic, nonce⟩ := Prod.mk.inj (List.mem_singleton.mp new)
      rw [is, show o = scope.objectID from topic, show n = input.nonce from nonce]
      exact held (mem_cons_of_mem _ mem_cons_self)
  | consumed own =>
    obtain ⟨_, _, is⟩ := SecureTx.consumed_eq _ _ _ _ _ g.tables
    rw [← own] at is
    exact nonceTerms_commit inv (by rw [is]) trivial
  | gotPolicy own | gotKeys own | registered own | revoked own | policy own | attested own | verified own =>
    exact nonceTerms_commit inv (by rw [own]; rfl) trivial

def nonceContract (cfg : SecureConfig) : Database.Contract (SecureCall.transaction cfg) where
  toTerms := nonceTerms
  admits _ := True
  post c s _ t := c.usesNonce s t
  right c _ := Tx.wp_mono (fun _ _ => nonceTerms_commits) (transaction_wrote (fun _ _ inv => inv) cfg c)

variable {ι : Type} [DecidableEq ι] {cfg : SecureConfig} {tables : SecureTables} {events : List (Event ι SecureCall)}
  (new : tables.messages = [])
include new

omit [Signing] [PgLib] [PolicyLib] in
theorem nonces_start : nonceTerms.inv ⟨tables, fun _ => 0⟩ := by
  show (tables.messages.map _).Nodup
  rw [new]
  exact nodup_nil

theorem nonceKeys_at (n : Nat) : ((tablesAt cfg tables events n).messages.map fun r => (r.objectID, r.nonce)).Nodup :=
  (sound_before (nonceContract cfg) (nonces_start new)
    (guarded_of_shared (nonceContract cfg) (fun _ => rfl) (fun _ => trivial) tables events) n).inv

theorem tableNonces_at (n : Nat) (topic : String) :
    (((tablesAt cfg tables events n).topicMessages topic).map MessageRow.nonce).Nodup := by
  have own : ((tablesAt cfg tables events n).topicMessages topic).map (fun r => (r.objectID, r.nonce)) =
      (((tablesAt cfg tables events n).topicMessages topic).map MessageRow.nonce).map (Prod.mk topic) := by
    rw [map_map]
    refine map_congr_left fun r mem => ?_
    have topic : r.objectID = topic := by simpa using (List.mem_filter.mp mem).2
    rw [topic]
    rfl
  refine List.Nodup.of_map (Prod.mk topic) ?_
  rw [← own]
  exact (nonceKeys_at new n).sublist (List.filter_sublist.map _)

/-- What was stored under a nonce is there when another one comes to commit. -/
theorem not_replayed {n n' i i' orders orders' checked checked' now now' scope scope' input input' m m'} (lt : n < n')
    (ends : Database.Ends (SecureCall.transaction cfg) tables events n i (.publish orders checked now scope input) (.message m))
    (ends' : Database.Ends (SecureCall.transaction cfg) tables events n' i'
      (.publish orders' checked' now' scope' input') (.message m'))
    (topic : scope'.objectID = scope.objectID) : input'.nonce ≠ input.nonce := by
  have orderly := guarded_of_shared (nonceContract cfg) (fun _ => rfl) (fun _ => trivial) tables events
  obtain ⟨r, after, own, nonce⟩ := post_of_ends (nonceContract cfg) (nonces_start new) orderly ends
  obtain ⟨_, after', own', nonce'⟩ := post_of_ends (nonceContract cfg) (nonces_start new) orderly ends'
  have sound : ((tablesAt cfg tables events (n' + 1)).messages.map fun r => (r.objectID, r.nonce)).Nodup :=
    (sound_before (nonceContract cfg) (nonces_start new) orderly (n' + 1)).inv
  have kept := rel_between (nonceContract cfg) (nonces_start new) orderly (Nat.succ_le_of_lt lt)
  have stored : r ∈ (tablesAt cfg tables events n').messages := by
    refine kept.subset ?_
    rw [after]
    exact mem_append_right _ (mem_singleton_self r)
  intro same
  rw [after', map_append, nodup_append'] at sound
  refine sound.2.2 (mem_map_of_mem stored) (List.mem_singleton.mpr ?_)
  exact Prod.ext (own.trans (topic.symm.trans own'.symm)) (nonce.trans (same.symm.trans nonce'.symm))

end

section
variable [ServiceLib] [Signing] [PolicyLib] (cfg : SecureConfig) (store : Services) (events : List ServiceEvent)
  (topic : String)

/-- So far no two messages of the topic have one nonce, and no two publications of one
have stored a message. -/
structure NoReplay (n : Nat) : Prop where
  nonces : (((busAt cfg store events n).topics.messages topic).map SecureMessage.nonce).Nodup
  once : ∀ j k input input' m m', j < n → k < n → PublishesAt cfg store events topic j input m →
    PublishesAt cfg store events topic k input' m' → input.nonce = input'.nonce → j = k

end

section
variable [ServiceLib] [Signing] [PolicyLib] [PgLib] (cfg : SecureConfig)

/-- In memory there is no replay if and only if every publication came with a nonce that
no message of its topic had; in the tables there is none in any run. -/
theorem no_replay_iff :
    (∀ (kafka : Bool) (events : List ServiceEvent), DrawsKeys cfg (Services.new kafka) events → ∀ (topic : String) (n : Nat),
      NoReplay cfg (Services.new kafka) events topic n ↔
        ∀ k < n, ∀ input m, PublishesAt cfg (Services.new kafka) events topic k input m →
          ∀ m' ∈ (busAt cfg (Services.new kafka) events k).topics.messages topic, m'.nonce ≠ input.nonce) ∧
    ∀ (ι : Type) [DecidableEq ι] (tables : SecureTables) (events : List (Event ι SecureCall)), tables.messages = [] →
      (∀ topic n, (((tablesAt cfg tables events n).topicMessages topic).map MessageRow.nonce).Nodup) ∧
      ∀ n n' i i' orders orders' checked checked' now now' (scope scope' : Scope) input input' m m',
        Database.Ends (SecureCall.transaction cfg) tables events n i (.publish orders checked now scope input) (.message m) →
        Database.Ends (SecureCall.transaction cfg) tables events n' i' (.publish orders' checked' now' scope' input')
          (.message m') →
        scope.objectID = scope'.objectID → input.nonce = input'.nonce → i = i' := by
  constructor
  · intro kafka events draws topic n
    rw [← nonces_iff draws]
    refine ⟨NoReplay.nonces, fun nonces => ⟨nonces, fun j k input input' m m' jn kn hj hk same => ?_⟩⟩
    have published := publishedAt_iff.mpr ⟨input, hj⟩
    have published' := publishedAt_iff.mpr ⟨input', hk⟩
    have mem := (published_iff draws).mpr ⟨j, jn, published⟩
    have mem' := (published_iff draws).mpr ⟨k, kn, published'⟩
    obtain rfl := inj_on_of_nodup_map nonces mem mem' ((hj.nonce draws).trans (same.trans (hk.nonce draws).symm))
    exact published.unique draws published'
  · intro ι _ tables events new
    refine ⟨fun topic n => tableNonces_at new n topic, ?_⟩
    intro n n' i i' orders orders' checked checked' now now' scope scope' input input' m m' ends ends' topic same
    rcases Nat.lt_trichotomy n n' with lt | rfl | lt
    · exact absurd same.symm (not_replayed new lt ends ends' topic.symm)
    · have step := ends.event.symm.trans ends'.event
      cases step
      rfl
    · exact absurd same (not_replayed new lt ends' ends topic)

end

theorem ann_publishes_once :
    @NoReplay .plain .echo .sealed sampleConfig (.new false) (annCites "p") "t" 13 ↔
      ∀ k < 13, ∀ input m, @PublishesAt .plain .echo .sealed sampleConfig (.new false) (annCites "p") "t" k input m →
        ∀ m' ∈ (@busAt .plain .echo .sealed sampleConfig (.new false) (annCites "p") k).topics.messages "t",
          m'.nonce ≠ input.nonce :=
  (@no_replay_iff .plain .echo .sealed .plain sampleConfig).1 false (annCites "p") (by decide) "t" 13

def annReplayed : List ServiceEvent :=
  annCites "p" ++ CallID.alone (.object "bob" "t" 2)
    (.publish id 3 3 (secureScope "t") { samplePublication "n" "h" with policyHash := "p" }) 4

theorem ann_is_replayed :
    ((@busAt .plain .echo .sealed sampleConfig (.new false) annReplayed 18).topics.messages "t").map SecureMessage.nonce =
        ["n", "n"] ∧
      ¬@NoReplay .plain .echo .sealed sampleConfig (.new false) annReplayed "t" 18 := by
  have twice : ((@busAt .plain .echo .sealed sampleConfig (.new false) annReplayed 18).topics.messages "t").map
      SecureMessage.nonce = ["n", "n"] := by decide
  refine ⟨twice, fun none => ?_⟩
  have nodup := @NoReplay.nonces .plain .echo .sealed _ _ _ _ _ none
  rw [twice] at nodup
  revert nodup
  decide

end SynaMcp
