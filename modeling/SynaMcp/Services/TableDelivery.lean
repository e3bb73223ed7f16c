import SynaMcp.Services.TableSteps

/-! Deliveries from the tables happen at most once: a consumption locks its subscription
before it looks at the deliveries, and so does whoever writes them. -/
namespace SynaMcp
open Keyed Transactions Database SecureTx List

def deliveryTerms : SecureTerms where
  inv _ := True
  rel s t := ∀ d ∈ s.deliveries, d ∈ t.deliveries
  part x s t := ∀ objectID consumer, x = .inl (.subscription objectID consumer) →
    ∀ id, ⟨objectID, consumer, id⟩ ∈ s.deliveries ↔ ⟨objectID, consumer, id⟩ ∈ t.deliveries
  exclusive _ := false
  rel_refl _ _ mem := mem
  rel_trans h h' d mem := h' d (h d mem)
  part_refl _ _ _ _ _ _ := Iff.rfl
  part_trans h h' o c is id := (h o c is id).trans (h' o c is id)

def SecureCall.delivers : SecureCall → SecureTables → SecureReply → SecureTables → Prop
  | .consume _ scope consumer _ _ _, s, .messages out, t =>
    ∀ m ∈ out, ⟨scope.objectID, consumerName consumer, m.id⟩ ∉ s.deliveries ∧
      ⟨scope.objectID, consumerName consumer, m.id⟩ ∈ t.deliveries
  | _, _, _, _ => True

theorem deliveryTerms_commit {F g a}
    {post : SecureTables → SecureReply → SecureTables → Prop} (same : ∀ t, (F.own t).deliveries = t.deliveries)
    (established : ∀ s t, post s a t) : deliveryTerms.Commit post F g a := by
  refine ⟨trivial, fun d mem => ?_, fun x _ o c _ id => ?_, established _ _⟩
  · rw [same]
    exact mem
  · rw [same]

section
variable [Signing] [PgLib] (cfg : SecureConfig)

theorem deliveryTerms_commits [PolicyLib] {F c a}
    (wrote : Wrote deliveryTerms cfg F c a) : deliveryTerms.Commits c.delivers F a := by
  intro g inv known
  cases wrote with
  | consumed own held handed =>
    refine ⟨trivial, fun d mem => ?_, ?_, fun m mem => ⟨?_, ?_⟩⟩
    · rw [own, mem_consumed]
      exact .inr mem
    · rintro _ free o c rfl id
      rw [own, mem_consumed]
      refine ⟨.inr, fun h => h.elim (fun ⟨other, _, same⟩ => ?_) fun old => old⟩
      cases same
      exact absurd held free
    · obtain ⟨_, _, unseen, relied⟩ := (handed g inv known).new m mem
      rw [← relied.part _ mem_cons_self _ _ rfl m.id]
      simpa [SecureTables.delivered] using unseen
    · rw [own, mem_consumed]
      exact .inl ⟨m.id, mem_map_of_mem mem, rfl⟩
  | gotPolicy own | gotKeys own | registered own | revoked own | policy own | published own | attested own
  | verified own =>
    exact deliveryTerms_commit (fun t => by rw [own]; rfl) fun _ _ => trivial

def deliveryContract [PolicyLib] : Database.Contract (SecureCall.transaction cfg) where
  toTerms := deliveryTerms
  admits _ := True
  post := SecureCall.delivers
  right c _ := Tx.wp_mono (fun _ _ => deliveryTerms_commits cfg) (transaction_wrote (fun _ _ _ => trivial) cfg c)

/-- Whatever other calls do, and however their statements interleave: no message is
returned by two consumptions of one consumer that commit. -/
theorem table_deliveries_at_most_once [PolicyLib] {ι : Type} [DecidableEq ι] {tables : SecureTables}
    {events : List (Event ι SecureCall)} {n n' : Nat} {i i' : ι} {orders orders' : ConsumeOrders} {scope scope' : Scope}
    {consumer consumer' condition condition' : String} {adHoc adHoc' : Option JsonObject} {max max' : Int}
    {out out' : List SecureMessage} (other : i ≠ i') (topic : scope'.objectID = scope.objectID)
    (name : consumerName consumer' = consumerName consumer)
    (ends : Database.Ends (SecureCall.transaction cfg) tables events n i
      (.consume orders scope consumer condition adHoc max) (.messages out))
    (ends' : Database.Ends (SecureCall.transaction cfg) tables events n' i'
      (.consume orders' scope' consumer' condition' adHoc' max') (.messages out')) :
    ∀ m ∈ out, ∀ m' ∈ out', m.id ≠ m'.id := by
  have orderly := guarded_of_shared (deliveryContract cfg) (fun _ => rfl) (fun _ => trivial) tables events
  have post := post_of_ends (deliveryContract cfg) trivial orderly ends
  have post' := post_of_ends (deliveryContract cfg) trivial orderly ends'
  intro m mem m' mem' same
  obtain ⟨unseen, delivered⟩ := post m mem
  obtain ⟨unseen', delivered'⟩ := post' m' mem'
  rw [topic, name, ← same] at unseen' delivered'
  -- What one of them delivered is seen by the other, which commits later.
  rcases Nat.lt_trichotomy n n' with lt | rfl | lt
  · exact unseen' (rel_between (deliveryContract cfg) trivial orderly lt _ delivered)
  · have step := ends.event.symm.trans ends'.event
    cases step
    exact other rfl
  · exact unseen (rel_between (deliveryContract cfg) trivial orderly lt _ delivered')

end

def annTwice : SecureTables :=
  { annTables false with
    messages := [annRow 1 "n", annRow 2 "m"]
    events := [publication "t" sampleMessage 1 1, publication "t" sampleMessage 2 2] }

/-- Bob asks for one message twice at a time: the second call reads where the subscription
stands before the first one has moved it, and then waits for its lock. -/
def bobReadsTwice : List (Event Nat SecureCall) :=
  [.begin 1 bobReads, .step 1, .step 1, .step 1, .begin 2 bobReads, .step 2, .step 2, .step 2] ++
    replicate 9 (.step 1) ++ replicate 11 (.step 2)

theorem bob_reads_each_once :
    (@MessageRow.message .echo (annRow 1 "n")).id ≠ (@MessageRow.message .echo (annRow 2 "m")).id :=
  @table_deliveries_at_most_once .echo .plain sampleConfig .plain Nat _ annTwice bobReadsTwice 16 27 1 2
    _ _ _ _ _ _ _ _ _ _ _ _ _ _ (by decide) rfl rfl
    ⟨rfl, rfl, rfl, rfl⟩ ⟨rfl, rfl, rfl, rfl⟩ _ (mem_singleton_self _) _ (mem_singleton_self _)

end SynaMcp
