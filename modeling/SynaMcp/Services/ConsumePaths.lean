import Mathlib.Data.List.Find
import SynaMcp.Lib.Backlog
import SynaMcp.Services.TwoPaths

/-! Deliveries in memory and on the tables. In memory the cursor stops where the
delivery stops; on the tables it goes to the end of the events that were fetched. -/
namespace SynaMcp
open Keyed Sections Transactions Feeds SecureTables SecureTx Topics Tx Function GoMaps Option Table

namespace Condition

/-- Attestations under one agent name have one status. -/
def Consistent (l : List AttestationView) : Prop := ∀ v ∈ l, ∀ w ∈ l, v.agentName = w.agentName → v.status = w.status

theorem mem_latest {l row} (consistent : Consistent l) :
    row ∈ (latest l).rows ↔ ∃ v ∈ l, (v.agentName, v.status) = row := by
  induction l using List.reverseRecOn with
  | nil => simp [latest]
  | append_singleton l a ih =>
    have before := ih fun v mem w mem' => consistent v (List.mem_append_left _ mem) w (List.mem_append_left _ mem')
    rw [latest, List.foldl_append, List.foldl_cons, List.foldl_nil, ← latest, mem_put, before]
    constructor
    · rintro (rfl | ⟨⟨v, mem, rfl⟩, _⟩)
      · exact ⟨a, by simp, rfl⟩
      · exact ⟨v, by simp [mem], rfl⟩
    · rintro ⟨v, mem, rfl⟩
      by_cases same : v.agentName = a.agentName
      · exact .inl (Prod.ext same (consistent v mem a (by simp) same))
      · rcases List.mem_append.mp mem with mem | last
        · exact .inr ⟨⟨v, mem, rfl⟩, same⟩
        · exact absurd (congrArg AttestationView.agentName (List.mem_singleton.mp last)) same

section
variable {l l' : List AttestationView} (consistent : Consistent l) (perm : l.Perm l')
include consistent perm

theorem perm_latest : (latest l).rows.Perm (latest l').rows := by
  have consistent' : Consistent l' := fun v mem w mem' =>
    consistent v (perm.mem_iff.mpr mem) w (perm.mem_iff.mpr mem')
  refine (List.perm_ext_iff_of_nodup (.of_map _ (latest l).nodup) (.of_map _ (latest l').nodup)).mpr fun row => ?_
  simp only [mem_latest consistent, mem_latest consistent', perm.mem_iff]

theorem statusOf_perm (agent : String) : statusOf l agent = statusOf l' agent := by
  have same : (latest l).get? agent = (latest l').get? agent := by
    ext row
    rw [get?_eq_some_iff, get?_eq_some_iff, (perm_latest consistent perm).mem_iff]
  rw [statusOf, statusOf, same]

theorem matchCondition_perm (cond : Condition) (keyID name : String) :
    cond.matchCondition ⟨keyID, name, l⟩ = cond.matchCondition ⟨keyID, name, l'⟩ := by
  have rows := perm_latest consistent perm
  have denied : hasDeny l = hasDeny l' := rows.any_eq
  have counted : okCount l = okCount l' := (rows.filter _).length_eq
  simp only [matchCondition, denied, counted, statusOf_perm consistent perm]

end
end Condition

namespace Topics
variable {orders : Nat → Nat → Nat → Nat} {msgs : List SecureMessage} {attests : List Attestation} {doc : Document}
  {cond : Condition} {max n : Nat} {events : List SecureEvent} {c : Cursor} {wanted : Int → Bool}

def pending (last : Int) (events : List SecureEvent) : List SecureEvent := events.filter fun e => last < e.id

theorem pending_cons {last ev rest} (sorted : (ev :: rest).Pairwise fun a b => a.id < b.id) (new : last < ev.id) :
    pending last (ev :: rest) = ev :: pending ev.id rest := by
  have later := (List.pairwise_cons.mp sorted).1
  have all : pending ev.id rest = rest := List.filter_eq_self.mpr fun e mem => decide_eq_true (later e mem)
  rw [all]
  refine List.filter_eq_self.mpr fun e mem => ?_
  rcases List.mem_cons.mp mem with rfl | mem
  · exact decide_eq_true new
  · exact decide_eq_true (new.trans (later e mem))

theorem scan_due
    (uniform : ∀ k id, (findMsg msgs id).any (fun m => cond.matchCondition (messageView (orders k) attests doc m)) =
      wanted id) (sorted : events.Pairwise fun a b => a.id < b.id) (room : c.out.length < max) :
    (scan orders msgs attests doc cond max n events c).out.map SecureMessage.id = c.out.map SecureMessage.id ++
      (Backlog.due SecureEvent.messageID wanted c.delivered (pending c.last events)).take (max - c.out.length) := by
  fun_induction scan orders msgs attests doc cond max n events c with
  | case1 => simp [pending, Backlog.due]
  | case2 n head rest c skipped ih =>
    rw [ih (List.pairwise_cons.mp sorted).2 room, pending, pending, List.filter_cons_of_neg]
    simpa using skipped
  | case3 n head rest c new c' seen ih =>
    rw [ih (List.pairwise_cons.mp sorted).2 room, pending_cons sorted (not_le.mp new), Backlog.due_skip (.inl seen)]
  | case4 n head rest c new c' unseen missing ih =>
    have other : wanted head.messageID = false := by rw [← uniform 0, missing, any_none]
    rw [ih (List.pairwise_cons.mp sorted).2 room, pending_cons sorted (not_le.mp new), Backlog.due_skip (.inr other)]
  | case5 n head rest c new c' unseen msg found matching c'' full =>
    have wants : wanted head.messageID = true := by rw [← uniform n, found, any_some, matching]
    have length : c''.out.length = c.out.length + 1 := List.length_append
    have last : max - c.out.length = 1 := by omega
    rw [pending_cons sorted (not_le.mp new), Backlog.due_cons unseen wants, last, List.take_succ_cons, List.take_zero,
      List.map_append, ← findMsg_id found]
    rfl
  | case6 n head rest c new c' unseen msg found matching c'' more ih =>
    have wants : wanted head.messageID = true := by rw [← uniform n, found, any_some, matching]
    have named := findMsg_id found
    have length : c''.out.length = c.out.length + 1 := List.length_append
    have left : max - c.out.length = max - c''.out.length + 1 := by omega
    rw [ih (List.pairwise_cons.mp sorted).2 (not_le.mp more), pending_cons sorted (not_le.mp new),
      Backlog.due_cons unseen wants, left, List.take_succ_cons, List.map_append, List.append_assoc, ← named]
    rfl
  | case7 n head rest c new c' unseen msg found unmatched ih =>
    have other : wanted head.messageID = false := by
      rw [← uniform n, found, any_some]
      exact Bool.of_not_eq_true unmatched
    rw [ih (List.pairwise_cons.mp sorted).2 room, pending_cons sorted (not_le.mp new), Backlog.due_skip (.inr other)]

end Topics

namespace SecureTx
variable {topic consumer : String} {last : Int} {g : SecureWorld} {e : SecureEvent} {last' : Int} {ids : List Int}

theorem insertDelivery_eq (r : DeliveryRow) (t : SecureTables) :
    ∃ deliveries, t.insertDelivery r = { t with deliveries := deliveries } := deliverAll_eq r.objectID r.consumer [r.messageID] t

section
variable [Signing] {orders : ConsumeOrders} {doc : Document} {cond : Condition} {max : Nat} {wanted : Int → Bool}
  {given : List Int}

def Reads (orders : ConsumeOrders) (topic : String) (doc : Document) (cond : Condition) (wanted : Int → Bool)
    (t : SecureTables) : Prop :=
  ∀ n id, (t.findMessage topic id).any (fun row =>
    cond.matchCondition (t.messageView (orders.rows n) (orders.agents n) doc row.message topic)) = wanted id

theorem eval_deliverEvents (n : Nat) (evs : List SecureEvent) {out} (reads : Reads orders topic doc cond wanted g.tables)
    (held : ∀ id, g.tables.delivered topic consumer id = true ↔ id ∈ given) (room : out.length < max) :
    ∃ new : List SecureMessage, (deliverEvents orders topic consumer doc cond max n evs out).eval g =
        ({ g with tables := deliverAll topic consumer (new.map SecureMessage.id) g.tables }, .ok (out ++ new)) ∧
      new.map SecureMessage.id = (Backlog.due SecureEvent.messageID wanted given evs).take (max - out.length) := by
  induction evs generalizing n g out given with
  | nil => exact ⟨[], by rw [List.append_nil]; rfl, by simp [Backlog.due]⟩
  | cons ev rest ih =>
    simp only [deliverEvents, eval_bind, eval_query]
    by_cases old : g.tables.delivered topic consumer ev.messageID = true
    · rw [if_pos old, Backlog.due_skip (.inl ((held _).mp old))]
      exact ih (n + 1) reads held room
    · have new : ev.messageID ∉ given := fun mem => old ((held _).mpr mem)
      have good := reads n ev.messageID
      simp only [if_neg old, eval_bind, eval_query]
      cases found : g.tables.findMessage topic ev.messageID with
      | none =>
        rw [found, any_none] at good
        rw [Backlog.due_skip (.inr good.symm)]
        exact ih (n + 1) reads held room
      | some row =>
        rw [found, any_some] at good
        simp only [eval_bind, eval_query, good]
        cases wants : wanted ev.messageID with
        | false =>
          rw [Backlog.due_skip (.inr wants)]
          exact ih (n + 1) reads held room
        | true =>
          have named := findMessage_id found
          have length : (out ++ [row.message]).length = out.length + 1 := List.length_append
          simp only [if_true, eval_bind, eval_acquire, eval_change]
          rw [Backlog.due_cons new wants]
          by_cases full : max ≤ (out ++ [row.message]).length
          · have last : max - out.length = 1 := by omega
            rw [if_pos full, last]
            exact ⟨[row.message], rfl, by rw [← named]; rfl⟩
          · have left : max - out.length = max - (out ++ [row.message]).length + 1 := by omega
            obtain ⟨_, is⟩ := insertDelivery_eq ⟨topic, consumer, row.id⟩ g.tables
            have held' : ∀ id, (g.tables.insertDelivery ⟨topic, consumer, row.id⟩).delivered topic consumer id = true ↔
                id ∈ ev.messageID :: given := by
              intro id
              rw [← Bool.not_eq_false, delivered_insertDelivery, named, List.mem_cons, ← held, ← Bool.not_eq_false]
              tauto
            have reads' : Reads orders topic doc cond wanted (g.tables.insertDelivery ⟨topic, consumer, row.id⟩) := by
              rw [is]
              exact reads
            obtain ⟨more, done, ids⟩ := ih (n + 1)
              (g := { g with tables := g.tables.insertDelivery ⟨topic, consumer, row.id⟩ }) reads' held' (not_le.mp full)
            rw [if_neg full, left]
            refine ⟨row.message :: more, ?_, ?_⟩
            · rw [List.append_assoc] at done
              exact done
            · rw [List.map_cons, ids, List.take_succ_cons, ← named]
              rfl

end

theorem maxSeen_cons (last : Int) (ev : SecureEvent) (rest : List SecureEvent) :
    maxSeen last (ev :: rest) = maxSeen (max last ev.id) rest := by
  rw [max_def_lt]
  rfl

theorem maxSeen_cases (last : Int) (evs : List SecureEvent) :
    maxSeen last evs = last ∨ ∃ e ∈ evs, maxSeen last evs = e.id := by
  induction evs generalizing last with
  | nil => exact .inl rfl
  | cons ev rest ih =>
    rw [maxSeen_cons]
    rcases ih (max last ev.id) with same | ⟨e, mem, same⟩
    · rcases max_choice last ev.id with first | second
      · exact .inl (same.trans first)
      · exact .inr ⟨ev, List.mem_cons_self, same.trans second⟩
    · exact .inr ⟨e, List.mem_cons_of_mem ev mem, same⟩

def fetched (topic : String) (last : Int) (max : Nat) (t : SecureTables) : List SecureEvent :=
  match fetchLimit max with
  | some limit => t.eventsAfter topic last limit
  | none => []

theorem mem_of_mem_fetched {max t} (mem : e ∈ fetched topic last max t) : e ∈ t.events := by
  unfold fetched at mem
  split at mem
  · exact (List.mem_filter.mp ((List.mem_insertionSort _).mp (List.mem_of_mem_take mem))).1
  · cases mem

theorem orTen_pos (max : Int) : 0 < orTen max := by
  unfold orTen
  split <;> omega

theorem fetched_or_later {max t} (distinct : (t.events.map SecureEvent.id).Nodup)
    (mem : e ∈ t.events) (own : e.objectID = topic) (new : last < e.id) :
    e ∈ fetched topic last max t ∨ maxSeen last (fetched topic last max t) < e.id := by
  unfold fetched
  split
  · next limit _ =>
    rw [eventsAfter]
    generalize ordered : (t.events.filter fun e => e.objectID = topic ∧ last < e.id).insertionSort (fun a b => a.id ≤ b.id) =
      evs
    have perm : evs.Perm (t.events.filter fun e => e.objectID = topic ∧ last < e.id) := by
      rw [← ordered]
      exact List.perm_insertionSort _ _
    have apart : (evs.map SecureEvent.id).Nodup :=
      (perm.map _).nodup_iff.mpr (distinct.sublist (List.filter_sublist.map _))
    have sorted : evs.Pairwise fun a b => a.id ≤ b.id := by
      rw [← ordered]
      exact List.pairwise_insertionSort _ _
    have here : e ∈ evs := perm.mem_iff.mpr (List.mem_filter.mpr ⟨mem, decide_eq_true ⟨own, new⟩⟩)
    rw [← List.take_append_drop limit evs, List.mem_append] at here
    refine here.imp_right fun beyond => ?_
    rcases maxSeen_cases last (evs.take limit) with same | ⟨first, before, same⟩
    · rw [same]
      exact new
    · rw [same]
      have strict := sorted.and (List.pairwise_map.mp apart)
      rw [← List.take_append_drop limit evs, List.pairwise_append] at strict
      obtain ⟨below, differs⟩ := strict.2.2 first before e beyond
      exact lt_of_le_of_ne below differs
  · exact .inr new

theorem delivered_consumed {t} (name : String) (id : Int) :
    (consumed topic consumer last last' ids t).delivered topic name id = true ↔
      (name = consumer ∧ id ∈ ids) ∨ t.delivered topic name id = true := by
  simp only [SecureTables.delivered, List.contains_eq_mem, decide_eq_true_eq, mem_consumed, DeliveryRow.mk.injEq, true_and]
  refine or_congr_left ⟨?_, ?_⟩
  · rintro ⟨_, mem, rfl, rfl⟩
    exact ⟨rfl, mem⟩
  · rintro ⟨rfl, mem⟩
    exact ⟨id, mem, rfl, rfl⟩

theorem subscriptions_consumed {t} : (consumed topic consumer last last' ids t).subscriptions =
      ((t.subscribe topic consumer last).subscriptions.mapRows (.movedIf (topic, consumer) last')
        SubscriptionRow.key_movedIf) := by
  obtain ⟨_, is⟩ := deliverAll_eq topic consumer ids (t.subscribe topic consumer last)
  rw [consumed, is]
  rfl

theorem lastEventID_consumed {t} (name : String) : (consumed topic consumer last last' ids t).lastEventID topic name =
      if name = consumer then last' else t.lastEventID topic name := by
  rw [SecureTables.lastEventID, subscriptions_consumed, get?_mapRows]
  by_cases same : name = consumer
  · subst same
    have has : (t.subscribe topic name last).subscriptions.Has (topic, name) := by
      unfold subscribe
      split
      · assumption
      · exact Table.has_put.mpr (.inl rfl)
    obtain ⟨_, mem, key⟩ := has
    rw [if_pos rfl, get?_eq_some_iff.mpr ⟨mem, key⟩]
    simp only [map_some, getD_some, SubscriptionRow.movedIf, if_pos key]
  · have other : (t.subscribe topic consumer last).subscriptions.get? (topic, name) = t.subscriptions.get? (topic, name) := by
      unfold subscribe
      split
      · rfl
      · refine get?_put_of_ne _ fun equal => same ?_
        exact (Prod.mk.inj equal).2.symm
    rw [if_neg same, other, SecureTables.lastEventID]
    cases found : t.subscriptions.get? (topic, name) with
    | none => rfl
    | some row =>
      have key := (get?_eq_some_iff.mp found).2
      have differs : row.key ≠ (topic, consumer) := fun equal => same (Prod.mk.inj (key.symm.trans equal)).2
      simp only [map_some, getD_some, SubscriptionRow.movedIf, if_neg differs]

theorem eval_fetch {max} : (fetch topic last max).eval g = (g, match fetchLimit max with
    | some limit => .ok (g.tables.eventsAfter topic last limit)
    | none => .error errAborted) := by
  simp only [fetch, eval_bind, expect, eval_ofExcept]
  cases fetchLimit max <;> rfl

theorem events_subscribe {t : SecureTables} : (t.subscribe topic consumer last).events = t.events := by
  unfold subscribe
  split <;> rfl

theorem eventsAfter_subscribe {t : SecureTables} (after : Int) (limit : Nat) :
    (t.subscribe topic consumer last).eventsAfter topic after limit = t.eventsAfter topic after limit := by
  rw [eventsAfter, events_subscribe, eventsAfter]

section
variable [Signing] [PolicyLib] {orders : ConsumeOrders} {scope : Scope} {condition : String} {adHoc : Option JsonObject}
  {max : Int} {pol : SignedPolicy} {cond : Condition} {wanted : Int → Bool} {given : List Int}
  (kind : scope.kind = .securebus) (current : (currentPolicy orders.policy scope.objectID).eval g = (g, .ok pol))
  (resolved : resolveCondition pol.document condition adHoc = .ok cond)
include kind current resolved

theorem exec_consume_aborted (limit : fetchLimit (orTen max) = none) :
    (consume orders scope consumer condition adHoc max).exec g = (g, .error errAborted) := by
  have failed : ∃ t, (consume orders scope consumer condition adHoc max).eval g = ({ g with tables := t }, .error errAborted) := by
    refine ⟨g.tables.subscribe scope.objectID (consumerName consumer)
      (g.tables.lastEventID scope.objectID (consumerName consumer)), ?_⟩
    simp only [consume, eval_bind, require, eval_ofExcept, if_pos kind, current, resolved, eval_query,
      eval_acquire, eval_change, eval_fetch, limit]
  obtain ⟨_, failed⟩ := failed
  rw [exec, failed]

theorem exec_consume_ok {limit : Nat} (some : fetchLimit (orTen max) = some limit)
    (reads : Reads orders scope.objectID pol.document cond wanted g.tables)
    (held : ∀ id, g.tables.delivered scope.objectID (consumerName consumer) id = true ↔ id ∈ given) :
    ∃ new : List SecureMessage,
      let last := g.tables.lastEventID scope.objectID (consumerName consumer)
      let evs := g.tables.eventsAfter scope.objectID last limit
      (consume orders scope consumer condition adHoc max).exec g =
        ({ g with
            tables := consumed scope.objectID (consumerName consumer) last (maxSeen last evs) (new.map SecureMessage.id)
              g.tables }, .ok new) ∧
      new.map SecureMessage.id = (Backlog.due SecureEvent.messageID wanted given evs).take (orTen max) := by
  have room : ([] : List SecureMessage).length < orTen max := orTen_pos max
  generalize name : consumerName consumer = K at *
  generalize start : g.tables.lastEventID scope.objectID K = last
  have reads' : Reads orders scope.objectID pol.document cond wanted (g.tables.subscribe scope.objectID K last) := by
    unfold subscribe
    split
    · exact reads
    · exact reads
  have held' : ∀ id, (g.tables.subscribe scope.objectID K last).delivered scope.objectID K id = true ↔ id ∈ given := by
    intro id
    rw [SecureTables.delivered, SecureTables.deliveries_subscribe]
    exact held id
  obtain ⟨new, done, ids⟩ := eval_deliverEvents 0 (g.tables.eventsAfter scope.objectID last limit)
    (g := { g with tables := g.tables.subscribe scope.objectID K last }) reads' held' room
  refine ⟨new, exec_ok ?_, ids⟩
  simp only [consume, eval_bind, require, eval_ofExcept, if_pos kind, current, resolved, eval_query,
    eval_acquire, eval_change, eval_fetch, some, name, start, eventsAfter_subscribe, done, eval_pure]
  rfl

end
end SecureTx

/-! The view of a message on the tables, whose rows come in no order, and in memory. -/

theorem mapIdx_const {α β : Type} (f : α → β) (l : List α) : l.mapIdx (fun _ a => f a) = l.map f := by
  calc l.mapIdx (fun _ a => f a) = (l.zipIdx.map Prod.fst).map f := by rw [List.mapIdx_eq_zipIdx_map, List.map_map]; rfl
    _ = l.map f := by rw [List.zipIdx_map_fst]

theorem Document.agentNameForKey_inj {doc : Document} {order order' keyID keyID' name}
    (h : doc.agentNameForKey order keyID = some name) (h' : doc.agentNameForKey order' keyID' = some name) :
    keyID = keyID' := by
  obtain ⟨a, found, rfl⟩ := Option.map_eq_some_iff.mp h
  obtain ⟨b, found', same⟩ := Option.map_eq_some_iff.mp h'
  have equal : a = b := eq_of_key_eq (GoMaps.mem_range.mp (List.mem_of_find?_eq_some found))
    (GoMaps.mem_range.mp (List.mem_of_find?_eq_some found')) same.symm
  have key : a.2.keyID = keyID := by simpa using List.find?_some found
  have key' : b.2.keyID = keyID' := by simpa using List.find?_some found'
  rw [← key, ← key', equal]

theorem Topics.Formed.nodup_standing {s : Topics} {topic} (h : s.Formed topic) (messageID : Int) :
    (((s.attests topic).filter fun a => a.messageID = messageID ∧ a.supersededAt = none).map
      Attestation.signerKeyID).Nodup := by
  rw [List.nodup_iff_count_le_one]
  intro keyID
  have own : ((s.attests topic).filter fun a => a.messageID = messageID ∧ a.supersededAt = none).filter
      (fun a => a.signerKeyID == keyID) = (s.attestsBy topic messageID keyID).filter fun a => a.supersededAt = none := by
    rw [attestsBy, List.filter_filter, List.filter_filter]
    refine List.filter_congr fun a _ => ?_
    rw [beq_eq_decide, ← Bool.decide_and, ← Bool.decide_and, decide_eq_decide]
    tauto
  rw [List.count_eq_length_filter, List.filter_map, List.length_map]
  refine (congrArg List.length (own.trans (h.standing messageID keyID))).trans_le ?_
  cases (s.attestsBy topic messageID keyID).getLast? <;> simp

section
variable [Signing] [PgLib] {t : SecureTables} {topic : String}

theorem SecureTables.findMessage_stored {msgs}
    (messages : t.messages = msgs.map SecureMessage.stored) (own : ∀ m ∈ msgs, m.objectID = topic) (messageID : Int) :
    t.findMessage topic messageID = (findMsg msgs messageID).map SecureMessage.stored := by
  rw [findMessage, messages, List.find?_map, findMsg]
  refine congrArg _ (List.find?_congr fun m mem => ?_)
  have mine : m.stored.objectID = topic := own m mem
  simp only [comp_apply, mine, true_and]
  rfl

theorem SecureTables.standing_stored {attests : List Attestation}
    (rows : t.attestations = attests.map Attestation.stored) (own : ∀ a ∈ attests, a.objectID = topic) (messageID : Int) :
    ((t.attestationsOf topic messageID).filter fun r => r.supersededAt = none) =
      (attests.filter fun a => a.messageID = messageID ∧ a.supersededAt = none).map Attestation.stored := by
  rw [attestationsOf, rows, List.filter_filter, List.filter_map]
  refine congrArg _ (List.filter_congr fun a mem => ?_)
  have mine : a.stored.objectID = topic := own a mem
  have stands : a.stored.supersededAt = none ↔ a.supersededAt = none := map_eq_none_iff
  rw [comp_apply, ← Bool.decide_and, decide_eq_decide, mine, stands, and_comm, eq_self_iff_true, true_and]
  rfl

theorem SecureTables.matchCondition_stored {s : Topics} {doc}
    (distinct : (doc.agents.rows.map fun a => a.2.keyID).Nodup) (formed : s.Formed topic)
    (rows : t.attestations = (s.attests topic).map Attestation.stored)
    (known : ∀ a ∈ s.attests topic, a.objectID = topic ∧ (doc.agentNameForKey id a.signerKeyID).isSome)
    (order : Nat → Nat) (orders orders' : Nat → Nat → Nat) (cond : Condition) (m : SecureMessage) :
    cond.matchCondition (t.messageView order orders doc m.stored.message topic) =
      cond.matchCondition (Topics.messageView orders' (s.attests topic) doc m) := by
  let standing := (s.attests topic).filter fun a => a.messageID = m.id ∧ a.supersededAt = none
  let view (signerKeyID status : String) : AttestationView :=
    { agentName := (doc.agentNameForKey id signerKeyID).getD "", keyID := signerKeyID, status := status }
  let author := (doc.agentNameForKey id m.authorKeyID).getD ""
  have memory : Topics.messageView orders' (s.attests topic) doc m =
      ⟨m.authorKeyID, author, standing.map fun a => view a.signerKeyID a.status⟩ := by
    simp only [Topics.messageView, Document.agentNameForKey_order distinct, mapIdx_const, view, standing, author]
  have tables : t.messageView order orders doc m.stored.message topic = ⟨m.authorKeyID, author,
      (range order (standing.map Attestation.stored)).map fun r => view r.signerKeyID r.status⟩ := by
    have stands : ((t.attestationsOf topic m.id).filter fun r => r.supersededAt = none) = standing.map Attestation.stored :=
      standing_stored rows (fun a mem => (known a mem).1) m.id
    simp only [messageView, Document.agentNameForKey_order distinct, mapIdx_const, view, ← stands, author]
    rfl
  have perm : (standing.map fun a => view a.signerKeyID a.status).Perm
      ((range order (standing.map Attestation.stored)).map fun r => view r.signerKeyID r.status) := by
    refine List.Perm.trans (.of_eq ?_) ((range_perm order (standing.map Attestation.stored)).symm.map _)
    rw [List.map_map]
    rfl
  have names : ((standing.map fun a => view a.signerKeyID a.status).map AttestationView.agentName).Nodup := by
    rw [List.map_map]
    refine List.Nodup.map_on (fun a mem b mem' same => ?_) (List.Nodup.of_map _ (formed.nodup_standing m.id))
    obtain ⟨name, named⟩ := Option.isSome_iff_exists.mp (known a (List.mem_of_mem_filter mem)).2
    obtain ⟨name', named'⟩ := Option.isSome_iff_exists.mp (known b (List.mem_of_mem_filter mem')).2
    have equal : name = name' := by simpa only [comp_apply, view, named, named', getD_some] using same
    have signer := Document.agentNameForKey_inj named (equal ▸ named')
    exact List.inj_on_of_nodup_map (formed.nodup_standing m.id) mem mem' signer
  rw [memory, tables]
  have consistent : Condition.Consistent (standing.map fun a => view a.signerKeyID a.status) :=
    fun v mem w mem' same => congrArg AttestationView.status (List.inj_on_of_nodup_map names mem mem' same)
  exact (Condition.matchCondition_perm consistent perm cond m.authorKeyID author).symm

end

namespace TopicSetup
variable [Signing] (T : TopicSetup)

def wanted (s : SecureBus) (cond : Condition) (messageID : Int) : Bool :=
  (findMsg (s.topics.messages T.topic) messageID).any fun m =>
    cond.matchCondition (Topics.messageView (fun _ n => n) (s.topics.attests T.topic) T.doc m)

variable (p : Paths) (consumer : String)

def due (cond : Condition) (events : List SecureEvent) : List Int :=
  Backlog.due SecureEvent.messageID (T.wanted p.bus cond) (p.bus.topics.delivered T.topic consumer) events

def unread : List SecureEvent :=
  pending (p.bus.topics.lastEventID T.topic consumer) (p.bus.topics.events T.topic)

def fetched (max : Nat) : List SecureEvent :=
  SecureTx.fetched T.topic (p.world.tables.lastEventID T.topic consumer) max p.world.tables

def passed (max : Nat) : Int :=
  SecureTx.maxSeen (p.world.tables.lastEventID T.topic consumer) (T.fetched p consumer max)

variable {T} {s : SecureBus} {g : SecureWorld} [PolicyLib]

theorem exec_consume (stands : T.Stands s g) (order : Nat → Nat → Nat → Nat) (consumer : String) (max : Int) :
    (T.consumeMemory order consumer max).run.exec s = match T.condition (consumerName consumer) with
      | .error e => (s, .error e)
      | .ok cond =>
        ({ s with topics := (deliver order T.topic (consumerName consumer) T.doc cond (orTen max) s.topics).1 },
          (deliver order T.topic (consumerName consumer) T.doc cond (orTen max) s.topics).2) := by
  have resolved : resolveCondition T.signed.document (T.filters (consumerName consumer)).1 (T.filters (consumerName consumer)).2 =
      T.condition (consumerName consumer) := rfl
  rw [consumeMemory, SecureBus.consume, Try.require_pos T.kind, Try.exec_bind (exec_currentPolicy stands.policies),
    Try.exec_bind_eq, Try.exec_ofExcept, resolved]
  cases T.condition (consumerName consumer) with
  | error e | ok cond => rfl

structure Consumes (T : TopicSetup) (consumer : String) (last : Int) (batch : List Int) (g g' : SecureWorld) : Prop where
  others : ∃ subscriptions deliveries,
    g' = { g with tables := { g.tables with subscriptions := subscriptions, deliveries := deliveries } }
  delivered : ∀ name messageID, g'.tables.delivered T.topic name messageID = true ↔
    (name = consumer ∧ messageID ∈ batch) ∨ g.tables.delivered T.topic name messageID = true
  cursor : ∀ name, g'.tables.lastEventID T.topic name =
    if name = consumer then last else g.tables.lastEventID T.topic name

variable [PgLib] {p : Paths}

theorem exec_consume_error (stands : T.Stands s g) {consumer e}
    (unresolved : T.condition (consumerName consumer) = .error e) (orders : ConsumeOrders) (max : Int) :
    (T.consumeTables orders consumer max).exec g = (g, .error e) := by
  have current := eval_currentPolicy stands.policyRows orders.policy
  have resolved : resolveCondition T.policy.signed.document (T.filters (consumerName consumer)).1
      (T.filters (consumerName consumer)).2 = .error e := unresolved
  rw [topic] at current
  refine exec_error ?_
  simp only [consumeTables, consume, eval_bind, require, eval_ofExcept, if_pos T.kind, current, resolved]

theorem exec_consumeTables (stands : T.Stands p.bus p.world) {consumer cond}
    (resolved : T.condition (consumerName consumer) = .ok cond) (orders : ConsumeOrders) (max : Int)
    (reads : SecureTx.Reads orders T.topic T.doc cond (T.wanted p.bus cond) p.world.tables)
    (held : ∀ messageID, p.world.tables.delivered T.topic (consumerName consumer) messageID = true ↔
      messageID ∈ p.bus.topics.delivered T.topic (consumerName consumer)) :
    ∃ g' r, (T.consumeTables orders consumer max).exec p.world = (g', r) ∧
      T.Consumes (consumerName consumer) (T.passed p (consumerName consumer) (orTen max))
        ((T.due p (consumerName consumer) cond (T.fetched p (consumerName consumer) (orTen max))).take (orTen max)) p.world g' ∧
      ∀ out, r = .ok out → out.map SecureMessage.id =
        (T.due p (consumerName consumer) cond (T.fetched p (consumerName consumer) (orTen max))).take (orTen max) := by
  have current := eval_currentPolicy stands.policyRows orders.policy
  cases limit : fetchLimit (orTen max) with
  | none =>
    have empty : T.fetched p (consumerName consumer) (orTen max) = [] := by rw [fetched, SecureTx.fetched, limit]
    have still : T.passed p (consumerName consumer) (orTen max) =
        p.world.tables.lastEventID T.topic (consumerName consumer) := by rw [passed, empty]; rfl
    rw [empty, still]
    refine ⟨p.world, .error errAborted, exec_consume_aborted T.kind current resolved limit,
      ⟨⟨_, _, rfl⟩, fun name messageID => ?_, fun name => ?_⟩, fun out ok => by cases ok⟩
    · simp [due, Backlog.due]
    · split
      · next same => rw [same]
      · rfl
  | some rows =>
    have some : T.fetched p (consumerName consumer) (orTen max) = p.world.tables.eventsAfter T.topic
        (p.world.tables.lastEventID T.topic (consumerName consumer)) rows := by rw [fetched, SecureTx.fetched, limit]
    obtain ⟨_, done, ids⟩ := SecureTx.exec_consume_ok T.kind current resolved limit reads held
    rw [passed, some, due]
    refine ⟨_, _, done, ⟨?_, fun name messageID => ?_, fun name => ?_⟩, fun out ok => ?_⟩
    · obtain ⟨subscriptions, deliveries, is⟩ := consumed_eq T.scope.objectID (consumerName consumer) _ _ _ _
      exact ⟨subscriptions, deliveries, by rw [is]⟩
    · refine (delivered_consumed name messageID).trans ?_
      rw [ids]
      rfl
    · exact lastEventID_consumed name
    · cases ok
      exact ids

end TopicSetup
end SynaMcp
