import SynaMcp.Services.ConsumePaths
import SynaMcp.Services.Enforcement

/-! What the agents map of a policy has to be like for decisions not to depend on its
order, and for thresholds to count the agents of the policy. -/
namespace SynaMcp
open Topics Condition List

/-- The decisions of a document are the same in every order of its agents exactly where no
two agents share a key. -/
theorem decisions_ignore_map_order_iff (d : Document) :
    ((∀ order order' key, d.agentNameForKey order key = d.agentNameForKey order' key) ∧
      (∀ order order' rule key, d.allows order rule key = d.allows order' rule key) ∧
      ∀ orders orders' attests msg (cond : Condition), cond.matchCondition (messageView orders attests d msg) =
        cond.matchCondition (messageView orders' attests d msg)) ↔
      (d.agents.rows.map fun a => a.2.keyID).Nodup := by
  constructor
  · rintro ⟨names, -, -⟩
    refine List.Nodup.map_on (fun a mem b mem' same => ?_) (.of_map _ d.agents.nodup)
    have first : ∀ x ∈ d.agents.rows, ∃ order, d.agentNameForKey order x.2.keyID = some x.1 := by
      intro x mem
      obtain ⟨order, ranged⟩ := GoMaps.exists_range (perm_cons_erase mem).symm
      exact ⟨order, by simp [Document.agentNameForKey, ranged]⟩
    obtain ⟨order, named⟩ := first a mem
    obtain ⟨order', named'⟩ := first b mem'
    rw [same, names order order', named'] at named
    exact Keyed.Table.eq_of_key_eq mem mem' (Option.some.inj named).symm
  · intro distinct
    refine ⟨fun order order' key => ?_, fun order order' rule key => ?_, fun orders orders' attests msg cond => ?_⟩
    · rw [Document.agentNameForKey_order distinct, Document.agentNameForKey_order distinct]
    · rw [Document.allows, Document.allows, Document.agentNameForKey_order distinct, Document.agentNameForKey_order distinct]
    · rw [messageView_order distinct orders orders']

def sharedKey : Document where
  schema := policySchemaID
  topicID := "t"
  version := 1
  issuedAt := "now"
  agents := (Keyed.Table.put .empty ("a", ⟨"k", "ed25519", "p"⟩)).put ("b", ⟨"k", "ed25519", "p"⟩)
  rules := { publish := ["a"] }
  conditions := .empty

/-- A document with one key for two agents is accepted, and whether the key may publish
depends on the order. -/
theorem shared_key_is_accepted : @Document.validateDocument .echo id id sharedKey = .ok () ∧
    sharedKey.allows (fun _ => 0) .publish "k" = false ∧ sharedKey.allows (fun _ => 1) .publish "k" = true := by
  decide

/-! Thresholds. -/

def Document.hasKey (d : Document) (keyID : String) : Bool := d.agents.rows.any fun a => a.2.keyID = keyID

/-- A threshold is met by agents of the document, a denial is one of theirs, and the
attestations may be read in any order. -/
structure CountsAgents (d : Document) (m : MessageView) : Prop where
  minOk : ∀ cond : Condition, cond.anyDeny ≠ some true → cond.matchCondition m = true →
    cond.minOk ≤ ((m.attestations.filter fun v => v.status = "ok" ∧ d.hasKey v.keyID).map AttestationView.keyID).dedup.length
  anyDeny : hasDeny m.attestations = true ↔ ∃ v ∈ m.attestations, v.status = "deny" ∧ d.hasKey v.keyID = true
  order : ∀ (cond : Condition) l, m.attestations.Perm l →
    cond.matchCondition m = cond.matchCondition { m with attestations := l }

/-- No key that is not in the document says `ok`, one of them says `deny` only where an agent
does too, and all of them say the same. -/
def OthersAgree (d : Document) (m : MessageView) : Prop :=
  ∀ v ∈ m.attestations, d.hasKey v.keyID = false → v.status ≠ "ok" ∧
    (v.status = "deny" → ∃ w ∈ m.attestations, w.status = "deny" ∧ d.hasKey w.keyID = true) ∧
    ∀ w ∈ m.attestations, d.hasKey w.keyID = false → w.status = v.status

/-- Attestations as they are read: with the agents' names, and none for other keys. -/
structure ReadBy (d : Document) (l : List AttestationView) : Prop where
  name : ∀ v ∈ l, v.agentName = "" ↔ d.hasKey v.keyID = false
  key : ∀ v ∈ l, ∀ w ∈ l, d.hasKey v.keyID = true → v.agentName = w.agentName → v.keyID = w.keyID
  nodup : (l.map AttestationView.keyID).Nodup

section
variable {d : Document} {m : MessageView} (h : ReadBy d m.attestations)
include h

theorem consistent_of_agree (agree : ∀ v ∈ m.attestations, d.hasKey v.keyID = false →
    ∀ w ∈ m.attestations, d.hasKey w.keyID = false → w.status = v.status) : Consistent m.attestations := by
  intro v mem w mem' same
  cases known : d.hasKey v.keyID with
  | true => rw [inj_on_of_nodup_map h.nodup mem mem' (h.key v mem w mem' known same)]
  | false =>
    have unknown := (h.name v mem).mpr known
    exact agree w mem' ((h.name w mem').mp (same ▸ unknown)) v mem known

/-- Every agent that says `ok` is counted once, and the other keys that say it once more. -/
theorem okCount_le_iff (consistent : Consistent m.attestations) : okCount m.attestations ≤
      ((m.attestations.filter fun v => v.status = "ok" ∧ d.hasKey v.keyID).map AttestationView.keyID).dedup.length ↔
    ∀ v ∈ m.attestations, d.hasKey v.keyID = false → v.status ≠ "ok" := by
  have own : ∀ {w}, w ∈ m.attestations.filter (fun v => v.status = "ok" ∧ d.hasKey v.keyID) ↔
      w ∈ m.attestations ∧ w.status = "ok" ∧ d.hasKey w.keyID = true := by simp
  have nodup := (List.Nodup.of_map _ h.nodup).filter fun v => decide (v.status = "ok" ∧ d.hasKey v.keyID)
  rw [(h.nodup.sublist (List.filter_sublist.map _)).dedup, length_map]
  generalize m.attestations.filter (fun v => decide (v.status = "ok" ∧ d.hasKey v.keyID)) = agents at own nodup ⊢
  have distinct : (agents.map AttestationView.agentName).Nodup := by
    refine List.Nodup.map_on (fun v mem w mem' same => ?_) nodup
    obtain ⟨mem, _, known⟩ := own.mp mem
    exact inj_on_of_nodup_map h.nodup mem (own.mp mem').1 (h.key v mem w (own.mp mem').1 known same)
  have counted : ∀ {name}, name ∈ ((latest m.attestations).rows.filter fun a => a.2 = "ok").map Prod.fst ↔
      ∃ v ∈ m.attestations, v.status = "ok" ∧ v.agentName = name := by
    simp [mem_latest consistent, and_comm]
  rw [okCount, ← length_map Prod.fst, ← length_map AttestationView.agentName]
  constructor
  · intro bound v mem unknown ok
    have unnamed : "" ∉ agents.map AttestationView.agentName := by
      intro empty
      obtain ⟨w, agent, empty⟩ := List.mem_map.mp empty
      obtain ⟨mem, _, known⟩ := own.mp agent
      exact Bool.false_ne_true (((h.name w mem).mp empty).symm.trans known)
    have named : agents.map AttestationView.agentName ⊆ _ := fun name said => by
      obtain ⟨w, agent, rfl⟩ := List.mem_map.mp said
      obtain ⟨mem, ok, _⟩ := own.mp agent
      exact counted.mpr ⟨w, mem, ok, rfl⟩
    have more := (subperm_of_subset (List.nodup_cons.mpr ⟨unnamed, distinct⟩)
      (List.cons_subset.mpr ⟨counted.mpr ⟨v, mem, ok, (h.name v mem).mpr unknown⟩, named⟩)).length_le
    exact absurd (more.trans bound) (Nat.not_succ_le_self _)
  · intro none
    refine (subperm_of_subset (Keyed.Table.nodup_filter (latest m.attestations).nodup _) fun name said => ?_).length_le
    obtain ⟨v, mem, ok, rfl⟩ := counted.mp said
    exact mem_map_of_mem (own.mpr ⟨mem, ok, Bool.of_not_eq_false fun unknown => none v mem unknown ok⟩)

theorem countsAgents_iff : CountsAgents d m ↔ OthersAgree d m := by
  constructor
  · intro counts v mem unknown
    have agree : ∀ v ∈ m.attestations, d.hasKey v.keyID = false →
        ∀ w ∈ m.attestations, d.hasKey w.keyID = false → w.status = v.status := by
      intro v mem unknown w mem' unknown'
      -- the attestation that is read last decides what a key without a name has said
      have last : ∀ x ∈ m.attestations, d.hasKey x.keyID = false →
          matchCondition { require := [⟨"", v.status⟩] } m = decide (x.status = v.status) := by
        intro x own other
        rw [counts.order _ (m.attestations.erase x ++ [x])
          ((perm_cons_erase own).trans (perm_append_singleton x _).symm)]
        simp [matchCondition, statusOf, latest, (h.name x own).mpr other]
      simpa using (last w mem' unknown').symm.trans (last v mem unknown)
    have consistent := consistent_of_agree h agree
    have met := counts.minOk { minOk := okCount m.attestations } (by simp) (by simp [matchCondition])
    rw [Int.ofNat_le, okCount_le_iff h consistent] at met
    refine ⟨met v mem unknown, fun denied => counts.anyDeny.mp ?_, agree v mem unknown⟩
    exact List.any_eq_true.mpr ⟨_, (mem_latest consistent).mpr ⟨v, mem, rfl⟩, decide_eq_true denied⟩
  · intro agree
    have consistent := consistent_of_agree h fun v mem unknown => (agree v mem unknown).2.2
    refine ⟨fun cond undenied met => ?_, ?_, fun cond l perm => matchCondition_perm consistent perm cond _ _⟩
    · have bound := (okCount_le_iff h consistent).mpr fun v mem unknown => (agree v mem unknown).1
      by_contra few
      have missed : 0 < cond.minOk ∧ okCount m.attestations < cond.minOk := by omega
      simp [matchCondition, undenied, missed] at met
    · rw [hasDeny, any_eq_true]
      simp only [mem_latest consistent]
      constructor
      · rintro ⟨_, ⟨v, mem, rfl⟩, denied⟩
        have denied : v.status = "deny" := of_decide_eq_true denied
        cases known : d.hasKey v.keyID with
        | true => exact ⟨v, mem, denied, known⟩
        | false => exact (agree v mem known).2.1 denied
      · rintro ⟨v, mem, denied, _⟩
        exact ⟨_, ⟨v, mem, rfl⟩, decide_eq_true denied⟩

end

theorem isSome_agentNameForKey {d : Document} (order : Nat → Nat) (key : String) :
    (d.agentNameForKey order key).isSome = d.hasKey key := by
  rw [Bool.eq_iff_iff]
  simp [Document.agentNameForKey, Document.hasKey]

theorem readBy_messageView {d : Document} {attests msg} (named : ∀ x ∈ d.agents.rows, x.1 ≠ "")
    (nodup : ((attests.filter fun a => a.messageID = msg.id ∧ a.supersededAt = none).map Attestation.signerKeyID).Nodup)
    (orders : Nat → Nat → Nat) : ReadBy d (messageView orders attests d msg).attestations := by
  have read : ∀ v ∈ (messageView orders attests d msg).attestations, d.hasKey v.keyID = false ∧ v.agentName = "" ∨
      d.hasKey v.keyID = true ∧ v.agentName ≠ "" ∧ ∃ order, d.agentNameForKey order v.keyID = some v.agentName := by
    intro v mem
    obtain ⟨i, _, rfl⟩ := List.mem_mapIdx.mp mem
    rw [← isSome_agentNameForKey (orders (i + 1))]
    cases found : d.agentNameForKey (orders (i + 1)) _ with
    | none => exact .inl ⟨rfl, rfl⟩
    | some =>
      obtain ⟨x, first, rfl⟩ := Option.map_eq_some_iff.mp found
      exact .inr ⟨rfl, named x (GoMaps.mem_range.mp (mem_of_find?_eq_some first)), _, found⟩
  refine ⟨fun v mem => ?_, fun v mem w mem' known same => ?_, ?_⟩
  · rcases read v mem with ⟨unknown, empty⟩ | ⟨known, name, _⟩
    · simp [unknown, empty]
    · simp [known, name]
  · rcases read v mem with ⟨unknown, _⟩ | ⟨_, name, _, found⟩
    · cases unknown.symm.trans known
    · rcases read w mem' with ⟨_, empty⟩ | ⟨_, _, _, found'⟩
      · exact absurd (same.trans empty) name
      · exact Document.agentNameForKey_inj found (same ▸ found')
  · convert nodup using 1
    exact ext_getElem (by simp [messageView]) fun i _ _ => by simp [messageView]

def bobTakesOver : Document where
  version := 2
  agents := Keyed.Table.empty.put ("bob", { keyID := "k_2", alg := "ed25519", publicKey := "pk" })
  conditions := Keyed.Table.empty.put ("c", { minOk := 1 })

/-- A second key is registered, the policy changes to it, and one `ok` is asked for. -/
def bobAsksForOne : List ServiceEvent :=
  annPublishes ++ CallID.alone (.service 2) (.createChallenge (draws "d") "session" 0) 1 ++
    CallID.alone (.service 3) (.register 1 (draws "2")
      { subjectKey := "bob", tokenID := "", algorithm := "", publicKey := replicate 32 0, nonce := "d",
        signature := [100], binder := "session" }) 2 ++
    CallID.alone (.object "ann" "t" 3) (.putPolicy ⟨id, id, id⟩ 4 4 (secureScope "t") bobTakesOver) 2 ++
    CallID.alone (.object "bob" "t" 0) (.secureConsume (fun _ _ => id) (secureScope "t") "" "c" none 10) 2

end SynaMcp
