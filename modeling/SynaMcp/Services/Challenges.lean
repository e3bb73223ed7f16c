import Mathlib.Data.List.Pairwise
import SynaMcp.Lib.SingleUse
import SynaMcp.Services.SecureTables

/-! Registration of keys against challenges, which are in the map of the process or in
Redis, the keys in the map or in `agent_keys`; calls run in any interleaving of their
sections. -/
namespace SynaMcp
open Keyed Sections AgentKeys Journal Table Try List Nat Option

structure RedisEntry where
  (key value : String)
  deadline : Time
  deriving DecidableEq, Repr

structure Redis where
  entries : Table RedisEntry.key

namespace Redis

def set (now : Time) (key value : String) (ttl : Int) (r : Redis) : Redis where
  entries := r.entries.put { key := key, value := value, deadline := now + ttl }

/-- An entry vanishes at its deadline, whether it has been removed by then or not. -/
def getDel (now : Time) (key : String) (r : Redis) : Redis × Option String :=
  ({ entries := r.entries.delete key },
    (r.entries.get? key).bind fun e => if e.deadline ≤ now then none else some e.value)

end Redis

inductive KeyRows where
  | memory
  | postgres
  deriving DecidableEq, Repr

def KeyRows.insert (key : AgentKey) (mem : Table AgentKey.keyID) : KeyRows → Table AgentKey.keyID × Except String AgentKey
  | .memory => (mem.put key, .ok key)
  | .postgres =>
    if (mem.get? key.keyID).isSome then (mem, .error errDuplicateKey)
    else (mem.put { key with createdAt := micro key.createdAt }, .ok key)

theorem KeyRows.insert_ok {rows : KeyRows} {key r mem} (h : (rows.insert key mem).2 = .ok r) : r = key := by
  cases rows with
  | memory =>
    cases h
    rfl
  | postgres =>
    simp only [insert] at h
    split at h
    · cases h
    · cases h
      rfl

theorem KeyRows.mem_insert {rows : KeyRows} {key k mem} (h : k ∈ (rows.insert key mem).1.rows) :
    k ∈ mem.rows ∨ (rows.insert key mem).2 = .ok key ∧ k.keyID = key.keyID := by
  cases rows with
  | memory =>
    rcases Table.mem_put.mp h with rfl | ⟨old, _⟩
    · exact .inr ⟨rfl, rfl⟩
    · exact .inl old
  | postgres =>
    simp only [insert] at h ⊢
    split at h
    · exact .inl h
    · next free =>
      rcases Table.mem_put.mp h with rfl | ⟨old, _⟩
      · exact .inr ⟨by rw [if_neg free], rfl⟩
      · exact .inl old

def challengeTTL (ttl : Int) : Int := if ttl ≤ 0 then 5 * minute else ttl

theorem map_get?_of_delete {α β κ} {key : α → κ} [DecidableEq κ] {t : Table key} {f : α → β} {k k' e}
    (h : ((t.delete k).get? k').map f = some e) : (t.get? k').map f = some e := by
  by_cases same : k' = k
  · subst same
    rw [get?_delete_self] at h
    cases h
  · rwa [get?_delete_of_ne t same] at h

namespace AgentKeys
variable (env : Env) (binder : String) (ttl : Int)

def newChallenge : Challenge where
  nonce := (env.uuid 0).val
  expiresAt := env.now + challengeTTL ttl
  binder := binder

theorem createChallenge_cases (s : AgentKeys) :
    createChallenge env binder ttl s = (s, .error "binder required") ∨ createChallenge env binder ttl s =
        ({ s with challs := s.challs.put (newChallenge env binder ttl) }, .ok (newChallenge env binder ttl)) := by
  unfold createChallenge
  split
  · exact .inl rfl
  · exact .inr rfl

theorem consumeChallenge_cases (now : Time) (nonce binder : String) (s : AgentKeys) :
    (∃ e, consumeChallenge now nonce binder s = (s, .error e)) ∨
    (∃ e, consumeChallenge now nonce binder s = ({ s with challs := s.challs.delete nonce }, .error e)) ∨
    ∃ ch, s.challs.get? nonce = some ch ∧ now ≤ ch.expiresAt ∧
      consumeChallenge now nonce binder s = ({ s with challs := s.challs.delete nonce }, .ok ()) := by
  unfold consumeChallenge
  split
  · exact .inl ⟨_, rfl⟩
  · split
    · exact .inl ⟨_, rfl⟩
    · next ch found =>
      split
      · exact .inr (.inl ⟨_, rfl⟩)
      · next inTime =>
        split
        · exact .inl ⟨_, rfl⟩
        · exact .inr (.inr ⟨ch, found, Int.not_lt.mp inTime, rfl⟩)

end AgentKeys

structure RedisKeys where
  mem : Table AgentKey.keyID
  redis : Redis

namespace RedisKeys

def challengeKey (keyPrefix nonce : String) : String := keyPrefix ++ ":agentkey:chal:" ++ nonce

theorem challengeKey_inj {keyPrefix nonce nonce'} (h : challengeKey keyPrefix nonce = challengeKey keyPrefix nonce') :
    nonce = nonce' := by
  have chars := congrArg String.toList h
  simp only [challengeKey, String.toList_append] at chars
  exact String.toList_inj.mp (append_cancel_left chars)

/-- The text up to the first bar: a binder that has one in it is cut there. -/
def storedBinder (val : String) : String := String.ofList (val.toList.takeWhile fun c => c ≠ '|')

/-- The entry is written at `setAt`, after the challenge was made. -/
def createChallenge [Signing] (keyPrefix : String) (setAt : Time) (env : Env) (binder : String) (ttl : Int)
    (s : RedisKeys) : RedisKeys × Except String Challenge :=
  if binder = "" then (s, .error "binder required")
  else
    let ttl := if ttl ≤ 0 then 5 * minute else ttl
    let ch : Challenge := { nonce := (env.uuid 0).val, expiresAt := env.now + ttl, binder := binder }
    let payload := binder ++ "|" ++ Signing.rfc3339Nano ch.expiresAt
    ({ s with redis := s.redis.set setAt (challengeKey keyPrefix ch.nonce) payload ttl }, .ok ch)

variable (keyPrefix : String) (now : Time) (nonce binder : String) (s : RedisKeys)

/-- The challenge is gone whatever its binder is. -/
def consumeChallenge : RedisKeys × Except String Unit :=
  if nonce = "" then (s, .error "nonce required")
  else
    match s.redis.getDel now (challengeKey keyPrefix nonce) with
    | (left, none) => ({ s with redis := left }, .error "challenge not found or expired")
    | (left, some val) =>
      if storedBinder val ≠ binder then ({ s with redis := left }, .error "challenge binder mismatch")
      else ({ s with redis := left }, .ok ())

theorem createChallenge_cases [Signing] (keyPrefix : String) (setAt : Time) (env : Env) (binder : String) (ttl : Int)
    (s : RedisKeys) : createChallenge keyPrefix setAt env binder ttl s = (s, .error "binder required") ∨
      ∃ payload, createChallenge keyPrefix setAt env binder ttl s =
        ({ s with redis := s.redis.set setAt (challengeKey keyPrefix (env.uuid 0).val) payload (challengeTTL ttl) },
          .ok (newChallenge env binder ttl)) := by
  unfold createChallenge
  split
  · exact .inl rfl
  · exact .inr ⟨_, rfl⟩

/-- A refused challenge is gone too, and one that is used up had not vanished. -/
theorem consumeChallenge_cases : (∃ e, consumeChallenge keyPrefix now nonce binder s = (s, .error e)) ∨
    (∃ e, consumeChallenge keyPrefix now nonce binder s =
      ({ s with redis := (s.redis.getDel now (challengeKey keyPrefix nonce)).1 }, .error e)) ∨
    ∃ entry, s.redis.entries.get? (challengeKey keyPrefix nonce) = some entry ∧ now < entry.deadline ∧
      consumeChallenge keyPrefix now nonce binder s =
        ({ s with redis := (s.redis.getDel now (challengeKey keyPrefix nonce)).1 }, .ok ()) := by
  unfold consumeChallenge
  split
  · exact .inl ⟨_, rfl⟩
  · split
    · next left got =>
      rw [got]
      exact .inr (.inl ⟨_, rfl⟩)
    · next left val got =>
      obtain ⟨entry, found, there⟩ := Option.bind_eq_some_iff.mp (congrArg Prod.snd got)
      rw [got]
      split
      · exact .inr (.inl ⟨_, rfl⟩)
      · refine .inr (.inr ⟨entry, found, ?_, rfl⟩)
        by_contra late
        rw [if_pos (Int.not_lt.mp late)] at there
        cases there

end RedisKeys

structure KeyBackend (κ : Type) where
  createChallenge : (setAt : Time) → Env → (binder : String) → (ttl : Int) → κ → κ × Except String Challenge
  consumeChallenge : (now : Time) → (nonce binder : String) → κ → κ × Except String Unit
  insertKey : AgentKey → κ → κ × Except String AgentKey
  keys : κ → Table AgentKey.keyID

namespace KeyBackend

def memory (rows : KeyRows) : KeyBackend AgentKeys where
  createChallenge _ := AgentKeys.createChallenge
  consumeChallenge := AgentKeys.consumeChallenge
  insertKey key s := ({ s with mem := (rows.insert key s.mem).1 }, (rows.insert key s.mem).2)
  keys s := s.mem

def redis [Signing] (keyPrefix : String) (rows : KeyRows) : KeyBackend RedisKeys where
  createChallenge := RedisKeys.createChallenge keyPrefix
  consumeChallenge := RedisKeys.consumeChallenge keyPrefix
  insertKey key s := ({ s with mem := (rows.insert key s.mem).1 }, (rows.insert key s.mem).2)
  keys s := s.mem

section
variable [Signing] {κ : Type}

def register (B : KeyBackend κ) (checkedAt : Time) (env : Env) (input : RegisterInput) : Try κ AgentKey := do
  require (input.subjectKey ≠ "" ∧ input.publicKey ≠ [] ∧ input.nonce ≠ "" ∧ input.signature ≠ [])
    "subjectKey, publicKey, nonce, and signature required"
  let alg ← .ofExcept (checkAlgorithm input)
  .atomic (B.consumeChallenge checkedAt input.nonce input.binder)
  require (provesPossession alg input) "invalid proof-of-possession signature"
  .atomic (B.insertKey (newKey env alg input))

end

/-- The challenges that a backend still accepts and until when, and what its operations
do to them and to the keys. -/
structure Lawful {κ : Type} (B : KeyBackend κ) where
  live : κ → String → Option Time
  deadline : (setAt : Time) → Env → (ttl : Int) → Time
  create : ∀ setAt env binder ttl s nonce e, live (B.createChallenge setAt env binder ttl s).1 nonce = some e →
    live s nonce = some e ∨ nonce = (env.uuid 0).val ∧ e = deadline setAt env ttl ∧
      (B.createChallenge setAt env binder ttl s).2 = .ok (newChallenge env binder ttl)
  create_keys : ∀ setAt env binder ttl s, B.keys (B.createChallenge setAt env binder ttl s).1 = B.keys s
  consume : ∀ now nonce binder s other e, live (B.consumeChallenge now nonce binder s).1 other = some e →
    live s other = some e
  consume_ok : ∀ now nonce binder s, (B.consumeChallenge now nonce binder s).2 = .ok () →
    (∃ e, live s nonce = some e ∧ now ≤ e) ∧ live (B.consumeChallenge now nonce binder s).1 nonce = none
  consume_keys : ∀ now nonce binder s, B.keys (B.consumeChallenge now nonce binder s).1 = B.keys s
  insert : ∀ key s, live (B.insertKey key s).1 = live s
  insert_ok : ∀ key s r, (B.insertKey key s).2 = .ok r → r = key
  mem_insert : ∀ key s k, k ∈ (B.keys (B.insertKey key s).1).rows →
    k ∈ (B.keys s).rows ∨ (B.insertKey key s).2 = .ok key ∧ k.keyID = key.keyID

/-- A challenge in the map is good up to its `expiresAt`. -/
def lawfulMemory (rows : KeyRows) : (memory rows).Lawful where
  live s nonce := (s.challs.get? nonce).map Challenge.expiresAt
  deadline _ env ttl := env.now + challengeTTL ttl
  create setAt env binder ttl s nonce e h := by
    rcases AgentKeys.createChallenge_cases env binder ttl s with same | made
    · simp only [memory, same] at h
      exact .inl h
    · simp only [memory, made] at h ⊢
      by_cases own : (newChallenge env binder ttl).nonce = nonce
      · subst own
        rw [get?_put_self] at h
        cases h
        exact .inr ⟨rfl, rfl, trivial⟩
      · rw [get?_put_of_ne _ own] at h
        exact .inl h
  create_keys setAt env binder ttl s := by
    rcases AgentKeys.createChallenge_cases env binder ttl s with same | made
    · simp only [memory, same]
    · simp only [memory, made]
  consume now nonce binder s other e h := by
    rcases AgentKeys.consumeChallenge_cases now nonce binder s with ⟨_, same⟩ | ⟨_, gone⟩ | ⟨_, _, _, gone⟩
    · simpa only [memory, same] using h
    · exact map_get?_of_delete (by simpa only [memory, gone] using h)
    · exact map_get?_of_delete (by simpa only [memory, gone] using h)
  consume_ok now nonce binder s h := by
    rcases AgentKeys.consumeChallenge_cases now nonce binder s with ⟨_, same⟩ | ⟨_, gone⟩ | ⟨ch, found, inTime, gone⟩
    · cases h.symm.trans (congrArg Prod.snd same)
    · cases h.symm.trans (congrArg Prod.snd gone)
    · simp only [memory, gone, found, map_some]
      refine ⟨⟨ch.expiresAt, rfl, inTime⟩, ?_⟩
      rw [get?_delete_self, map_none]
  consume_keys now nonce binder s := by
    rcases AgentKeys.consumeChallenge_cases now nonce binder s with ⟨_, same⟩ | ⟨_, gone⟩ | ⟨_, _, _, gone⟩
    · simp only [memory, same]
    · simp only [memory, gone]
    · simp only [memory, gone]
  insert key s := rfl
  insert_ok key s r h := KeyRows.insert_ok h
  mem_insert key s k h := KeyRows.mem_insert h

/-- A challenge in Redis is good until its entry vanishes. -/
def lawfulRedis [Signing] (keyPrefix : String) (rows : KeyRows) : (redis keyPrefix rows).Lawful where
  live s nonce := (s.redis.entries.get? (RedisKeys.challengeKey keyPrefix nonce)).map RedisEntry.deadline
  deadline setAt _ ttl := setAt + challengeTTL ttl
  create setAt env binder ttl s nonce e h := by
    rcases RedisKeys.createChallenge_cases keyPrefix setAt env binder ttl s with same | ⟨_, made⟩
    · simp only [redis, same] at h
      exact .inl h
    · simp only [redis, made, Redis.set] at h ⊢
      by_cases own : nonce = (env.uuid 0).val
      · subst own
        rw [get?_put_self _ (RedisEntry.mk _ _ _)] at h
        cases h
        exact .inr ⟨rfl, rfl, trivial⟩
      · have other : RedisKeys.challengeKey keyPrefix (env.uuid 0).val ≠ RedisKeys.challengeKey keyPrefix nonce :=
          fun same => own (RedisKeys.challengeKey_inj same).symm
        rw [get?_put_of_ne (r := RedisEntry.mk _ _ _) _ other] at h
        exact .inl h
  create_keys setAt env binder ttl s := by
    rcases RedisKeys.createChallenge_cases keyPrefix setAt env binder ttl s with same | ⟨_, made⟩
    · simp only [redis, same]
    · simp only [redis, made]
  consume now nonce binder s other e h := by
    rcases RedisKeys.consumeChallenge_cases keyPrefix now nonce binder s with ⟨_, same⟩ | ⟨_, gone⟩ | ⟨_, _, _, gone⟩
    · simpa only [redis, same] using h
    · exact map_get?_of_delete (by simpa only [redis, gone, Redis.getDel] using h)
    · exact map_get?_of_delete (by simpa only [redis, gone, Redis.getDel] using h)
  consume_ok now nonce binder s h := by
    rcases RedisKeys.consumeChallenge_cases keyPrefix now nonce binder s with
      ⟨_, same⟩ | ⟨_, gone⟩ | ⟨entry, found, inTime, gone⟩
    · cases h.symm.trans (congrArg Prod.snd same)
    · cases h.symm.trans (congrArg Prod.snd gone)
    · simp only [redis, gone, found, map_some]
      refine ⟨⟨entry.deadline, rfl, Int.le_of_lt inTime⟩, ?_⟩
      rw [Redis.getDel, get?_delete_self, map_none]
  consume_keys now nonce binder s := by
    rcases RedisKeys.consumeChallenge_cases keyPrefix now nonce binder s with ⟨_, same⟩ | ⟨_, gone⟩ | ⟨_, _, _, gone⟩
    · simp only [redis, same]
    · simp only [redis, gone]
    · simp only [redis, gone]
  insert key s := rfl
  insert_ok key s r h := KeyRows.insert_ok h
  mem_insert key s k h := KeyRows.mem_insert h

end KeyBackend

inductive KeyCall where
  | createChallenge (setAt : Time) (env : Env) (binder : String) (ttl : Int)
  | register (checkedAt : Time) (env : Env) (input : RegisterInput)

inductive KeyOutcome where
  | challenge (r : Except String Challenge)
  | key (r : Except String AgentKey)

abbrev KeyEvent := Event Nat fun _ => KeyCall

structure RegisterInput.Passes [Signing] (input : RegisterInput) (alg : String) : Prop where
  given : input.subjectKey ≠ "" ∧ input.publicKey ≠ [] ∧ input.nonce ≠ "" ∧ input.signature ≠ []
  algorithm : checkAlgorithm input = .ok alg

namespace KeyCall
variable [Signing] {κ : Type} (B : KeyBackend κ)

def prog : KeyCall → Prog κ KeyOutcome
  | .createChallenge setAt env binder ttl => do
      return .challenge (← .atomic (B.createChallenge setAt env binder ttl))
  | .register checkedAt env input => do return .key (← (B.register checkedAt env input).run)

def inserts (key : AgentKey) : Prog κ KeyOutcome :=
  .enter (fun s => (B.insertKey key s).1) fun s => .done (.key (B.insertKey key s).2)

def verifies (env : Env) (alg : String) (input : RegisterInput) : Except String Unit → Prog κ KeyOutcome
  | .error e => .done (.key (.error e))
  | .ok () =>
    if provesPossession alg input then inserts B (newKey env alg input)
    else .done (.key (.error "invalid proof-of-possession signature"))

variable {B} {checkedAt : Time} {env : Env} {input : RegisterInput} {alg : String}

theorem prog_register (h : input.Passes alg) : prog B (.register checkedAt env input) =
    .enter (fun s => (B.consumeChallenge checkedAt input.nonce input.binder s).1)
      fun s => verifies B env alg input (B.consumeChallenge checkedAt input.nonce input.binder s).2 := by
  simp only [prog, KeyBackend.register, require_pos h.given, h.algorithm, ofExcept_ok]
  refine congrArg (Prog.enter _) (funext fun s => ?_)
  beta_reduce
  generalize (B.consumeChallenge checkedAt input.nonce input.binder s).2 = accepted
  cases accepted with
  | error => rfl
  | ok =>
    simp only [verifies, Prog.bind, ExceptT.bindCont]
    split
    · next proven =>
      rw [require_pos proven]
      rfl
    · next unproven =>
      rw [require_neg unproven]
      rfl

theorem prog_refused (h : ∀ alg, ¬ input.Passes alg) :
    ∃ e, prog B (.register checkedAt env input) = .done (.key (.error e)) := by
  simp only [prog, KeyBackend.register]
  by_cases given : input.subjectKey ≠ "" ∧ input.publicKey ≠ [] ∧ input.nonce ≠ "" ∧ input.signature ≠ []
  · rw [require_pos given]
    cases algorithm : checkAlgorithm input with
    | ok alg => exact absurd ⟨given, algorithm⟩ (h alg)
    | error e => exact ⟨e, rfl⟩
  · rw [require_neg given]
    exact ⟨_, rfl⟩

end KeyCall

section
variable [Signing] {κ : Type} (B : KeyBackend κ) (store : κ) (events : List KeyEvent)

abbrev keysAt (n : Nat) : Journal Nat κ KeyOutcome fun _ => KeyCall := before (fun _ => KeyCall.prog B) store events n

structure BeginsAt (n i : Nat) (c : KeyCall) : Prop where
  event : events[n]? = some (.advance i)
  made : (keysAt B store events n).made i = some c
  whole : (keysAt B store events n).calls i = some (c.prog B)

structure IssuedAt (n i : Nat) (setAt : Time) (env : Env) (binder : String) (ttl : Int) (ch : Challenge) : Prop
    extends BeginsAt B store events n i (.createChallenge setAt env binder ttl) where
  issued : (B.createChallenge setAt env binder ttl (keysAt B store events n).store).2 = .ok ch

structure AcceptedAt (n i : Nat) (checkedAt : Time) (env : Env) (input : RegisterInput) : Prop
    extends BeginsAt B store events n i (.register checkedAt env input) where
  passes : ∃ alg, input.Passes alg
  accepted : (B.consumeChallenge checkedAt input.nonce input.binder (keysAt B store events n).store).2 = .ok ()

abbrev RegisteredAt (n i : Nat) (checkedAt : Time) (env : Env) (input : RegisterInput) (key : AgentKey) : Prop :=
  Ends (fun _ => KeyCall.prog B) store events n i (.register checkedAt env input) (.key (.ok key))

/-- By then the registration has used up its challenge and proved that it has the key. -/
structure ProvenAt (n i : Nat) (checkedAt : Time) (env : Env) (input : RegisterInput) (key : AgentKey) : Prop where
  accepted : ∃ m < n, AcceptedAt B store events m i checkedAt env input
  verified : ∃ alg, checkAlgorithm input = .ok alg ∧ provesPossession alg input = true ∧ key = newKey env alg input

inductive LeftAt (n i : Nat) : KeyCall → Prog κ KeyOutcome → Prop where
  | whole (c : KeyCall) : LeftAt n i c (c.prog B)
  | inserts {checkedAt env input key}
      (proven : ProvenAt B store events n i checkedAt env input key) :
      LeftAt n i (.register checkedAt env input) (KeyCall.inserts B key)
  | past {c r} (earned : ∀ key, r = .key (.ok key) →
      ∃ checkedAt env input, c = .register checkedAt env input ∧ ProvenAt B store events n i checkedAt env input key) :
      LeftAt n i c (.done r)

inductive NextAt (n i : Nat) : KeyCall → (κ → κ) → (κ → Prog κ KeyOutcome) → Prop where
  | creates {setAt env binder ttl} :
      NextAt n i (.createChallenge setAt env binder ttl) (fun s => (B.createChallenge setAt env binder ttl s).1)
        fun s => .done (.challenge (B.createChallenge setAt env binder ttl s).2)
  | consumes {checkedAt env input alg} (passes : input.Passes alg)
      (whole : (keysAt B store events n).calls i = some (KeyCall.prog B (.register checkedAt env input))) :
      NextAt n i (.register checkedAt env input)
        (fun s => (B.consumeChallenge checkedAt input.nonce input.binder s).1)
        fun s => KeyCall.verifies B env alg input (B.consumeChallenge checkedAt input.nonce input.binder s).2
  | inserts {checkedAt env input key}
      (proven : ProvenAt B store events n i checkedAt env input key) :
      NextAt n i (.register checkedAt env input) (fun s => (B.insertKey key s).1)
        fun s => .done (.key (B.insertKey key s).2)

variable {B store events} {n i : Nat} {c : KeyCall}

theorem ProvenAt.later {checkedAt env input key}
    (h : ProvenAt B store events n i checkedAt env input key) : ProvenAt B store events (n + 1) i checkedAt env input key := by
  obtain ⟨m, earlier, accepted⟩ := h.accepted
  exact ⟨⟨m, lt_succ_of_lt earlier, accepted⟩, h.verified⟩

theorem LeftAt.later {p} (h : LeftAt B store events n i c p) : LeftAt B store events (n + 1) i c p := by
  cases h with
  | whole => exact .whole c
  | inserts proven => exact .inserts proven.later
  | past earned =>
    refine .past fun key ok => ?_
    obtain ⟨checkedAt, env, input, same, proven⟩ := earned key ok
    exact ⟨checkedAt, env, input, same, proven.later⟩

theorem LeftAt.next {act next} (h : LeftAt B store events n i c (.enter act next))
    (running : (keysAt B store events n).calls i = some (.enter act next)) : NextAt B store events n i c act next := by
  generalize left : Prog.enter act next = p at h running
  cases h with
  | whole =>
    cases c with
    | createChallenge =>
      cases left
      exact .creates
    | register checkedAt env input =>
      by_cases passes : ∃ alg, input.Passes alg
      · obtain ⟨_, passes⟩ := passes
        cases left.trans (KeyCall.prog_register passes)
        exact .consumes passes running
      · obtain ⟨_, refused⟩ := @KeyCall.prog_refused _ κ B checkedAt env input (not_exists.mp passes)
        cases left.trans refused
  | inserts proven =>
    cases left
    exact .inserts proven
  | past => cases left

theorem NextAt.left {act next} (L : B.Lawful) (h : NextAt B store events n i c act next)
    (event : events[n]? = some (.advance i)) (made : (keysAt B store events n).made i = some c) :
    LeftAt B store events (n + 1) i c (next (keysAt B store events n).store) := by
  cases h with
  | creates => exact .past fun key ok => by cases ok
  | @consumes checkedAt _ input alg passes whole =>
    beta_reduce
    cases accepted : (B.consumeChallenge checkedAt input.nonce input.binder (keysAt B store events n).store).2 with
    | error => exact .past fun key ok => by cases ok
    | ok =>
      simp only [KeyCall.verifies]
      split
      · next proven =>
        refine .inserts ⟨⟨n, lt_succ_self n, ⟨event, made, whole⟩, ⟨alg, passes⟩, accepted⟩, ?_⟩
        exact ⟨alg, passes.algorithm, proven, rfl⟩
      · exact .past fun key ok => by cases ok
  | @inserts checkedAt env input key proven =>
    refine .past fun r ok => ⟨checkedAt, env, input, rfl, ?_⟩
    rw [L.insert_ok key _ r (KeyOutcome.key.inj ok)]
    exact proven.later

theorem leftAt (L : B.Lawful) {p} (left : (keysAt B store events n).calls i = some p) :
    ∃ c, (keysAt B store events n).made i = some c ∧ LeftAt B store events n i c p := by
  refine left_before (I := fun n i c p => LeftAt B store events n i c p) (fun _ _ c => .whole c)
    (fun _ _ _ _ h => h.later) ?_ left
  exact fun n i c act next event made running h => (h.next running).left L event made

variable (B store events) in
inductive StepAt (n : Nat) : Prop where
  | idle (same : (keysAt B store events (n + 1)).store = (keysAt B store events n).store)
  | creates {i setAt env binder ttl}
      (begins : BeginsAt B store events n i (.createChallenge setAt env binder ttl))
      (after : (keysAt B store events (n + 1)).store =
        (B.createChallenge setAt env binder ttl (keysAt B store events n).store).1)
  | consumes {now nonce binder}
      (after : (keysAt B store events (n + 1)).store = (B.consumeChallenge now nonce binder (keysAt B store events n).store).1)
  | inserts {i checkedAt env input key}
      (registers : (B.insertKey key (keysAt B store events n).store).2 = .ok key →
        RegisteredAt B store events n i checkedAt env input key)
      (after : (keysAt B store events (n + 1)).store = (B.insertKey key (keysAt B store events n).store).1)

theorem stepAt (L : B.Lawful) (n : Nat) : StepAt B store events n := by
  rcases move_before (fun _ => KeyCall.prog B) store events n with same | ⟨_, event, moved⟩
  · exact .idle (congrArg (fun J => J.store) same)
  · generalize after : before (fun _ => KeyCall.prog B) store events (n + 1) = K at moved
    cases moved with
    | idle | begun => exact .idle (congrArg (fun J => J.store) after)
    | @ran _ _ _ running =>
      obtain ⟨moved, rest⟩ := ran_before event running
      obtain ⟨_, made, left⟩ := leftAt L running
      cases left.next running with
      | creates => exact .creates ⟨event, made, running⟩ moved
      | consumes => exact .consumes moved
      | inserts =>
        refine .inserts (fun ok => ⟨event, made, ?_, ?_⟩) moved
        · simp only [System.result, running]
        · simp only [System.result, rest, ok]

theorem RegisteredAt.proven {checkedAt env input key} (L : B.Lawful)
    (h : RegisteredAt B store events n i checkedAt env input key) :
    ProvenAt B store events (n + 1) i checkedAt env input key := by
  obtain ⟨made, past⟩ := h.past
  obtain ⟨c, made', left⟩ := leftAt L past
  obtain rfl : c = .register checkedAt env input := Option.some.inj (made'.symm.trans made)
  generalize ended : Prog.done (KeyOutcome.key (.ok key)) = p at left
  cases left with
  | whole =>
    by_cases passes : ∃ alg, input.Passes alg
    · obtain ⟨_, passes⟩ := passes
      cases ended.trans (KeyCall.prog_register passes)
    · obtain ⟨_, refused⟩ := @KeyCall.prog_refused _ κ B checkedAt env input (not_exists.mp passes)
      cases ended.trans refused
  | inserts => cases ended
  | past earned =>
    cases ended
    obtain ⟨_, _, _, same, proven⟩ := earned key rfl
    cases same
    exact proven

theorem AcceptedAt.after {checkedAt env input}
    (h : AcceptedAt B store events n i checkedAt env input) : (keysAt B store events (n + 1)).store =
      (B.consumeChallenge checkedAt input.nonce input.binder (keysAt B store events n).store).1 := by
  obtain ⟨_, passes⟩ := h.passes
  have running := h.whole
  rw [KeyCall.prog_register passes] at running
  exact (ran_before h.event running).1

theorem BeginsAt.create_unique {m n i setAt setAt' env env' binder binder' ttl ttl'} (first : BeginsAt B store events m i (.createChallenge setAt env binder ttl))
    (second : BeginsAt B store events n i (.createChallenge setAt' env' binder' ttl')) : m = n := by
  have apart : ∀ {m n setAt setAt' env env' binder binder' ttl ttl'},
      BeginsAt B store events m i (.createChallenge setAt env binder ttl) →
      BeginsAt B store events n i (.createChallenge setAt' env' binder' ttl') → ¬ m < n := by
    intro m n setAt setAt' env env' binder binder' ttl ttl' first second before
    have ended := (ran_before first.event first.whole).2
    cases (done_before ended before).symm.trans second.whole
  exact Nat.le_antisymm (Nat.le_of_not_lt (apart second first)) (Nat.le_of_not_lt (apart first second))

end

def drawnNonce : KeyEvent → Option String
  | .call _ (.createChallenge _ env _ _) => some (env.uuid 0).val
  | _ => none

def DistinctNonces (events : List KeyEvent) : Prop :=
  events.Pairwise fun e e' => ∀ nonce ∈ drawnNonce e, nonce ∉ drawnNonce e'

instance (events : List KeyEvent) : Decidable (DistinctNonces events) :=
  inferInstanceAs (Decidable (events.Pairwise _))

theorem DistinctNonces.eq {events} (h : DistinctNonces events) {e e'} (mem : e ∈ events)
    (mem' : e' ∈ events) {nonce} (drawn : drawnNonce e = some nonce) (drawn' : drawnNonce e' = some nonce) :
    e = e' := by
  by_contra apart
  have : Std.Symm fun e e' : KeyEvent => ∀ nonce ∈ drawnNonce e, nonce ∉ drawnNonce e' :=
    ⟨fun _ _ distinct nonce second first => distinct nonce first second⟩
  exact List.Pairwise.forall h mem mem' apart nonce drawn drawn'

/-- Challenges are single use along the run, with the deadline that each gets when it is
issued. -/
structure ChallengesOnce [Signing] {κ : Type} (B : KeyBackend κ) (deadline : Time → Env → Int → Time) (store : κ)
    (events : List KeyEvent) : Prop where
  once : ∀ m n i j a b env env' input input', AcceptedAt B store events m i a env input →
    AcceptedAt B store events n j b env' input' → input.nonce = input'.nonce → m = n
  inTime : ∀ n i checkedAt env input, AcceptedAt B store events n i checkedAt env input →
    ∃ m < n, ∃ j setAt env' binder ttl ch, IssuedAt B store events m j setAt env' binder ttl ch ∧
      ch.nonce = input.nonce ∧ checkedAt ≤ deadline setAt env' ttl
  verified : ∀ n i checkedAt env input key, RegisteredAt B store events n i checkedAt env input key →
    ProvenAt B store events (n + 1) i checkedAt env input key
  oneKey : ∀ m n i j a b env env' input input' key key', RegisteredAt B store events m i a env input key →
    RegisteredAt B store events n j b env' input' key' → input.nonce = input'.nonce → m = n ∧ i = j ∧ key = key'
  registered : ∀ n, ∀ k ∈ (B.keys (keysAt B store events n).store).rows,
    ∃ m < n, ∃ i checkedAt env input key, RegisteredAt B store events m i checkedAt env input key ∧ k.keyID = key.keyID

section
variable [Signing] {κ : Type} {B : KeyBackend κ} (L : B.Lawful) {store : κ} {events : List KeyEvent}
include L

theorem tickets (distinct : DistinctNonces events) (start : ∀ nonce, L.live store nonce = none) :
    SingleUse.Tickets (fun n nonce => L.live (keysAt B store events n).store nonce)
      (fun n nonce e => ∃ i setAt env binder ttl,
        IssuedAt B store events n i setAt env binder ttl (newChallenge env binder ttl) ∧
          nonce = (env.uuid 0).val ∧ e = L.deadline setAt env ttl)
      (fun n nonce => ∃ i checkedAt env input, AcceptedAt B store events n i checkedAt env input ∧ input.nonce = nonce) where
  start := start
  step n nonce e there := by
    cases stepAt L n with
    | idle same => exact .inl (same ▸ there)
    | @creates i setAt env binder ttl begins after =>
      rcases L.create setAt env binder ttl _ nonce e (after ▸ there) with kept | ⟨own, until_e, issued⟩
      · exact .inl kept
      · exact .inr ⟨i, setAt, env, binder, ttl, ⟨begins, issued⟩, own, until_e⟩
    | consumes after => exact .inl (L.consume _ _ _ _ nonce e (after ▸ there))
    | inserts _ after =>
      rw [after, L.insert] at there
      exact .inl there
  take n nonce taken := by
    obtain ⟨_, _, _, _, accepted, rfl⟩ := taken
    obtain ⟨⟨e, there, _⟩, gone⟩ := L.consume_ok _ _ _ _ accepted.accepted
    rw [accepted.after]
    exact ⟨⟨e, there⟩, gone⟩
  fresh m n nonce d e first second := by
    obtain ⟨_, _, _, _, _, first, own, _⟩ := first
    obtain ⟨_, _, _, _, _, second, own', _⟩ := second
    have called := mem_of_mem_take (call_of_made first.made)
    have called' := mem_of_mem_take (call_of_made second.made)
    cases distinct.eq called called' (congrArg some own.symm) (congrArg some own'.symm)
    exact first.toBeginsAt.create_unique second.toBeginsAt

theorem key_registered (empty : (B.keys store).rows = []) (n : Nat) {k}
    (mem : k ∈ (B.keys (keysAt B store events n).store).rows) : ∃ m < n, ∃ i checkedAt env input key,
      RegisteredAt B store events m i checkedAt env input key ∧ k.keyID = key.keyID := by
  induction n with
  | zero =>
    rw [show (keysAt B store events 0).store = store from rfl, empty] at mem
    cases mem
  | succ n ih =>
    have earlier : k ∈ (B.keys (keysAt B store events n).store).rows → ∃ m < n + 1, ∃ i checkedAt env input key,
        RegisteredAt B store events m i checkedAt env input key ∧ k.keyID = key.keyID := fun mem => by
      obtain ⟨m, before, registered⟩ := ih mem
      exact ⟨m, lt_succ_of_lt before, registered⟩
    cases stepAt L n with
    | idle same => exact earlier (same ▸ mem)
    | creates _ after =>
      rw [after, L.create_keys] at mem
      exact earlier mem
    | consumes after =>
      rw [after, L.consume_keys] at mem
      exact earlier mem
    | @inserts i checkedAt env input key registers after =>
      rcases L.mem_insert key _ k (after ▸ mem) with old | ⟨ok, same⟩
      · exact earlier old
      · exact ⟨n, lt_succ_self n, i, checkedAt, env, input, key, registers ok, same⟩

theorem challenges_once (distinct : DistinctNonces events) (start : ∀ nonce, L.live store nonce = none)
    (empty : (B.keys store).rows = []) : ChallengesOnce B L.deadline store events := by
  have used := tickets L distinct start
  have once : ∀ m n i j a b env env' input input', AcceptedAt B store events m i a env input →
      AcceptedAt B store events n j b env' input' → input.nonce = input'.nonce → m = n :=
    fun m n i j a b env env' input input' first second same =>
      used.once ⟨i, a, env, input, first, same⟩ ⟨j, b, env', input', second, rfl⟩
  refine ⟨once, ?_, fun n i checkedAt env input key h => h.proven L, ?_, fun n k mem => key_registered L empty n mem⟩
  · intro n i checkedAt env input accepted
    obtain ⟨⟨_, there, inTime⟩, _⟩ := L.consume_ok _ _ _ _ accepted.accepted
    obtain ⟨m, earlier, ⟨j, setAt, env', binder, ttl, issued, own, rfl⟩, _⟩ := used.since there
    exact ⟨m, earlier, j, setAt, env', binder, ttl, _, issued, own.symm, inTime⟩
  · -- The two registrations have used up their challenge at one event, so they are one call.
    intro m n i j a b env env' input input' key key' first second same
    obtain ⟨k, _, accepted⟩ := (first.proven L).accepted
    obtain ⟨l, _, accepted'⟩ := (second.proven L).accepted
    obtain rfl := once k l i j a b env env' input input' accepted accepted' same
    obtain rfl : i = j := Event.advance.inj (Option.some.inj (accepted.event.symm.trans accepted'.event))
    obtain rfl := first.unique second
    cases first.ended.symm.trans second.ended
    exact ⟨rfl, rfl, rfl⟩

end

/-- Wherever the challenges and the keys are, in any interleaving: a nonce is accepted
at most once, up to its expiry (in Redis, while its entry is there), and leads to at
most one key, whose signature over the nonce was verified. -/
theorem challenges_are_single_use [Signing] (keyPrefix : String) (rows : KeyRows) (events : List KeyEvent)
    (distinct : DistinctNonces events) :
    ChallengesOnce (.memory rows) (fun _ env ttl => env.now + challengeTTL ttl) { mem := .empty, challs := .empty } events ∧
    ChallengesOnce (.redis keyPrefix rows) (fun setAt _ ttl => setAt + challengeTTL ttl)
      { mem := .empty, redis := { entries := .empty } } events :=
  ⟨challenges_once (KeyBackend.lawfulMemory rows) distinct (fun _ => rfl) rfl,
    challenges_once (KeyBackend.lawfulRedis keyPrefix rows) distinct (fun _ => rfl) rfl⟩

def annRegistersTwice : List KeyEvent :=
  let input : RegisterInput :=
    { subjectKey := "ann", tokenID := "", algorithm := "", publicKey := replicate 32 0, nonce := "c",
      signature := [100], binder := "session" }
  [.call 0 (.createChallenge 1 (draws "c") "session" 0), .advance 0, .call 1 (.register 1 (draws "1") input),
    .call 2 (.register 1 (draws "2") input), .advance 1, .advance 2, .advance 1, .advance 2]

theorem ann_registers_once :
    (@ChallengesOnce .echo _ (.memory .memory) (fun _ env ttl => env.now + challengeTTL ttl)
        { mem := .empty, challs := .empty } annRegistersTwice ∧
      @ChallengesOnce .echo _ (@KeyBackend.redis .echo "p" .memory) (fun setAt _ ttl => setAt + challengeTTL ttl)
        { mem := .empty, redis := { entries := .empty } } annRegistersTwice) ∧
    (∃ key, (@keysAt .echo _ (@KeyBackend.redis .echo "p" .memory)
      { mem := .empty, redis := { entries := .empty } } annRegistersTwice 8).result 1 = some (.key (.ok key))) ∧
    (@keysAt .echo _ (@KeyBackend.redis .echo "p" .memory)
      { mem := .empty, redis := { entries := .empty } } annRegistersTwice 8).result 2 =
        some (.key (.error "challenge not found or expired")) :=
  ⟨@challenges_are_single_use .echo "p" .memory annRegistersTwice (by decide), ⟨_, rfl⟩, rfl⟩

end SynaMcp
