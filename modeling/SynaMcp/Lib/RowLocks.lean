import SynaMcp.Lib.SingleUse

/-! Single-use records in a database with row locks. A session selects its row for
update, checks it, marks it and commits. Any step may fail, and a commit may be reported
as failed though it went through. -/
namespace RowLocks
open Keyed Function Table

inductive Stage (α : Type) where
  | begun
  | locked (row : α)
  | marked (row : α)
  | done (row : α)
  | refused (error : String)

def Stage.Going {α : Type} (stage : Stage α) : Prop := ∀ r, stage ≠ .done r

namespace Stage
variable {α : Type}

theorem going_begun : (begun : Stage α).Going := by
  intro r ended
  cases ended

theorem going_locked (row : α) : (locked row).Going := by
  intro r ended
  cases ended

theorem going_marked (row : α) : (marked row).Going := by
  intro r ended
  cases ended

theorem going_refused (error : String) : (refused error : Stage α).Going := by
  intro r ended
  cases ended

end Stage

/-- A transaction that uses the record of `key`; the clock was read before it began. -/
structure Session (α κ τ : Type) where
  key : κ
  now : τ
  stage : Stage α := .begun

inductive Outcome where
  | done
  | rolledBack (error : String)
  | lost (error : String)

inductive Event (α : Type) where
  | insert (row : α)
  | select (i : Nat)
  | mark (i : Nat)
  | commit (i : Nat) (outcome : Outcome)
  | abort (i : Nat) (error : String)

structure Db {α κ : Type} (key : α → κ) (τ : Type) where
  rows : Table key
  locks : κ → Option Nat
  sessions : Nat → Option (Session α κ τ)

namespace Db
variable {α κ τ : Type} {key : α → κ} [DecidableEq κ]

def quiet (rows : Table key) : Db key τ where
  rows := rows
  locks _ := none
  sessions _ := none

variable (db : Db key τ) (i : Nat) (s : Session α κ τ)

def put : Db key τ :=
  { db with sessions := update db.sessions i (some s) }

def lock (db : Db key τ) (k : κ) (holder : Option Nat) : Db key τ := { db with locks := update db.locks k holder }

def start (db : Db key τ) (i : Nat) (k : κ) (now : τ) : Db key τ :=
  match db.sessions i with
  | none => db.put i { key := k, now := now }
  | some _ => db

def finish (stage : Stage α) : Db key τ :=
  (db.lock s.key none).put i { s with stage := stage }

/-- A row that another session holds is waited for. -/
def select (kind : SingleUse.Kind key τ) (db : Db key τ) (i : Nat) (s : Session α κ τ) : Db key τ :=
  match db.rows.get? s.key, db.locks s.key with
  | none, _ => db.put i { s with stage := .refused kind.unknown }
  | some _, some _ => db
  | some row, none => (db.lock s.key (some i)).put i { s with stage := .locked row }

def mark [LT τ] [DecidableLT τ] (kind : SingleUse.Kind key τ) (db : Db key τ) (i : Nat)
    (s : Session α κ τ) (row : α) : Db key τ :=
  if (kind.usedAt row).isSome then db.finish i s (.refused kind.used)
  else if kind.expiresAt row < s.now then db.finish i s (.refused kind.expired)
  else db.put i { s with stage := .marked (kind.mark s.now row) }

def commit (row : α) : Outcome → Db key τ
  | .done => { db with rows := db.rows.put row }.finish i s (.done row)
  | .rolledBack error => db.finish i s (.refused error)
  | .lost error => { db with rows := db.rows.put row }.finish i s (.refused error)

def step [LT τ] [DecidableLT τ] (kind : SingleUse.Kind key τ) (db : Db key τ) : Event α → Db key τ
  | .insert row =>
    match db.rows.get? (key row) with
    | some _ => db
    | none => { db with rows := db.rows.put row }
  | .select i =>
    match db.sessions i with
    | some ⟨k, now, .begun⟩ => db.select kind i ⟨k, now, .begun⟩
    | _ => db
  | .mark i =>
    match db.sessions i with
    | some ⟨k, now, .locked row⟩ => db.mark kind i ⟨k, now, .locked row⟩ row
    | _ => db
  | .commit i outcome =>
    match db.sessions i with
    | some ⟨k, now, .marked row⟩ => db.commit i ⟨k, now, .marked row⟩ row outcome
    | _ => db
  | .abort i error =>
    match db.sessions i with
    | some ⟨k, now, .begun⟩ => db.put i ⟨k, now, .refused error⟩
    | some ⟨k, now, .locked row⟩ => db.finish i ⟨k, now, .locked row⟩ (.refused error)
    | some ⟨k, now, .marked row⟩ => db.finish i ⟨k, now, .marked row⟩ (.refused error)
    | _ => db

def Valid [LT τ] (kind : SingleUse.Kind key τ) (db : Db key τ) (i : Nat) (s : Session α κ τ) : Prop :=
  match s.stage with
  | .begun | .refused _ => True
  | .locked row => db.locks s.key = some i ∧ db.rows.get? s.key = some row
  | .marked r =>
    db.locks s.key = some i ∧ ∃ row, db.rows.get? s.key = some row ∧ kind.usedAt row = none ∧
      ¬ kind.expiresAt row < s.now ∧ r = kind.mark s.now row
  | .done r =>
    db.rows.get? s.key = some r ∧ ∃ row, ¬ kind.expiresAt row < s.now ∧ r = kind.mark s.now row

structure Exclusive [LT τ] (kind : SingleUse.Kind key τ) (db : Db key τ) : Prop where
  valid : ∀ {i s}, db.sessions i = some s → db.Valid kind i s
  once : ∀ {i j s t r r'}, db.sessions i = some s → db.sessions j = some t →
    s.stage = .done r → t.stage = .done r' → s.key = t.key → i = j

section
variable [LT τ] {kind : SingleUse.Kind key τ} {db db' : Db key τ} {i j : Nat} {s s' t : Session α κ τ}

theorem exclusive_quiet (rows : Table key) : Exclusive kind (quiet rows : Db key τ) where
  valid started := by cases started
  once started := by cases started

omit [LT τ] in
theorem lock_locks_self (db : Db key τ) (k : κ) (holder : Option Nat) : (db.lock k holder).locks k = holder := by
  simp [lock]

omit [LT τ] in
theorem lock_locks_of_ne {k k'} (other : k' ≠ k) (db : Db key τ) (holder : Option Nat) :
    (db.lock k holder).locks k' = db.locks k' := by
  simp [lock, update_of_ne other]

theorem Valid.mono (h : db.Valid kind j t) (rows : db'.rows.get? t.key = db.rows.get? t.key)
    (lock : db.locks t.key = some j → db'.locks t.key = some j) : db'.Valid kind j t := by
  unfold Valid at h ⊢
  cases stage : t.stage with
  | begun | refused error => trivial
  | locked =>
    simp only [stage] at h ⊢
    exact ⟨lock h.1, rows.trans h.2⟩
  | marked =>
    simp only [stage, rows] at h ⊢
    exact ⟨lock h.1, h.2⟩
  | done =>
    simp only [stage, rows] at h ⊢
    exact h

theorem Valid.of_unused (h : db.Valid kind j t) (free : db.locks t.key ≠ some j)
    (unused : SingleUse.Unused kind db.rows t.key) : db'.Valid kind j t := by
  unfold Valid at h ⊢
  obtain ⟨row, found, fresh⟩ := unused
  cases stage : t.stage with
  | begun | refused error => trivial
  | locked row | marked r =>
    simp only [stage] at h
    exact absurd h.1 free
  | done =>
    simp only [stage] at h
    obtain ⟨stored, _, _, rfl⟩ := h
    cases found.symm.trans stored
    rw [kind.usedAt_mark] at fresh
    cases fresh

section
variable (h : Exclusive kind db)
include h

/-- The session of `i` changes; what the others know must still hold. -/
theorem Exclusive.change (sessions : db'.sessions = (db.put i s').sessions)
    (own : db'.Valid kind i s') (others : ∀ j t, j ≠ i → db.sessions j = some t → db'.Valid kind j t)
    (first : ∀ r j t r', s'.stage = .done r → db.sessions j = some t → t.stage = .done r' →
      t.key ≠ s'.key) : Exclusive kind db' := by
  have self : db'.sessions i = some s' := by simp [sessions, put]
  have other : ∀ j, j ≠ i → db'.sessions j = db.sessions j := by
    intro j ne
    simp [sessions, put, update_of_ne ne]
  constructor
  · intro j t started
    by_cases same : j = i
    · subst same
      cases self.symm.trans started
      exact own
    · exact others j t same (other j same ▸ started)
  · intro a b s t r r' sa tb sDone tDone keys
    by_cases ai : a = i
    · by_cases bi : b = i
      · rw [ai, bi]
      · subst ai
        cases self.symm.trans sa
        exact absurd keys.symm (first r b t r' sDone (other b bi ▸ tb) tDone)
    · by_cases bi : b = i
      · subst bi
        cases self.symm.trans tb
        exact absurd keys (first r' a s r tDone (other a ai ▸ sa) sDone)
      · exact h.once (other a ai ▸ sa) (other b bi ▸ tb) sDone tDone keys

theorem Exclusive.put (own : db.Valid kind i s') (going : s'.stage.Going) : Exclusive kind (db.put i s') :=
  h.change rfl (own.mono rfl fun held => held)
    (fun _ _ _ started => (h.valid started).mono rfl fun held => held)
    (fun r _ _ _ ended => absurd ended (going r))

theorem Exclusive.start (k : κ) (now : τ) : Exclusive kind (db.start i k now) := by
  unfold Db.start
  split
  · exact h.put trivial Stage.going_begun
  · exact h

theorem Exclusive.insert {row} (new : db.rows.get? (key row) = none) :
    Exclusive kind { db with rows := db.rows.put row } where
  valid := by
    intro j t started
    have valid := h.valid started
    by_cases same : key row = t.key
    · -- no session knows a row where there is none
      unfold Valid at valid ⊢
      rw [same] at new
      cases stage : t.stage with
      | begun | refused error => trivial
      | locked =>
        simp only [stage, new] at valid
        cases valid.2
      | marked =>
        simp only [stage, new] at valid
        obtain ⟨_, _, found, _⟩ := valid
        cases found
      | done =>
        simp only [stage, new] at valid
        cases valid.1
    · exact valid.mono (get?_put_of_ne db.rows same) fun held => held
  once := h.once

end

theorem Valid.lock {k holder} (h : db.Valid kind j t) (other : j ≠ i)
    (taker : db.locks k = none ∨ db.locks k = some i) : (db.lock k holder).Valid kind j t := by
  refine h.mono rfl fun held => ?_
  by_cases same : t.key = k
  · subst same
    rcases taker with free | own
    · cases free.symm.trans held
    · exact absurd (Option.some.inj (held.symm.trans own)) other
  · exact (lock_locks_of_ne same db holder).trans held

theorem Exclusive.refuse (h : Exclusive kind db) (held : db.locks s.key = some i) (error : String) :
    Exclusive kind (db.finish i s (.refused error)) :=
  h.change rfl trivial (fun _ _ other started => ((h.valid started).lock other (.inr held)).mono rfl fun l => l)
    fun r _ _ _ ended => absurd ended (Stage.going_refused error r)

theorem Exclusive.select (h : Exclusive kind db) : Exclusive kind (db.select kind i s) := by
  unfold Db.select
  split
  · exact h.put trivial (Stage.going_refused _)
  · exact h
  · next row found free =>
    refine h.change rfl ⟨lock_locks_self db s.key (some i), found⟩ (fun j t other started => ?_)
      fun r _ _ _ ended => absurd ended (Stage.going_locked row r)
    exact ((h.valid started).lock other (.inl free)).mono rfl fun l => l

theorem Exclusive.write (h : Exclusive kind db) {row} (held : db.locks s.key = some i)
    (unused : SingleUse.Unused kind db.rows s.key) (own : key row = s.key) (other : j ≠ i)
    (started : db.sessions j = some t) : ({ db with rows := db.rows.put row }.lock s.key none).Valid kind j t := by
  by_cases same : t.key = s.key
  · refine (h.valid started).of_unused ?_ (same ▸ unused)
    rw [same, held]
    exact fun eq => other (Option.some.inj eq).symm
  · exact (h.valid started).mono (get?_put_of_ne db.rows (own ▸ Ne.symm same))
      fun l => (lock_locks_of_ne same _ none).trans l

theorem Exclusive.commit {row} (h : Exclusive kind db)
    (valid : db.Valid kind i { s with stage := .marked row }) (outcome : Outcome) :
    Exclusive kind (db.commit i s row outcome) := by
  simp only [Valid] at valid
  obtain ⟨held, old, found, fresh, live, rfl⟩ := valid
  have unused : SingleUse.Unused kind db.rows s.key := ⟨old, found, fresh⟩
  have own : key (kind.mark s.now old) = s.key := (kind.key_mark s.now old).trans (key_of_get? found)
  have others : ∀ j t, j ≠ i → db.sessions j = some t →
      ({ db with rows := db.rows.put (kind.mark s.now old) }.lock s.key none).Valid kind j t :=
    fun _ _ other started => h.write held unused own other started
  cases outcome with
  | rolledBack error => exact h.refuse held error
  | lost error =>
    exact h.change rfl trivial (fun j t other started => (others j t other started).mono rfl fun l => l)
      fun r _ _ _ ended => absurd ended (Stage.going_refused error r)
  | done =>
    have stored : (db.rows.put (kind.mark s.now old)).get? s.key = some (kind.mark s.now old) := by
      conv_lhs => rw [← own]
      exact get?_put_self db.rows _
    refine h.change rfl ⟨stored, old, live, rfl⟩
      (fun j t other started => (others j t other started).mono rfl fun l => l) ?_
    intro _ j t r' _ started ended same
    -- whoever had used the record would have left it marked
    have used := h.valid started
    simp only [Valid, ended, same] at used
    obtain ⟨left, _, _, rfl⟩ := used
    cases found.symm.trans left
    rw [kind.usedAt_mark] at fresh
    cases fresh

variable [DecidableLT τ]

theorem Exclusive.mark {row} (h : Exclusive kind db)
    (valid : db.Valid kind i { s with stage := .locked row }) : Exclusive kind (db.mark kind i s row) := by
  obtain ⟨held, found⟩ := valid
  unfold Db.mark
  split
  · exact h.refuse held _
  · next fresh =>
    split
    · exact h.refuse held _
    · next live =>
      exact h.put ⟨held, row, found, by simpa using fresh, live, rfl⟩ (Stage.going_marked _)

theorem Exclusive.step (h : Exclusive kind db) (event : Event α) : Exclusive kind (db.step kind event) := by
  cases event with
  | insert =>
    simp only [Db.step]
    split
    · exact h
    · next new => exact h.insert new
  | select =>
    simp only [Db.step]
    split
    · exact h.select
    · exact h
  | mark =>
    simp only [Db.step]
    split
    · next started => exact h.mark (h.valid started)
    · exact h
  | commit i outcome =>
    simp only [Db.step]
    split
    · next started => exact h.commit (h.valid started) outcome
    · exact h
  | abort i error =>
    simp only [Db.step]
    split
    · exact h.put trivial (Stage.going_refused error)
    · next started => exact h.refuse (h.valid started).1 error
    · next started => exact h.refuse (h.valid started).1 error
    · exact h

omit [LT τ] [DecidableLT τ] in
theorem commit_sessions (row : α) (outcome : Outcome) :
    ∃ stage, (db.commit i s row outcome).sessions = (db.put i { s with stage := stage }).sessions := by
  cases outcome with
  | done | rolledBack error | lost error => exact ⟨_, rfl⟩

theorem step_sessions (event : Event α) : (db.step kind event).sessions = db.sessions ∨
      ∃ i s stage, db.sessions i = some s ∧ s.stage.Going ∧
        (db.step kind event).sessions = (db.put i { s with stage := stage }).sessions := by
  cases event with
  | insert =>
    simp only [Db.step]
    split <;> exact .inl rfl
  | select i =>
    simp only [Db.step]
    split
    · next started =>
      unfold Db.select
      split
      · exact .inr ⟨i, _, _, started, Stage.going_begun, rfl⟩
      · exact .inl rfl
      · exact .inr ⟨i, _, _, started, Stage.going_begun, rfl⟩
    · exact .inl rfl
  | mark i =>
    simp only [Db.step]
    split
    · next started =>
      unfold Db.mark
      split
      · exact .inr ⟨i, _, _, started, Stage.going_locked _, rfl⟩
      · split <;> exact .inr ⟨i, _, _, started, Stage.going_locked _, rfl⟩
    · exact .inl rfl
  | commit i outcome =>
    simp only [Db.step]
    split
    · next row started =>
      obtain ⟨stage, after⟩ := @commit_sessions _ _ _ _ _ db i _ row outcome
      exact .inr ⟨i, _, stage, started, Stage.going_marked row, after⟩
    · exact .inl rfl
  | abort i =>
    simp only [Db.step]
    split
    · next started => exact .inr ⟨i, _, _, started, Stage.going_begun, rfl⟩
    · next started => exact .inr ⟨i, _, _, started, Stage.going_locked _, rfl⟩
    · next started => exact .inr ⟨i, _, _, started, Stage.going_marked _, rfl⟩
    · exact .inl rfl

theorem step_session_some (started : db.sessions i = some s) (event : Event α) :
    ∃ s', (db.step kind event).sessions i = some s' ∧ s'.key = s.key ∧ ∀ r, s.stage = .done r → s' = s := by
  rcases @step_sessions _ _ _ _ _ _ kind db _ event with same | ⟨j, _, stage, was, going, after⟩
  · exact ⟨s, by rw [same, started], rfl, fun _ _ => rfl⟩
  · rw [after]
    by_cases own : i = j
    · subst own
      cases was.symm.trans started
      exact ⟨{ s with stage := stage }, by simp [put], rfl, fun r ended => absurd ended (going r)⟩
    · exact ⟨s, by simp [put, update_of_ne own, started], rfl, fun _ _ => rfl⟩

theorem step_session_none (quiet : db.sessions i = none) (event : Event α) :
    (db.step kind event).sessions i = none := by
  rcases @step_sessions _ _ _ _ _ _ kind db _ event with same | ⟨j, _, _, was, _, after⟩
  · rw [same, quiet]
  · have other : i ≠ j := by
      rintro rfl
      cases quiet.symm.trans was
    rw [after]
    simp [put, update_of_ne other, quiet]

end

end Db
end RowLocks
