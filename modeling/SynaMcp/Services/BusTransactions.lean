import SynaMcp.Services.BusBackends

/-! The bus in Postgres under READ COMMITTED. An event has its id from its insert on and
is seen from its commit on, and a `Consume` writes the id of the last event it has
fetched over whatever is stored by then. -/
namespace SynaMcp
variable {last : Int} {r e : BusRow}
open Keyed Cursor List Function Runs Nat

theorem le_fetch {events max} (mem : r ∈ fetch events last max) : r ∈ events.rows ∧ last < r.id := by
  have sorted := mem_of_mem_take mem
  simpa [ordered] using sorted

/-- No row above the id is passed over for one with a larger id. -/
theorem mem_fetch {events max} (row : e ∈ events.rows)
    (above : last < e.id) (mem : r ∈ fetch events last max) (le : e.id ≤ r.id) : e ∈ fetch events last max := by
  unfold fetch ordered at mem ⊢
  have order := pairwise_insertionSort (fun a b : BusRow => a.id ≤ b.id)
    (events.rows.filter fun r => decide (last < r.id))
  have sorted : e ∈ (events.rows.filter fun r => decide (last < r.id)).insertionSort fun a b => a.id ≤ b.id := by
    simpa using ⟨row, above⟩
  rw [← take_append_drop max (List.insertionSort _ _)] at order sorted
  rcases List.mem_append.mp sorted with found | later
  · exact found
  · have ge := (List.pairwise_append.mp order).2.2 r mem e later
    rw [Table.eq_of_key_eq row (le_fetch mem).1 (Int.le_antisymm le ge)]
    exact mem

theorem fetch_ne_nil {events max} (row : e ∈ events.rows)
    (above : last < e.id) : fetch events last (orTen max) ≠ [] := by
  have some : (events.rows.filter fun r => decide (last < r.id)).insertionSort (fun a b => a.id ≤ b.id) ≠ [] := by
    refine ne_nil_of_mem (a := e) ?_
    simpa using ⟨row, above⟩
  intro none
  rcases List.take_eq_nil_iff.mp none with zero | nil
  · unfold orTen at zero
    split at zero
    · cases zero
    · omega
  · exact some nil

/-- A transaction under way: a `Produce` after its insert, and a `Consume` after its first
and its second query, the second with its time. -/
inductive BusTx where
  | inserted (id : Int)
  | began (name : String) (max : Int) (last : Int)
  | fetched (name : String) (last : Int) (out : List BusRow) (time : Nat)

inductive BusTxEvent (ι : Type) where
  | insert (i : ι) (gap : Nat) (payload : String) (now : Time)
  | readOffset (i : ι) (consumer : String) (max : Int)
  | fetch (i : ι)
  | commit (i : ι)
  | abort (i : ι)

/-- The rows that were inserted, and which of them are committed. The last two fields are
history: what committed calls of a consumer have returned, and when they fetched it. -/
structure BusDb (ι : Type) where
  rows : Table BusRow.id := .empty
  committed : Int → Bool := fun _ => false
  sequence : Int := 0
  lastID : String → Int := fun _ => 0
  txs : ι → Option BusTx := fun _ => none
  clock : Nat := 0
  given : String → List BusRow := fun _ => []
  looked : List (String × Nat) := []

namespace BusDb
variable {ι : Type} {s s' : BusDb ι} {e : BusRow} {name : String} {m : Nat}

def events (s : BusDb ι) : Table BusRow.id := s.rows.deleteWhere fun r => !s.committed r.id

theorem mem_events : e ∈ s.events.rows ↔ e ∈ s.rows.rows ∧ s.committed e.id = true := by
  simp [events]

def looks (s : BusDb ι) (name : String) (m : Nat) : Nat :=
  (s.looked.filter fun l => decide (l.1 = name ∧ m ≤ l.2)).length

section
variable [DecidableEq ι]

def setTx (s : BusDb ι) (i : ι) (tx : Option BusTx) : BusDb ι :=
  { s with txs := update s.txs i tx, clock := s.clock + 1 }

/-- The offset is written with the commit: who writes it first holds its row until then. -/
def commit (s : BusDb ι) (i : ι) : BusTx → BusDb ι
  | .inserted id => { s.setTx i none with committed := update s.committed id true }
  | .began .. => s
  | .fetched name _ out time =>
    { s.setTx i none with
      lastID := update s.lastID name (moved BusRow.id (s.lastID name) out)
      given := update s.given name (s.given name ++ out)
      looked := (name, time) :: s.looked }

def step (s : BusDb ι) : BusTxEvent ι → BusDb ι
  | .insert i gap payload now =>
    let id := s.sequence + gap + 1
    match s.txs i with
    | none =>
      { s with
        rows := s.rows.put ⟨id, payload, now⟩
        committed := update s.committed id false
        sequence := id }.setTx i (some (.inserted id))
    | some _ => s
  | .readOffset i consumer max =>
    match s.txs i with
    | none => s.setTx i (some (.began (consumerName consumer) max (s.lastID (consumerName consumer))))
    | some _ => s
  | .fetch i =>
    match s.txs i with
    | some (.began name max last) =>
      s.setTx i (some (.fetched name last (SynaMcp.fetch s.events last (orTen max)) s.clock))
    | _ => s
  | .commit i => (s.txs i).elim s (s.commit i)
  | .abort i => s.setTx i none

end

/-- An event is committed while no offset is at its id or above, nor about to be; an offset
is written while it is the one that the call has read. -/
def Clear (s : BusDb ι) : BusTxEvent ι → Prop
  | .commit i => ∀ tx, s.txs i = some tx →
      match tx with
      | .inserted id => (∀ name, s.lastID name < id) ∧
          ∀ j name last out time, s.txs j = some (.fetched name last out time) → ∀ r ∈ out, r.id < id
      | .began .. => True
      | .fetched name last out _ => out ≠ [] → s.lastID name = last
  | _ => True

def Fits (s : BusDb ι) : BusTx → Prop
  | .inserted _ => True
  | .began name _ last => last ≤ s.lastID name
  | .fetched name last out time => last ≤ s.lastID name ∧ time < s.clock ∧ (∀ r ∈ out, last < r.id) ∧
      ∀ e ∈ s.events.rows, last < e.id → (∃ r ∈ out, e.id ≤ r.id) → e ∈ out

structure Sound (s : BusDb ι) : Prop where
  drawn : ∀ r ∈ s.rows.rows, r.id ≤ s.sequence
  fits : ∀ i tx, s.txs i = some tx → s.Fits tx
  zero : ∀ name, 0 ≤ s.lastID name
  given : ∀ name, ∀ e ∈ s.events.rows, e.id ≤ s.lastID name → e ∈ s.given name
  looked : ∀ l ∈ s.looked, l.2 < s.clock

theorem Fits.later {tx} (h : s.Fits tx) (rows : ∀ e ∈ s'.events.rows, e ∈ s.events.rows)
    (last : ∀ name, s.lastID name ≤ s'.lastID name) (clock : s.clock ≤ s'.clock) : s'.Fits tx := by
  cases tx with
  | inserted => trivial
  | began name => exact le_trans h (last name)
  | fetched name =>
    obtain ⟨le, before, above, found⟩ := h
    exact ⟨le.trans (last name), before.trans_le clock, above, fun e mem => found e (rows e mem)⟩

/-- The offset moves up to the last row that is returned, and nothing in between is missing. -/
theorem Sound.returned (h : s.Sound) {i last out time}
    (tx : s.txs i = some (.fetched name last out time)) (clear : s.Clear (.commit i)) :
    s.lastID name ≤ moved BusRow.id (s.lastID name) out ∧
      (out ≠ [] → s.lastID name < moved BusRow.id (s.lastID name) out) ∧
      ∀ e ∈ s.events.rows, e.id ≤ moved BusRow.id (s.lastID name) out → e ∈ s.given name ++ out := by
  obtain ⟨_, _, above, found⟩ := h.fits i _ tx
  rcases eq_nil_or_concat out with rfl | ⟨before, z, rfl⟩
  · exact ⟨le_rfl, fun none => absurd rfl none, fun e row le => mem_append_left _ (h.given name e row le)⟩
  · rw [concat_eq_append] at *
    have read : s.lastID name = last := clear _ tx (by simp)
    have moves : moved BusRow.id (s.lastID name) (before ++ [z]) = z.id := by simp [moved]
    have up : last < z.id := above z (by simp)
    rw [moves, read]
    refine ⟨up.le, fun _ => up, fun e row le => ?_⟩
    by_cases passed : e.id ≤ last
    · exact mem_append_left _ (h.given name e row (read ▸ passed))
    · exact mem_append_right _ (found e row (not_le.mp passed) ⟨z, by simp, le⟩)

variable [DecidableEq ι]

inductive Moves (s : BusDb ι) : BusDb ι → Prop
  | stays : Moves s s
  | goes {i : ι} {tx : Option BusTx} {s' : BusDb ι} (rows : ∀ e, e ∈ s'.events.rows ↔ e ∈ s.events.rows)
      (drawn : ∀ r ∈ s'.rows.rows, r.id ≤ s'.sequence) (fits : ∀ t, tx = some t → (s'.setTx i tx).Fits t)
      (looks : ∀ name last time, tx = some (.fetched name last [] time) → ∀ e ∈ s.events.rows, e.id ≤ last)
      (same : s' = { s with rows := s'.rows, committed := s'.committed, sequence := s'.sequence }) :
      Moves s (s'.setTx i tx)
  | produces {i id} (tx : s.txs i = some (.inserted id)) (clear : s.Clear (.commit i)) :
      Moves s (s.commit i (.inserted id))
  | consumes {i name last out time}
      (tx : s.txs i = some (.fetched name last out time)) (clear : s.Clear (.commit i)) :
      Moves s (s.commit i (.fetched name last out time))

theorem moves_step (h : s.Sound) {event} (clear : s.Clear event) : Moves s (s.step event) := by
  cases event with
  | insert i gap =>
    have old : ∀ r ∈ s.rows.rows, r.id < s.sequence + gap + 1 := by
      intro r row
      have := h.drawn r row
      omega
    simp only [step]
    split
    · refine .goes (fun e => ?_) (fun r mem => ?_) (fun t new => ?_) (by simp) rfl
      · simp only [mem_events, Table.mem_put, update_apply]
        constructor
        · rintro ⟨rfl | ⟨row, other⟩, committed⟩
          · simp at committed
          · exact ⟨row, by simpa [other] using committed⟩
        · rintro ⟨row, committed⟩
          have other := (old e row).ne
          exact ⟨.inr ⟨row, other⟩, by simpa [other] using committed⟩
      · rcases Table.mem_put.mp mem with rfl | ⟨row, _⟩
        · exact le_rfl
        · exact (old r row).le
      · cases new
        trivial
    · exact .stays
  | readOffset i consumer =>
    simp only [step]
    split
    · refine .goes (fun _ => .rfl) h.drawn ?_ (by simp) rfl
      rintro _ ⟨⟩
      exact le_refl (s.lastID (consumerName consumer))
    · exact .stays
  | fetch i =>
    simp only [step]
    split
    · next name max last tx =>
      refine .goes (fun _ => .rfl) h.drawn ?_ ?_ rfl
      · rintro _ ⟨⟩
        refine ⟨h.fits i _ tx, lt_succ_self _, fun r mem => (le_fetch mem).2, fun e row lt => ?_⟩
        rintro ⟨r, mem, le⟩
        exact mem_fetch row lt mem le
      · intro name last time looked e row
        simp only [Option.some.injEq, BusTx.fetched.injEq] at looked
        obtain ⟨rfl, rfl, none, rfl⟩ := looked
        exact not_lt.mp fun lt => fetch_ne_nil row lt none
    · exact .stays
  | commit i =>
    cases tx : s.txs i with
    | none =>
      simp only [step, tx]
      exact .stays
    | some t =>
      simp only [step, tx]
      cases t with
      | inserted => exact .produces tx clear
      | began => exact .stays
      | fetched => exact .consumes tx clear
  | abort => exact .goes (fun _ => .rfl) h.drawn (by simp) (by simp) rfl

theorem Moves.lastID (moves : Moves s s') (h : s.Sound) (name : String) : s.lastID name ≤ s'.lastID name := by
  cases moves with
  | stays => exact le_rfl
  | goes _ _ _ _ same =>
    rw [same]
    exact le_rfl
  | produces => exact le_rfl
  | @consumes _ name' _ _ _ tx clear =>
    by_cases own : name = name'
    · subst own
      simpa [commit] using (h.returned tx clear).1
    · simp [commit, own]

theorem update_none {i j tx} (at_ : update s.txs i none j = some tx) : s.txs j = some tx := by
  by_cases own : j = i
  · simp [own] at at_
  · simpa [own] using at_

theorem Sound.moves (h : s.Sound) (moves : Moves s s') : s'.Sound := by
  cases moves with
  | stays => exact h
  | @goes i _ _ rows drawn fits _ same =>
    refine ⟨drawn, fun j t at_ => ?_, same ▸ h.zero, fun name e mem le => ?_, fun l mem => ?_⟩
    · by_cases own : j = i
      · subst own
        exact fits t (by simpa [setTx] using at_)
      · refine (h.fits j t ?_).later (fun e mem => (rows e).mp mem) ?_ ?_
        · rw [same] at at_
          simpa [setTx, own] using at_
        · rw [same]
          exact fun _ => le_rfl
        · rw [same]
          exact le_succ _
    · rw [same] at le ⊢
      exact h.given name e ((rows e).mp mem) le
    · rw [same] at mem ⊢
      exact lt_succ_of_lt (h.looked l mem)
  | @produces i id tx clear =>
    obtain ⟨offsets, fetches⟩ := clear _ tx
    have new : ∀ e ∈ (s.commit i (.inserted id)).events.rows, e.id = id ∨ e ∈ s.events.rows := by
      intro e mem
      obtain ⟨row, seen⟩ := mem_events.mp mem
      by_cases own : e.id = id
      · exact .inl own
      · exact .inr (mem_events.mpr ⟨row, by simpa [commit, setTx, own] using seen⟩)
    refine ⟨h.drawn, fun j t at_ => ?_, h.zero, fun name e mem le => ?_, fun l mem => lt_succ_of_lt (h.looked l mem)⟩
    · have old := update_none at_
      cases t with
      | inserted => trivial
      | began => exact h.fits j _ old
      | fetched name last out time =>
        obtain ⟨le, before, above, found⟩ := h.fits j _ old
        refine ⟨le, before.trans (lt_succ_self _), above, fun e mem lt => ?_⟩
        rintro ⟨r, fetched, le'⟩
        rcases new e mem with own | stored
        · exact absurd (fetches j name last out time old r fetched) (not_lt.mpr (own ▸ le'))
        · exact found e stored lt ⟨r, fetched, le'⟩
    · rcases new e mem with own | stored
      · exact absurd (offsets name) (not_lt.mpr (own ▸ le))
      · exact h.given name e stored le
  | @consumes i name _ _ _ tx clear =>
    have later := Moves.lastID (.consumes tx clear) h
    refine ⟨h.drawn, fun j t at_ => (h.fits j t (update_none at_)).later (fun _ mem => mem) later (le_succ _),
      fun name' => (h.zero name').trans (later name'), fun name' e row le => ?_, fun l mem => ?_⟩
    · by_cases own : name' = name
      · subst own
        simpa [commit] using (h.returned tx clear).2.2 e row (by simpa [commit] using le)
      · simpa [commit, own] using h.given name' e row (by simpa [commit, own] using le)
    · rcases List.mem_cons.mp mem with rfl | old
      · exact lt_succ_of_lt (h.fits i _ tx).2.1
      · exact lt_succ_of_lt (h.looked l old)

structure Nears (e : BusRow) (name : String) (m : Nat) (s : BusDb ι) : Prop where
  row : e ∈ s.events.rows
  passed : min e.id (s.looks name m) ≤ s.lastID name
  pending : ∀ i last time, s.txs i = some (.fetched name last [] time) → m ≤ time → e.id ≤ last

theorem Nears.moves (near : Nears e name m s) (h : s.Sound) (moves : Moves s s') : Nears e name m s' := by
  cases moves with
  | stays => exact near
  | @goes i _ _ rows _ _ looks same =>
    refine ⟨(rows e).mpr near.row, ?_, fun j last time at_ le => ?_⟩
    · rw [same]
      exact near.passed
    · by_cases own : j = i
      · exact looks name last time (by simpa [setTx, own] using at_) e near.row
      · rw [same] at at_
        exact near.pending j last time (by simpa [setTx, own] using at_) le
  | produces =>
    obtain ⟨row, seen⟩ := mem_events.mp near.row
    refine ⟨mem_events.mpr ⟨row, ?_⟩, near.passed, fun j last time at_ => near.pending j last time (update_none at_)⟩
    simp [commit, setTx, update_apply, seen]
  | @consumes i name' last out time tx clear =>
    refine ⟨near.row, ?_, fun j last time at_ => near.pending j last time (update_none at_)⟩
    have passed := near.passed
    by_cases counts : name' = name ∧ m ≤ time
    · obtain ⟨rfl, since⟩ := counts
      have more : (s.commit i (.fetched name' last out time)).looks name' m = s.looks name' m + 1 := by
        simp [looks, commit, since]
      have offset : (s.commit i (.fetched name' last out time)).lastID name' = moved BusRow.id (s.lastID name') out :=
        update_self ..
      rw [more, offset]
      by_cases none : out = []
      · subst none
        have := near.pending i last time tx since
        have := (h.fits i _ tx).1
        have := (h.returned tx clear).1
        omega
      · have := (h.returned tx clear).2.1 none
        omega
    · have same : (s.commit i (.fetched name' last out time)).looks name m = s.looks name m := by
        simp [looks, commit, counts]
      rw [same]
      exact passed.trans (Moves.lastID (.consumes tx clear) h name)

theorem Moves.clock (moves : Moves s s') : s'.clock ≤ s.clock + 1 := by
  cases moves with
  | stays => exact le_succ _
  | goes _ _ _ _ same =>
    rw [same]
    exact le_rfl
  | produces | consumes => exact le_rfl

/-- What the events of a run keep, from any of its moments on; there may be no more of them. -/
theorem keeps {events} (met : Runs.Guarded Clear step ({} : BusDb ι) events)
    {P : Nat → BusDb ι → Prop} (start : (run step {} (events.take m)).Sound → P m (run step {} (events.take m)))
    (idle : ∀ n s, P n s → P (n + 1) s) (kept : ∀ n s s', s.Sound → Moves s s' → P n s → P (n + 1) s') {n}
    (le : m ≤ n) : (run step {} (events.take n)).Sound ∧ P n (run step {} (events.take n)) := by
  have sound : ∀ n, (run step ({} : BusDb ι) (events.take n)).Sound := fun n =>
    run_invariant (fun s _ h clear => h.moves (moves_step h clear)) (met.take n)
      ⟨by simp, by simp, by simp, by simp [mem_events], by simp⟩
  refine ⟨sound n, run_take_induction (start (sound m)) idle (fun n event _ input h => ?_) le⟩
  exact kept n _ _ (sound n) (moves_step (sound n) (met.input input)) h

end BusDb

/-- Where events are committed and offsets written under the condition, an offset never
goes back, and a committed event is returned to a consumer once as many of its calls
have looked as its id says. -/
theorem bus_skips_nothing {ι : Type} [DecidableEq ι] (events : List (BusTxEvent ι))
    (met : Runs.Guarded BusDb.Clear BusDb.step {} events) (m n : Nat) (le : m ≤ n) (name : String) :
    let s := run BusDb.step {} (events.take m)
    let s' := run BusDb.step {} (events.take n)
    s.lastID name ≤ s'.lastID name ∧ ∀ e ∈ s.events.rows, e.id ≤ s'.looks name m → e ∈ s'.given name := by
  intro s s'
  constructor
  · refine (BusDb.keeps met (P := fun _ t => s.lastID name ≤ t.lastID name) (fun _ => le_rfl) (fun _ _ h => h) ?_ le).2
    exact fun _ _ _ sound moves h => h.trans (moves.lastID sound name)
  · intro e row often
    have clock : s.clock ≤ m :=
      (BusDb.keeps met (P := fun n t => t.clock ≤ n) (fun _ => le_rfl) (fun _ _ h => le_succ_of_le h)
        (fun _ _ _ _ moves h => moves.clock.trans (succ_le_succ h)) (zero_le m)).2
    have start : s.Sound → s.Nears e name m := by
      intro sound
      have none : s.looks name m = 0 := by
        refine List.length_eq_zero_iff.mpr (List.filter_eq_nil_iff.mpr fun l mem => ?_)
        have := sound.looked l mem
        simp only [decide_eq_true_eq]
        omega
      refine ⟨row, ?_, fun i last time tx since => ?_⟩
      · have := sound.zero name
        omega
      · have := (sound.fits i _ tx).2.1
        omega
    obtain ⟨sound, near⟩ := BusDb.keeps met (P := fun _ t => t.Nears e name m) start (fun _ _ h => h)
      (fun _ _ _ sound moves h => h.moves sound moves) le
    have passed : min e.id (s'.looks name m) ≤ s'.lastID name := near.passed
    have le : e.id ≤ s'.lastID name := by omega
    exact sound.given name e near.row le

theorem event_is_returned :
    (⟨1, "a", 0⟩ : BusRow) ∈ (Runs.run BusDb.step {} [.insert 0 0 "a" 0, .commit 0, .readOffset 1 "c" 0, .fetch 1,
      .commit 1]).given "c" := by
  refine (bus_skips_nothing [.insert 0 0 "a" 0, .commit 0, .readOffset 1 "c" 0, .fetch 1, .commit 1] ?_ 2 5 (by decide)
    "c").2 _ (by decide) (by decide)
  refine ⟨trivial, ?_, trivial, trivial, ?_, trivial⟩
  · rintro _ ⟨⟩
    refine ⟨fun _ => Int.zero_lt_one, fun j name last out time tx => ?_⟩
    simp [BusDb.step, BusDb.setTx, update_apply] at tx
  · rintro _ ⟨⟩ _
    rfl

/-- Two events, of which the second is committed before a consumer looks; the first is
committed afterwards, and the consumer looks again. -/
def lateCommit : List (BusTxEvent Nat) :=
  [.insert 0 0 "a" 0, .insert 1 0 "b" 0, .commit 1, .readOffset 2 "c" 0, .fetch 2, .commit 2, .commit 0,
    .readOffset 3 "c" 0, .fetch 3, .commit 3]

def overtaken : List (BusTxEvent Nat) :=
  [.insert 0 0 "a" 0, .commit 0, .readOffset 1 "c" 0, .fetch 1, .insert 0 0 "b" 0, .commit 0, .readOffset 2 "c" 0,
    .fetch 2, .commit 2]

theorem late_event_is_skipped :
    (⟨1, "a", 0⟩ ∈ (Runs.run BusDb.step {} (lateCommit.take 7)).events.rows ∧
      1 ≤ (Runs.run BusDb.step {} lateCommit).looks "c" 7 ∧
      ⟨1, "a", 0⟩ ∉ (Runs.run BusDb.step {} lateCommit).given "c") ∧
    (Runs.run BusDb.step {} (overtaken ++ [.commit 1])).lastID "c" < (Runs.run BusDb.step {} overtaken).lastID "c" := by
  decide

end SynaMcp
