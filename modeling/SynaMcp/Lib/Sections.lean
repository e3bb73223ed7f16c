import SynaMcp.Lib.Run
import Mathlib.Data.Set.Image

/-! Calls that share state and work on it in critical sections. The state is looked at
through its cells; calls whose writes stay in hidden cells can be removed from a run
without a change to the results of the calls that read none of them. -/
namespace Sections
open Function List Runs

/-- A call: a sequence of critical sections up to a result. The code between two
sections is pure, and is taken into the section before it. -/
inductive Prog (σ ρ : Type) where
  | done (result : ρ)
  | enter (act : σ → σ) (next : σ → Prog σ ρ)

namespace Prog
variable {σ ρ α β : Type}

def bind : Prog σ α → (α → Prog σ β) → Prog σ β
  | .done a, k => k a
  | .enter act next, k => .enter act fun s => (next s).bind k

instance : Monad (Prog σ) where
  pure := .done
  bind := bind

def atomic (f : σ → σ × ρ) : Prog σ ρ := .enter (fun s => (f s).1) fun s => .done (f s).2

def read (f : σ → ρ) : Prog σ ρ := .enter (fun s => s) fun s => .done (f s)

def zoom {τ : Type} (get : τ → σ) (set : σ → τ → τ) : Prog σ ρ → Prog τ ρ
  | .done result => .done result
  | .enter act next => .enter (fun t => set (act (get t)) t) fun t => (next (get t)).zoom get set

end Prog

abbrev Try (σ : Type) := ExceptT String (Prog σ)

namespace Try
variable {σ ρ : Type}

def require (p : Prop) [Decidable p] (e : String) : Try σ Unit := .mk (.done (if p then .ok () else .error e))

def expect (value : Option ρ) (e : String) : Try σ ρ :=
  .mk (.done (match value with | some r => .ok r | none => .error e))

def ofExcept (value : Except String ρ) : Try σ ρ := .mk (.done value)

theorem require_pos {p} [Decidable p] (h : p) {e} (k : Unit → Try σ ρ) : (require p e >>= k) = k () := by
  simp only [require, if_pos h]
  rfl

theorem require_neg {p} [Decidable p] (h : ¬ p) {e} (k : Unit → Try σ ρ) :
    (require p e >>= k) = ofExcept (.error e) := by
  simp only [require, if_neg h]
  rfl

theorem ofExcept_ok {α} (a : α) (k : α → Try σ ρ) : (ofExcept (.ok a) >>= k) = k a := rfl

def atomic (f : σ → σ × Except String ρ) : Try σ ρ := .mk (.atomic f)

def read (f : σ → Except String ρ) : Try σ ρ := .mk (.read f)

def each {α : Type} (f : α → Try σ ρ) : List α → Try σ (List ρ)
  | [] => pure []
  | a :: rest => do
      let r ← f a
      let results ← each f rest
      return r :: results

end Try

section
variable {σ ρ α β κ : Type} {ν : κ → Type} (cell : σ → (k : κ) → ν k)

/-- The two states have the same values in the cells of `K`. -/
def Agree (K : Set κ) (s t : σ) : Prop := ∀ k ∈ K, cell s k = cell t k

/-- The call reads cells of `R` and writes cells of `W`. -/
inductive Within (R W : Set κ) : Prog σ ρ → Prop where
  | done (result : ρ) : Within R W (.done result)
  | enter {act next} (frame : ∀ s k, k ∉ W → cell (act s) k = cell s k)
      (own : ∀ s t, Agree cell R s t → Agree cell W (act s) (act t))
      (same : ∀ s t, Agree cell R s t → next s = next t) (rest : ∀ s, Within R W (next s)) :
      Within R W (.enter act next)

/-- What the call does to the cells outside `H`, and how it goes on, depends on the
cells outside `H` only. -/
inductive Blind (H : Set κ) : Prog σ ρ → Prop where
  | done (result : ρ) : Blind H (.done result)
  | enter {act next}
      (own : ∀ s t, Agree cell Hᶜ s t → Agree cell Hᶜ (act s) (act t))
      (same : ∀ s t, Agree cell Hᶜ s t → next s = next t) (rest : ∀ s, Blind H (next s)) :
      Blind H (.enter act next)

/-- In states of `P` the call writes cells of `H` only. -/
inductive Harmless (H : Set κ) (P : σ → Prop) : Prog σ ρ → Prop where
  | done (result : ρ) : Harmless H P (.done result)
  | enter {act next} (within : ∀ s, P s → Agree cell Hᶜ (act s) s)
      (rest : ∀ s, Harmless H P (next s)) : Harmless H P (.enter act next)

variable {cell} {R W R' W' H : Set κ} {P : σ → Prop} {p : Prog σ α} {s t u : σ}

theorem Agree.refl (K : Set κ) (s : σ) : Agree cell K s s := fun _ _ => rfl

theorem Agree.mono {K K'} (h : Agree cell K s t) (sub : K' ⊆ K) : Agree cell K' s t := fun k mem => h k (sub mem)

theorem Agree.trans {K} (h : Agree cell K s t) (h' : Agree cell K t u) : Agree cell K s u :=
  fun k mem => (h k mem).trans (h' k mem)

variable {k : α → Prog σ β}

theorem Within.bind (h : Within cell R W p) (rest : ∀ a, Within cell R W (k a)) : Within cell R W (p >>= k) := by
  induction h with
  | done a => exact rest a
  | enter frame own same _ ih =>
    refine .enter frame own (fun s t agree => ?_) ih
    rw [same s t agree]

/-- A section is given by what it leaves alone, what it writes and what it returns. -/
theorem Within.atomic {f : σ → σ × α} (frame : ∀ s k, k ∉ W → cell (f s).1 k = cell s k)
    (own : ∀ s t, Agree cell R s t → Agree cell W (f s).1 (f t).1 ∧ (f s).2 = (f t).2) :
    Within cell R W (.atomic f) := by
  refine .enter frame (fun s t agree => (own s t agree).1) (fun s t agree => ?_) fun s => .done _
  rw [(own s t agree).2]

theorem Within.read {f : σ → α} (same : ∀ s t, Agree cell R s t → f s = f t) (sub : W ⊆ R) :
    Within cell R W (.read f) := by
  refine .enter (fun _ _ _ => rfl) (fun s t agree => agree.mono sub) (fun s t agree => ?_) fun s => .done _
  rw [same s t agree]

theorem Within.mono (h : Within cell R W p) (reads : R ⊆ R') (writes : W ⊆ W') (sub : W' ⊆ R') :
    Within cell R' W' p := by
  induction h with
  | done a => exact .done a
  | enter frame own same _ ih =>
    refine .enter (fun s k out => frame s k fun mem => out (writes mem)) (fun s t agree k mem => ?_)
      (fun s t agree => same s t (agree.mono reads)) ih
    by_cases written : k ∈ W
    · exact own s t (agree.mono reads) k written
    · rw [frame s k written, frame t k written]
      exact agree k (sub mem)

theorem Within.blind (h : Within cell R W p) (apart : ∀ k ∈ R, k ∉ H) : Blind cell H p := by
  induction h with
  | done a => exact .done a
  | enter frame own same _ ih =>
    refine .enter (fun s t agree k mem => ?_) (fun s t agree => same s t (agree.mono apart)) ih
    by_cases written : k ∈ W
    · exact own s t (agree.mono apart) k written
    · rw [frame s k written, frame t k written]
      exact agree k mem

theorem Within.harmless (h : Within cell R W p) (sub : W ⊆ H) : Harmless cell H P p := by
  induction h with
  | done a => exact .done a
  | enter frame _ _ _ ih => exact .enter (fun s _ k mem => frame s k fun written => mem (sub written)) ih

theorem Within.attempt {p} {k : α → Try σ β} (h : Within cell R W p.run)
    (rest : ∀ a, Within cell R W (k a).run) : Within cell R W (p >>= k).run := by
  refine h.bind fun a => ?_
  cases a with
  | ok a => exact rest a
  | error => exact .done _

theorem Within.whole (p : Prog σ α) : Within (fun (s : σ) (_ : Unit) => s) Set.univ Set.univ p := by
  induction p with
  | done a => exact .done a
  | enter act next ih =>
    refine .enter (fun s k out => absurd trivial out) (fun s t agree k mem => ?_) (fun s t agree => ?_) ih
    · exact congrArg act (agree () mem)
    · exact congrArg next (agree () trivial)

theorem Within.each {f : α → Try σ β} (h : ∀ a, Within cell R W (f a).run) (as : List α) :
    Within cell R W (Try.each f as).run := by
  induction as with
  | nil => exact .done _
  | cons a rest ih => exact (h a).attempt fun _ => ih.attempt fun _ => .done _

theorem Harmless.bind (h : Harmless cell H P p) (rest : ∀ a, Harmless cell H P (k a)) :
    Harmless cell H P (p >>= k) := by
  induction h with
  | done a => exact rest a
  | enter within _ ih => exact .enter within ih

theorem Harmless.imp {Q} (h : Harmless cell H P p) (stronger : ∀ s, Q s → P s) : Harmless cell H Q p := by
  induction h with
  | done a => exact .done a
  | enter within _ ih => exact .enter (fun s holds => within s (stronger s holds)) ih

theorem Blind.bind (h : Blind cell H p) (rest : ∀ a, Blind cell H (k a)) : Blind cell H (p >>= k) := by
  induction h with
  | done a => exact rest a
  | enter own same _ ih =>
    refine .enter own (fun s t agree => ?_) ih
    rw [same s t agree]

/-- A section that changes each cell by its own value alone reads no cell of `H` for
the others. -/
theorem Blind.pointwise {f : σ → σ} {a : α} (own : ∀ s t k, cell s k = cell t k → cell (f s) k = cell (f t) k) :
    Blind cell H (.atomic fun s => (f s, a)) :=
  .enter (fun s t agree k mem => own s t k (agree k mem)) (fun _ _ _ => rfl) fun _ => .done a

end

section
variable {σ τ α κ μ : Type} {ν : μ → Type}

/-- A part of the state: `place` says which cells of the whole are its cells. -/
structure Part (place : κ → μ) (cell : σ → (k : κ) → ν (place k)) (whole : τ → (k : μ) → ν k) (get : τ → σ)
    (set : σ → τ → τ) : Prop where
  view : ∀ t k, whole t (place k) = cell (get t) k
  get_set : ∀ s t, get (set s t) = s
  frame : ∀ s t k, k ∉ Set.range place → whole (set s t) k = whole t k

variable {place : κ → μ} {cell : σ → (k : κ) → ν (place k)} {whole : τ → (k : μ) → ν k} {get : τ → σ}
  {set : σ → τ → τ} {p : Prog σ α}

namespace Part

section
variable (part : Part place cell whole get set)
include part

theorem view_set (s : σ) (t : τ) (k : κ) : whole (set s t) (place k) = cell s k := by
  rw [part.view, part.get_set]

theorem agree {K s t} (h : Agree whole (place '' K) s t) : Agree cell K (get s) (get t) := by
  intro k mem
  rw [← part.view s k, ← part.view t k]
  exact h (place k) ⟨k, mem, rfl⟩

theorem within {R W} (h : Within cell R W p) : Within whole (place '' R) (place '' W) (p.zoom get set) := by
  induction h with
  | done a => exact .done a
  | enter frame own same _ ih =>
    refine .enter (fun t k out => ?_) (fun s t same => ?_) (fun s t agree => ?_) fun t => ih (get t)
    · by_cases inside : k ∈ Set.range place
      · obtain ⟨k, rfl⟩ := inside
        rw [part.view_set, part.view, frame (get t) k fun mem => out ⟨k, mem, rfl⟩]
      · exact part.frame _ t k inside
    · rintro _ ⟨k, mem, rfl⟩
      rw [part.view_set, part.view_set]
      exact own _ _ (part.agree same) k mem
    · rw [same _ _ (part.agree agree)]

end

variable {H : Set μ}

section
variable (part : Part place cell whole get set)
include part

theorem agree_compl {s t} (h : Agree whole Hᶜ s t) : Agree cell (Set.preimage place H)ᶜ (get s) (get t) :=
  part.agree (h.mono (Set.image_subset_iff.mpr subset_rfl))

theorem agree_set {s t a b} (h : Agree whole Hᶜ s t)
    (inside : Agree cell (Set.preimage place H)ᶜ a b) : Agree whole Hᶜ (set a s) (set b t) := by
  intro k mem
  by_cases own : k ∈ Set.range place
  · obtain ⟨k, rfl⟩ := own
    rw [part.view_set, part.view_set]
    exact inside k mem
  · rw [part.frame _ s k own, part.frame _ t k own]
    exact h k mem

theorem blind (h : Blind cell (Set.preimage place H) p) : Blind whole H (p.zoom get set) := by
  induction h with
  | done a => exact .done a
  | enter own same _ ih =>
    refine .enter (fun s t agree => ?_) (fun s t agree => ?_) fun t => ih (get t)
    · exact part.agree_set agree (own _ _ (part.agree_compl agree))
    · rw [same _ _ (part.agree_compl agree)]

theorem harmless {P}
    (h : Harmless cell (Set.preimage place H) P p) : Harmless whole H (fun t => P (get t)) (p.zoom get set) := by
  induction h with
  | done a => exact .done a
  | enter within _ ih =>
    refine .enter (fun t ok k mem => ?_) fun t => ih (get t)
    by_cases own : k ∈ Set.range place
    · obtain ⟨k, rfl⟩ := own
      rw [part.view_set, part.view]
      exact within _ ok k mem
    · exact part.frame _ t k own

end

end Part
end

structure System (ι σ ρ : Type) where
  store : σ
  calls : ι → Option (Prog σ ρ)

inductive Event (ι : Type) (γ : ι → Type) where
  | call (i : ι) (c : γ i)
  | advance (i : ι)

def Event.id {ι : Type} {γ : ι → Type} : Event ι γ → ι
  | .call i _ => i
  | .advance i => i

namespace System
variable {ι σ ρ κ : Type} {γ : ι → Type} [DecidableEq ι] {events : List (Event ι γ)} {P : ι → σ → Prop}

def quiet (store : σ) : System ι σ ρ where
  store := store
  calls _ := none

def step (prog : (i : ι) → γ i → Prog σ ρ) (S : System ι σ ρ) : Event ι γ → System ι σ ρ
  | .call i c =>
    match S.calls i with
    | none => { S with calls := update S.calls i (some (prog i c)) }
    | some _ => S
  | .advance i =>
    match S.calls i with
    | some (.enter act next) =>
      { store := act S.store, calls := update S.calls i (some (next S.store)) }
    | _ => S

def result (S : System ι σ ρ) (i : ι) : Option ρ :=
  match S.calls i with
  | some (.done r) => some r
  | _ => none

variable {ν : κ → Type} {cell : σ → (k : κ) → ν k} {H : Set κ} {out : ι → Prop} {prog : (i : ι) → γ i → Prog σ ρ}
  {S T : System ι σ ρ} {e : Event ι γ}

theorem step_calls_of_ne {j} (other : j ≠ e.id) : (step prog S e).calls j = S.calls j := by
  cases e with
  | call i c | advance i =>
    simp only [step]
    split
    · exact update_of_ne other _ _
    · rfl

/-- Two systems that agree outside `H` and on the calls that are kept, which do not read `H`. -/
structure Matched (cell : σ → (k : κ) → ν k) (H : Set κ) (out : ι → Prop) (S T : System ι σ ρ) : Prop where
  view : Agree cell Hᶜ S.store T.store
  calls : ∀ i, ¬ out i → S.calls i = T.calls i
  blind : ∀ i p, ¬ out i → S.calls i = some p → Blind cell H p

theorem Matched.step (h : Matched cell H out S T) (kept : ¬ out e.id)
    (blind : ∀ i c, e = .call i c → Blind cell H (prog i c)) :
    Matched cell H out (S.step prog e) (T.step prog e) := by
  cases e with
  | call i c =>
    have calls := h.calls i kept
    cases made : S.calls i with
    | some =>
      simp only [System.step, ← calls, made]
      exact h
    | none =>
      simp only [System.step, ← calls, made]
      refine ⟨h.view, fun j out => ?_, fun j p out running => ?_⟩
      · by_cases same : j = i
        · subst same
          simp
        · simpa [update_of_ne same] using h.calls j out
      · by_cases same : j = i
        · subst same
          simp only [update_self, Option.some.injEq] at running
          exact running ▸ blind j c rfl
        · simp only [update_of_ne same] at running
          exact h.blind j p out running
  | advance i =>
    have calls := h.calls i kept
    cases made : S.calls i with
    | none =>
      simp only [System.step, ← calls, made]
      exact h
    | some p =>
      have own := h.blind i p kept made
      cases own with
      | done =>
        simp only [System.step, ← calls, made]
        exact h
      | enter own same rest =>
        simp only [System.step, ← calls, made]
        refine ⟨own _ _ h.view, fun j out => ?_, fun j p out running => ?_⟩
        · by_cases equal : j = i
          · subst equal
            simp [same _ _ h.view]
          · simpa [update_of_ne equal] using h.calls j out
        · by_cases equal : j = i
          · subst equal
            simp only [update_self, Option.some.injEq] at running
            exact running ▸ rest _
          · simp only [update_of_ne equal] at running
            exact h.blind j p out running

/-- A call that is removed takes its step in one only, within `H`. -/
theorem Matched.skip (h : Matched cell H out S T) (removed : out e.id)
    (within : Agree cell Hᶜ (S.step prog e).store S.store) : Matched cell H out (S.step prog e) T := by
  have same : ∀ i, ¬ out i → (S.step prog e).calls i = S.calls i :=
    fun i kept => step_calls_of_ne fun equal => kept (equal ▸ removed)
  refine ⟨within.trans h.view, fun i kept => (same i kept).trans (h.calls i kept), fun i p kept running => ?_⟩
  exact h.blind i p kept (same i kept ▸ running)

variable [DecidablePred out]

/-- A run and the same run without the events of the calls that are removed. -/
theorem Matched.run (h : Matched cell H out S T)
    (blind : ∀ i c, .call i c ∈ events → ¬ out i → Blind cell H (prog i c))
    (within : Runs.Guarded (fun S e => out e.id → Agree cell Hᶜ (System.step prog S e).store S.store)
      (System.step prog) S events) : Matched cell H out (run (System.step prog) S events)
      (run (System.step prog) T (events.filter fun e => ¬ out e.id)) := by
  induction events generalizing S T with
  | nil => exact h
  | cons e rest ih =>
    have blindRest : ∀ i c, .call i c ∈ rest → ¬ out i → Blind cell H (prog i c) :=
      fun i c mem => blind i c (mem_cons_of_mem e mem)
    by_cases removed : out e.id
    · rw [filter_cons_of_neg (by simpa using removed)]
      exact ih (h.skip removed (within.1 removed)) blindRest within.2
    · rw [filter_cons_of_pos (by simpa using removed)]
      refine ih (h.step removed fun i c made => ?_) blindRest within.2
      subst made
      exact blind i c mem_cons_self removed

omit [DecidablePred out] in
/-- Calls that are harmless where they run their sections write within `H`. -/
theorem guarded_within (running : ∀ i p, out i → S.calls i = some p → Harmless cell H (P i) p)
    (harmless : ∀ i c, .call i c ∈ events → out i → Harmless cell H (P i) (prog i c))
    (ok : Runs.Guarded (fun S e => ∀ i, e = .advance i → out i → P i S.store) (System.step prog) S events) :
    Runs.Guarded (fun S e => out e.id → Agree cell Hᶜ (System.step prog S e).store S.store)
      (System.step prog) S events := by
  induction events generalizing S with
  | nil => trivial
  | cons e rest ih =>
    have harmlessRest : ∀ i c, .call i c ∈ rest → out i → Harmless cell H (P i) (prog i c) :=
      fun i c mem => harmless i c (mem_cons_of_mem e mem)
    have others : ∀ j p, j ≠ e.id → out j → (System.step prog S e).calls j = some p →
        Harmless cell H (P j) p :=
      fun j p other removed calls => running j p removed (step_calls_of_ne other ▸ calls)
    cases e with
    | call i c =>
      refine ⟨fun _ => ?_, ih (fun j p removed calls => ?_) harmlessRest ok.2⟩
      · simp only [System.step]
        split <;> exact .refl _ _
      · by_cases same : j = i
        · subst same
          simp only [System.step] at calls
          split at calls
          · simp only [update_self, Option.some.injEq] at calls
            exact calls ▸ harmless j c mem_cons_self removed
          · exact running j p removed calls
        · exact others j p same removed calls
    | advance i =>
      refine ⟨fun removed => ?_, ih (fun j p removed calls => ?_) harmlessRest ok.2⟩
      · simp only [System.step]
        split
        · next made =>
          cases running i _ removed made with
          | enter within => exact within _ (ok.1 i rfl removed)
        · exact .refl _ _
      · by_cases same : j = i
        · subst same
          simp only [System.step] at calls
          split at calls
          · next made =>
            simp only [update_self, Option.some.injEq] at calls
            cases running j _ removed made with
            | enter within rest => exact calls ▸ rest _
          · exact running j p removed calls
        · exact others j p same removed calls

/-- Removing calls that write within `H` leaves the results of those that do not read it. -/
theorem result_filter {store} (blind : ∀ i c, .call i c ∈ events → ¬ out i → Blind cell H (prog i c))
    (harmless : ∀ i c, .call i c ∈ events → out i → Harmless cell H (P i) (prog i c))
    (ok : Runs.Guarded (fun S e => ∀ i, e = .advance i → out i → P i S.store) (System.step prog)
      (quiet store) events) {i} (kept : ¬ out i) : (run (System.step prog) (quiet store) events).result i =
      (run (System.step prog) (quiet store) (events.filter fun e => ¬ out e.id)).result i := by
  have start : Matched cell H out (quiet store : System ι σ ρ) (quiet store) :=
    ⟨.refl _ _, fun _ _ => rfl, fun _ _ _ running => nomatch running⟩
  have within := guarded_within (S := quiet store) (fun _ _ _ running => nomatch running) harmless ok
  unfold result
  rw [(start.run blind within).calls i kept]

end System
end Sections
