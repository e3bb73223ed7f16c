import SynaMcp.Lib.Sections

/-! Rely and guarantee for calls that work in critical sections. A call states what it
counts on between its sections and what each of them does; if the steps of each call are
such as the others count on, every call keeps its word in any interleaving. -/
namespace Sections
open List
open Function (update update_self update_of_ne)

/-- What a call counts on, and what it owes: the steps of the other calls between two
of its sections, a condition on the states its sections run in, and its own steps. -/
structure Terms (σ : Type) where
  rely : σ → σ → Prop
  assume : σ → Prop
  guar : σ → σ → Prop
  rely_refl : ∀ s, rely s s
  rely_trans : ∀ {s t u}, rely s t → rely t u → rely s u
  guar_refl : ∀ s, assume s → guar s s

section
variable {σ ρ α β : Type}

/-- The call has come to this point by a section from `s` to `t`. Whatever the others
do, its further sections are steps that it owes, and `post` holds at its last section
and of its result. -/
def Safe (T : Terms σ) (post : σ → ρ → σ → Prop) : Prog σ ρ → σ → σ → Prop
  | .done r, s, t => post s r t
  | .enter act next, _, t => ∀ u, T.rely t u → T.assume u → T.guar u (act u) ∧ Safe T post (next u) u (act u)

variable {T : Terms σ} {post post' : σ → ρ → σ → Prop} {s t u : σ}

theorem Safe.imp {p} (h : Safe T post p s t) (weaker : ∀ s r t, post s r t → post' s r t) : Safe T post' p s t := by
  induction p generalizing s t with
  | done r => exact weaker s r t h
  | enter act next ih =>
    intro u moved ok
    obtain ⟨owed, rest⟩ := h u moved ok
    exact ⟨owed, ih u rest⟩

theorem Safe.bind {p} {k : α → Prog σ ρ} (h : Safe T (fun s a t => Safe T post (k a) s t) p s t) :
    Safe T post (p >>= k) s t := by
  induction p generalizing s t with
  | done => exact h
  | enter act next ih =>
    intro u moved ok
    obtain ⟨owed, rest⟩ := h u moved ok
    exact ⟨owed, ih u rest⟩

theorem Safe.atomic {f} (h : ∀ u, T.rely t u → T.assume u → T.guar u (f u).1 ∧ post u (f u).2 (f u).1) :
    Safe T post (.atomic f) s t := h

theorem Safe.moved {act next} (h : Safe T post (.enter act next) s t)
    (moved : T.rely t u) : Safe T post (.enter act next) s u :=
  fun v further ok => h v (T.rely_trans moved further) ok

def Prog.exec : Prog σ ρ → σ → σ × ρ
  | .done r, s => (s, r)
  | .enter act next, s => (next s).exec (act s)

theorem Prog.exec_bind (p : Prog σ α) (k : α → Prog σ ρ) (s : σ) :
    (p >>= k).exec s = (k (p.exec s).2).exec (p.exec s).1 := by
  induction p generalizing s with
  | done => rfl
  | enter act next ih => exact ih s (act s)

theorem Prog.exec_zoom {τ} {get : τ → σ} {set} (get_set : ∀ a b, get (set a b) = a) (p : Prog σ ρ)
    (s : τ) : get ((p.zoom get set).exec s).1 = (p.exec (get s)).1 := by
  induction p generalizing s with
  | done => rfl
  | enter act next ih =>
    refine (ih (get s) (set (act (get s)) s)).trans ?_
    rw [get_set]
    rfl

def Terms.lift {τ : Type} (get : τ → σ) (T : Terms σ) : Terms τ where
  rely s t := T.rely (get s) (get t)
  assume s := T.assume (get s)
  guar s t := T.guar (get s) (get t)
  rely_refl s := T.rely_refl (get s)
  rely_trans := T.rely_trans
  guar_refl s ok := T.guar_refl (get s) ok

section
variable {τ ν : Type} {get : τ → σ} {set : σ → τ → τ}

theorem Safe.zoom {T' p} (get_set : ∀ a b, get (set a b) = a)
    (rely : ∀ s t, T'.rely s t → T.rely (get s) (get t)) (assume : ∀ s, T'.assume s → T.assume (get s))
    (guar : ∀ s a, T'.assume s → T.guar (get s) a → T'.guar s (set a s)) {s t}
    (h : Safe T post p (get s) (get t)) : Safe T' (fun s r t => post (get s) r (get t)) (p.zoom get set) s t := by
  induction p generalizing s t with
  | done => exact h
  | enter act next ih =>
    intro u moved ok
    obtain ⟨owed, rest⟩ := h (get u) (rely t u moved) (assume u ok)
    refine ⟨guar u _ ok owed, ih (get u) ?_⟩
    rw [get_set]
    exact rest

theorem Safe.lift {p} (get_set : ∀ a b, get (set a b) = a) {s t} (h : Safe T post p (get s) (get t)) :
    Safe (T.lift get) (fun s r t => post (get s) r (get t)) (p.zoom get set) s t := by
  refine .zoom get_set (fun _ _ moved => moved) (fun _ ok => ok) (fun s a _ owed => ?_) h
  show T.guar (get s) (get (set a s))
  rw [get_set]
  exact owed

theorem Safe.zoom_other {other put} {p : Prog ν ρ} (apart : ∀ v b, get (put v b) = get b)
    (s t : τ) : Safe (T.lift get) (fun _ _ _ => True) (p.zoom other put) s t := by
  induction p generalizing s t with
  | done => trivial
  | enter act next ih =>
    intro u _ ok
    refine ⟨?_, ih _ _ _⟩
    show T.guar (get u) (get (put (act (other u)) u))
    rw [apart]
    exact T.guar_refl (get u) ok

end

theorem Safe.exec_guar {p} (h : Safe T post p s t) (free : ∀ u, T.assume u)
    (trans : ∀ {a b c}, T.guar a b → T.guar b c → T.guar a c) : T.guar t (p.exec t).1 := by
  induction p generalizing s t with
  | done => exact T.guar_refl t (free t)
  | enter act next ih =>
    obtain ⟨owed, rest⟩ := h t (T.rely_refl t) (free t)
    exact trans owed (ih t rest)

end

/-- A call that may fail; nothing is asked of a failure. -/
abbrev Try.Safe {σ α : Type} (T : Terms σ) (post : σ → α → σ → Prop) (p : Try σ α) (s t : σ) : Prop :=
  Sections.Safe T (fun s r t => ∀ a, r = .ok a → post s a t) p.run s t

namespace Try
variable {σ α β : Type}

theorem exec_bind_eq (p : Try σ α) (k : α → Try σ β) (s : σ) :
    (p >>= k).run.exec s = match p.run.exec s with
      | (t, .ok a) => (k a).run.exec t
      | (t, .error e) => (t, .error e) := by
  refine (Prog.exec_bind p.run _ s).trans ?_
  rcases p.run.exec s with ⟨t, a | e⟩ <;> rfl

@[simp] theorem exec_pure (a : α) (s : σ) : (pure a : Try σ α).run.exec s = (s, .ok a) := rfl

@[simp] theorem exec_ofExcept (r : Except String α) (s : σ) : (ofExcept r : Try σ α).run.exec s = (s, r) := rfl

@[simp] theorem exec_require (p : Prop) [Decidable p] (e : String) (s : σ) :
    (require p e : Try σ Unit).run.exec s = (s, if p then .ok () else .error e) := rfl

@[simp] theorem exec_expect (a : Option α) (e : String) (s : σ) :
    (expect a e : Try σ α).run.exec s = (s, match a with
      | some a => .ok a
      | none => .error e) := rfl

theorem exec_bind {p} {k : α → Try σ β} {s t a} (h : p.run.exec s = (t, .ok a)) :
    (p >>= k).run.exec s = (k a).run.exec t := by
  rw [exec_bind_eq, h]

theorem exec_each {f} {g : α → β} {s : σ} (h : ∀ a, (f a).run.exec s = (s, .ok (g a)))
    (as : List α) : (Try.each f as).run.exec s = (s, .ok (as.map g)) := by
  induction as with
  | nil => rfl
  | cons a rest ih =>
    refine (exec_bind (h a)).trans ?_
    exact (exec_bind ih).trans rfl

variable {T : Terms σ} {post : σ → α → σ → Prop} {s t : σ}

theorem Safe.bind {p} {k : α → Try σ β} {post}
    (h : Try.Safe T (fun s a t => Try.Safe T post (k a) s t) p s t) : Try.Safe T post (p >>= k) s t := by
  refine Sections.Safe.bind (Sections.Safe.imp h fun s r t ok => ?_)
  cases r with
  | ok a => exact ok a rfl
  | error => intro a equal; cases equal

theorem Safe.pure {a} (h : post s a t) : Try.Safe T post (Pure.pure a) s t := by
  intro b equal
  cases equal
  exact h

theorem Safe.require {p} [Decidable p] {e post} (h : p → post s () t) : Try.Safe T post (.require p e) s t := by
  intro a ok
  split at ok
  · next holds => exact h holds
  · cases ok

theorem Safe.expect {value e} (h : ∀ a, value = some a → post s a t) : Try.Safe T post (.expect value e) s t := by
  intro a ok
  cases value with
  | none => cases ok
  | some =>
    cases ok
    exact h a rfl

theorem Safe.ofExcept {value} (h : ∀ a, value = .ok a → post s a t) : Try.Safe T post (.ofExcept value) s t := h

theorem Safe.each {Inv : σ → Prop} {f : β → Try σ α}
    (h : ∀ b s t, Inv t → Try.Safe T (fun _ _ t => Inv t) (f b) s t) (bs : List β) (holds : Inv t) :
    Try.Safe T (fun _ _ t => Inv t) (.each f bs) s t := by
  induction bs generalizing s t with
  | nil => exact .pure holds
  | cons b rest ih =>
    refine .bind (Sections.Safe.imp (h b s t holds) fun _ r t kept a ok => ?_)
    exact .bind (Sections.Safe.imp (ih (kept a ok)) fun _ r t kept a ok => .pure (kept a ok))

/-- What the others keep and one of the calls each has established, where the calls change nothing. -/
theorem Safe.each_rely {P : β → σ → Prop} {f : β → Try σ α} (kept : ∀ b s t, P b s → T.rely s t → P b t)
    (h : ∀ b s t, Try.Safe T (fun _ _ u => T.rely t u ∧ P b u) (f b) s t) (bs : List β) :
    Try.Safe T (fun _ _ u => T.rely t u ∧ ∀ b ∈ bs, P b u) (.each f bs) s t := by
  induction bs generalizing s t with
  | nil => exact .pure ⟨T.rely_refl t, fun b mem => by cases mem⟩
  | cons b rest ih =>
    refine .bind (Sections.Safe.imp (h b s t) fun _ r u done a ok => ?_)
    obtain ⟨moved, established⟩ := done a ok
    refine .bind (Sections.Safe.imp ih fun _ r v done a ok => .pure ?_)
    obtain ⟨further, all⟩ := done a ok
    refine ⟨T.rely_trans moved further, fun c mem => ?_⟩
    rcases List.mem_cons.mp mem with rfl | mem
    · exact kept c u v established further
    · exact all c mem

end Try

structure Journal (ι σ ρ : Type) (γ : ι → Type) extends System ι σ ρ where
  made : (i : ι) → Option (γ i)

section
variable {ι σ ρ : Type} {γ : ι → Type} [DecidableEq ι]
  {store : σ} {events : List (Event ι γ)} {n : Nat} {i : ι} {r : ρ}

namespace Journal

def quiet (store : σ) : Journal ι σ ρ γ where
  toSystem := .quiet store
  made _ := none

def step (prog : (i : ι) → γ i → Prog σ ρ) (J : Journal ι σ ρ γ) (e : Event ι γ) : Journal ι σ ρ γ where
  toSystem := J.toSystem.step prog e
  made :=
    match e with
    | .call i c => if (J.calls i).isSome then J.made else update J.made i (some c)
    | .advance _ => J.made

def before (prog : (i : ι) → γ i → Prog σ ρ) (store : σ) (events : List (Event ι γ)) (n : Nat) :
    Journal ι σ ρ γ :=
  Runs.run (step prog) (quiet store) (events.take n)

inductive Move (prog : (i : ι) → γ i → Prog σ ρ) (J : Journal ι σ ρ γ) : Event ι γ → Journal ι σ ρ γ → Prop where
  | idle (e : Event ι γ) : Move prog J e J
  | begun {i : ι} (c : γ i) (fresh : J.calls i = none) :
      Move prog J (.call i c) { J with calls := update J.calls i (some (prog i c)), made := update J.made i (some c) }
  | ran {i act next} (running : J.calls i = some (.enter act next)) :
      Move prog J (.advance i) { J with store := act J.store, calls := update J.calls i (some (next J.store)) }

variable {prog : (i : ι) → γ i → Prog σ ρ} {store : σ} {events : List (Event ι γ)}

theorem move_step (prog : (i : ι) → γ i → Prog σ ρ) (J : Journal ι σ ρ γ) (e : Event ι γ) :
    Move prog J e (J.step prog e) := by
  cases e with
  | call i c =>
    cases called : J.calls i with
    | none =>
      have begun : Move prog J (.call i c) _ := .begun c called
      simpa [step, System.step, called] using begun
    | some =>
      have idle : Move prog J (.call i c) J := .idle _
      simpa [step, System.step, called] using idle
  | advance i =>
    have idle : Move prog J (.advance i) J := .idle _
    cases called : J.calls i with
    | none => simpa [step, System.step, called] using idle
    | some p =>
      cases p with
      | done => simpa [step, System.step, called] using idle
      | enter =>
        have ran : Move prog J (.advance i) _ := .ran called
        simpa [step, System.step, called] using ran

theorem before_succ {n e} (event : events[n]? = some e) :
    before prog store events (n + 1) = (before prog store events n).step prog e :=
  Runs.run_take_succ event

theorem move_at {n e} (event : events[n]? = some e) :
    Move prog (before prog store events n) e (before prog store events (n + 1)) :=
  before_succ event ▸ move_step prog _ e

theorem move_before (prog : (i : ι) → γ i → Prog σ ρ) (store : σ) (events : List (Event ι γ)) (n : Nat) :
    before prog store events (n + 1) = before prog store events n ∨
      ∃ e, events[n]? = some e ∧ Move prog (before prog store events n) e (before prog store events (n + 1)) := by
  cases input : events[n]? with
  | none =>
    have length := getElem?_eq_none_iff.mp input
    left
    simp only [before, take_of_length_le length, take_of_length_le (Nat.le_succ_of_le length)]
  | some e => exact .inr ⟨e, rfl, move_at input⟩

theorem call_of_made {n i c} (h : (before prog store events n).made i = some c) : .call i c ∈ events.take n := by
  induction n with
  | zero => cases h
  | succ n ih =>
    have earlier : .call i c ∈ events.take n → .call i c ∈ events.take (n + 1) :=
      fun mem => take_subset_take_left events (Nat.le_succ n) mem
    rcases move_before prog store events n with same | ⟨_, input, moved⟩
    · rw [same] at h
      exact earlier (ih h)
    · generalize before prog store events (n + 1) = K at moved h
      cases moved with
      | idle | ran => exact earlier (ih h)
      | @begun j =>
        by_cases same : i = j
        · subst same
          simp only [update_self, Option.some.injEq] at h
          subst h
          exact mem_of_getElem? ((getElem?_take_of_lt (Nat.lt_succ_self n)).trans input)
        · simp only [update_of_ne same] at h
          exact earlier (ih h)

theorem ran_before {n i act next} (event : events[n]? = some (.advance i))
    (running : (before prog store events n).calls i = some (.enter act next)) :
    (before prog store events (n + 1)).store = act (before prog store events n).store ∧
      (before prog store events (n + 1)).calls i = some (next (before prog store events n).store) := by
  rw [before_succ event]
  simp only [step, System.step, running, update_self, and_self]

theorem done_before {m n i r} (ended : (before prog store events m).calls i = some (.done r))
    (le : m ≤ n) : (before prog store events n).calls i = some (.done r) := by
  induction le with
  | refl => exact ended
  | @step n _ ih =>
    rcases move_before prog store events n with same | ⟨_, _, moved⟩
    · rw [same]
      exact ih
    · generalize before prog store events (n + 1) = K at moved ⊢
      cases moved with
      | idle => exact ih
      | @begun j _ fresh =>
        have other : i ≠ j := fun same => by cases fresh.symm.trans (same ▸ ih)
        simp only [update_of_ne other, ih]
      | @ran j _ _ running =>
        have other : i ≠ j := fun same => by cases running.symm.trans (same ▸ ih)
        simp only [update_of_ne other, ih]

/-- What is true of a call when it is made, and which its sections keep, is true of
what is left of it at any time. -/
theorem left_before {I : Nat → (i : ι) → γ i → Prog σ ρ → Prop} (begun : ∀ n i c, I n i c (prog i c))
    (later : ∀ n i c p, I n i c p → I (n + 1) i c p)
    (ran : ∀ n i c act next, events[n]? = some (.advance i) → (before prog store events n).made i = some c →
      (before prog store events n).calls i = some (.enter act next) → I n i c (.enter act next) →
      I (n + 1) i c (next (before prog store events n).store))
    {n i p} (left : (before prog store events n).calls i = some p) :
    ∃ c, (before prog store events n).made i = some c ∧ I n i c p := by
  induction n generalizing p with
  | zero => cases left
  | succ n ih =>
    have kept : (before prog store events n).calls i = some p →
        ∃ c, (before prog store events n).made i = some c ∧ I (n + 1) i c p := fun left => by
      obtain ⟨c, made, holds⟩ := ih left
      exact ⟨c, made, later n i c p holds⟩
    rcases move_before prog store events n with same | ⟨_, input, moved⟩
    · rw [same] at left ⊢
      exact kept left
    · generalize before prog store events (n + 1) = K at moved left ⊢
      cases moved with
      | idle => exact kept left
      | @begun j c =>
        by_cases same : i = j
        · subst same
          simp only [update_self, Option.some.injEq] at left ⊢
          subst left
          exact ⟨c, rfl, begun (n + 1) i c⟩
        · simp only [update_of_ne same] at left ⊢
          exact kept left
      | @ran j act next running =>
        by_cases same : i = j
        · subst same
          simp only [update_self, Option.some.injEq] at left
          subst left
          obtain ⟨c, made, holds⟩ := ih running
          exact ⟨c, made, ran n i c act next input made running holds⟩
        · simp only [update_of_ne same] at left
          exact kept left

end Journal

structure Ends (prog : (i : ι) → γ i → Prog σ ρ) (store : σ) (events : List (Event ι γ)) (n : Nat) (i : ι)
    (c : γ i) (r : ρ) : Prop where
  event : events[n]? = some (.advance i)
  made : (Journal.before prog store events n).made i = some c
  running : (Journal.before prog store events n).result i = none
  ended : (Journal.before prog store events (n + 1)).result i = some r

theorem Ends.past {prog c} (h : Ends prog store events n i c r) :
    (Journal.before prog store events (n + 1)).made i = some c ∧
      (Journal.before prog store events (n + 1)).calls i = some (.done r) := by
  have ended := h.ended
  refine ⟨?_, ?_⟩
  · rw [Journal.before_succ h.event]
    exact h.made
  · unfold System.result at ended
    split at ended
    · next left =>
      cases ended
      exact left
    · cases ended

theorem Ends.unique {prog m c d q} (first : Ends prog store events m i c q) (second : Ends prog store events n i d r) : m = n := by
  have apart : ∀ {m n c d q r}, Ends prog store events m i c q → Ends prog store events n i d r → ¬ m < n := by
    intro m n c d q r first second before
    have running := second.running
    simp only [System.result, Journal.done_before first.past.2 before] at running
    cases running
  exact Nat.le_antisymm (Nat.le_of_not_lt (apart second first)) (Nat.le_of_not_lt (apart first second))

/-- Terms for all calls that fit together, with an invariant that their steps keep. -/
structure Contract (prog : (i : ι) → γ i → Prog σ ρ) where
  allowed : (i : ι) → γ i → Prop
  terms : (i : ι) → γ i → Terms σ
  post : (i : ι) → γ i → σ → ρ → σ → Prop
  good : σ → Prop
  safe : ∀ i c s, allowed i c → good s → Safe (terms i c) (post i c) (prog i c) s s
  keeps : ∀ i c s t, allowed i c → good s → (terms i c).guar s t → good t
  compat : ∀ i c j d s t, i ≠ j → allowed i c → allowed j d → good s → (terms j d).guar s t → (terms i c).rely s t

namespace Contract
variable {prog : (i : ι) → γ i → Prog σ ρ} (C : Contract prog)

def Meets (J : Journal ι σ ρ γ) : Event ι γ → Prop
  | .call i c => C.allowed i c
  | .advance i => ∀ c, J.made i = some c → J.result i = none → (C.terms i c).assume J.store

instance decidableMeets [∀ i c, Decidable (C.allowed i c)] [∀ i c s, Decidable ((C.terms i c).assume s)]
    (J : Journal ι σ ρ γ) : (e : Event ι γ) → Decidable (C.Meets J e)
  | .call i c => inferInstanceAs (Decidable (C.allowed i c))
  | .advance i =>
    decidable_of_iff (∀ c ∈ J.made i, J.result i = none → (C.terms i c).assume J.store) Iff.rfl

structure Kept (J : Journal ι σ ρ γ) : Prop where
  good : C.good J.store
  calls : ∀ i p, J.calls i = some p → ∃ c, J.made i = some c ∧ C.allowed i c ∧
    ∀ act next, p = .enter act next → ∀ s, Safe (C.terms i c) (C.post i c) p s J.store

variable {C} {J K : Journal ι σ ρ γ} {store : σ} {events : List (Event ι γ)}

omit [DecidableEq ι] in
theorem kept_quiet (good : C.good store) : C.Kept (Journal.quiet store) where
  good := good
  calls _ _ called := by cases called

omit [DecidableEq ι] in
theorem Kept.section {i act next} (h : C.Kept J)
    (running : J.calls i = some (.enter act next)) (meets : C.Meets J (.advance i)) :
    ∃ c, J.made i = some c ∧ C.allowed i c ∧ (C.terms i c).guar J.store (act J.store) ∧
      Safe (C.terms i c) (C.post i c) (next J.store) J.store (act J.store) := by
  obtain ⟨c, made, allowed, safe⟩ := h.calls i _ running
  have pending : J.result i = none := by simp only [System.result, running]
  have now := safe act next rfl J.store J.store ((C.terms i c).rely_refl _) (meets c made pending)
  exact ⟨c, made, allowed, now⟩

theorem Kept.move {e} (h : C.Kept J) (meets : C.Meets J e) (moved : J.Move prog e K) : C.Kept K := by
  cases moved with
  | idle => exact h
  | @begun i c =>
    refine ⟨h.good, fun j p running => ?_⟩
    by_cases equal : j = i
    · subst equal
      simp only [update_self, Option.some.injEq] at running ⊢
      subst running
      refine ⟨c, rfl, meets, fun act next entered s => ?_⟩
      have safe := C.safe j c J.store meets h.good
      rw [entered] at safe ⊢
      exact safe
    · simp only [update_of_ne equal] at running ⊢
      exact h.calls j p running
  | @ran i act next running =>
    obtain ⟨c, made, allowed, owed, rest⟩ := h.section running meets
    refine ⟨C.keeps i c _ _ allowed h.good owed, fun j p left => ?_⟩
    by_cases equal : j = i
    · subst equal
      simp only [update_self, Option.some.injEq] at left
      subst left
      refine ⟨c, made, allowed, fun act next entered s => ?_⟩
      rw [entered] at rest ⊢
      exact rest
    · simp only [update_of_ne equal] at left
      obtain ⟨d, made', allowed', safe⟩ := h.calls j p left
      refine ⟨d, made', allowed', fun act' next' entered s => ?_⟩
      have moved := C.compat j d i c _ _ equal allowed' allowed h.good owed
      have before := safe act' next' entered s
      subst entered
      exact before.moved moved

section
variable (good : C.good store)
  (guarded : Runs.Guarded C.Meets (.step prog) (.quiet store) events)
include good guarded

/-- Along a run of calls that meet the terms every call keeps its word. -/
theorem kept_before (n : Nat) : C.Kept (Journal.before prog store events n) :=
  Runs.run_invariant (fun J e kept meets => kept.move meets (J.move_step prog e)) (guarded.take n) (kept_quiet good)

theorem post_of_ends {n i c r} (h : Ends prog store events n i c r) : C.allowed i c ∧
      C.post i c (Journal.before prog store events n).store r (Journal.before prog store events (n + 1)).store := by
  have kept := kept_before good guarded n
  have meets := guarded.input h.event
  have ended := h.ended
  have moved : Journal.Move prog (Journal.before prog store events n) (.advance i) _ := Journal.move_at h.event
  generalize Journal.before prog store events (n + 1) = K at moved ended ⊢
  cases moved with
  | idle => cases h.running.symm.trans ended
  | ran running =>
    obtain ⟨d, made, allowed, _, rest⟩ := kept.section running meets
    obtain rfl : d = c := Option.some.inj (made.symm.trans h.made)
    simp only [System.result, update_self] at ended
    split at ended
    · next finished =>
      cases ended
      rw [Option.some.inj finished] at rest
      exact ⟨allowed, rest⟩
    · cases ended

theorem step_before (n : Nat) :
    (Journal.before prog store events (n + 1)).store = (Journal.before prog store events n).store ∨
      ∃ i c, events[n]? = some (.advance i) ∧ (Journal.before prog store events n).made i = some c ∧
        (Journal.before prog store events n).result i = none ∧ C.allowed i c ∧ (C.terms i c).guar (Journal.before prog store events n).store
          (Journal.before prog store events (n + 1)).store := by
  rcases Journal.move_before prog store events n with same | ⟨_, input, moved⟩
  · exact .inl (congrArg (fun J => J.store) same)
  · have meets := guarded.input input
    generalize Journal.before prog store events (n + 1) = K at moved ⊢
    cases moved with
    | idle | begun => exact .inl rfl
    | @ran i _ _ running =>
      obtain ⟨c, made, allowed, owed, _⟩ := (kept_before good guarded n).section running meets
      have pending : (Journal.before prog store events n).result i = none := by simp only [System.result, running]
      exact .inr ⟨i, c, input, made, pending, allowed, owed⟩

theorem rel_before {R : σ → σ → Prop} (refl : ∀ s, R s s) (trans : ∀ s t u, R s t → R t u → R s u)
    (steps : ∀ i c s t, C.allowed i c → C.good s → (C.terms i c).guar s t → R s t) {m n} (le : m ≤ n) :
    R (Journal.before prog store events m).store (Journal.before prog store events n).store := by
  induction le with
  | refl => exact refl _
  | @step n _ ih =>
    refine trans _ _ _ ih ?_
    rcases step_before good guarded n with same | ⟨i, c, _, _, _, allowed, owed⟩
    · rw [same]
      exact refl _
    · exact steps i c _ _ allowed (kept_before good guarded n).good owed

end
end Contract
end
end Sections
