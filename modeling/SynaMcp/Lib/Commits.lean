import SynaMcp.Lib.Rely

/-! Calls that change what is looked at in their last section only, so that in a run
every change is the end of a call. -/
namespace Sections
open Journal

section
variable {σ τ ρ α β : Type} {quiet : σ → σ → Prop} {commit : ρ → Prop}

def Quiet (quiet : σ → σ → Prop) : Prog σ ρ → Prop
  | .done _ => True
  | .enter act next => ∀ s, quiet s (act s) ∧ Quiet quiet (next s)

/-- A section changes nothing, or it is the last and the result says so. -/
def Commits (quiet : σ → σ → Prop) (commit : ρ → Prop) : Prog σ ρ → Prop
  | .done _ => True
  | .enter act next =>
    ∀ s, (quiet s (act s) ∨ ∃ r, next s = .done r ∧ commit r) ∧ Commits quiet commit (next s)

theorem Quiet.bind {p} {k : α → Prog σ ρ} (h : Quiet quiet p) (rest : ∀ a, Quiet quiet (k a)) :
    Quiet quiet (p >>= k) := by
  induction p with
  | done a => exact rest a
  | enter act next ih => exact fun s => ⟨(h s).1, ih s (h s).2⟩

theorem Quiet.commits {p} {k : α → Prog σ ρ} (h : Quiet quiet p)
    (rest : ∀ a, Commits quiet commit (k a)) : Commits quiet commit (p >>= k) := by
  induction p with
  | done a => exact rest a
  | enter act next ih => exact fun s => ⟨.inl (h s).1, ih s (h s).2⟩

theorem Quiet.andThen {p} {k : α → Try σ β} (h : Quiet quiet p.run) (rest : ∀ a, Quiet quiet (k a).run) :
    Quiet quiet (p >>= k).run := by
  refine h.bind fun a => ?_
  cases a with
  | ok a => exact rest a
  | error => trivial

theorem Quiet.attempt {p} {k : α → Try σ β} {commit} (h : Quiet quiet p.run)
    (rest : ∀ a, Commits quiet commit (k a).run) : Commits quiet commit (p >>= k).run := by
  refine h.commits fun a => ?_
  cases a with
  | ok a => exact rest a
  | error => trivial

theorem Commits.map {p commit'} {f : α → ρ} (h : Commits quiet commit' p)
    (result : ∀ a, commit' a → commit (f a)) : Commits quiet commit (do return f (← p)) := by
  induction p with
  | done => trivial
  | enter act next ih =>
    intro s
    refine ⟨?_, ih s (h s).2⟩
    rcases (h s).1 with unchanged | ⟨a, last, committed⟩
    · exact .inl unchanged
    · refine .inr ⟨f a, ?_, result a committed⟩
      show (next s >>= fun a => .done (f a)) = _
      rw [last]
      rfl

theorem Commits.exec {T post p} {s t : σ}
    (h : Commits (fun s t => t = s) commit p) (safe : Safe T post p s t) (free : ∀ u, T.assume u) :
    (p.exec t).1 = t ∨ commit (p.exec t).2 ∧ post t (p.exec t).2 (p.exec t).1 := by
  induction p generalizing s with
  | done => exact .inl rfl
  | enter act next ih =>
    obtain ⟨_, rest⟩ := safe t (T.rely_refl t) (free t)
    rcases (h t).1 with unchanged | ⟨_, last, committed⟩
    · have same : act t = t := unchanged
      rw [same] at rest
      simp only [Prog.exec, same]
      exact ih t (h t).2 rest
    · simp only [Prog.exec]
      rw [last] at rest ⊢
      exact .inr ⟨committed, rest⟩

theorem Commits.zoom {get} {set : σ → τ → τ} {p} (get_set : ∀ a b, get (set a b) = a)
    (h : Commits quiet commit p) : Commits (fun s t => quiet (get s) (get t)) commit (p.zoom get set) := by
  induction p with
  | done => trivial
  | enter act next ih =>
    intro s
    refine ⟨?_, ih (get s) (h (get s)).2⟩
    rcases (h (get s)).1 with unchanged | ⟨r, last, committed⟩
    · left
      show quiet (get s) (get (set (act (get s)) s))
      rw [get_set]
      exact unchanged
    · refine .inr ⟨r, ?_, committed⟩
      show (next (get s)).zoom get set = _
      rw [last]
      rfl

end

section
variable {ι σ ρ : Type} {γ : ι → Type} [DecidableEq ι] {prog : (i : ι) → γ i → Prog σ ρ} {store : σ}
  {events : List (Event ι γ)} {quiet : σ → σ → Prop} {commit : ρ → Prop}

theorem Journal.commits_rest {n i p} (left : (before prog store events n).calls i = some p) :
    ∃ c, (before prog store events n).made i = some c ∧
      (Commits quiet commit (prog i c) → Commits quiet commit p) := by
  refine left_before (I := fun _ i c p => Commits quiet commit (prog i c) → Commits quiet commit p)
    (fun _ _ _ commits => commits) (fun _ _ _ _ holds => holds) ?_ left
  exact fun n _ _ _ _ _ _ _ holds commits => (holds commits (before prog store events n).store).2

theorem Journal.ends_of_change {n i c} (h : Commits quiet commit (prog i c))
    (refl : ∀ s, quiet s s) (event : events[n]? = some (.advance i))
    (made : (before prog store events n).made i = some c) :
    quiet (before prog store events n).store (before prog store events (n + 1)).store ∨
      ∃ r, commit r ∧ Ends prog store events n i c r := by
  have moved : Move prog (before prog store events n) (.advance i) _ := move_at event
  generalize equal : before prog store events (n + 1) = K at moved ⊢
  cases moved with
  | idle => exact .inl (refl _)
  | ran running =>
    obtain ⟨d, made', kept⟩ := commits_rest running
    obtain rfl : d = c := Option.some.inj (made'.symm.trans made)
    rcases (kept h (before prog store events n).store).1 with unchanged | ⟨r, last, committed⟩
    · exact .inl unchanged
    · refine .inr ⟨r, committed, event, made, ?_, ?_⟩
      · simp only [System.result, running]
      · rw [equal]
        simp only [System.result, Function.update_self, last]

end
end Sections
