import Mathlib.Logic.Basic

/-! Rotating credentials. A chain is carried on by holders, one at a time: each answers
for at most one credential of the chain, hands the chain on or lets it end. -/
namespace Baton
variable {χ η κ : Type} {holds holds' : χ → η → Option κ → Prop} {live live' : χ → κ → Prop}

/-- A chain has at most one holder and one live credential, and its holder answers
for the credential that is live. -/
structure Linear (holds : χ → η → Option κ → Prop) (live : χ → κ → Prop) : Prop where
  one_holder : ∀ {c a b k l}, holds c a k → holds c b l → a = b
  answers : ∀ {c a k t}, holds c a k → live c t → k = some t
  one_live : ∀ {c t u}, live c t → live c u → t = u

theorem Linear.empty (none : ∀ c a k, ¬ holds c a k) (dead : ∀ c t, ¬ live c t) : Linear holds live where
  one_holder h _ := absurd h (none _ _ _)
  answers h _ := absurd h (none _ _ _)
  one_live h _ := absurd h (dead _ _)

section
variable (linear : Linear holds live)
include linear

theorem Linear.mono (holders : ∀ c a k, holds' c a k → holds c a k)
    (credentials : ∀ c t, live' c t → live c t) : Linear holds' live' where
  one_holder ha hb := linear.one_holder (holders _ _ _ ha) (holders _ _ _ hb)
  answers ha ht := linear.answers (holders _ _ _ ha) (credentials _ _ ht)
  one_live ht hu := linear.one_live (credentials _ _ ht) (credentials _ _ hu)

/-- On its own chain nobody but `b` is left. -/
theorem Linear.sole (c₀ b l) (onlyB : ∀ {x m}, holds' c₀ x m → x = b ∧ m = l)
    (before : ∀ {c x m}, c ≠ c₀ → holds' c x m → holds c x m) (others : ∀ c t, c ≠ c₀ → live' c t → live c t)
    (own : ∀ t, live' c₀ t → l = some t) : Linear holds' live' := by
  constructor
  · intro c x y m n hx hy
    by_cases same : c = c₀
    · subst same
      rw [(onlyB hx).1, (onlyB hy).1]
    · exact linear.one_holder (before same hx) (before same hy)
  · intro c x m t hx ht
    by_cases same : c = c₀
    · subst same
      rw [(onlyB hx).2]
      exact own t ht
    · exact linear.answers (before same hx) (others c t same ht)
  · intro c t u ht hu
    by_cases same : c = c₀
    · subst same
      exact Option.some.inj ((own t ht).symm.trans (own u hu))
    · exact linear.one_live (others c t same ht) (others c u same hu)

/-- The holder `a` of the chain `c₀` may hand it on to `b`, itself or another, if
`b` answers for what is live of the chain afterwards. -/
theorem Linear.pass {c₀ a b k l} (had : holds c₀ a k)
    (holders : ∀ c x m, holds' c x m → (holds c x m ∧ ¬ (c = c₀ ∧ x = a)) ∨ (c = c₀ ∧ x = b ∧ m = l))
    (others : ∀ c t, c ≠ c₀ → live' c t → live c t) (own : ∀ t, live' c₀ t → l = some t) : Linear holds' live' := by
  refine linear.sole c₀ b l (fun {x m} hx => ?_) (fun {c x m} other hx => ?_) others own
  · rcases holders c₀ x m hx with ⟨old, notA⟩ | ⟨_, new⟩
    · exact absurd ⟨rfl, linear.one_holder old had⟩ notA
    · exact new
  · exact ((holders c x m hx).resolve_right fun new => other new.1).1

theorem Linear.start {c₀ b} (unheld : ∀ a k, ¬ holds c₀ a k)
    (dead : ∀ t, ¬ live c₀ t) (holders : ∀ c x m, holds' c x m → holds c x m ∨ (c = c₀ ∧ x = b ∧ m = none))
    (credentials : ∀ c t, live' c t → live c t) : Linear holds' live' := by
  refine linear.sole c₀ b none (fun {x m} hx => ?_) (fun {c x m} other hx => ?_) (fun c t _ => credentials c t) fun t ht => ?_
  · exact ((holders c₀ x m hx).resolve_left (unheld x m)).2
  · exact (holders c x m hx).resolve_right fun new => other new.1
  · exact absurd (credentials c₀ t ht) (dead t)

end

end Baton
