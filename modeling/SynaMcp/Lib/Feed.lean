import Mathlib.Logic.Basic

/-! A feed for one reader. Records come in, each may be wanted at one time and not at
another, and one waits while there is news of it that the reader has not come to. -/
namespace Feeds

/-- The records there are, those wanted now, those with news that the reader has not
come to, and those the reader has been given. -/
structure Feed (μ : Type) where
  (stored wanted waiting given : μ → Prop)

namespace Feed
variable {μ : Type} {F G : Feed μ}

def Covered (F : Feed μ) : Prop := ∀ m, F.stored m → F.wanted m → F.given m ∨ F.waiting m

/-- A change keeps the records covered if new ones wait, what comes to be wanted
waits, and what no longer waits was given or is not wanted. -/
theorem Covered.step (h : F.Covered) (new : ∀ m, G.stored m → F.stored m ∨ G.waiting m)
    (turned : ∀ m, F.stored m → G.wanted m → F.wanted m ∨ G.waiting m) (kept : ∀ m, F.given m → G.given m)
    (passed : ∀ m, F.stored m → F.waiting m → G.waiting m ∨ G.given m ∨ ¬ G.wanted m) : G.Covered := by
  intro m stored wanted
  rcases new m stored with old | waits
  · rcases turned m old wanted with before | waits
    · rcases h m old before with given | waits
      · exact .inl (kept m given)
      · rcases passed m old waits with waits | given | unwanted
        · exact .inr waits
        · exact .inl given
        · exact absurd wanted unwanted
    · exact .inr waits
  · exact .inr waits

end Feed
end Feeds
