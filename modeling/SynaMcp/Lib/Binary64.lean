import Mathlib.Tactic.Linarith
import Mathlib.Tactic.Positivity

/-! The finite binary64 numbers, rounding to the nearest, and the shortest decimals that
round to one. The shortest decimal of a whole number up to 2^53 is that number. -/

/-- A finite binary64 number; zero has a sign too. -/
@[ext]
structure Binary64 where
  negative : Bool
  significand : Nat
  exponent : Int
  bounded : significand < 2 ^ 53
  low : -1074 ≤ exponent
  high : exponent ≤ 971
  normal : 2 ^ 52 ≤ significand ∨ exponent = -1074

namespace Binary64
open Nat

def magnitude (f : Binary64) : ℚ := f.significand * 2 ^ f.exponent

/-- The nonnegative number rounds to the magnitude of `f`: none is nearer, and if
another is as near, the significand is even. -/
def Rounds (f : Binary64) (q : ℚ) : Prop :=
  ∀ g : Binary64, |q - f.magnitude| ≤ |q - g.magnitude| ∧
    (|q - f.magnitude| = |q - g.magnitude| → g.magnitude = f.magnitude ∨ Even f.significand)

theorem Rounds.near {f : Binary64} {q} (h : f.Rounds q) (g : Binary64) : |q - f.magnitude| ≤ |q - g.magnitude| :=
  (h g).1

theorem rounds_magnitude (f : Binary64) : f.Rounds f.magnitude := by
  intro g
  rw [sub_self, abs_zero]
  refine ⟨abs_nonneg _, fun tie => .inl ?_⟩
  exact (sub_eq_zero.mp (abs_eq_zero.mp tie.symm)).symm

theorem Rounds.eq_of_magnitude {f g : Binary64} {q} (h : f.Rounds q) (exact : g.magnitude = q) : f.magnitude = q := by
  have near := h.near g
  rw [exact, sub_self, abs_zero] at near
  exact (sub_eq_zero.mp (abs_eq_zero.mp (le_antisymm near (abs_nonneg _)))).symm

theorem middle_le {a b q : ℚ} (less : a < b) (near : |q - b| ≤ |q - a|) : (a + b) / 2 ≤ q := by
  rcases abs_cases (q - b) with ⟨eq, _⟩ | ⟨eq, _⟩ <;> rcases abs_cases (q - a) with ⟨eq', _⟩ | ⟨eq', _⟩ <;> linarith

theorem le_middle {a b q : ℚ} (less : a < b) (near : |q - a| ≤ |q - b|) : q ≤ (a + b) / 2 := by
  rcases abs_cases (q - a) with ⟨eq, _⟩ | ⟨eq, _⟩ <;> rcases abs_cases (q - b) with ⟨eq', _⟩ | ⟨eq', _⟩ <;> linarith

theorem exists_magnitude {n : Nat} (bound : n ≤ 2 ^ 53) (negative : Bool) :
    ∃ f : Binary64, f.negative = negative ∧ f.magnitude = n := by
  rcases Nat.eq_zero_or_pos n with rfl | positive
  · exact ⟨⟨negative, 0, -1074, by decide, by decide, by decide, .inr rfl⟩, rfl, by simp [magnitude]⟩
  · rcases Nat.lt_or_eq_of_le bound with less | rfl
    · have top : n.log2 < 53 := (log2_lt positive.ne').mpr less
      have lower : 2 ^ n.log2 ≤ n := log2_self_le positive.ne'
      have upper : n < 2 ^ (n.log2 + 1) := lt_log2_self
      generalize n.log2 = b at top lower upper
      obtain ⟨shift, places⟩ : ∃ shift, b + shift = 52 := ⟨52 - b, by omega⟩
      have bounded : n * 2 ^ shift < 2 ^ 53 := by
        rw [show 53 = b + 1 + shift by omega, Nat.pow_add]
        exact Nat.mul_lt_mul_of_pos_right upper (Nat.two_pow_pos shift)
      have normal : 2 ^ 52 ≤ n * 2 ^ shift := by
        rw [← places, Nat.pow_add]
        exact mul_le_mul_right _ lower
      refine ⟨⟨negative, n * 2 ^ shift, -shift, bounded, by omega, by omega, .inl normal⟩, rfl, ?_⟩
      rw [magnitude, Nat.cast_mul, Nat.cast_pow, zpow_neg, zpow_natCast]
      exact mul_inv_cancel_right₀ (pow_ne_zero _ two_ne_zero) _
    · exact ⟨⟨negative, 2 ^ 52, 1, by decide, by decide, by decide, .inl le_rfl⟩, rfl, by norm_num [magnitude]⟩

end Binary64

/-- The decimal `digits * 10 ^ exponent`. -/
structure Decimal where
  digits : Nat
  exponent : Int

namespace Decimal
variable (d : Decimal)

def value : ℚ := d.digits * 10 ^ d.exponent

def count : Nat := (Nat.toDigits 10 d.digits).length

def fixed : List Char :=
  let text := Nat.toDigits 10 d.digits
  let places := (-d.exponent).toNat
  if d.digits = 0 then ['0']
  else if 0 ≤ d.exponent then text ++ List.replicate d.exponent.toNat '0'
  else if places < text.length then text.take (text.length - places) ++ '.' :: text.drop (text.length - places)
  else '0' :: '.' :: List.replicate (places - text.length) '0' ++ text

theorem count_le_iff {d : Decimal} {k} (positive : 0 < k) : d.count ≤ k ↔ d.digits < 10 ^ k :=
  Nat.length_toDigits_le_iff (by decide) positive

theorem count_pos : 0 < d.count := Nat.length_toDigits_pos

theorem toDigits_mul_pow {n} (positive : 0 < n) (k : Nat) :
    Nat.toDigits 10 (n * 10 ^ k) = Nat.toDigits 10 n ++ List.replicate k '0' := by
  induction k with
  | zero => simp
  | succ k ih =>
    have pos : 0 < n * 10 ^ k := Nat.mul_pos positive (Nat.pow_pos (by decide))
    have step := Nat.toDigits_append_toDigits (b := 10) (d := 0) (by decide) pos (by decide)
    rw [Nat.pow_succ, ← Nat.mul_assoc, Nat.mul_comm _ 10, ← Nat.add_zero (10 * _), ← step, ih, List.replicate_succ',
      List.append_assoc]
    rfl

theorem fixed_of_value {d : Decimal} {n : Nat} (whole : d.value = n) (places : 0 ≤ d.exponent ∨ d.digits = 0) :
    d.fixed = Nat.toDigits 10 n := by
  by_cases zero : d.digits = 0
  · rw [value, zero, Nat.cast_zero, zero_mul] at whole
    obtain rfl : n = 0 := (Nat.cast_eq_zero.mp whole.symm)
    rw [fixed, if_pos zero, Nat.toDigits_zero]
  · have places := places.resolve_right zero
    obtain ⟨k, exponent⟩ := Int.eq_ofNat_of_zero_le places
    rw [value, exponent, zpow_natCast] at whole
    have product : n = d.digits * 10 ^ k := by exact_mod_cast whole.symm
    rw [fixed, if_neg zero, if_pos places, exponent, product, toDigits_mul_pow (pos_of_ne_zero zero), Int.toNat_natCast]

/-- The shortest decimal that rounds to the magnitude of `f`, and that magnitude itself
if it is as short. -/
structure Shortest (f : Binary64) (d : Decimal) : Prop where
  rounds : f.Rounds d.value
  shortest : ∀ e : Decimal, f.Rounds e.value → d.count ≤ e.count
  exact : ∀ e : Decimal, e.value = f.magnitude → e.count = d.count → d.value = f.magnitude

theorem exists_value (f : Binary64) : ∃ d : Decimal, d.value = f.magnitude := by
  rcases Int.le_total 0 f.exponent with up | down
  · obtain ⟨k, exponent⟩ := Int.eq_ofNat_of_zero_le up
    refine ⟨⟨f.significand * 2 ^ k, 0⟩, ?_⟩
    rw [value, Binary64.magnitude, exponent, zpow_zero, mul_one, zpow_natCast]
    push_cast
    rfl
  · obtain ⟨k, _⟩ := Int.eq_ofNat_of_zero_le (Int.neg_nonneg_of_nonpos down)
    refine ⟨⟨f.significand * 5 ^ k, -k⟩, ?_⟩
    have ten : (10 : ℚ) ^ k = 5 ^ k * 2 ^ k := by rw [← mul_pow]; norm_num
    rw [value, Binary64.magnitude, show f.exponent = -(k : Int) by omega, zpow_neg, zpow_neg, zpow_natCast, zpow_natCast,
      ten, mul_inv, Nat.cast_mul, Nat.cast_pow, Nat.cast_ofNat, mul_assoc,
      mul_inv_cancel_left₀ (pow_ne_zero k (by norm_num : (5 : ℚ) ≠ 0))]

theorem exists_shortest (f : Binary64) : ∃ d, Shortest f d := by
  classical
  obtain ⟨own, is⟩ := exists_value f
  have some : ∃ c, ∃ d : Decimal, f.Rounds d.value ∧ d.count = c := ⟨_, own, is ▸ f.rounds_magnitude, rfl⟩
  have least : ∀ e : Decimal, f.Rounds e.value → Nat.find some ≤ e.count := fun e rounds => Nat.find_min' some ⟨e, rounds, rfl⟩
  by_cases exact : ∃ e : Decimal, e.value = f.magnitude ∧ e.count = Nat.find some
  · obtain ⟨e, value, count⟩ := exact
    exact ⟨e, value ▸ f.rounds_magnitude, count ▸ least, fun _ _ _ => value⟩
  · obtain ⟨d, rounds, count⟩ := Nat.find_spec some
    exact ⟨d, rounds, count ▸ least, fun e value same => absurd ⟨e, value, same.trans count⟩ exact⟩

section
variable {f : Binary64} {n : Nat} {d : Decimal}

/-- Between 2^53 and the next number, 2^53 + 2, the whole number is no shorter than 2^53. -/
theorem Shortest.ne_between (is : f.magnitude = (2 ^ 53 : Nat)) (h : Shortest f d) : d.value ≠ (2 ^ 53 + 1 : Nat) := by
  intro between
  have own : value ⟨2 ^ 53, 0⟩ = f.magnitude := by rw [is, value, zpow_zero, mul_one]
  have sixteen : count ⟨2 ^ 53, 0⟩ = 16 := by decide +kernel
  have short : d.count ≤ 16 := sixteen ▸ h.shortest ⟨2 ^ 53, 0⟩ (own ▸ f.rounds_magnitude)
  have long : ¬ d.count ≤ 15 := by
    rw [count_le_iff (by decide)]
    intro less
    have places : 0 < d.exponent := by
      by_contra none
      have small : d.value ≤ d.digits := by
        rw [value]
        exact mul_le_of_le_one_right (Nat.cast_nonneg _) (zpow_le_one_of_nonpos₀ (by norm_num) (not_lt.mp none))
      rw [between] at small
      have small : 2 ^ 53 + 1 ≤ d.digits := by exact_mod_cast small
      omega
    obtain ⟨k, exponent⟩ : ∃ k : Nat, d.exponent = (k + 1 : Nat) := ⟨d.exponent.toNat - 1, by omega⟩
    rw [value, exponent, zpow_natCast] at between
    have product : d.digits * 10 ^ (k + 1) = 2 ^ 53 + 1 := by exact_mod_cast between
    rw [Nat.pow_succ, ← Nat.mul_assoc] at product
    omega
  have exact := h.exact ⟨2 ^ 53, 0⟩ own (sixteen.trans (Nat.le_antisymm short (Nat.lt_of_not_le long)).symm)
  rw [between, is] at exact
  norm_num at exact

variable (is : f.magnitude = n) (bound : n ≤ 2 ^ 53) (h : Shortest f d)
include is bound h

theorem Shortest.eq_of_whole {m : Nat} (whole : d.value = m) : m = n := by
  by_cases small : m ≤ 2 ^ 53
  · obtain ⟨_, _, magnitude⟩ := Binary64.exists_magnitude small false
    have rounded := h.rounds.eq_of_magnitude (magnitude.trans whole.symm)
    rw [is, whole] at rounded
    exact_mod_cast rounded.symm
  · exfalso
    obtain ⟨top, _, magnitude⟩ := Binary64.exists_magnitude (le_refl (2 ^ 53)) false
    have atTop : n = 2 ^ 53 := by
      refine Nat.le_antisymm bound (Nat.le_of_not_lt fun less => ?_)
      have near := h.rounds.near top
      rw [is, magnitude, whole] at near
      have high := Binary64.le_middle (by exact_mod_cast less) near
      have high : (2 * m : ℚ) ≤ (n + 2 ^ 53 : Nat) := by push_cast at high ⊢; linarith
      have high : 2 * m ≤ n + 2 ^ 53 := by exact_mod_cast high
      omega
    subst atTop
    let next : Binary64 := ⟨false, 2 ^ 52 + 1, 1, by decide, by decide, by decide, .inl (by decide)⟩
    have beyond : next.magnitude = (2 ^ 53 + 2 : Nat) := by norm_num [next, Binary64.magnitude]
    have near := h.rounds.near next
    rw [is, beyond, whole] at near
    have high := Binary64.le_middle (by norm_num) near
    have high : (2 * m : ℚ) ≤ (2 ^ 53 + (2 ^ 53 + 2) : Nat) := by push_cast at high ⊢; linarith
    have high : 2 * m ≤ 2 ^ 53 + (2 ^ 53 + 2) := by exact_mod_cast high
    exact h.ne_between is (by rw [whole, show m = 2 ^ 53 + 1 by omega])

omit bound in
theorem Shortest.nine_lt (positive : 0 < n) (below : (n - 1 / 2 : ℚ) ≤ d.value) : 9 < 10 * d.value := by
  rcases Nat.lt_or_eq_of_le positive with more | rfl
  · have two : (2 : ℚ) ≤ n := by exact_mod_cast more
    linarith
  · let less : Binary64 := ⟨false, 7 * 2 ^ 50, -53, by decide, by decide, by decide, .inl (by decide)⟩
    have magnitude : less.magnitude = 7 / 8 := by norm_num [less, Binary64.magnitude]
    have near := h.rounds.near less
    rw [is, magnitude] at near
    have middle := Binary64.middle_le (by norm_num) near
    norm_num at middle
    linarith

theorem Shortest.no_places (positive : 0 < n) : 0 ≤ d.exponent := by
  by_contra places
  obtain ⟨k, exponent⟩ : ∃ k : Nat, d.exponent = -(k + 1 : Nat) := ⟨(-d.exponent).toNat - 1, by omega⟩
  have long : 10 * d.value ≤ d.digits := by
    rw [value, exponent, zpow_neg, zpow_natCast, mul_left_comm]
    refine mul_le_of_le_one_right (Nat.cast_nonneg _) ?_
    rw [← div_eq_mul_inv, div_le_one (by positivity), pow_succ]
    exact le_mul_of_one_le_left (by norm_num) (one_le_pow₀ (by norm_num))
  have below : (n - 1 / 2 : ℚ) ≤ d.value := by
    obtain ⟨g, _, magnitude⟩ := Binary64.exists_magnitude (Nat.le_trans (Nat.sub_le n 1) bound) false
    have near := h.rounds.near g
    rw [is, magnitude, Nat.cast_sub positive] at near
    have middle := Binary64.middle_le (by push_cast; linarith) near
    push_cast at middle
    linarith
  by_cases power : ∃ j, n = 10 ^ j
  · -- A power of ten has one digit, and the decimal has more.
    obtain ⟨j, ten⟩ := power
    have own : value ⟨1, j⟩ = f.magnitude := by
      rw [is, ten, value, Nat.cast_one, one_mul, zpow_natCast, Nat.cast_pow, Nat.cast_ofNat]
    have short := h.shortest ⟨1, j⟩ (own ▸ f.rounds_magnitude)
    have one : count ⟨1, j⟩ = 1 := by rw [count, Nat.toDigits_of_lt_base (show 1 < 10 by decide), List.length_singleton]
    rw [one, count_le_iff (by decide)] at short
    have nine : 9 < 10 * d.value := h.nine_lt is positive below
    have nine : (9 : ℚ) < d.digits := lt_of_lt_of_le nine long
    have nine : 9 < d.digits := by exact_mod_cast nine
    omega
  · -- Any other number is above the least of its length by one at least.
    have own : value ⟨n, 0⟩ = f.magnitude := by rw [is, value, zpow_zero, mul_one]
    obtain ⟨l, length⟩ : ∃ l, (Nat.toDigits 10 n).length = l + 1 :=
      Nat.exists_eq_succ_of_ne_zero Nat.length_toDigits_pos.ne'
    have short := h.shortest ⟨n, 0⟩ (own ▸ f.rounds_magnitude)
    rw [show count ⟨n, 0⟩ = l + 1 from length, count_le_iff (Nat.succ_pos l)] at short
    have least : 10 ^ l < n := by
      refine lt_of_le_of_ne (Nat.le_of_not_lt fun less => ?_) fun same => power ⟨l, same.symm⟩
      cases l with
      | zero => omega
      | succ l =>
        have shorter := (Nat.length_toDigits_le_iff (by decide) (Nat.succ_pos l)).mpr less
        omega
    have high : (10 * 10 ^ l : Nat) ≤ (d.digits : ℚ) := by
      have step : ((10 ^ l + 1 : Nat) : ℚ) ≤ n := by exact_mod_cast least
      push_cast at step ⊢
      linarith
    have high : 10 * 10 ^ l ≤ d.digits := by exact_mod_cast high
    rw [Nat.pow_succ, Nat.mul_comm] at short
    omega

theorem Shortest.fixed_eq : d.fixed = Nat.toDigits 10 n := by
  rcases Nat.eq_zero_or_pos n with rfl | positive
  · have own : value ⟨0, 0⟩ = f.magnitude := by rw [is, value, Nat.cast_zero, zero_mul]
    have short : d.count ≤ 1 := h.shortest ⟨0, 0⟩ (own ▸ f.rounds_magnitude)
    have zero : d.value = 0 := by
      rw [h.exact ⟨0, 0⟩ own (Nat.le_antisymm d.count_pos short), is, Nat.cast_zero]
    refine fixed_of_value (zero.trans Nat.cast_zero.symm) (.inr ?_)
    rcases mul_eq_zero.mp zero with digits | power
    · exact_mod_cast digits
    · exact absurd power (zpow_ne_zero _ (by norm_num))
  · have places := h.no_places is bound positive
    obtain ⟨k, exponent⟩ := Int.eq_ofNat_of_zero_le places
    have whole : d.value = (d.digits * 10 ^ k : Nat) := by
      rw [value, exponent, zpow_natCast]
      push_cast
      rfl
    rw [h.eq_of_whole is bound whole] at whole
    exact fixed_of_value whole (.inl places)

end
end Decimal
