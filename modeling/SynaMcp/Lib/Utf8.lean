import Mathlib.Data.Char
import Mathlib.Data.List.Lex
import Mathlib.Order.Lattice

/-! Words for characters that differ, in order, at a place that both have. Texts in such
words have the order of the texts they are for. UTF-8 is an example. -/
namespace Utf8
open List

section
variable {α β : Type} [LT α] [LT β]

/-- At the first place at which the words differ both have a letter, and the first word
has the lesser. -/
inductive Less : List β → List β → Prop where
  | here {x y s t} (less : x < y) : Less (x :: s) (y :: t)
  | there {x y s t} (same : x = y) (rest : Less s t) : Less (x :: s) (y :: t)

theorem Less.append_lt {u v} (h : Less u v) (s t : List β) : u ++ s < v ++ t := by
  induction h with
  | here less => exact .rel less
  | there same _ ih =>
    subst same
    exact .cons ih

/-- A code for letters whose words differ in the order of the letters. -/
structure Monotone (code : α → List β) : Prop where
  less : ∀ {a b}, a < b → Less (code a) (code b)
  some : ∀ a, code a ≠ []

theorem Monotone.flatMap_lt {code : α → List β} (h : Monotone code) {s t : List α} (less : s < t) :
    s.flatMap code < t.flatMap code := by
  induction less with
  | @nil a =>
    rw [flatMap_cons, flatMap_nil]
    cases word : code a with
    | nil => exact absurd word (h.some a)
    | cons => exact .nil
  | rel less =>
    rw [flatMap_cons, flatMap_cons]
    exact (h.less less).append_lt _ _
  | cons _ ih =>
    rw [flatMap_cons, flatMap_cons]
    exact append_left_lt ih

end

section
variable {α β : Type} [LinearOrder α] [LT β] [Std.Asymm (fun x y : β => x < y)] {code : α → List β}

theorem Monotone.flatMap_lt_iff (h : Monotone code) {s t : List α} : s.flatMap code < t.flatMap code ↔ s < t := by
  refine ⟨fun less => ?_, h.flatMap_lt⟩
  rcases lt_trichotomy s t with before | rfl | after
  · exact before
  · exact absurd less (List.lt_asymm less)
  · exact absurd less (List.lt_asymm (h.flatMap_lt after))

theorem Monotone.flatMap_injective (h : Monotone code) {s t : List α} (same : s.flatMap code = t.flatMap code) :
    s = t := by
  have apart : ∀ {s t : List α}, s < t → s.flatMap code ≠ t.flatMap code := by
    intro s t before same
    have less := h.flatMap_lt before
    exact List.lt_asymm less (same ▸ less)
  rcases lt_trichotomy s t with before | equal | after
  · exact absurd same (apart before)
  · exact equal
  · exact absurd same.symm (apart after)

end

theorem ofNat_lt {m n} (less : m < n) (bound : n < 256) : UInt8.ofNat m < UInt8.ofNat n := by
  rw [UInt8.lt_iff_toNat_lt, UInt8.toNat_ofNat_of_lt' (Nat.lt_trans less bound), UInt8.toNat_ofNat_of_lt' bound]
  exact less

theorem less_cons {m n s t} (bound : n < 256) (less : m < n ∨ m = n ∧ Less s t) :
    Less (UInt8.ofNat m :: s) (UInt8.ofNat n :: t) := by
  rcases less with less | ⟨rfl, rest⟩
  · exact .here (ofNat_lt less bound)
  · exact .there rfl rest

theorem monotone_utf8EncodeChar : Monotone String.utf8EncodeChar where
  less {c d} less := by
    have less : c.val.toNat < d.val.toNat := less
    have bound : d.val.toNat < 1114112 := by
      have valid := d.valid
      simp only [UInt32.isValidChar, Nat.isValidChar] at valid
      omega
    generalize hc : c.val.toNat = m at less
    generalize hd : d.val.toNat = n at less bound
    simp only [String.utf8EncodeChar, hc, hd]
    -- The first byte tells the length of a word; words of one length are compared by their digits to base 64.
    split
    · split
      · exact less_cons (by omega) (.inl less)
      · split
        · exact less_cons (by omega) (.inl (by omega))
        · split
          · exact less_cons (by omega) (.inl (by omega))
          · exact less_cons (by omega) (.inl (by omega))
    · rw [if_neg (show ¬ n ≤ 127 by omega)]
      split
      · split
        · refine less_cons (by omega) ?_
          by_cases high : m / 64 = n / 64
          · exact .inr ⟨by omega, less_cons (by omega) (.inl (by omega))⟩
          · exact .inl (by omega)
        · split
          · exact less_cons (by omega) (.inl (by omega))
          · exact less_cons (by omega) (.inl (by omega))
      · rw [if_neg (show ¬ n ≤ 2047 by omega)]
        split
        · split
          · refine less_cons (by omega) ?_
            by_cases high : m / 4096 = n / 4096
            · refine .inr ⟨by omega, less_cons (by omega) ?_⟩
              by_cases middle : m / 64 = n / 64
              · exact .inr ⟨by omega, less_cons (by omega) (.inl (by omega))⟩
              · exact .inl (by omega)
            · exact .inl (by omega)
          · exact less_cons (by omega) (.inl (by omega))
        · rw [if_neg (show ¬ n ≤ 65535 by omega)]
          refine less_cons (by omega) ?_
          by_cases top : m / 262144 = n / 262144
          · refine .inr ⟨by omega, less_cons (by omega) ?_⟩
            by_cases high : m / 4096 = n / 4096
            · refine .inr ⟨by omega, less_cons (by omega) ?_⟩
              by_cases middle : m / 64 = n / 64
              · exact .inr ⟨by omega, less_cons (by omega) (.inl (by omega))⟩
              · exact .inl (by omega)
            · exact .inl (by omega)
          · exact .inl (by omega)
  some c := String.utf8EncodeChar_ne_nil

def encode (chars : List Char) : List UInt8 := chars.flatMap String.utf8EncodeChar

def bytes (s : String) : List UInt8 := encode s.toList

theorem encode_injective {s t : List Char} (h : encode s = encode t) : s = t :=
  monotone_utf8EncodeChar.flatMap_injective h

theorem bytes_lt_iff {s t : String} : bytes s < bytes t ↔ s.toList < t.toList := monotone_utf8EncodeChar.flatMap_lt_iff

end Utf8
