import Mathlib.Data.Nat.Pairing
import SynaMcp.Lib.Binary64
import SynaMcp.Lib.Json
import SynaMcp.Lib.Utf8
import SynaMcp.Services.SecureBus

/-! The canonical JSON that is signed: a Go value is normalised to a JSON value with
the keys of objects in order, which `json.Marshal` writes. -/
namespace SynaMcp
open Json List Nat

inductive Float64 where
  | finite (f : Binary64)
  | infinite (negative : Bool)
  | nan

/-- Numbers as the Go library converts, parses and writes them, and the value that a
JSON text is decoded to. `float64` is also what the decoder makes of the digits of an
integer. -/
class GoJson where
  float64 : Int → Float64
  parseFloat : String → Except String Float64
  format : Binary64 → List Char
  decode : String → Json Float64

/-- A value of type `any`. Values of other types than those that are told apart are
marshalled and decoded first. -/
inductive GoValue where
  | nil
  | bool (b : Bool)
  | float64 (f : Float64)
  | string (s : String)
  | int (n : Int)
  | int64 (n : Int)
  | number (text : String)
  | map (entries : List (String × GoValue))
  | slice (items : List GoValue)
  | other (decoded : GoValue)
  | unsupported (error : String)

/-- The order of `sort.Strings`. -/
def bytesLe (s t : String) : Bool := decide (Utf8.bytes s ≤ Utf8.bytes t)

section
variable [GoJson]

mutual

/-- The entries of a map are normalised in the order of their keys, up to an error. -/
def normalize : GoValue → Except String (Json Float64)
  | .nil => .ok .null
  | .bool b => .ok (.bool b)
  | .float64 f => .ok (.number f)
  | .string s => .ok (.string s)
  | .int n => .ok (.number (GoJson.float64 n))
  | .int64 n => .ok (.number (GoJson.float64 n))
  | .number text => do return .number (← GoJson.parseFloat text)
  | .map entries => do
      let fields ← ((normalizeEntries entries).mergeSort fun f g => bytesLe f.1 g.1).mapM
        fun f => do return (f.1, ← f.2)
      return .object fields
  | .slice items => do return .array (← normalizeItems items)
  | .other decoded => normalize decoded
  | .unsupported error => .error error

def normalizeItems : List GoValue → Except String (List (Json Float64))
  | [] => .ok []
  | v :: rest => do
      let a ← normalize v
      return a :: (← normalizeItems rest)

def normalizeEntries : List (String × GoValue) → List (String × Except String (Json Float64))
  | [] => []
  | (key, v) :: rest => (key, normalize v) :: normalizeEntries rest

end

end

/-- A character in a string, as `encoding/json` writes it. -/
def goEscape (c : Char) : List Char :=
  if c = '\\' ∨ c = '"' then ['\\', c]
  else if c = '\x08' then ['\\', 'b']
  else if c = '\x0c' then ['\\', 'f']
  else if c = '\n' then ['\\', 'n']
  else if c = '\r' then ['\\', 'r']
  else if c = '\t' then ['\\', 't']
  else if c.toNat < 0x20 ∨ c = '<' ∨ c = '>' ∨ c = '&' then
    ['\\', 'u', '0', '0', Nat.digitChar (c.toNat / 16), Nat.digitChar (c.toNat % 16)]
  else if c.toNat = 0x2028 ∨ c.toNat = 0x2029 then ['\\', 'u', '2', '0', '2', Nat.digitChar (c.toNat % 16)]
  else [c]

def goString (s : String) : List Char := '"' :: s.toList.flatMap goEscape ++ ['"']

def Float64.unsupported : Float64 → Option String
  | .finite _ => none
  | .infinite false => some "json: unsupported value: +Inf"
  | .infinite true => some "json: unsupported value: -Inf"
  | .nan => some "json: unsupported value: NaN"

section
variable [GoJson]

def goTexts : Json.Texts Float64 where
  string := goString
  number
    | .finite f => GoJson.format f
    | _ => []

/-- The keys of maps are sorted; the first number that cannot be written is the error. -/
def marshal (a : Json Float64) : Except String Bytes :=
  match (a.ordered bytesLe).numbers.findSome? Float64.unsupported with
  | some error => .error error
  | none => .ok (Utf8.encode ((a.ordered bytesLe).print goTexts))

def canonicalJSON (v : GoValue) : Except String Bytes := do marshal (← normalize v)

end

theorem bytesLe_eq (s t : String) : bytesLe s t = decide (s.toList ≤ t.toList) := by
  refine decide_eq_decide.mpr ?_
  rw [← not_lt, ← Utf8.bytes_lt_iff]
  exact Iff.rfl

theorem linear_bytesLe : Json.Linear bytesLe where
  total s t := by simpa only [bytesLe_eq, Bool.or_eq_true, decide_eq_true_eq] using le_total s.toList t.toList
  trans s t u := by simpa only [bytesLe_eq, decide_eq_true_eq] using le_trans
  antisymm s t := by
    simp only [bytesLe_eq, decide_eq_true_eq]
    exact fun before after => String.toList_inj.mp (le_antisymm before after)

def hexValue (c : Char) : Nat := if c.isDigit then c.toNat - 48 else c.toNat - 87

theorem hexValue_digitChar : ∀ n < 16, hexValue (Nat.digitChar n) = n := by decide

def unescapeRest : List Char → Option (Char × List Char)
  | 'u' :: a :: _ :: c :: d :: rest =>
    some (Char.ofNat ((if a = '0' then 0 else 0x2000) + 16 * hexValue c + hexValue d), rest)
  | 'b' :: rest => some ('\x08', rest)
  | 'f' :: rest => some ('\x0c', rest)
  | 'n' :: rest => some ('\n', rest)
  | 'r' :: rest => some ('\r', rest)
  | 't' :: rest => some ('\t', rest)
  | c :: rest => some (c, rest)
  | [] => none

def unescape : List Char → Option (Char × List Char)
  | [] => none
  | c :: rest => if c = '\\' then unescapeRest rest else some (c, rest)

theorem unescape_goEscape (c : Char) (rest : List Char) : unescape (goEscape c ++ rest) = some (c, rest) := by
  unfold goEscape
  split_ifs with quote b f n r t low separator
  · rcases quote with rfl | rfl <;> rfl
  · rw [b]
    rfl
  · rw [f]
    rfl
  · rw [n]
    rfl
  · rw [r]
    rfl
  · rw [t]
    rfl
  · have small : c.toNat < 128 := by
      rcases low with low | rfl | rfl | rfl
      · omega
      all_goals decide
    have same : 0 + 16 * hexValue (Nat.digitChar (c.toNat / 16)) + hexValue (Nat.digitChar (c.toNat % 16)) = c.toNat := by
      rw [hexValue_digitChar _ (by omega), hexValue_digitChar _ (by omega)]
      omega
    show some (Char.ofNat (0 + 16 * hexValue (Nat.digitChar (c.toNat / 16)) + hexValue (Nat.digitChar (c.toNat % 16))), rest) = _
    rw [same, Char.ofNat_toNat]
  · have same : 0x2000 + 16 * 2 + hexValue (Nat.digitChar (c.toNat % 16)) = c.toNat := by
      rw [hexValue_digitChar _ (by omega)]
      omega
    show some (Char.ofNat (0x2000 + 16 * 2 + hexValue (Nat.digitChar (c.toNat % 16))), rest) = _
    rw [same, Char.ofNat_toNat]
  · show (if c = '\\' then _ else _) = _
    rw [if_neg fun same => quote (.inl same)]
    rfl

theorem goEscape_start (c : Char) : ∃ d t, goEscape c = d :: t ∧ d ≠ '"' := by
  unfold goEscape
  split_ifs with quote
  all_goals try exact ⟨'\\', _, rfl, by decide⟩
  exact ⟨c, [], rfl, fun same => quote (.inr same)⟩

theorem escaped_reads (s t x y : List Char) (same : s.flatMap goEscape ++ '"' :: x = t.flatMap goEscape ++ '"' :: y) :
    s = t ∧ x = y := by
  induction s generalizing t with
  | nil =>
    cases t with
    | nil => exact ⟨rfl, (List.cons.inj same).2⟩
    | cons d =>
      obtain ⟨_, _, text, other⟩ := goEscape_start d
      rw [flatMap_cons, text] at same
      exact absurd (List.cons.inj same).1.symm other
  | cons c s ih =>
    cases t with
    | nil =>
      obtain ⟨_, _, text, other⟩ := goEscape_start c
      rw [flatMap_cons, text] at same
      exact absurd (List.cons.inj same).1 other
    | cons d t =>
      rw [flatMap_cons, flatMap_cons, append_assoc, append_assoc] at same
      have read := congrArg unescape same
      rw [unescape_goEscape, unescape_goEscape] at read
      obtain ⟨rfl, left⟩ := Prod.mk.inj (Option.some.inj read)
      obtain ⟨rfl, rfl⟩ := ih t left
      exact ⟨rfl, rfl⟩

theorem goString_reads (s t : String) (x y : List Char) (same : goString s ++ x = goString t ++ y) : s = t ∧ x = y := by
  simp only [goString, cons_append, append_assoc, nil_append, List.cons.injEq, true_and] at same
  obtain ⟨chars, left⟩ := escaped_reads _ _ x y same
  exact ⟨String.toList_inj.mp chars, left⟩

def goValue : Json Float64 → GoValue :=
  Json.fold { null := .nil, bool := .bool, number := .float64, string := .string, array := .slice, object := .map }

theorem goValue_array (items : List (Json Float64)) : goValue (.array items) = .slice (items.map goValue) :=
  fold_array _ items

theorem goValue_object (fields : List (String × Json Float64)) :
    goValue (.object fields) = .map (fields.map fun f => (f.1, goValue f.2)) :=
  fold_object _ fields

/-- What is assumed of the texts of numbers: they consist of characters of numbers, and
different numbers have different texts. -/
structure GoJson.Readable [GoJson] : Prop where
  some : ∀ f, GoJson.format f ≠ []
  digits : ∀ f, ∀ c ∈ GoJson.format f, Json.numberChar c = true
  injective : ∀ f g, GoJson.format f = GoJson.format g → f = g

/-- What is assumed of numbers that come from integers and from decoding: none is
infinite or no number, and an integer up to 2^53 is rounded. -/
structure GoJson.Rounding [GoJson] : Prop where
  finite : ∀ n, (GoJson.float64 n).unsupported = none
  decoded : ∀ text, ∀ n ∈ (GoJson.decode text).numbers, n.unsupported = none
  rounds : ∀ n : Int, n.natAbs ≤ 2 ^ 53 →
    ∃ f, GoJson.float64 n = .finite f ∧ f.negative = decide (n < 0) ∧ f.Rounds n.natAbs

/-- What is assumed of the texts of zero and of the numbers from 10^-6 up to 10^21: the
shortest decimal without an exponent. -/
structure GoJson.Decimals [GoJson] : Prop where
  fixed : ∀ f : Binary64, f.magnitude = 0 ∨ 1 / 10 ^ 6 ≤ f.magnitude ∧ f.magnitude < 10 ^ 21 →
    ∃ d, Decimal.Shortest f d ∧ GoJson.format f = (if f.negative then ['-'] else []) ++ d.fixed

namespace GoJson.Rounding
variable [GoJson] (rounding : GoJson.Rounding)
include rounding

theorem float64_eq {n} (bound : n.natAbs ≤ 2 ^ 53) :
    ∃ f, GoJson.float64 n = .finite f ∧ f.negative = decide (n < 0) ∧ f.magnitude = n.natAbs := by
  obtain ⟨f, converted, sign, rounds⟩ := rounding.rounds n bound
  obtain ⟨_, _, magnitude⟩ := Binary64.exists_magnitude bound false
  exact ⟨f, converted, sign, rounds.eq_of_magnitude magnitude⟩

theorem float64_injective {m n} (boundM : m.natAbs ≤ 2 ^ 53) (boundN : n.natAbs ≤ 2 ^ 53)
    (same : GoJson.float64 m = GoJson.float64 n) : m = n := by
  obtain ⟨f, first, signM, magnitudeM⟩ := rounding.float64_eq boundM
  obtain ⟨g, second, signN, magnitudeN⟩ := rounding.float64_eq boundN
  obtain rfl : f = g := Float64.finite.inj (first.symm.trans (same.trans second))
  have abs : m.natAbs = n.natAbs := by exact_mod_cast magnitudeM.symm.trans magnitudeN
  have sign : m < 0 ↔ n < 0 := decide_eq_decide.mp (signM.symm.trans signN)
  omega

theorem format_float64 (decimals : GoJson.Decimals) {n} (bound : n.natAbs ≤ 2 ^ 53) :
    ∃ f, GoJson.float64 n = .finite f ∧ GoJson.format f = (if n < 0 then ['-'] else []) ++ toDigits 10 n.natAbs := by
  obtain ⟨f, converted, sign, magnitude⟩ := rounding.float64_eq bound
  have range : f.magnitude = 0 ∨ 1 / 10 ^ 6 ≤ f.magnitude ∧ f.magnitude < 10 ^ 21 := by
    rw [magnitude]
    rcases Nat.eq_zero_or_pos n.natAbs with zero | positive
    · exact .inl (by rw [zero, Nat.cast_zero])
    · have one : (1 : ℚ) ≤ n.natAbs := by exact_mod_cast positive
      have top : (n.natAbs : ℚ) ≤ 2 ^ 53 := by exact_mod_cast bound
      exact .inr ⟨le_trans (by norm_num) one, lt_of_le_of_lt top (by norm_num)⟩
  obtain ⟨_, shortest, text⟩ := decimals.fixed f range
  rw [shortest.fixed_eq magnitude bound, sign] at text
  simp only [decide_eq_true_eq] at text
  exact ⟨f, converted, text⟩

end GoJson.Rounding

@[reducible] noncomputable def GoJson.paired : GoJson where
  float64 n :=
    if bound : n.natAbs ≤ 2 ^ 53 then .finite (Binary64.exists_magnitude bound (decide (n < 0))).choose
    else .finite (Binary64.exists_magnitude (zero_le _) false).choose
  parseFloat e := .error e
  format f := (if f.negative then '-' else '+') :: toDigits 10 (pair f.significand (f.exponent + 1074).toNat)
  decode _ := .null

theorem GoJson.paired_readable : @GoJson.Readable .paired := by
  refine @GoJson.Readable.mk .paired (fun _ => cons_ne_nil _ _) (fun f c mem => ?_) (fun f g same => ?_)
  · rcases List.mem_cons.mp mem with rfl | digit
    · split <;> rfl
    · simp only [Json.numberChar, isDigit_of_mem_toDigits (by decide) (by decide) digit, Bool.true_or]
  · obtain ⟨sign, digits⟩ := List.cons.inj same
    have number := congrArg (fun t => ofDigitChars 10 t 0) digits
    simp only [ofDigitChars_toDigits (show 1 < 10 by decide) (show 10 ≤ 10 by decide), pair_eq_pair] at number
    have low := f.low
    have low' := g.low
    refine Binary64.ext ?_ number.1 (by omega)
    cases negative : f.negative <;> cases negative' : g.negative
    · rfl
    · rw [negative, negative'] at sign
      cases sign
    · rw [negative, negative'] at sign
      cases sign
    · rfl

theorem GoJson.paired_rounding : @GoJson.Rounding .paired := by
  refine @GoJson.Rounding.mk .paired (fun n => ?_) (fun text n mem => by cases mem) (fun n bound => ?_)
  · show Float64.unsupported (if bound : n.natAbs ≤ 2 ^ 53 then _ else _) = none
    split <;> rfl
  · have rounds : ∀ f : Binary64, f.magnitude = n.natAbs → f.Rounds n.natAbs := fun f same => same ▸ f.rounds_magnitude
    obtain ⟨sign, magnitude⟩ := (Binary64.exists_magnitude bound (decide (n < 0))).choose_spec
    exact ⟨_, dif_pos bound, sign, rounds _ magnitude⟩

theorem mapM_ok {α β : Type} {f : α → Except String β} {g} {l : List α} (h : ∀ a ∈ l, f a = .ok (g a)) :
    l.mapM f = .ok (l.map g) := by
  induction l with
  | nil => rfl
  | cons a l ih =>
    obtain ⟨first, rest⟩ := List.forall_mem_cons.mp h
    rw [mapM_cons, first, ih rest]
    rfl

section
variable [GoJson] {bytes : Bytes}

theorem normalize_slice (items : List GoValue) :
    normalize (.slice items) = do return .array (← items.mapM normalize) := by
  have each : normalizeItems items = items.mapM normalize := by
    induction items with
    | nil => rfl
    | cons v rest ih => rw [normalizeItems, ih, mapM_cons]
  rw [normalize, each]

theorem normalize_map (entries : List (String × GoValue)) : normalize (.map entries) = do
    let fields ← ((entries.map fun f => (f.1, normalize f.2)).mergeSort fun f g => bytesLe f.1 g.1).mapM
      fun f => do return (f.1, ← f.2)
    return .object fields := by
  have each : normalizeEntries entries = entries.map fun f => (f.1, normalize f.2) := by
    induction entries with
    | nil => rfl
    | cons f rest ih => rw [normalizeEntries, ih, map_cons]
  rw [normalize, each]

theorem normalize_goValue (a : Json Float64) : normalize (goValue a) = .ok (a.ordered bytesLe) := by
  induction a using Json.induction with
  | array items ih =>
    have each : (items.map goValue).mapM normalize = .ok (items.map (.ordered bytesLe)) := by
      rw [mapM_map]
      exact mapM_ok ih
    rw [goValue_array, normalize_slice, each, ordered_array]
    rfl
  | object fields ih =>
    have values : ((fields.map fun f => (f.1, goValue f.2)).map fun f => (f.1, normalize f.2)) =
        fields.map fun f => (f.1, .ok (f.2.ordered bytesLe)) := by
      rw [map_map]
      exact map_congr_left fun f hf => congrArg (Prod.mk f.1) (ih f hf)
    have each : ((fields.mergeSort fun f g => bytesLe f.1 g.1).map fun f =>
          (f.1, (.ok (f.2.ordered bytesLe) : Except String (Json Float64)))).mapM
          (fun f => (do return (f.1, ← f.2) : Except String (String × Json Float64))) =
        .ok ((fields.mergeSort fun f g => bytesLe f.1 g.1).map fun f => (f.1, f.2.ordered bytesLe)) := by
      rw [mapM_map]
      exact mapM_ok fun _ _ => rfl
    rw [goValue_object, normalize_map, values, sort_fields (fun a => Except.ok (a.ordered bytesLe)), each,
      ordered_object, sort_fields]
    rfl
  | _ => rfl

theorem marshal_ok_iff {a} : marshal a = .ok bytes ↔ (∀ n ∈ a.numbers, n.unsupported = none) ∧
      bytes = Utf8.encode ((a.ordered bytesLe).print goTexts) := by
  have good : (a.ordered bytesLe).numbers.findSome? Float64.unsupported = none ↔ ∀ n ∈ a.numbers, n.unsupported = none := by
    simp only [findSome?_eq_none_iff, mem_numbers_ordered]
  unfold marshal
  split
  · next error found =>
    refine iff_of_false (fun ok => by cases ok) fun h => ?_
    cases found.symm.trans (good.mpr h.1)
  · next none =>
    rw [Except.ok.injEq, and_iff_right (good.mp none), eq_comm]

theorem canonicalJSON_goValue_ok_iff {a} :
    canonicalJSON (goValue a) = .ok bytes ↔ (∀ n ∈ a.numbers, n.unsupported = none) ∧
      bytes = Utf8.encode ((a.ordered bytesLe).print goTexts) := by
  rw [canonicalJSON, normalize_goValue]
  show marshal _ = _ ↔ _
  rw [marshal_ok_iff, ordered_ordered linear_bytesLe]
  simp only [mem_numbers_ordered]

theorem goTexts_readable (readable : GoJson.Readable) : goTexts.Readable fun n => n.unsupported = none where
  quoted s := ⟨_, rfl⟩
  strings := goString_reads
  some n finite := by
    cases n with
    | finite f => exact readable.some f
    | infinite negative => cases negative <;> cases finite
    | nan => cases finite
  digits n finite := by
    cases n with
    | finite f => exact readable.digits f
    | infinite negative => cases negative <;> cases finite
    | nan => cases finite
  numbers m n finite finite' same := by
    cases m with
    | infinite negative => cases negative <;> cases finite
    | nan => cases finite
    | finite f =>
      cases n with
      | finite g => rw [readable.injective f g same]
      | infinite negative => cases negative <;> cases finite'
      | nan => cases finite'

theorem same_of_canonicalJSON (readable : GoJson.Readable) {a b}
    (first : canonicalJSON (goValue a) = .ok bytes) (second : canonicalJSON (goValue b) = .ok bytes) : a.Same b := by
  obtain ⟨goodA, textA⟩ := canonicalJSON_goValue_ok_iff.mp first
  obtain ⟨goodB, textB⟩ := canonicalJSON_goValue_ok_iff.mp second
  exact same_of_print (goTexts_readable readable) goodA goodB (Utf8.encode_injective (textA.symm.trans textB))

end
end SynaMcp
