import Mathlib.Data.List.Infix

/-! The functions of Go's `strings` package that the server uses, on the runes of
a string. All of them are structurally recursive, so that they evaluate. -/
namespace GoStrings

def hasPrefix (s p : String) : Bool := p.toList.isPrefixOf s.toList

def hasSuffix (s p : String) : Bool := p.toList.isSuffixOf s.toList

def contains (s sub : String) : Bool := decide (sub.toList <:+: s.toList)

def trimPrefix (s p : String) : String := if hasPrefix s p then String.ofList (s.toList.drop p.toList.length) else s

def trimSuffix (s p : String) : String :=
  if hasSuffix s p then String.ofList (s.toList.take (s.toList.length - p.toList.length)) else s

variable (f : Char → Bool) (s : String)

def trimLeftFunc : String := String.ofList (s.toList.dropWhile f)

def trimRightFunc : String := String.ofList (s.toList.reverse.dropWhile f).reverse

def trimFunc : String := trimRightFunc f (trimLeftFunc f s)

/-- `strings.Split` with a separator of one rune: never empty. -/
def split (s : String) (sep : Char) : List String := (s.toList.splitOn sep).map String.ofList

/-- The two parts of `strings.SplitN(s, sep, 2)`, where there are two. -/
def splitFirst (s : String) (sep : Char) : Option (String × String) :=
  match s.toList.span (· ≠ sep) with
  | (before, _ :: rest) => some (String.ofList before, String.ofList rest)
  | (_, []) => none

/-- `strings.Cut`: what is before and behind the first `sep`. -/
def cutRunes (sep : List Char) : List Char → Option (List Char × List Char)
  | [] => if sep = [] then some ([], []) else none
  | c :: s => if sep.isPrefixOf (c :: s) then some ([], (c :: s).drop sep.length)
    else (cutRunes sep s).map fun r => (c :: r.1, r.2)

def cut (s sep : String) : Option (String × String) :=
  (cutRunes sep.toList s.toList).map fun r => (String.ofList r.1, String.ofList r.2)

/-- `strings.ToLower`, with the letters beyond ASCII in lower case as `lower` has them. -/
def toLower (lower : Char → Char) (s : String) : String :=
  String.ofList (s.toList.map fun c => if c.toNat < 128 then c.toLower else lower c)

theorem toLower_eq_self {lower s} (h : ∀ c ∈ s.toList, c.toNat < 65 ∨ 90 < c.toNat ∧ c.toNat < 128) :
    toLower lower s = s := by
  have same : ∀ c ∈ s.toList, (if c.toNat < 128 then c.toLower else lower c) = c := by
    intro c mem
    have bounds := h c mem
    rw [if_pos (by omega)]
    refine dif_neg ?_
    rintro ⟨low, high⟩
    have low : 65 ≤ c.toNat := low
    have high : c.toNat ≤ 90 := high
    omega
  rw [toLower, List.map_congr_left same, List.map_id', String.ofList_toList]

/-- `unicode.IsSpace`: the White_Space property. -/
def isSpace (c : Char) : Bool :=
  (0x09 ≤ c.toNat && c.toNat ≤ 0x0d) || c.toNat == 0x20 || c.toNat == 0x85 || c.toNat == 0xa0 ||
    c.toNat == 0x1680 || (0x2000 ≤ c.toNat && c.toNat ≤ 0x200a) || c.toNat == 0x2028 ||
    c.toNat == 0x2029 || c.toNat == 0x202f || c.toNat == 0x205f || c.toNat == 0x3000

def trimSpace (s : String) : String := trimFunc isSpace s

/-- `strings.Fields`: the parts between white space. -/
def fields (s : String) : List String := ((s.toList.splitOnP isSpace).filter (· ≠ [])).map String.ofList

section
open List

theorem not_of_mem_splitOnP {p : Char → Bool} {s part} (h : part ∈ splitOnP p s) : ∀ c ∈ part, p c = false := by
  induction s generalizing part with
  | nil => simp_all
  | cons x s ih =>
    rw [splitOnP_cons_eq_if_modifyHead] at h
    split at h
    · rcases mem_cons.mp h with rfl | later
      · simp
      · exact ih later
    · next kept =>
      cases parts : splitOnP p s with
      | nil => simp [parts] at h
      | cons first =>
        rw [parts] at h
        rcases mem_cons.mp h with rfl | later
        · rintro c (_ | ⟨_, mem⟩)
          · simpa using kept
          · exact ih (parts ▸ mem_cons_self) c mem
        · exact ih (parts ▸ mem_cons_of_mem first later)

/-- A part of a text between white space. -/
def IsField (t : String) : Prop := t ≠ "" ∧ ∀ c ∈ t.toList, isSpace c = false

theorem isField_of_mem {s t} (h : t ∈ fields s) : IsField t := by
  obtain ⟨_, mem, rfl⟩ := mem_map.mp h
  rw [mem_filter, decide_eq_true_eq] at mem
  refine ⟨fun empty => mem.2 (String.ofList_injective empty), ?_⟩
  rw [String.toList_ofList]
  exact not_of_mem_splitOnP mem.1

theorem fields_intercalate {ts} (h : ∀ t ∈ ts, IsField t) : fields (String.intercalate " " ts) = ts := by
  rw [fields, String.toList_intercalate]
  induction ts with
  | nil => rfl
  | cons t ts ih =>
    obtain ⟨some, plain⟩ := h t mem_cons_self
    have chars : t.toList ≠ [] := mt String.toList_eq_nil_iff.mp some
    cases ts with
    | nil => simp [splitOnP_eq_singleton plain, chars]
    | cons =>
      have rest := ih fun u mem => h u (mem_cons_of_mem t mem)
      rw [map_cons, map_cons, intercalate_cons_cons, append_assoc, ← map_cons]
      rw [show " ".toList = [' '] from rfl, singleton_append, splitOnP_append_cons_of_forall_mem plain ' ' rfl]
      rw [filter_cons_of_pos (by simpa using chars), map_cons, String.ofList_toList]
      exact congrArg _ rest

end

theorem toString_nat_inj {m n : Nat} (h : toString m = toString n) : m = n := by
  have text : Nat.toDigits 10 m = Nat.toDigits 10 n := String.ofList_injective h
  have number := congrArg (fun t => Nat.ofDigitChars 10 t 0) text
  simpa only [Nat.ofDigitChars_toDigits (show 1 < 10 by decide) (show 10 ≤ 10 by decide)] using number

end GoStrings
