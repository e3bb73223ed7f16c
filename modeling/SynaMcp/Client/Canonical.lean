import SynaMcp.Services.Canonical

/-! The canonical JSON of the Python client. It has an encoder of its own, with the
escapes of Go's, and writes the bytes that the server computes from the decoded request. -/
namespace SynaMcp.Client
open Nat

/-- The text that `repr` gives for a float. -/
class PyFloats where
  repr : Binary64 → List Char

/-- A Python value; dicts have strings for keys. Of a value of another type there is the
name of the type and the text that `str` gives, which goes through JSON unchanged. -/
inductive PyValue where
  | none
  | bool (b : Bool)
  | str (s : String)
  | int (n : Int)
  | float (f : Float64)
  | dict (entries : List (String × PyValue))
  | list (items : List PyValue)
  | tuple (items : List PyValue)
  | other (type text : String)

def codePointsLe (s t : String) : Bool := decide (s.toList ≤ t.toList)

def wholeMagnitude (f : Binary64) : Option Nat :=
  if 0 ≤ f.exponent then some (f.significand * 2 ^ f.exponent.toNat)
  else if f.significand % 2 ^ (-f.exponent).toNat = 0 then some (f.significand / 2 ^ (-f.exponent).toNat)
  else none

/-- `is_integer` and `int`. -/
def wholeFloat : Float64 → Option Int
  | .finite f => (wholeMagnitude f).map fun n => if f.negative then -n else n
  | _ => none

mutual

def normalize : PyValue → PyValue
  | .none => .none
  | .bool b => .bool b
  | .str s => .str s
  | .int n => .int n
  | .float f =>
    match wholeFloat f with
    | some n => .int n
    | none => .float f
  | .dict entries => .dict ((normalizeEntries entries).mergeSort fun f g => codePointsLe f.1 g.1)
  | .list items => .list (normalizeItems items)
  | .tuple items => .list (normalizeItems items)
  | .other _ text => .str text

def normalizeItems : List PyValue → List PyValue
  | [] => []
  | v :: rest => normalize v :: normalizeItems rest

def normalizeEntries : List (String × PyValue) → List (String × PyValue)
  | [] => []
  | (key, v) :: rest => (key, normalize v) :: normalizeEntries rest

end

def hex4 (n : Nat) : List Char := List.replicate (4 - (toDigits 16 n).length) '0' ++ toDigits 16 n

def escapeGoChar (c : Char) : List Char :=
  if c = '"' then "\\\"".toList
  else if c = '\\' then "\\\\".toList
  else if c = '\x08' then "\\b".toList
  else if c = '\x0c' then "\\f".toList
  else if c = '\n' then "\\n".toList
  else if c = '\r' then "\\r".toList
  else if c = '\t' then "\\t".toList
  else if c = '&' then "\\u0026".toList
  else if c = '<' then "\\u003c".toList
  else if c = '>' then "\\u003e".toList
  else if c.toNat = 0x2028 then "\\u2028".toList
  else if c.toNat = 0x2029 then "\\u2029".toList
  else if c.toNat < 0x20 then '\\' :: 'u' :: hex4 c.toNat
  else [c]

def escapeGoString (s : String) : List Char := s.toList.flatMap escapeGoChar

def encodeStr (s : String) : List Char := '"' :: escapeGoString s ++ ['"']

/-- `str` of an integer. -/
def intText (n : Int) : List Char := (if n < 0 then ['-'] else []) ++ toDigits 10 n.natAbs

section
variable [PyFloats]

def encodeFloat : Float64 → Except String (List Char)
  | .nan => .error "NaN not allowed in canonical JSON"
  | .infinite _ => .error "Infinity not allowed in canonical JSON"
  | .finite f =>
    let text := PyFloats.repr f
    .ok (if ['.', '0'] <:+ text ∧ '.' ∈ text ∧ 'e' ∉ text ∧ 'E' ∉ text then text.dropLast.dropLast else text)

mutual

/-- The entries of a dict are written in the order of their keys, up to an error. -/
def encode : PyValue → Except String (List Char)
  | .none => .ok "null".toList
  | .bool b => .ok (if b then "true".toList else "false".toList)
  | .str s => .ok (encodeStr s)
  | .int n => .ok (intText n)
  | .float f => encodeFloat f
  | .dict entries => do
      let parts ← ((encodeEntries entries).mergeSort fun f g => codePointsLe f.1 g.1).mapM
        fun f => do return encodeStr f.1 ++ ':' :: (← f.2)
      return '{' :: Json.commas parts ++ ['}']
  | .list items => do return '[' :: Json.commas (← encodeItems items) ++ [']']
  | .tuple _ => .error "unsupported type <class 'tuple'>"
  | .other type _ => .error ("unsupported type " ++ type)

def encodeItems : List PyValue → Except String (List (List Char))
  | [] => .ok []
  | v :: rest => do
      let text ← encode v
      return text :: (← encodeItems rest)

def encodeEntries : List (String × PyValue) → List (String × Except String (List Char))
  | [] => []
  | (key, v) :: rest => (key, encode v) :: encodeEntries rest

end

def canonicalJson (v : PyValue) : Except String Bytes := do return Utf8.encode (← encode (normalize v))

end

def pyValue : Json Int → PyValue :=
  Json.fold { null := .none, bool := .bool, number := .int, string := .str, array := .list, object := .dict }

theorem pyValue_array (items : List (Json Int)) : pyValue (.array items) = .list (items.map pyValue) :=
  Json.fold_array _ items

theorem pyValue_object (fields : List (String × Json Int)) :
    pyValue (.object fields) = .dict (fields.map fun f => (f.1, pyValue f.2)) :=
  Json.fold_object _ fields

def pyTexts : Json.Texts Int where
  string := encodeStr
  number := intText

theorem codePointsLe_eq : codePointsLe = bytesLe := by
  funext s t
  exact (bytesLe_eq s t).symm

theorem hex4_low : ∀ n < 0x20, hex4 n = ['0', '0', digitChar (n / 16), digitChar (n % 16)] := by decide

theorem escapeGoChar_eq (c : Char) : escapeGoChar c = goEscape c := by
  by_cases named : c ∈ ['"', '\\', '\x08', '\x0c', '\n', '\r', '\t', '&', '<', '>', Char.ofNat 0x2028, Char.ofNat 0x2029]
  · simp only [List.mem_cons, List.not_mem_nil, or_false] at named
    rcases named with rfl | rfl | rfl | rfl | rfl | rfl | rfl | rfl | rfl | rfl | rfl | rfl <;> rfl
  · simp only [List.mem_cons, List.not_mem_nil, or_false, not_or] at named
    obtain ⟨quote, backslash, b, f, n, r, t, amp, less, greater, first, second⟩ := named
    have first : c.toNat ≠ 0x2028 := fun same => first (by rw [← same, Char.ofNat_toNat])
    have second : c.toNat ≠ 0x2029 := fun same => second (by rw [← same, Char.ofNat_toNat])
    rw [escapeGoChar, if_neg quote, if_neg backslash, if_neg b, if_neg f, if_neg n, if_neg r, if_neg t, if_neg amp,
      if_neg less, if_neg greater, if_neg first, if_neg second, goEscape, if_neg (not_or_intro backslash quote), if_neg b,
      if_neg f, if_neg n, if_neg r, if_neg t]
    by_cases low : c.toNat < 0x20
    · rw [if_pos low, if_pos (.inl low), hex4_low _ low]
    · rw [if_neg low, if_neg (by simp only [low, less, greater, amp, or_self, not_false_eq_true]),
        if_neg (not_or_intro first second)]

theorem encodeStr_eq : encodeStr = goString := by
  funext s
  rw [encodeStr, escapeGoString, goString, funext escapeGoChar_eq]

theorem normalizeItems_eq (items : List PyValue) : normalizeItems items = items.map normalize := by
  induction items with
  | nil => rfl
  | cons v rest ih => rw [normalizeItems, ih, List.map_cons]

theorem normalizeEntries_eq (entries : List (String × PyValue)) :
    normalizeEntries entries = entries.map fun f => (f.1, normalize f.2) := by
  induction entries with
  | nil => rfl
  | cons f rest ih => rw [normalizeEntries, ih, List.map_cons]

theorem normalize_pyValue (a : Json Int) : normalize (pyValue a) = pyValue (a.ordered codePointsLe) := by
  induction a using Json.induction with
  | array items ih =>
    rw [pyValue_array, normalize, normalizeItems_eq, List.map_map, Json.ordered_array, pyValue_array, List.map_map]
    exact congrArg PyValue.list (List.map_congr_left ih)
  | object fields ih =>
    have each : ((fields.map fun f => (f.1, pyValue f.2)).map fun f => (f.1, normalize f.2)) =
        fields.map fun f => (f.1, pyValue (f.2.ordered codePointsLe)) := by
      rw [List.map_map]
      exact List.map_congr_left fun f hf => congrArg (Prod.mk f.1) (ih f hf)
    rw [pyValue_object, normalize, normalizeEntries_eq, each, Json.sort_fields fun a => pyValue (a.ordered codePointsLe),
      Json.ordered_object, pyValue_object, Json.sort_fields, List.map_map]
    rfl
  | _ => rfl

section
variable [PyFloats]

theorem encodeItems_eq (items : List PyValue) : encodeItems items = items.mapM encode := by
  induction items with
  | nil => rfl
  | cons v rest ih => rw [encodeItems, ih, List.mapM_cons]

theorem encodeEntries_eq (entries : List (String × PyValue)) :
    encodeEntries entries = entries.map fun f => (f.1, encode f.2) := by
  induction entries with
  | nil => rfl
  | cons f rest ih => rw [encodeEntries, ih, List.map_cons]

theorem encode_pyValue (a : Json Int) : encode (pyValue a) = .ok ((a.ordered codePointsLe).print pyTexts) := by
  induction a using Json.induction with
  | array items ih =>
    have each : (items.map pyValue).mapM encode = .ok (items.map fun a => (a.ordered codePointsLe).print pyTexts) := by
      rw [List.mapM_map]
      exact mapM_ok ih
    rw [pyValue_array, encode, encodeItems_eq, each, Json.ordered_array, Json.print_array, List.map_map]
    rfl
  | object fields ih =>
    have values : ((fields.map fun f => (f.1, pyValue f.2)).map fun f => (f.1, encode f.2)) =
        fields.map fun f => (f.1, Except.ok ((f.2.ordered codePointsLe).print pyTexts)) := by
      rw [List.map_map]
      exact List.map_congr_left fun f hf => congrArg (Prod.mk f.1) (ih f hf)
    have each : ((fields.mergeSort fun f g => codePointsLe f.1 g.1).map fun f =>
          (f.1, (Except.ok ((f.2.ordered codePointsLe).print pyTexts) : Except String (List Char)))).mapM
          (fun f => (do return encodeStr f.1 ++ ':' :: (← f.2) : Except String (List Char))) =
        .ok ((fields.mergeSort fun f g => codePointsLe f.1 g.1).map fun f =>
          encodeStr f.1 ++ ':' :: (f.2.ordered codePointsLe).print pyTexts) := by
      rw [List.mapM_map]
      exact mapM_ok fun _ _ => rfl
    rw [pyValue_object, encode, encodeEntries_eq, values,
      Json.sort_fields fun a => Except.ok ((a.ordered codePointsLe).print pyTexts), each, Json.ordered_object,
      Json.print_object, Json.sort_fields, List.map_map]
    rfl
  | _ => rfl

theorem canonicalJson_pyValue (a : Json Int) :
    canonicalJson (pyValue a) = .ok (Utf8.encode ((a.ordered bytesLe).print pyTexts)) := by
  rw [canonicalJson, normalize_pyValue, encode_pyValue, codePointsLe_eq, Json.ordered_ordered linear_bytesLe]
  rfl

omit [PyFloats] in
theorem goTexts_number [GoJson] (rounding : GoJson.Rounding) (decimals : GoJson.Decimals) {n} (bound : n.natAbs ≤ 2 ^ 53) :
    goTexts.number (GoJson.float64 n) = pyTexts.number n := by
  obtain ⟨_, converted, text⟩ := rounding.format_float64 decimals bound
  rw [converted]
  exact text

end
end SynaMcp.Client

namespace SynaMcp
open Client

/-- The client and the server compute the same bytes for a JSON value with integers up
to 2^53, in whatever order the maps of the server have its keys. -/
theorem client_signs_the_server_bytes [PyFloats] [GoJson] (rounding : GoJson.Rounding) (decimals : GoJson.Decimals)
    (v : Json Int) (distinct : v.Distinct) (bound : ∀ n ∈ v.numbers, n.natAbs ≤ 2 ^ 53) (request : Json Float64)
    (decoded : (v.mapNumbers GoJson.float64).Same request) :
    ∃ bytes, canonicalJson (pyValue v) = .ok bytes ∧ canonicalJSON (goValue request) = .ok bytes := by
  have order : (v.mapNumbers GoJson.float64).ordered bytesLe = request.ordered bytesLe :=
    decoded.ordered_eq linear_bytesLe ((Json.distinct_mapNumbers _ v).mpr distinct)
  refine ⟨_, canonicalJson_pyValue v, canonicalJSON_goValue_ok_iff.mpr ⟨fun n mem => ?_, ?_⟩⟩
  · have listed : n ∈ (request.ordered bytesLe).numbers := (Json.mem_numbers_ordered request).mpr mem
    rw [← order, Json.mem_numbers_ordered, Json.numbers_mapNumbers] at listed
    obtain ⟨k, _, rfl⟩ := List.mem_map.mp listed
    exact rounding.finite k
  · rw [← order, Json.ordered_mapNumbers]
    refine congrArg Utf8.encode (Json.print_mapNumbers _ encodeStr_eq.symm _ fun n mem => ?_).symm
    exact goTexts_number rounding decimals (bound n ((Json.mem_numbers_ordered v).mp mem))

/-- Numbers that are written as the shortest decimal, without an exponent whatever it is. -/
@[reducible] noncomputable def GoJson.decimal : GoJson :=
  { GoJson.paired with
    format := fun f => (if f.negative then ['-'] else []) ++ (Decimal.exists_shortest f).choose.fixed }

theorem GoJson.decimal_rounding : @GoJson.Rounding .decimal := by
  obtain ⟨finite, decoded, rounds⟩ := GoJson.paired_rounding
  exact @GoJson.Rounding.mk .decimal finite decoded rounds

theorem GoJson.decimal_decimals : @GoJson.Decimals .decimal :=
  @GoJson.Decimals.mk .decimal fun f _ => ⟨_, (Decimal.exists_shortest f).choose_spec, rfl⟩

/-- A request whose keys reach the server in another order. -/
theorem client_signs_a_request :
    ∃ bytes,
      @canonicalJson ⟨fun _ => []⟩
        (pyValue (.object [("b", .array [.number (-2 ^ 53), .string "<&>"]), ("a", .null)])) = .ok bytes ∧
      @canonicalJSON .decimal
        (goValue (.object [("a", .null), ("b", .array [.number (GoJson.paired.float64 (-2 ^ 53)), .string "<&>"])])) =
          .ok bytes := by
  refine @client_signs_the_server_bytes ⟨fun _ => []⟩ .decimal GoJson.decimal_rounding GoJson.decimal_decimals _ ?_ ?_ _ ?_
  · simp [Json.Distinct, Json.fold, Json.foldFields, Json.foldItems]
  · decide
  · exact .object (List.Perm.swap _ _ _) rfl (.cons .null (.cons (.array (.cons (.number _) (.cons (.string _) .nil))) .nil))
      (List.Perm.refl _)

end SynaMcp
