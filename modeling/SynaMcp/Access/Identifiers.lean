import Mathlib.Data.Char
import SynaMcp.Lib.GoStrings

/-! The names that the store makes for the schema of a table and the role of a token, and the
checks of a name that is put into a statement. No rune of more than one byte passes, so that the
runes are counted for the bytes. -/
namespace SynaMcp.Access
open GoStrings List

def plainRune (c : Char) : Bool := 'a' ≤ c && c ≤ 'z' || '0' ≤ c && c ≤ '9'

def identRune (c : Char) : Bool := plainRune c || c == '_'

/-- The length, the first rune and those behind it. -/
def checked (first later : Char → Bool) (name : String) : Bool :=
  match name.toList with
  | [] => false
  | c :: rest => rest.length < 63 && first c && rest.all later

def safeIdent (name : String) : Bool := checked (fun c => identRune c && 'a' ≤ c && c ≤ 'z') identRune name

def safeRoleName (name : String) : Bool := checked identRune identRune name && hasPrefix name "syna_"

/-- The check of `Opener.Open`, which lets a dash pass behind the first rune. -/
def Opener.safeRoleName (name : String) : Bool :=
  checked identRune (fun c => identRune c || c == '-') name && hasPrefix name "syna_"

/-- `strings.Map` behind `start`, cut to 63 bytes. -/
def sanitized (mapping : Char → Char) (start id : String) : String :=
  String.ofList ((start.toList ++ id.toList.map mapping).take 63)

def schemaRune (r : Char) : Char :=
  if plainRune r then r else if 'A' ≤ r ∧ r ≤ 'Z' then Char.ofNat (r.toNat + 32) else '_'

def tableSchemaName (objectID : String) : String := sanitized schemaRune "syna_t_" objectID

def roleRune (r : Char) : Char := if identRune r then r else '_'

def roleNameForToken (lower : Char → Char) (tokenID : String) : String :=
  sanitized roleRune "syna_tok_" (toLower lower tokenID)

theorem identRune_schemaRune (r : Char) : identRune (schemaRune r) = true := by
  unfold schemaRune
  split
  · next kept => simp [identRune, kept]
  · split
    · next upper =>
      have letters : ∀ n < 26, identRune (Char.ofNat (65 + n + 32)) = true := by decide
      have bounds : 65 ≤ r.toNat ∧ r.toNat ≤ 90 := upper
      obtain ⟨n, sum⟩ := Nat.exists_eq_add_of_le bounds.1
      rw [sum]
      exact letters n (by omega)
    · rfl

theorem identRune_roleRune (r : Char) : identRune (roleRune r) = true := by
  unfold roleRune
  split
  · assumption
  · rfl

section
variable {mapping : Char → Char} {start id : String}

theorem sanitized_safe {rest} (starts : start.toList = "syna_".toList ++ rest)
    (named : rest.all identRune = true) (mapped : ∀ c, identRune (mapping c) = true) :
    let name := sanitized mapping start id
    safeIdent name = true ∧ safeRoleName name = true ∧ Opener.safeRoleName name = true := by
  have list : (sanitized mapping start id).toList =
      's' :: 'y' :: 'n' :: 'a' :: '_' :: (rest ++ id.toList.map mapping).take 58 := by
    rw [sanitized, String.toList_ofList, starts]
    rfl
  have plain : ∀ c ∈ (rest ++ id.toList.map mapping).take 58, identRune c = true := by
    intro c mem
    rcases mem_append.mp (mem_of_mem_take mem) with mem | mem
    · exact all_eq_true.mp named c mem
    · obtain ⟨r, _, rfl⟩ := mem_map.mp mem
      exact mapped r
  have size := length_take_le 58 (rest ++ id.toList.map mapping)
  simp only [safeIdent, safeRoleName, Opener.safeRoleName, checked, hasPrefix, list]
  generalize take 58 _ = runes at plain size
  have short : runes.length + 4 < 63 := by omega
  have letters : ∀ c ∈ ['s', 'y', 'n', 'a', '_'], identRune c = true := by simp [identRune, plainRune]
  simp_all

/-- The length of a UUID, and the runes of one in lower case. -/
def HasUUIDRunes (s : String) : Prop := s.toList.length = 36 ∧ ∀ c ∈ s.toList, c = '-' ∨ plainRune c = true

theorem sanitized_injective (short : start.toList.length ≤ 27) (dash : mapping '-' = '_')
    (kept : ∀ c, plainRune c = true → mapping c = c) :
    Function.Injective fun id : {s // HasUUIDRunes s} => sanitized mapping start id := by
  have back : ∀ id : {s // HasUUIDRunes s}, id.val.toList =
      ((sanitized mapping start id).toList.drop start.toList.length).map fun c => if c = '_' then '-' else c := by
    rintro ⟨id, length, runes⟩
    rw [sanitized, String.toList_ofList, take_of_length_le, drop_left, map_map]
    · refine ((map_congr_left fun c mem => ?_).trans (map_id _)).symm
      rcases runes c mem with rfl | plain
      · simp [dash]
      · have other : c ≠ '_' := by
          rintro rfl
          cases plain
        simp [kept c plain, other]
    · rw [length_append, length_map, length]
      omega
  intro id id' same
  have same : sanitized mapping start id = sanitized mapping start id' := same
  exact Subtype.ext (String.toList_injective (by rw [back, back, same]))

end

/-- Whatever the ids are, the names pass the checks, and for UUIDs they differ. -/
theorem identifiers_are_safe (lower : Char → Char) :
    (∀ objectID, safeIdent (tableSchemaName objectID) = true) ∧
    (∀ tokenID, safeRoleName (roleNameForToken lower tokenID) = true ∧
      Opener.safeRoleName (roleNameForToken lower tokenID) = true) ∧
    (Function.Injective fun id : {s // HasUUIDRunes s} => tableSchemaName id) ∧
    Function.Injective fun id : {s // HasUUIDRunes s} => roleNameForToken lower id := by
  have lowered : ∀ id : {s // HasUUIDRunes s}, toLower lower id = id := by
    refine fun id => toLower_eq_self fun c mem => ?_
    rcases id.2.2 c mem with rfl | plain
    · decide
    · simp only [plainRune, Bool.or_eq_true, Bool.and_eq_true, decide_eq_true_eq] at plain
      have bounds : 97 ≤ c.toNat ∧ c.toNat ≤ 122 ∨ 48 ≤ c.toNat ∧ c.toNat ≤ 57 := plain
      omega
  refine ⟨fun id => (sanitized_safe rfl (by decide) identRune_schemaRune).1,
    fun id => (sanitized_safe rfl (by decide) identRune_roleRune).2, ?_, ?_⟩
  · exact sanitized_injective (by decide) rfl fun c kept => if_pos kept
  · simp only [roleNameForToken, lowered]
    exact sanitized_injective (by decide) rfl fun c kept => if_pos (by simp [identRune, kept])

end SynaMcp.Access
