import Mathlib.Data.List.Sort

/-! JSON values and their texts without white space. The text determines the value; with
the keys of every object in order, it determines the value up to the order of keys. -/

/-- A JSON value with numbers of some type. The fields of an object are in the order in
which they are stored or written. -/
inductive Json (ν : Type) where
  | null
  | bool (b : Bool)
  | number (n : ν)
  | string (s : String)
  | array (items : List (Json ν))
  | object (fields : List (String × Json ν))

namespace Json
open List
variable {ν μ β : Type}

@[elab_as_elim]
theorem induction {P : Json ν → Prop} (null : P .null) (bool : ∀ b, P (.bool b)) (number : ∀ n, P (.number n))
    (string : ∀ s, P (.string s)) (array : ∀ items, (∀ a ∈ items, P a) → P (.array items))
    (object : ∀ fields, (∀ f ∈ fields, P f.2) → P (.object fields)) (a : Json ν) : P a :=
  @Json.rec ν P (fun items => ∀ a ∈ items, P a) (fun fields => ∀ f ∈ fields, P f.2) (fun f => P f.2)
    null bool number string array object (fun _ none => by cases none)
    (fun _ _ first rest => List.forall_mem_cons.mpr ⟨first, rest⟩) (fun _ none => by cases none)
    (fun _ _ first rest => List.forall_mem_cons.mpr ⟨first, rest⟩) (fun _ _ second => second) a

structure Algebra (ν β : Type) where
  null : β
  bool : Bool → β
  number : ν → β
  string : String → β
  array : List β → β
  object : List (String × β) → β

mutual

def fold (A : Algebra ν β) : Json ν → β
  | .null => A.null
  | .bool b => A.bool b
  | .number n => A.number n
  | .string s => A.string s
  | .array items => A.array (foldItems A items)
  | .object fields => A.object (foldFields A fields)

def foldItems (A : Algebra ν β) : List (Json ν) → List β
  | [] => []
  | a :: rest => fold A a :: foldItems A rest

def foldFields (A : Algebra ν β) : List (String × Json ν) → List (String × β)
  | [] => []
  | (key, a) :: rest => (key, fold A a) :: foldFields A rest

end

theorem fold_array (A : Algebra ν β) (items : List (Json ν)) : fold A (.array items) = A.array (items.map (fold A)) := by
  have each : foldItems A items = items.map (fold A) := by
    induction items with
    | nil => rfl
    | cons a rest ih => rw [foldItems, ih, map_cons]
  rw [fold, each]

theorem fold_object (A : Algebra ν β) (fields : List (String × Json ν)) :
    fold A (.object fields) = A.object (fields.map fun f => (f.1, fold A f.2)) := by
  have each : foldFields A fields = fields.map fun f => (f.1, fold A f.2) := by
    induction fields with
    | nil => rfl
    | cons f rest ih => rw [foldFields, ih, map_cons]
  rw [fold, each]

def numbers : Json ν → List ν :=
  fold { null := [], bool := fun _ => [], number := fun n => [n], string := fun _ => [],
         array := flatten, object := fun fields => (fields.map Prod.snd).flatten }

def mapNumbers (f : ν → μ) : Json ν → Json μ :=
  fold { null := .null, bool := .bool, number := fun n => .number (f n), string := .string, array := .array,
         object := .object }

def ordered (le : String → String → Bool) : Json ν → Json ν :=
  fold { null := .null, bool := .bool, number := .number, string := .string, array := .array,
         object := fun fields => .object (fields.mergeSort fun f g => le f.1 g.1) }

def Distinct : Json ν → Prop :=
  fold { null := True, bool := fun _ => True, number := fun _ => True, string := fun _ => True,
         array := fun items => ∀ p ∈ items, p,
         object := fun fields => (fields.map Prod.fst).Nodup ∧ ∀ f ∈ fields, f.2 }

def commas : List (List Char) → List Char
  | [] => []
  | t :: rest => t ++ rest.flatMap fun t => ',' :: t

structure Texts (ν : Type) where
  string : String → List Char
  number : ν → List Char

def print (T : Texts ν) : Json ν → List Char :=
  fold { null := "null".toList, bool := fun b => if b then "true".toList else "false".toList, number := T.number,
         string := T.string, array := fun items => '[' :: commas items ++ [']'],
         object := fun fields => '{' :: commas (fields.map fun f => T.string f.1 ++ ':' :: f.2) ++ ['}'] }

section
variable (T : Texts ν) (le : String → String → Bool) (f : ν → μ) (items : List (Json ν)) (fields : List (String × Json ν))

@[simp] theorem numbers_array : numbers (.array items) = items.flatMap numbers := by
  simp only [numbers, fold_array, flatMap]

@[simp] theorem numbers_object : numbers (.object fields) = fields.flatMap fun f => f.2.numbers := by
  simp only [numbers, fold_object, map_map, flatMap]
  rfl

@[simp] theorem mapNumbers_array : mapNumbers f (.array items) = .array (items.map (mapNumbers f)) := by
  rw [mapNumbers, fold_array]

@[simp] theorem mapNumbers_object :
    mapNumbers f (.object fields) = .object (fields.map fun g => (g.1, mapNumbers f g.2)) := by
  rw [mapNumbers, fold_object]

@[simp] theorem ordered_array : ordered le (.array items) = .array (items.map (ordered le)) := by
  rw [ordered, fold_array]

@[simp] theorem ordered_object : ordered le (.object fields) =
    .object ((fields.map fun f => (f.1, ordered le f.2)).mergeSort fun f g => le f.1 g.1) := by
  rw [ordered, fold_object]

@[simp] theorem distinct_array : Distinct (.array items) ↔ ∀ a ∈ items, a.Distinct := by
  simp only [Distinct, fold_array, forall_mem_map]

@[simp] theorem distinct_object :
    Distinct (.object fields) ↔ (fields.map Prod.fst).Nodup ∧ ∀ f ∈ fields, f.2.Distinct := by
  simp only [Distinct, fold_object, map_map, forall_mem_map]
  rfl

theorem print_array : print T (.array items) = '[' :: commas (items.map (print T)) ++ [']'] := by
  rw [print, fold_array]

theorem print_object : print T (.object fields) =
    '{' :: commas (fields.map fun f => T.string f.1 ++ ':' :: print T f.2) ++ ['}'] := by
  simp only [print, fold_object, map_map]
  rfl

end

def numberChar (c : Char) : Bool := c.isDigit || c = '-' || c = '+' || c = '.' || c = 'e' || c = 'E'

def Stops (x : List Char) : Prop := ∀ c ∈ x.head?, numberChar c = false

/-- Strings are quoted and can be read off the front of a text; numbers of `P` are told
apart by their texts, which consist of characters of numbers. -/
structure Texts.Readable (T : Texts ν) (P : ν → Prop) : Prop where
  quoted : ∀ s, ∃ t, T.string s = '"' :: t
  strings : ∀ s t x y, T.string s ++ x = T.string t ++ y → s = t ∧ x = y
  some : ∀ n, P n → T.number n ≠ []
  digits : ∀ n, P n → ∀ c ∈ T.number n, numberChar c = true
  numbers : ∀ m n, P m → P n → T.number m = T.number n → m = n

theorem digits_reads {u v x y} (hu : ∀ c ∈ u, numberChar c = true) (hv : ∀ c ∈ v, numberChar c = true)
    (hx : Stops x) (hy : Stops y) (same : u ++ x = v ++ y) : u = v ∧ x = y := by
  have taken : ∀ {u x : List Char}, (∀ c ∈ u, numberChar c = true) → Stops x → (u ++ x).takeWhile numberChar = u := by
    intro u x hu hx
    rw [List.takeWhile_append_of_pos hu]
    cases x with
    | nil => rw [List.takeWhile_nil, List.append_nil]
    | cons c => rw [List.takeWhile_cons_of_neg (by simp [hx c rfl]), List.append_nil]
  have equal : u = v := (taken hu hx).symm.trans (same ▸ taken hv hy)
  subst equal
  exact ⟨rfl, List.append_cancel_left same⟩

section
variable {α : Type} {E : α → List Char} {close : Char}

theorem stops_rest (stop : numberChar close = false) (rest : List α) (x : List Char) :
    Stops ((rest.map E).flatMap (fun t => ',' :: t) ++ close :: x) := by
  cases rest with
  | nil =>
    intro c first
    cases first
    exact stop
  | cons =>
    intro c first
    cases first
    rfl

variable {xs ys : List α} {x y : List Char}

theorem rest_reads (comma : close ≠ ',') (stop : numberChar close = false)
    (reads : ∀ a ∈ xs, ∀ b ∈ ys, ∀ x y, Stops x → Stops y → E a ++ x = E b ++ y → a = b ∧ x = y)
    (same : (xs.map E).flatMap (fun t => ',' :: t) ++ close :: x = (ys.map E).flatMap (fun t => ',' :: t) ++ close :: y) :
    xs = ys ∧ x = y := by
  induction xs generalizing ys with
  | nil =>
    cases ys with
    | nil => exact ⟨rfl, (List.cons.inj same).2⟩
    | cons => exact absurd (List.cons.inj same).1 comma
  | cons a xs ih =>
    cases ys with
    | nil => exact absurd (List.cons.inj same).1.symm comma
    | cons b ys =>
      simp only [List.map_cons, List.flatMap_cons, List.cons_append, List.append_assoc, List.cons.injEq, true_and] at same
      obtain ⟨rfl, left⟩ := reads a List.mem_cons_self b List.mem_cons_self _ _ (stops_rest stop xs x)
        (stops_rest stop ys y) same
      obtain ⟨rfl, rfl⟩ := ih (fun a ha b hb => reads a (.tail _ ha) b (.tail _ hb)) left
      exact ⟨rfl, rfl⟩

theorem commas_reads (comma : close ≠ ',') (stop : numberChar close = false)
    (start : ∀ a, a ∈ xs ∨ a ∈ ys → ∃ c t, E a = c :: t ∧ c ≠ close)
    (reads : ∀ a ∈ xs, ∀ b ∈ ys, ∀ x y, Stops x → Stops y → E a ++ x = E b ++ y → a = b ∧ x = y)
    (same : commas (xs.map E) ++ close :: x = commas (ys.map E) ++ close :: y) : xs = ys ∧ x = y := by
  cases xs with
  | nil =>
    cases ys with
    | nil => exact ⟨rfl, (List.cons.inj same).2⟩
    | cons b =>
      obtain ⟨_, _, text, other⟩ := start b (.inr List.mem_cons_self)
      simp only [List.map_cons, commas, text, List.cons_append] at same
      exact absurd (List.cons.inj same).1.symm other
  | cons a =>
    cases ys with
    | nil =>
      obtain ⟨_, _, text, other⟩ := start a (.inl List.mem_cons_self)
      simp only [List.map_cons, commas, text, List.cons_append] at same
      exact absurd (List.cons.inj same).1 other
    | cons =>
      refine rest_reads comma stop reads ?_
      simpa [commas] using same

end

def kind : Json ν → Nat
  | .null => 0
  | .bool _ => 1
  | .number _ => 2
  | .string _ => 3
  | .array _ => 4
  | .object _ => 5

def lead (c : Char) : Nat :=
  if c = 'n' then 0 else if c = 't' ∨ c = 'f' then 1 else if c = '"' then 3 else if c = '[' then 4
  else if c = '{' then 5 else 2

theorem lead_numberChar {c} (h : numberChar c = true) : lead c = 2 := by
  have apart : ∀ d, numberChar d = false → c ≠ d := by
    rintro d none rfl
    cases h.symm.trans none
  rw [lead, if_neg (apart 'n' rfl), if_neg (not_or.mpr ⟨apart 't' rfl, apart 'f' rfl⟩), if_neg (apart '"' rfl),
    if_neg (apart '[' rfl), if_neg (apart '{' rfl)]

section
variable {T : Texts ν} {P : ν → Prop} (h : T.Readable P)
include h

theorem print_lead {a} (good : ∀ n ∈ a.numbers, P n) :
    ∃ c t, print T a = c :: t ∧ lead c = kind a ∧ c ≠ ']' := by
  cases a with
  | null => exact ⟨'n', _, rfl, rfl, by decide⟩
  | bool b =>
    cases b with
    | false => exact ⟨'f', _, rfl, rfl, by decide⟩
    | true => exact ⟨'t', _, rfl, rfl, by decide⟩
  | number n =>
    have own : P n := good n (List.mem_singleton.mpr rfl)
    cases text : T.number n with
    | nil => exact absurd text (h.some n own)
    | cons c t =>
      have digit := h.digits n own c (by rw [text]; exact List.mem_cons_self)
      refine ⟨c, t, text, lead_numberChar digit, ?_⟩
      rintro rfl
      cases digit
  | string s =>
    obtain ⟨t, text⟩ := h.quoted s
    exact ⟨'"', t, text, rfl, by decide⟩
  | array items => exact ⟨'[', _, print_array T items, rfl, by decide⟩
  | object fields => exact ⟨'{', _, print_object T fields, rfl, by decide⟩

theorem kind_eq {a b x y} (goodA : ∀ n ∈ a.numbers, P n) (goodB : ∀ n ∈ b.numbers, P n)
    (same : print T a ++ x = print T b ++ y) : kind a = kind b := by
  obtain ⟨_, _, text, lead, _⟩ := print_lead h goodA
  obtain ⟨_, _, text', lead', _⟩ := print_lead h goodB
  rw [text, text'] at same
  rw [← lead, ← lead', (List.cons.inj same).1]

/-- The text of a value is read off the front of a text that stops after it. -/
theorem print_reads (a b : Json ν) (x y : List Char) (goodA : ∀ n ∈ a.numbers, P n) (goodB : ∀ n ∈ b.numbers, P n)
    (hx : Stops x) (hy : Stops y) (same : print T a ++ x = print T b ++ y) : a = b ∧ x = y := by
  have kinds := kind_eq h goodA goodB same
  induction a using Json.induction generalizing b x y with
  | null =>
    cases b with
    | null => exact ⟨rfl, append_cancel_left same⟩
    | _ => cases kinds
  | bool d =>
    cases b with
    | bool e =>
      cases d <;> cases e
      · exact ⟨rfl, append_cancel_left same⟩
      · cases same
      · cases same
      · exact ⟨rfl, append_cancel_left same⟩
    | _ => cases kinds
  | number m =>
    cases b with
    | number n =>
      have ownM : P m := goodA m (List.mem_singleton.mpr rfl)
      have ownN : P n := goodB n (List.mem_singleton.mpr rfl)
      obtain ⟨text, left⟩ := digits_reads (h.digits m ownM) (h.digits n ownN) hx hy same
      rw [h.numbers m n ownM ownN text]
      exact ⟨rfl, left⟩
    | _ => cases kinds
  | string s =>
    cases b with
    | string t =>
      obtain ⟨rfl, left⟩ := h.strings s t x y same
      exact ⟨rfl, left⟩
    | _ => cases kinds
  | array items ih =>
    cases b with
    | array items' =>
      simp only [print_array, cons_append, append_assoc, nil_append, List.cons.injEq, true_and] at same
      have inA : ∀ a ∈ items, ∀ n ∈ a.numbers, P n := fun a ha n hn =>
        goodA n (by rw [numbers_array]; exact List.mem_flatMap.mpr ⟨a, ha, hn⟩)
      have inB : ∀ b ∈ items', ∀ n ∈ b.numbers, P n := fun b hb n hn =>
        goodB n (by rw [numbers_array]; exact List.mem_flatMap.mpr ⟨b, hb, hn⟩)
      have start : ∀ a, a ∈ items ∨ a ∈ items' → ∃ c t, print T a = c :: t ∧ c ≠ ']' := by
        intro a ha
        obtain ⟨c, t, text, _, other⟩ := print_lead h (ha.elim (inA a) (inB a))
        exact ⟨c, t, text, other⟩
      obtain ⟨rfl, left⟩ := commas_reads (by decide) rfl start (fun a ha b hb x y hx hy same =>
        ih a ha b x y (inA a ha) (inB b hb) hx hy same (kind_eq h (inA a ha) (inB b hb) same)) same
      exact ⟨rfl, left⟩
    | _ => cases kinds
  | object fields ih =>
    cases b with
    | object fields' =>
      simp only [print_object, cons_append, append_assoc, nil_append, List.cons.injEq, true_and] at same
      have inA : ∀ f ∈ fields, ∀ n ∈ f.2.numbers, P n := fun f hf n hn =>
        goodA n (by rw [numbers_object]; exact List.mem_flatMap.mpr ⟨f, hf, hn⟩)
      have inB : ∀ f ∈ fields', ∀ n ∈ f.2.numbers, P n := fun f hf n hn =>
        goodB n (by rw [numbers_object]; exact List.mem_flatMap.mpr ⟨f, hf, hn⟩)
      have start : ∀ f : String × Json ν, f ∈ fields ∨ f ∈ fields' →
          ∃ c t, T.string f.1 ++ ':' :: print T f.2 = c :: t ∧ c ≠ '}' := by
        intro f _
        obtain ⟨t, text⟩ := h.quoted f.1
        exact ⟨'"', t ++ ':' :: print T f.2, by rw [text, cons_append], by decide⟩
      have reads : ∀ f ∈ fields, ∀ g ∈ fields', ∀ x y, Stops x → Stops y →
          (T.string f.1 ++ ':' :: print T f.2) ++ x = (T.string g.1 ++ ':' :: print T g.2) ++ y → f = g ∧ x = y := by
        intro f hf g hg x y hx hy same
        rw [append_assoc, append_assoc] at same
        obtain ⟨key, left⟩ := h.strings _ _ _ _ same
        have left := (List.cons.inj left).2
        obtain ⟨value, left⟩ := ih f hf g.2 x y (inA f hf) (inB g hg) hx hy left
          (kind_eq h (inA f hf) (inB g hg) left)
        exact ⟨Prod.ext key value, left⟩
      obtain ⟨rfl, left⟩ := commas_reads (by decide) rfl start reads same
      exact ⟨rfl, left⟩
    | _ => cases kinds

end

/-- The values are equal up to the order of the fields of objects. -/
inductive Same : Json ν → Json ν → Prop where
  | null : Same .null .null
  | bool (b : Bool) : Same (.bool b) (.bool b)
  | number (n : ν) : Same (.number n) (.number n)
  | string (s : String) : Same (.string s) (.string s)
  | array {xs ys} (items : List.Forall₂ Same xs ys) : Same (.array xs) (.array ys)
  | object {xs xs' ys ys' : List (String × Json ν)} (order : xs.Perm xs') (keys : xs'.map Prod.fst = ys'.map Prod.fst)
      (values : List.Forall₂ Same (xs'.map Prod.snd) (ys'.map Prod.snd)) (order' : ys'.Perm ys) :
      Same (.object xs) (.object ys)

namespace Same
variable {xs ys : List (String × Json ν)}

theorem keys (h : Same (.object xs) (.object ys)) : (xs.map Prod.fst).Perm (ys.map Prod.fst) := by
  cases h with
  | object order keys _ order' => exact (order.map _).trans (keys ▸ order'.map _)

theorem exists_field {f} (keys : xs.map Prod.fst = ys.map Prod.fst)
    (values : List.Forall₂ Same (xs.map Prod.snd) (ys.map Prod.snd)) (mem : f ∈ xs) :
    ∃ g ∈ ys, g.1 = f.1 ∧ Same f.2 g.2 := by
  induction xs generalizing ys with
  | nil => cases mem
  | cons x xs ih =>
    cases ys with
    | nil => cases keys
    | cons y =>
      obtain ⟨key, keys⟩ := List.cons.inj keys
      obtain ⟨value, values⟩ := List.forall₂_cons.mp values
      rcases List.mem_cons.mp mem with rfl | mem
      · exact ⟨y, mem_cons_self, key.symm, value⟩
      · obtain ⟨g, mem, same⟩ := ih keys values mem
        exact ⟨g, mem_cons_of_mem y mem, same⟩

theorem field (h : Same (.object xs) (.object ys)) (distinct : (ys.map Prod.fst).Nodup) {key a b}
    (memA : (key, a) ∈ xs) (memB : (key, b) ∈ ys) : Same a b := by
  cases h with
  | object order keys values order' =>
    obtain ⟨g, mem, own, same⟩ := exists_field keys values (order.mem_iff.mp memA)
    have one : g = (key, b) := inj_on_of_nodup_map distinct (order'.mem_iff.mp mem) memB own
    rw [one] at same
    exact same

end Same

structure Linear (le : String → String → Bool) : Prop where
  total : ∀ s t, (le s t || le t s) = true
  trans : ∀ s t u, le s t = true → le t u = true → le s u = true
  antisymm : ∀ s t, le s t = true → le t s = true → s = t

section
variable {le : String → String → Bool}

/-- The fields that are put in order after their values are those that are put in order before. -/
theorem sort_fields {ν μ : Type} (g : Json ν → μ) (fields : List (String × Json ν)) :
    ((fields.map fun f => (f.1, g f.2)).mergeSort fun f g => le f.1 g.1) =
      (fields.mergeSort fun f g => le f.1 g.1).map fun f => (f.1, g f.2) := by
  rw [map_mergeSort]
  exact fun _ _ _ _ => rfl

section
variable (g : ν → μ) (a : Json ν)

theorem numbers_mapNumbers : (mapNumbers g a).numbers = a.numbers.map g := by
  induction a using Json.induction with
  | array items ih =>
    rw [mapNumbers_array, numbers_array, numbers_array, flatMap_map, map_flatMap]
    exact flatMap_congr ih
  | object fields ih =>
    rw [mapNumbers_object, numbers_object, numbers_object, flatMap_map, map_flatMap]
    exact flatMap_congr ih
  | _ => rfl

theorem distinct_mapNumbers : (mapNumbers g a).Distinct ↔ a.Distinct := by
  induction a using Json.induction with
  | array items ih =>
    rw [mapNumbers_array, distinct_array, distinct_array, forall_mem_map]
    exact forall₂_congr ih
  | object fields ih =>
    rw [mapNumbers_object, distinct_object, distinct_object, map_map, forall_mem_map]
    exact and_congr Iff.rfl (forall₂_congr ih)
  | _ => exact Iff.rfl

theorem ordered_mapNumbers : ordered le (mapNumbers g a) = mapNumbers g (ordered le a) := by
  induction a using Json.induction with
  | array items ih =>
    rw [mapNumbers_array, ordered_array, ordered_array, mapNumbers_array, map_map, map_map]
    exact congrArg Json.array (map_congr_left ih)
  | object fields ih =>
    have each : ((fields.map fun f => (f.1, mapNumbers g f.2)).map fun f => (f.1, ordered le f.2)) =
        fields.map fun f => (f.1, mapNumbers g (ordered le f.2)) := by
      rw [map_map]
      exact map_congr_left fun f hf => congrArg (Prod.mk f.1) (ih f hf)
    rw [mapNumbers_object, ordered_object, each, sort_fields fun a => mapNumbers g (ordered le a), ordered_object,
      mapNumbers_object, sort_fields, map_map]
    rfl
  | _ => rfl

theorem print_mapNumbers {T : Texts μ} {U} (strings : T.string = U.string) (a : Json ν)
    (same : ∀ n ∈ a.numbers, T.number (g n) = U.number n) : print T (mapNumbers g a) = print U a := by
  induction a using Json.induction with
  | null | bool b => rfl
  | number n => exact same n (mem_singleton_self n)
  | string s => exact congrFun strings s
  | array items ih =>
    have each : (items.map (mapNumbers g)).map (print T) = items.map (print U) := by
      rw [map_map]
      refine map_congr_left fun a ha => ih a ha fun n hn => same n ?_
      rw [numbers_array]
      exact List.mem_flatMap.mpr ⟨a, ha, hn⟩
    rw [mapNumbers_array, print_array, print_array, each]
  | object fields ih =>
    have each : ((fields.map fun f => (f.1, mapNumbers g f.2)).map fun f => T.string f.1 ++ ':' :: print T f.2) =
        fields.map fun f => U.string f.1 ++ ':' :: print U f.2 := by
      rw [map_map]
      refine map_congr_left fun f hf => ?_
      have value := ih f hf fun n hn => same n (by rw [numbers_object]; exact List.mem_flatMap.mpr ⟨f, hf, hn⟩)
      show T.string f.1 ++ ':' :: print T (mapNumbers g f.2) = _
      rw [strings, value]
    rw [mapNumbers_object, print_object, print_object, each]

end

theorem forall₂_of_map_eq {α β : Type} {R} {f : α → β} {xs ys}
    (related : ∀ x ∈ xs, ∀ y, f x = f y → R x y) (same : xs.map f = ys.map f) : List.Forall₂ R xs ys := by
  induction xs generalizing ys with
  | nil =>
    cases ys with
    | nil => exact .nil
    | cons => cases same
  | cons x xs ih =>
    cases ys with
    | nil => cases same
    | cons y =>
      obtain ⟨first, rest⟩ := List.cons.inj same
      exact .cons (related x mem_cons_self y first) (ih (fun x hx => related x (.tail _ hx)) rest)

theorem kind_ordered (le : String → String → Bool) (a : Json ν) : kind (ordered le a) = kind a := by
  cases a with
  | array => rw [ordered_array, kind, kind]
  | object => rw [ordered_object, kind, kind]
  | _ => rfl

theorem same_of_ordered {a b : Json ν} (h : ordered le a = ordered le b) : Same a b := by
  have kinds : kind a = kind b := by rw [← kind_ordered le a, h, kind_ordered le b]
  induction a using Json.induction generalizing b with
  | null =>
    cases b with
    | null => exact .null
    | _ => cases kinds
  | bool d =>
    cases b with
    | bool =>
      cases h
      exact .bool d
    | _ => cases kinds
  | number m =>
    cases b with
    | number =>
      cases h
      exact .number m
    | _ => cases kinds
  | string s =>
    cases b with
    | string =>
      cases h
      exact .string s
    | _ => cases kinds
  | array items ih =>
    cases b with
    | array =>
      rw [ordered_array, ordered_array] at h
      refine .array (forall₂_of_map_eq (fun a ha b same => ih a ha same ?_) (Json.array.inj h))
      rw [← kind_ordered le a, same, kind_ordered le b]
    | _ => cases kinds
  | object fields ih =>
    cases b with
    | object =>
      rw [ordered_object, ordered_object, sort_fields, sort_fields] at h
      have sorted := Json.object.inj h
      have keys := congrArg (map Prod.fst) sorted
      have values := congrArg (map Prod.snd) sorted
      simp only [map_map, Function.comp_def] at keys values
      refine .object (mergeSort_perm _ _).symm keys ?_ (mergeSort_perm _ _)
      refine forall₂_of_map_eq (f := ordered le) (fun a ha b same => ?_) ?_
      · obtain ⟨f, mem, rfl⟩ := List.mem_map.mp ha
        refine ih f (List.mem_mergeSort.mp mem) same ?_
        rw [← kind_ordered le f.2, same, kind_ordered le b]
      · simp only [map_map, Function.comp_def]
        exact values
    | _ => cases kinds

theorem mem_numbers_ordered {n : ν} (a : Json ν) : n ∈ (ordered le a).numbers ↔ n ∈ a.numbers := by
  induction a using Json.induction with
  | array items ih =>
    simp only [ordered_array, numbers_array, mem_flatMap, mem_map]
    constructor
    · rintro ⟨_, ⟨a, ha, rfl⟩, hn⟩
      exact ⟨a, ha, (ih a ha).mp hn⟩
    · rintro ⟨a, ha, hn⟩
      exact ⟨_, ⟨a, ha, rfl⟩, (ih a ha).mpr hn⟩
  | object fields ih =>
    simp only [ordered_object, numbers_object, mem_flatMap, mem_mergeSort, mem_map]
    constructor
    · rintro ⟨_, ⟨f, hf, rfl⟩, hn⟩
      exact ⟨f, hf, (ih f hf).mp hn⟩
    · rintro ⟨f, hf, hn⟩
      exact ⟨_, ⟨f, hf, rfl⟩, (ih f hf).mpr hn⟩
  | _ => exact Iff.rfl

theorem same_of_print {T : Texts ν} {P} (h : T.Readable P) {a b} (goodA : ∀ n ∈ a.numbers, P n)
    (goodB : ∀ n ∈ b.numbers, P n) (same : print T (ordered le a) = print T (ordered le b)) : Same a b := by
  have stops : Stops [] := fun c none => by cases none
  refine same_of_ordered (print_reads h _ _ [] [] ?_ ?_ stops stops (congrArg (· ++ []) same)).1
  · exact fun n hn => goodA n ((mem_numbers_ordered a).mp hn)
  · exact fun n hn => goodB n ((mem_numbers_ordered b).mp hn)

variable (linear : Linear le)
include linear

theorem sorted_fields {μ : Type} (fields : List (String × μ)) :
    (fields.mergeSort fun f g => le f.1 g.1).Pairwise fun f g => le f.1 g.1 = true :=
  pairwise_mergeSort (fun f g h => linear.trans f.1 g.1 h.1) (fun f g => linear.total f.1 g.1) fields

theorem sort_eq_of_perm {μ : Type} {fields fields' : List (String × μ)} (same : fields.Perm fields')
    (distinct : (fields.map Prod.fst).Nodup) :
    (fields.mergeSort fun f g => le f.1 g.1) = fields'.mergeSort fun f g => le f.1 g.1 := by
  have perm := (mergeSort_perm fields fun f g => le f.1 g.1).trans
    (same.trans (mergeSort_perm fields' fun f g => le f.1 g.1).symm)
  refine List.Perm.eq_of_pairwise (fun f g hf hg before after => ?_) (sorted_fields linear fields)
    (sorted_fields linear fields') perm
  have inF := List.mem_mergeSort.mp hf
  have inG := same.mem_iff.mpr (List.mem_mergeSort.mp hg)
  exact inj_on_of_nodup_map distinct inF inG (linear.antisymm _ _ before after)

theorem ordered_ordered (a : Json ν) : ordered le (ordered le a) = ordered le a := by
  induction a using Json.induction with
  | array items ih =>
    rw [ordered_array, ordered_array, map_map]
    exact congrArg Json.array (map_congr_left ih)
  | object fields ih =>
    have fixed : (((fields.map fun f => (f.1, ordered le f.2)).mergeSort fun f g => le f.1 g.1).map fun f =>
        (f.1, ordered le f.2)) = (fields.map fun f => (f.1, ordered le f.2)).mergeSort fun f g => le f.1 g.1 := by
      rw [sort_fields, map_map]
      exact map_congr_left fun f hf => congrArg (Prod.mk f.1) (ih f (List.mem_mergeSort.mp hf))
    rw [ordered_object, ordered_object, fixed, mergeSort_of_pairwise (sorted_fields linear _)]
  | _ => rfl

theorem Same.ordered_eq {a b : Json ν} (h : Same a b) (distinct : a.Distinct) : ordered le a = ordered le b := by
  refine @Same.rec ν (fun a b _ => a.Distinct → ordered le a = ordered le b)
    (fun xs ys _ => (∀ x ∈ xs, x.Distinct) → xs.map (ordered le) = ys.map (ordered le))
    (fun _ => rfl) (fun _ _ => rfl) (fun _ _ => rfl) (fun _ _ => rfl) ?array ?object (fun _ => rfl) ?cons a b h distinct
  case array =>
    intro xs ys items ih distinct
    rw [ordered_array, ordered_array, ih ((distinct_array _).mp distinct)]
  case object =>
    intro xs xs' ys ys' order keys values order' ih distinct
    obtain ⟨nodup, each⟩ := (distinct_object xs).mp distinct
    have values := ih fun a ha => by
      obtain ⟨f, mem, rfl⟩ := List.mem_map.mp ha
      exact each f (order.mem_iff.mpr mem)
    have same : (xs'.map fun f => (f.1, ordered le f.2)) = ys'.map fun f => (f.1, ordered le f.2) := by
      rw [map_map, map_map] at values
      rw [← zip_map', ← zip_map', keys]
      exact congrArg (zip _) values
    have keyed : ∀ fields : List (String × Json ν),
        (fields.map fun f => (f.1, ordered le f.2)).map Prod.fst = fields.map Prod.fst := fun fields => by
      rw [map_map]
      rfl
    have nodup' : (ys'.map Prod.fst).Nodup := keys ▸ (order.map Prod.fst).nodup nodup
    rw [ordered_object, ordered_object, sort_eq_of_perm linear (order.map _) ((keyed xs).symm ▸ nodup), same,
      sort_eq_of_perm linear (order'.map _) ((keyed ys').symm ▸ nodup')]
  case cons =>
    intro x y xs ys first rest ih ih' each
    obtain ⟨own, others⟩ := List.forall_mem_cons.mp each
    rw [map_cons, map_cons, ih own, ih' others]

end
end Json
