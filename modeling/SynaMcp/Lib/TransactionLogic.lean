import SynaMcp.Lib.Transactions
import Mathlib.Data.List.Forall2

/-! Weakest preconditions for transactions. Every commit respects one relation, and the
part of the tables behind a lock changes only by who holds it. A tagged read that no two
transactions have made at a time protects its part in the same way. -/
namespace Transactions
open List Runs
open Function (update_of_ne update_self update)

/-- What the transactions of a system agree on. -/
structure Terms (δ κ τ ν : Type) where
  /-- It holds of what is committed. -/
  inv : World δ ν → Prop
  /-- Every commit respects it. -/
  rel : δ → δ → Prop
  /-- The part behind a lock, or behind a tagged read, is the same. -/
  part : κ ⊕ τ → δ → δ → Prop
  /-- The tags of which no two transactions under way have made the read. -/
  exclusive : τ → Bool
  rel_refl : ∀ s, rel s s
  rel_trans : ∀ {s t u}, rel s t → rel t u → rel s u
  part_refl : ∀ x s, part x s s
  part_trans : ∀ {x s t u}, part x s t → part x t u → part x s u

/-- A transaction at one of its statements: what it holds, what it has written, and
what it knows of the world. -/
structure Frame (δ κ τ ν : Type) where
  held : List (κ ⊕ τ) := []
  own : δ → δ := id
  known : World δ ν → Prop := fun _ => True

section
variable {δ κ τ ν : Type} (T : Terms δ κ τ ν)

structure Terms.Relied (held : List (κ ⊕ τ)) (g g' : World δ ν) : Prop where
  rel : T.rel g.tables g'.tables
  part : ∀ x ∈ held, T.part x g.tables g'.tables
  drawn : ∀ x, g.sequences x ≤ g'.sequences x

def Terms.Stable (F : Frame δ κ τ ν) : Prop := ∀ g g', F.known g → T.Relied F.held g g' → F.known g'

structure Terms.Commit {ρ : Type} (post : δ → ρ → δ → Prop) (F : Frame δ κ τ ν) (g : World δ ν) (a : ρ) : Prop where
  inv : T.inv { g with tables := F.own g.tables }
  rel : T.rel g.tables (F.own g.tables)
  part : ∀ x, x ∉ F.held → T.part x g.tables (F.own g.tables)
  post : post g.tables a (F.own g.tables)

def Terms.Commits {ρ : Type} (post : δ → ρ → δ → Prop) (F : Frame δ κ τ ν) (a : ρ) : Prop :=
  ∀ g, T.inv g → F.known g → T.Commit post F g a

def Terms.guard (tag : Option τ) : List (κ ⊕ τ) := (tag.toList.filter T.exclusive).map Sum.inr

variable [DecidableEq ν]

/-- The transaction is right if it ends in a frame with the property, or in an error. -/
def Tx.wp {ρ : Type} (Q : Frame δ κ τ ν → ρ → Prop) : Tx δ κ τ ν ρ → Frame δ κ τ ν → Prop
  | .done (.ok a), F => Q F a
  | .done (.error _), _ => True
  | .read tag next, F =>
    ∀ g, T.inv g → F.known g →
      wp Q (next (F.own g.tables))
        { F with held := T.guard tag ++ F.held, known := T.Relied (T.guard tag ++ F.held) g }
  | .lock k next, F => wp Q next { F with held := .inl k :: F.held }
  | .write change next, F => wp Q next { F with own := change ∘ F.own }
  | .draw x next, F =>
    ∀ g, T.inv g → F.known g →
      T.inv (g.bump x) ∧ wp Q (next (g.sequences x + 1)) { F with known := T.Relied F.held (g.bump x) }

end

namespace Terms
variable {δ κ τ ν : Type} {T : Terms δ κ τ ν} {held held' : List (κ ⊕ τ)} {g g' g'' : World δ ν}

theorem Relied.refl : T.Relied held g g := ⟨T.rel_refl _, fun x _ => T.part_refl x _, fun _ => Nat.le_refl _⟩

theorem Relied.trans (h : T.Relied held g g') (h' : T.Relied held g' g'') : T.Relied held g g'' where
  rel := T.rel_trans h.rel h'.rel
  part x mem := T.part_trans (h.part x mem) (h'.part x mem)
  drawn x := Nat.le_trans (h.drawn x) (h'.drawn x)

theorem Relied.mono (h : T.Relied held' g g') (sub : held ⊆ held') : T.Relied held g g' where
  rel := h.rel
  part x mem := h.part x (sub mem)
  drawn := h.drawn

theorem Relied.bump [DecidableEq ν] {x} : T.Relied held g (g.bump x) := by
  refine ⟨T.rel_refl _, fun y _ => T.part_refl y _, fun y => ?_⟩
  by_cases same : y = x
  · subst same
    simp [World.bump]
  · simp [World.bump, update_of_ne same]

theorem stable_relied {F} (known : F.known = T.Relied held g) (sub : held ⊆ F.held) : T.Stable F := by
  intro g₁ g₂ now later
  rw [known] at now ⊢
  exact now.trans (later.mono sub)

/-- Something was so in a world from which the present one has come about, with the
parts that are held as they were. -/
def Seen (T : Terms δ κ τ ν) (held : List (κ ⊕ τ)) (p : World δ ν → Prop) (g : World δ ν) : Prop :=
  ∃ u, T.inv u ∧ p u ∧ T.Relied held u g

theorem seen_now {p} (inv : T.inv g) (now : p g) : T.Seen held p g := ⟨g, inv, now, .refl⟩

theorem Seen.moved {p} (h : T.Seen held p g) (moved : T.Relied held' g g') (sub : held ⊆ held') :
    T.Seen held p g' := by
  obtain ⟨u, inv, was, relied⟩ := h
  exact ⟨u, inv, was, relied.trans (moved.mono sub)⟩

theorem Seen.mono {p} (h : T.Seen held' p g) (sub : held ⊆ held') : T.Seen held p g := by
  obtain ⟨u, inv, was, relied⟩ := h
  exact ⟨u, inv, was, relied.mono sub⟩

theorem Seen.imp {p q} (h : T.Seen held p g) (imp : ∀ u, T.inv u → T.Relied held u g → p u → q u) :
    T.Seen held q g := by
  obtain ⟨u, inv, was, relied⟩ := h
  exact ⟨u, inv, imp u inv relied was, relied⟩

def Knows (T : Terms δ κ τ ν) (F : Frame δ κ τ ν) (p : World δ ν → Prop) : Prop := ∀ g, T.inv g → F.known g → p g

structure Follows (T : Terms δ κ τ ν) (F F' : Frame δ κ τ ν) : Prop where
  held : F.held ⊆ F'.held
  seen : T.Knows F' (T.Seen F.held F.known)

variable {F F' F'' : Frame δ κ τ ν}

theorem Follows.refl : T.Follows F F := ⟨List.Subset.refl _, fun _ inv known => seen_now inv known⟩

theorem Follows.trans (h : T.Follows F F') (h' : T.Follows F' F'') : T.Follows F F'' := by
  refine ⟨fun x mem => h'.held (h.held mem), fun g inv known => ?_⟩
  obtain ⟨u, inv, known, relied⟩ := h'.seen g inv known
  exact (h.seen u inv known).moved relied h.held

theorem Follows.knows {p} (h : T.Follows F F') (kept : ∀ g g', p g → T.Relied F.held g g' → p g')
    (known : T.Knows F p) : T.Knows F' p := by
  intro g inv now
  obtain ⟨u, inv, was, relied⟩ := h.seen g inv now
  exact kept u g (known u inv was) relied

theorem Follows.knows_seen {p} (h : T.Follows F F') (sub : held ⊆ F.held)
    (known : T.Knows F (T.Seen held p)) : T.Knows F' (T.Seen held p) :=
  h.knows (fun _ _ seen relied => seen.moved relied sub) known

end Terms

namespace Tx
variable {δ κ τ ν α β : Type} {T : Terms δ κ τ ν} [DecidableEq ν] {F : Frame δ κ τ ν}

section
variable {Q Q' : Frame δ κ τ ν → α → Prop} {tx : Tx δ κ τ ν α} {error : String}

theorem wp_mono (imp : ∀ F a, Q F a → Q' F a) (h : tx.wp T Q F) : tx.wp T Q' F := by
  induction tx generalizing F with
  | done result =>
    cases result with
    | ok a => exact imp F a h
    | error => trivial
  | read tag next ih => exact fun g inv known => ih _ (h g inv known)
  | lock key next ih | write change next ih => exact ih h
  | draw x next ih => exact fun g inv known => ⟨(h g inv known).1, ih _ (h g inv known).2⟩

theorem wp_bind {f} {Q : Frame δ κ τ ν → β → Prop}
    (h : tx.wp T (fun F a => (f a).wp T Q F) F) : (tx >>= f).wp T Q F := by
  change (bind tx f).wp T Q F
  induction tx generalizing F with
  | done result =>
    cases result with
    | ok => exact h
    | error => trivial
  | read tag next ih => exact fun g inv known => ih _ (h g inv known)
  | lock key next ih | write change next ih => exact ih h
  | draw x next ih => exact fun g inv known => ⟨(h g inv known).1, ih _ (h g inv known).2⟩

theorem wp_ofExcept {r} (h : ∀ a, r = .ok a → Q F a) : (ofExcept r).wp T Q F := by
  cases r with
  | ok a => exact h a rfl
  | error => trivial

theorem wp_require {p} [Decidable p] {Q} (h : p → Q F ()) : (require p error).wp T Q F := by
  refine wp_ofExcept fun a ok => ?_
  split at ok
  · next holds => exact h holds
  · cases ok

theorem wp_expect {a} (h : ∀ b, a = some b → Q F b) : (expect a error).wp T Q F := by
  cases a with
  | none => trivial
  | some b => exact h b rfl

variable {own : δ → δ}

section
variable (same : F.own = own)
include same

theorem wp_query {f} (h : ∀ F' a, F'.own = own → T.Follows F F' →
      T.Knows F' (T.Seen F.held fun u => F.known u ∧ f (own u.tables) = a) → Q F' a) : (query f).wp T Q F := by
  subst same
  intro g inv known
  refine h _ _ rfl ⟨List.Subset.refl _, fun g' _ relied => ⟨g, inv, known, relied⟩⟩ ?_
  exact fun g' _ relied => ⟨g, inv, ⟨known, rfl⟩, relied⟩

theorem wp_tagged {tag f} (h : ∀ F' a, F'.own = own → T.Follows F F' → T.guard (some tag) ⊆ F'.held →
      T.Knows F' (T.Seen (T.guard (some tag)) fun u => f (own u.tables) = a) → Q F' a) : (tagged tag f).wp T Q F := by
  subst same
  intro g inv known
  have left : T.guard (some tag) ⊆ T.guard (some tag) ++ F.held := subset_append_left _ _
  have right : F.held ⊆ T.guard (some tag) ++ F.held := subset_append_right _ _
  refine h _ _ rfl ⟨right, fun g' _ relied => ⟨g, inv, known, Terms.Relied.mono relied right⟩⟩ left ?_
  exact fun g' _ relied => ⟨g, inv, rfl, Terms.Relied.mono relied left⟩

theorem wp_acquire {key Q}
    (h : ∀ F', F'.own = own → T.Follows F F' → .inl key ∈ F'.held → Q F' ()) : (acquire key).wp T Q F :=
  h _ same ⟨subset_cons_self _ _, fun _ inv known => Terms.seen_now inv known⟩ mem_cons_self

theorem wp_change {f Q}
    (h : ∀ F', F'.own = f ∘ own → T.Follows F F' → F'.held = F.held → Q F' ()) : (change f).wp T Q F := by
  subst same
  exact h _ rfl ⟨List.Subset.refl _, fun _ inv known => Terms.seen_now inv known⟩ rfl

theorem wp_nextval {x} (bump : ∀ g, T.inv g → T.inv (g.bump x)) {Q} (h : ∀ F' n, F'.own = own → T.Follows F F' →
      T.Knows F' (T.Seen F.held fun u => F.known u ∧ u.sequences x + 1 = n) → T.Knows F' (fun g => n ≤ g.sequences x) →
      Q F' n) : (nextval x).wp T Q F := by
  subst same
  intro g inv known
  have later : ∀ {g'}, T.Relied F.held (g.bump x) g' → T.Relied F.held g g' := fun relied => Terms.Relied.bump.trans relied
  refine ⟨bump g inv, h _ _ rfl ⟨List.Subset.refl _, fun g' _ relied => ⟨g, inv, known, later relied⟩⟩ ?_ ?_⟩
  · exact fun g' _ relied => ⟨g, inv, ⟨known, rfl⟩, later relied⟩
  · intro g' _ relied
    have drawn := relied.drawn x
    simp only [World.bump, update_self] at drawn
    exact drawn

end

theorem wp_map {f} {Q : Frame δ κ τ ν → β → Prop} (h : tx.wp T (fun F a => Q F (f a)) F) :
    (f <$> tx).wp T Q F := wp_bind (f := fun a => pure (f a)) h

end

/-- What every step keeps of the frame is so at the end, and each result is related to
its element. -/
theorem wp_each {f} (keeps : Frame δ κ τ ν → Prop) (R : α → β → World δ ν → Prop)
    (kept : ∀ a b g g', R a b g → T.Relied [] g g' → R a b g')
    (step : ∀ F a, keeps F → (f a).wp T (fun F' b => keeps F' ∧ T.Follows F F' ∧ T.Knows F' (R a b)) F) {l : List α}
    {Q} (start : keeps F)
    (h : ∀ F' bs, keeps F' → T.Follows F F' → T.Knows F' (fun g => List.Forall₂ (R · · g) l bs) → Q F' bs) :
    (each f l).wp T Q F := by
  induction l generalizing F Q with
  | nil => exact h F [] start .refl fun _ _ _ => .nil
  | cons a rest ih =>
    refine wp_bind (wp_mono (fun F₁ b result => ?_) (step F a start))
    obtain ⟨keeps₁, follows₁, related⟩ := result
    refine wp_bind (ih keeps₁ fun F₂ bs keeps₂ follows₂ all => ?_)
    refine h F₂ (b :: bs) keeps₂ (follows₁.trans follows₂) fun g inv now => .cons ?_ (all g inv now)
    exact follows₂.knows (fun g g' is relied => kept a b g g' is (relied.mono (nil_subset _))) related g inv now

end Tx

namespace Database
section
variable {ι χ δ κ τ ν ρ : Type} [DecidableEq ν] (T : Terms δ κ τ ν) (post : χ → δ → ρ → δ → Prop)
  (db : Database ι χ δ κ τ ν ρ) (i : ι)

def Holds : κ ⊕ τ → Prop
  | .inl k => db.locks k = some i
  | .inr t => T.exclusive t = true ∧ i ∈ db.marks t

def Running (s : Session δ κ τ ν ρ) : Prop :=
  ∃ c F, db.made i = some c ∧ F.own = s.own ∧ T.Stable F ∧ F.known db.toWorld ∧ (∀ x ∈ F.held, db.Holds T i x) ∧
    s.rest.wp T (T.Commits (post c)) F

structure Sound (db : Database ι χ δ κ τ ν ρ) : Prop where
  inv : T.inv db.toWorld
  running : ∀ i s, db.sessions i = some s → db.Running T post i s
  alone : ∀ t, T.exclusive t = true → ∀ i ∈ db.marks t, ∀ j ∈ db.marks t, i = j

/-- The call is one of those considered, and an exclusive read is made while no other
transaction that made it is under way. -/
def Orderly (admits : χ → Prop) (db : Database ι χ δ κ τ ν ρ) : Event ι χ → Prop
  | .begin _ c => admits c
  | .step i => ∀ s ∈ db.sessions i, ∀ t ∈ s.rest.tag, T.exclusive t = true → ∀ j ∈ db.marks t, j = i
  | _ => True

variable {T post} {db db' : Database ι χ δ κ τ ν ρ} {i j : ι}

theorem Sound.holds_unique (h : Sound T post db) {x} (hi : db.Holds T i x) (hj : db.Holds T j x) : i = j := by
  cases x with
  | inl => exact Option.some.inj (hi.symm.trans hj)
  | inr t => exact h.alone t hi.1 i hi.2 j hj.2

theorem Running.others {s} (h : db.Running T post j s) (made : db'.made j = db.made j)
    (holds : ∀ x, db.Holds T j x → db'.Holds T j x)
    (relied : ∀ held, (∀ x ∈ held, db.Holds T j x) → T.Relied held db.toWorld db'.toWorld) :
    db'.Running T post j s := by
  obtain ⟨c, F, call, own, stable, known, held, right⟩ := h
  exact ⟨c, F, made.trans call, own, stable, stable _ _ known (relied F.held held), fun x mem => holds x (held x mem), right⟩

variable {s : Session δ κ τ ν ρ}

theorem Sound.committed (h : Sound T post db) {a} (running : db.sessions i = some s)
    (statement : s.rest = .done (.ok a)) :
    ∃ c F, db.made i = some c ∧ F.own = s.own ∧ (∀ x ∈ F.held, db.Holds T i x) ∧
      T.Commit (post c) F db.toWorld a := by
  obtain ⟨c, F, made, own, _, known, held, right⟩ := h.running i s running
  rw [statement] at right
  exact ⟨c, F, made, own, held, right db.toWorld h.inv known⟩

variable [DecidableEq ι]

theorem Sound.put (h : Sound T post db) (inv : T.inv db'.toWorld) (sessions : db'.sessions = db.sessions)
    (made : ∀ j ≠ i, db'.made j = db.made j) (holds : ∀ j ≠ i, ∀ x, db.Holds T j x → db'.Holds T j x)
    (relied : ∀ j ≠ i, ∀ held, (∀ x ∈ held, db.Holds T j x) → T.Relied held db.toWorld db'.toWorld)
    (alone : ∀ t, T.exclusive t = true → ∀ j ∈ db'.marks t, ∀ k ∈ db'.marks t, j = k)
    (own : db'.Running T post i s) : Sound T post (db'.put i s) := by
  refine ⟨inv, fun j r running => ?_, alone⟩
  by_cases same : j = i
  · subst same
    simp only [Database.put, update_self, Option.some.injEq] at running
    subst running
    exact own
  · simp only [Database.put, update_of_ne same, sessions] at running
    exact (h.running j r running).others (made j same) (holds j same) (relied j same)

theorem Sound.close (h : Sound T post db) {tables result}
    (inv : T.inv { db.toWorld with tables := tables }) (rel : T.rel db.tables tables)
    (part : ∀ j ≠ i, ∀ x, db.Holds T j x → T.part x db.tables tables) : Sound T post (db.close i tables result) := by
  refine ⟨inv, fun j r running => ?_, fun t exclusive j mem k mem' => ?_⟩
  · by_cases same : j = i
    · subst same
      simp only [Database.close, update_self] at running
      cases running
    · simp only [Database.close, update_of_ne same] at running
      refine (h.running j r running).others rfl (fun x held => ?_) fun held own => ?_
      · cases x with
        | inl k =>
          have other : db.locks k ≠ some i := fun mine => same (Option.some.inj (held.symm.trans mine))
          exact (if_neg other).trans held
        | inr => exact ⟨held.1, List.mem_filter.mpr ⟨held.2, by simpa using same⟩⟩
      · exact ⟨rel, fun x mem => part j same x (own x mem), fun _ => Nat.le_refl _⟩
  · exact h.alone t exclusive j (List.mem_filter.mp mem).1 k (List.mem_filter.mp mem').1

end

structure Contract {χ δ κ τ ν ρ : Type} [DecidableEq ν] (prog : χ → Tx δ κ τ ν ρ) extends Terms δ κ τ ν where
  admits : χ → Prop
  post : χ → δ → ρ → δ → Prop
  right : ∀ c, admits c → (prog c).wp toTerms (toTerms.Commits (post c)) {}

section
variable {ι χ δ κ τ ν ρ : Type} [DecidableEq ι] [DecidableEq κ] [DecidableEq τ] [DecidableEq ν]
  {prog : χ → Tx δ κ τ ν ρ} (C : Contract prog) {db db' : Database ι χ δ κ τ ν ρ} {e : Event ι χ}

theorem Sound.moves (h : Sound C.toTerms C.post db) (orderly : Orderly C.toTerms C.admits db e)
    (moves : Moves prog db e db') : Sound C.toTerms C.post db' := by
  cases moves with
  | still => exact h
  | @begun i c =>
    refine h.put h.inv rfl (fun j other => ?_) (fun _ _ _ held => held) (fun _ _ _ _ => .refl) h.alone ?_
    · exact update_of_ne other _ _
    · refine ⟨c, {}, update_self i _ _, rfl, fun _ _ _ _ => trivial, trivial, ?_, C.right c orderly⟩
      intro x mem
      cases mem
  | @read i s _ running statement =>
    obtain ⟨c, F, made, own, _, known, held, right⟩ := h.running i s running
    refine h.put h.inv rfl (fun _ _ => rfl) (fun _ _ _ held => held) (fun _ _ _ _ => .refl) h.alone ?_
    rw [statement] at right
    refine ⟨c, { F with known := C.Relied F.held db.toWorld }, made, own,
      Terms.stable_relied rfl (List.Subset.refl _), .refl, held, ?_⟩
    rw [← own]
    exact right db.toWorld h.inv known
  | @marked i s t _ running statement =>
    obtain ⟨c, F, made, own, _, known, held, right⟩ := h.running i s running
    have only : C.exclusive t = true → ∀ j ∈ db.marks t, j = i :=
      fun exclusive => orderly s running t (by rw [statement]; rfl) exclusive
    have marks : ∀ {j u}, j ∈ db.marks u → j ∈ update db.marks t (i :: db.marks t) u := by
      intro j u mem
      by_cases same : u = t
      · subst same
        rw [update_self]
        exact mem_cons_of_mem _ mem
      · rw [update_of_ne same]
        exact mem
    have holds : ∀ j x, db.Holds C.toTerms j x →
        Holds C.toTerms { db with marks := update db.marks t (i :: db.marks t) } j x := by
      intro j x held
      cases x with
      | inl => exact held
      | inr => exact ⟨held.1, marks held.2⟩
    refine h.put h.inv rfl (fun _ _ => rfl) (fun j _ => holds j) (fun _ _ _ _ => .refl) ?_ ?_
    · intro u exclusive j mem k mem'
      by_cases same : u = t
      · subst same
        simp only [update_self, mem_cons] at mem mem'
        rw [mem.elim id (only exclusive j), mem'.elim id (only exclusive k)]
      · simp only [update_of_ne same] at mem mem'
        exact h.alone u exclusive j mem k mem'
    · rw [statement] at right
      refine ⟨c, { F with
          held := C.guard (some t) ++ F.held
          known := C.Relied (C.guard (some t) ++ F.held) db.toWorld }, made, own,
        Terms.stable_relied rfl (List.Subset.refl _), .refl, fun x mem => ?_, ?_⟩
      · rcases List.mem_append.mp mem with new | old
        · obtain ⟨_, kept, rfl⟩ := List.mem_map.mp new
          obtain ⟨own, exclusive⟩ := List.mem_filter.mp kept
          obtain rfl := List.mem_singleton.mp own
          refine ⟨exclusive, ?_⟩
          simp only [update_self]
          exact mem_cons_self
        · exact holds i x (held x old)
      · rw [← own]
        exact right db.toWorld h.inv known
  | @locked i s k _ running statement free =>
    obtain ⟨c, F, made, own, stable, known, held, right⟩ := h.running i s running
    refine h.put h.inv rfl (fun _ _ => rfl) (fun j other x mine => ?_) (fun _ _ _ _ => .refl) h.alone ?_
    · cases x with
      | inl l =>
        have ne : l ≠ k := by
          rintro rfl
          rcases free with none | own
          · cases none.symm.trans mine
          · exact other (Option.some.inj (mine.symm.trans own))
        exact (update_of_ne ne _ _).trans mine
      | inr => exact mine
    · rw [statement] at right
      refine ⟨c, { F with held := .inl k :: F.held }, made, own, ?_, known, fun x mem => ?_, right⟩
      · intro g g' now later
        exact stable g g' now (later.mono (subset_cons_self _ _))
      · rcases List.mem_cons.mp mem with rfl | old
        · exact update_self _ _ _
        · cases x with
          | inl l =>
            by_cases same : l = k
            · subst same
              exact update_self _ _ _
            · exact (update_of_ne same _ _).trans (held _ old)
          | inr => exact held _ old
  | @wrote i s change _ running statement =>
    obtain ⟨c, F, made, own, stable, known, held, right⟩ := h.running i s running
    refine h.put h.inv rfl (fun _ _ => rfl) (fun _ _ _ held => held) (fun _ _ _ _ => .refl) h.alone ?_
    rw [statement] at right
    refine ⟨c, { F with own := change ∘ F.own }, made, ?_, stable, known, held, right⟩
    rw [own]
  | @drew i s x _ running statement =>
    obtain ⟨c, F, made, own, _, known, held, right⟩ := h.running i s running
    rw [statement] at right
    obtain ⟨inv, right⟩ := right db.toWorld h.inv known
    have grown : ∀ held, C.Relied held db.toWorld (db.toWorld.bump x) := fun held => .bump
    refine h.put inv rfl (fun _ _ => rfl) (fun _ _ _ held => held) (fun _ _ held _ => grown held) h.alone ?_
    exact ⟨c, { F with known := C.Relied F.held (db.toWorld.bump x) }, made, own,
      Terms.stable_relied rfl (List.Subset.refl _), .refl, held, right⟩
  | @committed _ _ _ _ _ running statement =>
    obtain ⟨_, _, _, own, held, commit⟩ := h.committed running statement
    rw [← own]
    refine h.close commit.inv commit.rel fun j other x mine => ?_
    exact commit.part x fun mem => other (h.holds_unique mine (held x mem))
  | failed => exact h.close h.inv (C.rel_refl _) fun _ _ x _ => C.part_refl x _

omit [DecidableEq ι] [DecidableEq κ] [DecidableEq τ] in
theorem sound_quiet {tables} (inv : C.inv ⟨tables, fun _ => 0⟩) :
    Sound C.toTerms C.post (quiet tables : Database ι χ δ κ τ ν ρ) where
  inv := inv
  running i s running := by cases running
  alone t _ i mem := by cases mem

def before (prog : χ → Tx δ κ τ ν ρ) (tables : δ) (events : List (Event ι χ)) (n : Nat) :
    Database ι χ δ κ τ ν ρ :=
  run (step prog) (quiet tables) (events.take n)

structure Ends (prog : χ → Tx δ κ τ ν ρ) (tables : δ) (events : List (Event ι χ)) (n : Nat) (i : ι) (c : χ) (a : ρ) :
    Prop where
  event : events[n]? = some (.step i)
  made : (before prog tables events n).made i = some c
  running : (before prog tables events n).results i = none
  ended : (before prog tables events (n + 1)).results i = some (.ok a)

theorem moves_before (prog : χ → Tx δ κ τ ν ρ) (tables : δ) (events : List (Event ι χ)) (n : Nat) :
    before prog tables events (n + 1) = before prog tables events n ∨
      ∃ e, events[n]? = some e ∧ Moves prog (before prog tables events n) e (before prog tables events (n + 1)) := by
  cases event : events[n]? with
  | none =>
    left
    have short := List.getElem?_eq_none_iff.mp event
    simp only [before]
    rw [take_of_length_le short, take_of_length_le (Nat.le_succ_of_le short)]
  | some e =>
    refine .inr ⟨e, rfl, ?_⟩
    have moves := step_moves prog (before prog tables events n) e
    simp only [before, run_take_succ event] at moves ⊢
    exact moves

/-- Where no read is exclusive and every call is considered, every run is orderly. -/
theorem guarded_of_shared (shared : ∀ t, C.exclusive t = false) (all : ∀ c, C.admits c) (tables : δ)
    (events : List (Event ι χ)) : Runs.Guarded (Orderly C.toTerms C.admits) (step prog) (quiet tables) events := by
  refine guarded_of_forall fun db e => ?_
  cases e with
  | begin i c => exact all c
  | step =>
    intro s _ t _ exclusive
    rw [shared] at exclusive
    cases exclusive
  | abort i error | lose i error => trivial

variable {tables : δ} {events : List (Event ι χ)} (inv : C.inv ⟨tables, fun _ => 0⟩)
  (orderly : Runs.Guarded (Orderly C.toTerms C.admits) (step prog) (quiet tables) events)
include inv orderly

theorem sound_before (n : Nat) : Sound C.toTerms C.post (before prog tables events n) := by
  refine run_invariant ?_ (orderly.take n) (sound_quiet C inv)
  intro db e h ok
  exact h.moves C ok (step_moves prog db e)

theorem step_before (n : Nat) : (before prog tables events (n + 1)).tables = (before prog tables events n).tables ∨
      ∃ e c a, events[n]? = some e ∧ (before prog tables events n).made e.session = some c ∧
        C.rel (before prog tables events n).tables (before prog tables events (n + 1)).tables ∧
        C.post c (before prog tables events n).tables a (before prog tables events (n + 1)).tables := by
  have sound := sound_before C inv orderly n
  rcases moves_before prog tables events n with same | ⟨e, event, moves⟩
  · exact .inl (congrArg (fun db => db.tables) same)
  · generalize before prog tables events (n + 1) = db' at moves ⊢
    cases moves with
    | still | begun | read | marked | locked | wrote | drew | failed => exact .inl rfl
    | @committed _ _ _ a _ running statement session =>
      obtain ⟨c, _, made, own, _, commit⟩ := sound.committed running statement
      have rel := commit.rel
      have post := commit.post
      rw [own] at rel post
      exact .inr ⟨e, c, a, event, session ▸ made, rel, post⟩

theorem rel_step (n : Nat) : C.rel (before prog tables events n).tables (before prog tables events (n + 1)).tables := by
  rcases step_before C inv orderly n with same | ⟨_, _, _, _, _, rel, _⟩
  · rw [same]
    exact C.rel_refl _
  · exact rel

theorem rel_between {n m} (le : n ≤ m) :
    C.rel (before prog tables events n).tables (before prog tables events m).tables := by
  induction le with
  | refl => exact C.rel_refl _
  | step _ ih => exact C.rel_trans ih (rel_step C inv orderly _)

theorem post_of_ends {n i c a} (ends : Ends prog tables events n i c a) :
    C.post c (before prog tables events n).tables a (before prog tables events (n + 1)).tables := by
  have sound := sound_before C inv orderly n
  obtain ⟨_, made, running, ended⟩ := ends
  rcases moves_before prog tables events n with same | ⟨_, _, moves⟩
  · rw [same, running] at ended
    cases ended
  · generalize before prog tables events (n + 1) = db' at moves ended ⊢
    have fresh : ∀ {τ' : Database ι χ δ κ τ ν ρ}, τ'.results = (before prog tables events n).results →
        τ'.results i ≠ some (.ok a) := by
      intro τ' same result
      rw [same, running] at result
      cases result
    cases moves with
    | still | begun | read | marked | locked | wrote | drew => exact absurd ended (fresh rfl)
    | @committed _ j _ _ _ session statement _ reported =>
      by_cases own : i = j
      · subst own
        simp only [close, update_self, Option.some.injEq] at ended
        obtain ⟨_, rfl⟩ := reported a ended
        obtain ⟨_, _, made', writes, _, commit⟩ := sound.committed session statement
        obtain rfl := Option.some.inj (made.symm.trans made')
        have post := commit.post
        rw [writes] at post
        exact post
      · simp only [close, update_of_ne own, running] at ended
        cases ended
    | @failed _ j =>
      by_cases own : i = j
      · subst own
        simp only [close, update_self, Option.some.injEq] at ended
        cases ended
      · simp only [close, update_of_ne own, running] at ended
        cases ended

end
end Database
end Transactions
