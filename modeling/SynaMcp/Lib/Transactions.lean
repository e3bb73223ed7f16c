import SynaMcp.Lib.Run
import Mathlib.Logic.Function.Basic

/-! Transactions at read committed, as trees of statements: every read sees what is
committed at that moment, with the transaction's own writes over it; a lock is waited
for and held to the end; numbers drawn from a sequence are not given back. -/
namespace Transactions
open Function (update)

/-- Tables `δ`, lock keys `κ`, sequences `ν`. A read may carry a tag `τ`, by which one
can tell later that the transaction has made it. -/
inductive Tx (δ κ τ ν ρ : Type) : Type where
  | done (result : Except String ρ)
  | read (tag : Option τ) (next : δ → Tx δ κ τ ν ρ)
  | lock (key : κ) (next : Tx δ κ τ ν ρ)
  | write (change : δ → δ) (next : Tx δ κ τ ν ρ)
  | draw (sequence : ν) (next : Nat → Tx δ κ τ ν ρ)

structure World (δ ν : Type) where
  tables : δ
  sequences : ν → Nat

def World.bump {δ ν : Type} [DecidableEq ν] (g : World δ ν) (x : ν) : World δ ν :=
  { g with sequences := update g.sequences x (g.sequences x + 1) }

namespace Tx
section
variable {δ κ τ ν α β : Type}

/-- An error ends the transaction. -/
def bind : Tx δ κ τ ν α → (α → Tx δ κ τ ν β) → Tx δ κ τ ν β
  | .done (.ok a), f => f a
  | .done (.error e), _ => .done (.error e)
  | .read tag next, f => .read tag fun s => (next s).bind f
  | .lock key next, f => .lock key (next.bind f)
  | .write change next, f => .write change (next.bind f)
  | .draw sequence next, f => .draw sequence fun n => (next n).bind f

instance : Monad (Tx δ κ τ ν) where
  pure a := .done (.ok a)
  bind := bind

def query (f : δ → α) : Tx δ κ τ ν α := .read none fun s => .done (.ok (f s))

def tagged (tag : τ) (f : δ → α) : Tx δ κ τ ν α := .read (some tag) fun s => .done (.ok (f s))

def acquire (key : κ) : Tx δ κ τ ν Unit := .lock key (.done (.ok ()))

def change (f : δ → δ) : Tx δ κ τ ν Unit := .write f (.done (.ok ()))

def nextval (sequence : ν) : Tx δ κ τ ν Nat := .draw sequence fun n => .done (.ok n)

def ofExcept (r : Except String α) : Tx δ κ τ ν α := .done r

def require (p : Prop) [Decidable p] (error : String) : Tx δ κ τ ν Unit :=
  ofExcept (if p then .ok () else .error error)

def expect (a : Option α) (error : String) : Tx δ κ τ ν α :=
  ofExcept (match a with
    | some a => .ok a
    | none => .error error)

def each (f : α → Tx δ κ τ ν β) : List α → Tx δ κ τ ν (List β)
  | [] => pure []
  | a :: rest => do
      let b ← f a
      let bs ← each f rest
      return b :: bs

def tag : Tx δ κ τ ν α → Option τ
  | .read tag _ => tag
  | _ => none

def eval [DecidableEq ν] : Tx δ κ τ ν α → World δ ν → World δ ν × Except String α
  | .done result, g => (g, result)
  | .read _ next, g => eval (next g.tables) g
  | .lock _ next, g => eval next g
  | .write change next, g => eval next { g with tables := change g.tables }
  | .draw sequence next, g => eval (next (g.sequences sequence + 1)) (g.bump sequence)

/-- The whole transaction: the writes of one that fails are undone, its draws are not. -/
def exec [DecidableEq ν] (tx : Tx δ κ τ ν α) (g : World δ ν) : World δ ν × Except String α :=
  match (eval tx g).2 with
  | .ok a => ((eval tx g).1, .ok a)
  | .error e => ({ (eval tx g).1 with tables := g.tables }, .error e)

section
variable [DecidableEq ν] {g : World δ ν} {f : α → Tx δ κ τ ν β} {a : α}

theorem eval_bind (tx : Tx δ κ τ ν α) :
    eval (tx >>= f) g = match eval tx g with
      | (g', .ok a) => eval (f a) g'
      | (g', .error e) => (g', .error e) := by
  change eval (bind tx f) g = _
  induction tx generalizing g with
  | done result => cases result <;> rfl
  | read tag next ih => exact ih g.tables
  | lock key next ih | write change next ih => exact ih
  | draw sequence next ih => exact ih (g.sequences sequence + 1)

@[simp] theorem eval_pure : eval (pure a : Tx δ κ τ ν α) g = (g, .ok a) := rfl

@[simp] theorem eval_query {f} : eval (query f : Tx δ κ τ ν α) g = (g, .ok (f g.tables)) := rfl

@[simp] theorem eval_tagged {tag f} : eval (tagged tag f : Tx δ κ τ ν α) g = (g, .ok (f g.tables)) := rfl

@[simp] theorem eval_acquire {key} : eval (acquire key : Tx δ κ τ ν Unit) g = (g, .ok ()) := rfl

@[simp] theorem eval_change {f} :
    eval (change f : Tx δ κ τ ν Unit) g = ({ g with tables := f g.tables }, .ok ()) := rfl

@[simp] theorem eval_nextval {sequence} :
    eval (nextval sequence : Tx δ κ τ ν Nat) g = (g.bump sequence, .ok (g.sequences sequence + 1)) := rfl

theorem eval_each {f : α → Tx δ κ τ ν β} {r} (same : ∀ a, eval (f a) g = (g, .ok (r a))) (l : List α) :
    eval (each f l) g = (g, .ok (l.map r)) := by
  induction l with
  | nil => rfl
  | cons a rest ih =>
    rw [each, eval_bind, same a]
    simp only [eval_bind, ih, eval_pure, List.map_cons]

@[simp] theorem eval_ofExcept {r} : eval (ofExcept r : Tx δ κ τ ν α) g = (g, r) := rfl

theorem exec_congr {tx tx' : Tx δ κ τ ν α} (h : eval tx g = eval tx' g) : exec tx g = exec tx' g := by
  rw [exec, h, exec]

variable {tx : Tx δ κ τ ν α}

theorem exec_ok {g'} (h : eval tx g = (g', .ok a)) : exec tx g = (g', .ok a) := by
  rw [exec, h]

theorem exec_error {e} (h : eval tx g = (g, .error e)) : exec tx g = (g, .error e) := by
  rw [exec, h]

theorem exec_undone {e} (h : (eval tx g).2 = .error e) : (exec tx g).1.tables = g.tables := by
  rw [exec, h]

end
end
end Tx

/-- A transaction under way: what is left of it, and what it has written. -/
structure Session (δ κ τ ν ρ : Type) where
  rest : Tx δ κ τ ν ρ
  own : δ → δ := id

/-- What is committed, who holds each lock, which transactions have made a tagged read
and not ended, and of every call what was asked and what came of it. -/
structure Database (ι χ δ κ τ ν ρ : Type) extends World δ ν where
  locks : κ → Option ι
  marks : τ → List ι
  sessions : ι → Option (Session δ κ τ ν ρ)
  made : ι → Option χ
  results : ι → Option (Except String ρ)

inductive Event (ι χ : Type) where
  | begin (i : ι) (call : χ)
  | step (i : ι)
  /-- A statement fails, or the transaction is rolled back for another reason. -/
  | abort (i : ι) (error : String)
  /-- A commit that goes through is reported as failed. -/
  | lose (i : ι) (error : String)
  deriving DecidableEq

def Event.session {ι χ : Type} : Event ι χ → ι
  | .begin i _ | .step i | .abort i _ | .lose i _ => i

namespace Database
section
variable {ι χ δ κ τ ν ρ : Type}

def quiet (tables : δ) : Database ι χ δ κ τ ν ρ where
  tables := tables
  sequences _ := 0
  locks _ := none
  marks _ := []
  sessions _ := none
  made _ := none
  results _ := none

variable [DecidableEq ι] (db : Database ι χ δ κ τ ν ρ) (i : ι)

def put (s : Session δ κ τ ν ρ) : Database ι χ δ κ τ ν ρ :=
  { db with sessions := update db.sessions i (some s) }

def close (tables : δ) (result : Except String ρ) : Database ι χ δ κ τ ν ρ :=
  { db with
    tables := tables
    locks := fun k => if db.locks k = some i then none else db.locks k
    marks := fun t => (db.marks t).filter (· ≠ i)
    sessions := update db.sessions i none
    results := update db.results i (some result) }

variable [DecidableEq κ] [DecidableEq τ] [DecidableEq ν]

def advance (db : Database ι χ δ κ τ ν ρ) (i : ι) (s : Session δ κ τ ν ρ) : Database ι χ δ κ τ ν ρ :=
  match s.rest with
  | .done (.ok a) => db.close i (s.own db.tables) (.ok a)
  | .done (.error e) => db.close i db.tables (.error e)
  | .read none next => db.put i { s with rest := next (s.own db.tables) }
  | .read (some t) next =>
    { db with marks := update db.marks t (i :: db.marks t) }.put i { s with rest := next (s.own db.tables) }
  | .lock k next =>
    if db.locks k = none ∨ db.locks k = some i then
      { db with locks := update db.locks k (some i) }.put i { s with rest := next }
    else db
  | .write change next => db.put i { rest := next, own := change ∘ s.own }
  | .draw x next =>
    { db with toWorld := db.toWorld.bump x }.put i { s with rest := next (db.sequences x + 1) }

variable (prog : χ → Tx δ κ τ ν ρ) (db : Database ι χ δ κ τ ν ρ)

def step : Event ι χ → Database ι χ δ κ τ ν ρ
  | .begin i c =>
    if db.made i = none then { db with made := update db.made i (some c) }.put i { rest := prog c }
    else db
  | .step i =>
    match db.sessions i with
    | some s => db.advance i s
    | none => db
  | .abort i error =>
    match db.sessions i with
    | some _ => db.close i db.tables (.error error)
    | none => db
  | .lose i error =>
    match db.sessions i with
    | some { rest := .done (.ok _), own := own } => db.close i (own db.tables) (.error error)
    | _ => db

inductive Moves (prog : χ → Tx δ κ τ ν ρ) (db : Database ι χ δ κ τ ν ρ) :
    Event ι χ → Database ι χ δ κ τ ν ρ → Prop where
  | still {e} : Moves prog db e db
  | begun {i c} (new : db.made i = none) :
      Moves prog db (.begin i c) ({ db with made := update db.made i (some c) }.put i { rest := prog c })
  | read {i s next} (running : db.sessions i = some s)
      (statement : s.rest = .read none next) :
      Moves prog db (.step i) (db.put i { s with rest := next (s.own db.tables) })
  | marked {i s t next} (running : db.sessions i = some s)
      (statement : s.rest = .read (some t) next) :
      Moves prog db (.step i)
        ({ db with marks := update db.marks t (i :: db.marks t) }.put i { s with rest := next (s.own db.tables) })
  | locked {i s k next} (running : db.sessions i = some s)
      (statement : s.rest = .lock k next) (free : db.locks k = none ∨ db.locks k = some i) :
      Moves prog db (.step i) ({ db with locks := update db.locks k (some i) }.put i { s with rest := next })
  | wrote {i s change next} (running : db.sessions i = some s)
      (statement : s.rest = .write change next) :
      Moves prog db (.step i) (db.put i { rest := next, own := change ∘ s.own })
  | drew {i s x next} (running : db.sessions i = some s)
      (statement : s.rest = .draw x next) :
      Moves prog db (.step i)
        ({ db with toWorld := db.toWorld.bump x }.put i { s with rest := next (db.sequences x + 1) })
  | committed {e i s a result}
      (running : db.sessions i = some s) (statement : s.rest = .done (.ok a)) (session : e.session = i)
      (reported : ∀ b, result = .ok b → e = .step i ∧ b = a) :
      Moves prog db e (db.close i (s.own db.tables) result)
  | failed {e i error} : Moves prog db e (db.close i db.tables (.error error))

theorem advance_moves {prog} {db : Database ι χ δ κ τ ν ρ} {i s}
    (running : db.sessions i = some s) : Moves prog db (.step i) (db.advance i s) := by
  unfold advance
  split
  · next statement =>
    refine .committed running statement rfl fun b same => ⟨rfl, ?_⟩
    cases same
    rfl
  · exact .failed
  · next statement => exact .read running statement
  · next statement => exact .marked running statement
  · next statement =>
    split
    · next free => exact .locked running statement free
    · exact .still
  · next statement => exact .wrote running statement
  · next statement => exact .drew running statement

theorem step_moves (e : Event ι χ) : Moves prog db e (step prog db e) := by
  cases e with
  | begin =>
    simp only [step]
    split
    · next new => exact .begun new
    · exact .still
  | step =>
    simp only [step]
    split
    · next running => exact advance_moves running
    · exact .still
  | abort =>
    simp only [step]
    split
    · exact .failed
    · exact .still
  | lose =>
    simp only [step]
    split
    · next running => exact .committed running rfl rfl fun b same => by cases same
    · exact .still

end
end Database
end Transactions
