import SynaMcp.Services.Scope
import Mathlib.Data.List.Sort

/-! The git service on one repository: what `Exec` does to its state, and the history
that commits make. -/
namespace SynaMcp
open Keyed List Table

abbrev StringMap := Table (Prod.fst : String × String → String)

namespace StringMap

def value (m : StringMap) (k : String) : String := ((m.get? k).map Prod.snd).getD ""

def keys (m : StringMap) : List String := (m.rows.map Prod.fst).insertionSort (· ≤ ·)

end StringMap

structure GitCommit where
  (id message : String := "")
  parents : List String := []
  tree : StringMap := .empty
  createdAt : Time := 0

structure Repo where
  initialized : Bool := false
  head : String := "main"
  branches : StringMap := .empty
  commits : Table GitCommit.id := .empty
  (index files remotes tags : StringMap := .empty)

/-- The methods of `Exec`; `inspect` is `show`. -/
inductive GitMethod where
  | init | clone | add | commit | status | log | diff | branch | checkout
  | fetch | pull | push | tag | inspect | remote | other
  deriving DecidableEq, Repr

/-- A call of `Exec`; of the arguments, those that are strings. -/
structure GitCall where
  now : Time := 0
  kind : ObjectKind := .git
  method : GitMethod
  args : StringMap := .empty

/-- What `Exec` returns. `log` has no lines where its loop does not end. -/
inductive GitResult where
  | initialized (head : String)
  | cloned (remote : String)
  | added (path : String)
  | committed (id message : String)
  | status (head : String) (indexed files : List String)
  | log (commits : Option (List GitCommit))
  | diff (index files : StringMap)
  | branches (names : List String)
  | branch (name commit : String)
  | head (name : String)
  | synced (method : GitMethod)
  | tags (tags : StringMap)
  | tag (name commit : String)
  | commit (c : GitCommit)
  | remotes (remotes : StringMap)

def commitID (n : Nat) : String := "c" ++ toString n

namespace Repo

def tip (st : Repo) : String := st.branches.value st.head

/-- The loop of `log`, for as many turns as there is fuel. -/
def chainFrom (commits : Table GitCommit.id) : Nat → String → Option (List GitCommit)
  | 0, _ => none
  | fuel + 1, cur =>
    if cur = "" then some []
    else
      let c := (commits.get? cur).getD {}
      match c.parents with
      | [] => some [c]
      | parent :: _ => (chainFrom commits fuel parent).map (c :: ·)

def commitIndex (now : Time) (message : String) (st : Repo) : Repo :=
  let id := commitID (st.commits.rows.length + 1)
  let c : GitCommit :=
    { id := id, message := message, parents := if st.tip = "" then [] else [st.tip], tree := st.index, createdAt := now }
  { st with commits := st.commits.put c, branches := st.branches.put (st.head, id) }

/-- A branch that there is not starts where the current one is. -/
def checkout (name : String) (st : Repo) : Repo :=
  let branches := if st.branches.Has name then st.branches else st.branches.put (name, st.tip)
  match st.commits.get? (branches.value name) with
  | some c => { st with branches := branches, head := name, files := c.tree, index := c.tree }
  | none => { st with branches := branches, head := name }

def exec (call : GitCall) (st : Repo) : Repo × Except String GitResult :=
  let arg := call.args.value
  if call.kind ≠ .git then (st, .error errKindMismatch)
  else
    match call.method with
    | .init =>
      let st := { st with initialized := true, head := if st.head = "" then "main" else st.head }
      (st, .ok (.initialized st.head))
    | .clone =>
      ({ st with initialized := true, remotes := st.remotes.put ("origin", arg "url") }, .ok (.cloned (arg "url")))
    | .add =>
      if arg "path" = "" then (st, .error "path required")
      else
        ({ st with
            files := st.files.put (arg "path", arg "content")
            index := st.index.put (arg "path", arg "content") }, .ok (.added (arg "path")))
    | .commit =>
      if arg "message" = "" then (st, .error "message required")
      else
        (st.commitIndex call.now (arg "message"),
          .ok (.committed (commitID (st.commits.rows.length + 1)) (arg "message")))
    | .status => (st, .ok (.status st.head st.index.keys st.files.keys))
    | .log => (st, .ok (.log (chainFrom st.commits (st.commits.rows.length + 1) st.tip)))
    | .diff => (st, .ok (.diff st.index st.files))
    | .branch =>
      if arg "name" = "" then (st, .ok (.branches st.branches.keys))
      else ({ st with branches := st.branches.put (arg "name", st.tip) }, .ok (.branch (arg "name") st.tip))
    | .checkout =>
      if arg "name" = "" then (st, .error "name required")
      else (st.checkout (arg "name"), .ok (.head (arg "name")))
    | .fetch | .pull | .push => (st, .ok (.synced call.method))
    | .tag =>
      if arg "name" = "" then (st, .ok (.tags st.tags))
      else ({ st with tags := st.tags.put (arg "name", st.tip) }, .ok (.tag (arg "name") st.tip))
    | .inspect =>
      let id := if arg "id" = "" then st.tip else arg "id"
      (st, .ok (.commit ((st.commits.get? id).getD {})))
    | .remote =>
      let st :=
        if arg "name" ≠ "" ∧ arg "url" ≠ "" then { st with remotes := st.remotes.put (arg "name", arg "url") } else st
      (st, .ok (.remotes st.remotes))
    | .other => (st, .error "unknown method")

variable (calls : List GitCall) (n : Nat)

/-- The repository after the first `n` calls. -/
def after : Repo := Runs.run (fun st call => (exec call st).1) {} (calls.take n)

/-- Commits with the latest first: they are numbered, and their parents are older. -/
def Grown : List GitCommit → Prop
  | [] => True
  | c :: older => c.id = commitID (older.length + 1) ∧ (∀ p ∈ c.parents, ∃ d ∈ older, d.id = p) ∧ Grown older

/-- Of no commit, or of one that is stored. -/
def Refers (commits : Table GitCommit.id) (id : String) : Prop := id = "" ∨ commits.Has id

/-- The commits from one to a root, each the parent of the one before. -/
inductive Chain (commits : Table GitCommit.id) : String → List GitCommit → Prop where
  | none : Chain commits "" []
  | root {c} (stored : c ∈ commits.rows) (first : c.parents = []) : Chain commits c.id [c]
  | link {c parent more rest} (stored : c ∈ commits.rows)
      (next : c.parents = parent :: more) (chain : Chain commits parent rest) : Chain commits c.id (c :: rest)

structure Formed (st : Repo) : Prop where
  grown : Grown st.commits.rows
  branches : ∀ r ∈ st.branches.rows, Refers st.commits r.2
  tags : ∀ r ∈ st.tags.rows, Refers st.commits r.2

section
variable {commits : Table GitCommit.id} {rows newer older : List GitCommit} {st : Repo} {id : String} {c : GitCommit}

theorem commitID_inj {m n} (h : commitID m = commitID n) : m = n :=
  GoStrings.toString_nat_inj ((String.append_right_inj _).mp h)

theorem commitID_ne_empty (n : Nat) : commitID n ≠ "" := by
  intro h
  have lengths := congrArg String.length h
  rw [commitID, String.length_append] at lengths
  exact absurd lengths (by simp [show "c".length = 1 from rfl])

theorem Grown.number (h : Grown rows) (mem : c ∈ rows) : ∃ n ≤ rows.length, c.id = commitID n := by
  induction rows with
  | nil => cases mem
  | cons d older ih =>
    rcases List.mem_cons.mp mem with rfl | old
    · exact ⟨_, le_rfl, h.1⟩
    · obtain ⟨n, le, named⟩ := ih h.2.2 old
      exact ⟨n, Nat.le_succ_of_le le, named⟩

theorem Formed.new_id (h : Formed st) : ¬ st.commits.Has (commitID (st.commits.rows.length + 1)) := by
  rintro ⟨c, row, same⟩
  obtain ⟨_, _, named⟩ := h.grown.number row
  have := commitID_inj (named.symm.trans same)
  omega

theorem Formed.tip (h : Formed st) : Refers st.commits st.tip := by
  unfold Repo.tip StringMap.value
  cases found : st.branches.get? st.head with
  | none => exact .inl rfl
  | some r => exact h.branches r (mem_of_get? found)

/-- The loop of `log` ends at a root, by way of older and older commits. -/
theorem Grown.chainFrom (grown : Grown older) (split : commits.rows = newer ++ older)
    (mem : c ∈ older) : ∃ list, (∀ fuel, older.length ≤ fuel → chainFrom commits fuel c.id = some list) ∧
      Chain commits c.id list ∧ (list.map GitCommit.id).Nodup ∧ ∀ d ∈ list, d ∈ older := by
  induction older generalizing newer c with
  | nil => cases mem
  | cons d older ih =>
    have split' : commits.rows = (newer ++ [d]) ++ older := by simpa using split
    rcases List.mem_cons.mp mem with rfl | old
    · have row : c ∈ commits.rows := split ▸ mem_append_right _ mem_cons_self
      have turn : ∀ fuel, chainFrom commits (fuel + 1) c.id =
          match c.parents with
          | [] => some [c]
          | parent :: _ => (chainFrom commits fuel parent).map (c :: ·) := by
        intro fuel
        rw [Repo.chainFrom, if_neg (grown.1 ▸ commitID_ne_empty _), get?_of_mem row]
        rfl
      cases parents : c.parents with
      | nil =>
        refine ⟨[c], ?_, .root row parents, nodup_singleton _, by simp⟩
        rintro (_ | fuel) le
        · exact absurd le (by simp)
        · rw [turn fuel, parents]
      | cons parent =>
        obtain ⟨_, stored, rfl⟩ := grown.2.1 parent (parents ▸ mem_cons_self)
        obtain ⟨list, ends, chain, single, within⟩ := ih grown.2.2 split' stored
        refine ⟨c :: list, ?_, .link row parents chain, List.nodup_cons.mpr ⟨?_, single⟩, ?_⟩
        · rintro (_ | fuel) le
          · exact absurd le (by simp)
          · rw [turn fuel, parents]
            simp only [ends fuel (Nat.le_of_succ_le_succ le), Option.map_some]
        · -- the ids of the rows differ
          have ids := commits.nodup
          rw [split, map_append] at ids
          intro again
          obtain ⟨x, mem, same⟩ := List.mem_map.mp again
          exact (List.nodup_cons.mp ids.of_append_right).1 (same ▸ mem_map_of_mem (within x mem))
        · intro x mem
          rcases List.mem_cons.mp mem with rfl | later
          · exact mem_cons_self
          · exact mem_cons_of_mem _ (within x later)
    · obtain ⟨list, ends, chain, single, within⟩ := ih grown.2.2 split' old
      refine ⟨list, fun fuel le => ends fuel (Nat.le_of_succ_le le), chain, single, ?_⟩
      exact fun x mem => mem_cons_of_mem _ (within x mem)

theorem Formed.log (h : Formed st) : ∃ list,
    (∀ fuel, st.commits.rows.length < fuel → Repo.chainFrom st.commits fuel st.tip = some list) ∧
      Chain st.commits st.tip list ∧ (list.map GitCommit.id).Nodup := by
  rcases h.tip with none | ⟨_, row, same⟩
  · rw [none]
    refine ⟨[], ?_, .none, nodup_nil⟩
    rintro (_ | fuel) lt
    · cases lt
    · rfl
  · rw [← same]
    obtain ⟨list, ends, chain, single, _⟩ := h.grown.chainFrom (nil_append _).symm row
    exact ⟨list, fun fuel lt => ends fuel lt.le, chain, single⟩

/-- What a call does: a commit may be added, and branches and tags point to what they did
or to a commit that is stored. -/
structure Moves (st st' : Repo) : Prop where
  grown : ∃ new : Option GitCommit, st'.commits.rows = new.toList ++ st.commits.rows ∧ Grown st'.commits.rows
  branches : ∀ r ∈ st'.branches.rows, r ∈ st.branches.rows ∨ Refers st'.commits r.2
  tags : ∀ r ∈ st'.tags.rows, r ∈ st.tags.rows ∨ Refers st'.commits r.2

theorem Moves.stay {st'} (h : Formed st) (commits : st'.commits = st.commits)
    (branches : st'.branches = st.branches) (tags : st'.tags = st.tags) : Moves st st' where
  grown := ⟨none, by rw [commits]; rfl, commits ▸ h.grown⟩
  branches r mem := .inl (branches ▸ mem)
  tags r mem := .inl (tags ▸ mem)

section
variable (h : Formed st)
include h

theorem Formed.mem_put_tip {m : StringMap} {name r}
    (mem : r ∈ (m.put (name, st.tip)).rows) : r ∈ m.rows ∨ Refers st.commits r.2 := by
  rcases Table.mem_put.mp mem with rfl | ⟨old, _⟩
  · exact .inr h.tip
  · exact .inl old

theorem Formed.moves_commitIndex (now : Time) (message : String) : Moves st (st.commitIndex now message) := by
  have rows : (st.commitIndex now message).commits.rows = _ :: st.commits.rows := rows_put_of_new h.new_id
  refine ⟨⟨some _, rows, rows ▸ ⟨rfl, ?_, h.grown⟩⟩, ?_, fun r => .inl⟩
  · intro p mem
    simp only at mem
    split at mem
    · cases mem
    · next given =>
      rw [List.mem_singleton.mp mem]
      exact h.tip.resolve_left given
  · intro r mem
    rcases Table.mem_put.mp mem with rfl | ⟨old, _⟩
    · exact .inr (.inr (Table.has_put.mpr (.inl rfl)))
    · exact .inl old

theorem Formed.moves_checkout (name : String) : Moves st (st.checkout name) := by
  have branches : ∀ r ∈ (if st.branches.Has name then st.branches else st.branches.put (name, st.tip)).rows,
      r ∈ st.branches.rows ∨ Refers st.commits r.2 := by
    split
    · exact fun r => .inl
    · exact fun r => h.mem_put_tip
  simp only [checkout]
  split <;> exact ⟨⟨none, rfl, h.grown⟩, branches, fun r => .inl⟩

theorem Formed.moves (call : GitCall) : Moves st (exec call st).1 := by
  by_cases kind : call.kind = .git
  · cases method : call.method with
    | commit =>
      simp only [exec, kind, method, ne_eq, not_true_eq_false, if_false]
      split
      · exact .stay h rfl rfl rfl
      · exact h.moves_commitIndex _ _
    | branch =>
      simp only [exec, kind, method, ne_eq, not_true_eq_false, if_false]
      split
      · exact .stay h rfl rfl rfl
      · exact ⟨⟨none, rfl, h.grown⟩, fun r => h.mem_put_tip, fun r => .inl⟩
    | checkout =>
      simp only [exec, kind, method, ne_eq, not_true_eq_false, if_false]
      split
      · exact .stay h rfl rfl rfl
      · exact h.moves_checkout _
    | tag =>
      simp only [exec, kind, method, ne_eq, not_true_eq_false, if_false]
      split
      · exact .stay h rfl rfl rfl
      · exact ⟨⟨none, rfl, h.grown⟩, fun r => .inl, fun r => h.mem_put_tip⟩
    | add | remote =>
      simp only [exec, kind, method, ne_eq, not_true_eq_false, if_false]
      split <;> exact .stay h rfl rfl rfl
    | init | clone | status | log | diff | fetch | pull | push | inspect | other =>
      simp only [exec, kind, method, ne_eq, not_true_eq_false, if_false]
      exact .stay h rfl rfl rfl
  · simp only [exec, ne_eq, kind, not_false_eq_true, if_true]
    exact .stay h rfl rfl rfl

theorem Formed.exec (call : GitCall) : Formed (exec call st).1 := by
  obtain ⟨⟨_, rows, grown⟩, branches, tags⟩ := h.moves call
  have kept : ∀ {id}, Refers st.commits id → Refers (Repo.exec call st).1.commits id := by
    rintro id (none | ⟨c, row, same⟩)
    · exact .inl none
    · exact .inr ⟨c, rows ▸ mem_append_right _ row, same⟩
  refine ⟨grown, fun r mem => ?_, fun r mem => ?_⟩
  · exact (branches r mem).elim (fun old => kept (h.branches r old)) id
  · exact (tags r mem).elim (fun old => kept (h.tags r old)) id

end

theorem formed_after : Formed (after calls n) := by
  have initial : Formed {} := ⟨trivial, (fun r mem => by cases mem), (fun r mem => by cases mem)⟩
  have preserves : ∀ st call, Formed st → Formed (Repo.exec call st).1 := fun st call h => h.exec call
  exact Runs.run_preserves preserves (calls.take n) initial

theorem after_succ {calls n call} (input : calls[n]? = some call) :
    after calls (n + 1) = (Repo.exec call (after calls n)).1 := Runs.run_take_succ input

theorem rows_after_succ : ∃ new : Option GitCommit,
    (after calls (n + 1)).commits.rows = new.toList ++ (after calls n).commits.rows := by
  cases input : calls[n]? with
  | none =>
    have length := List.getElem?_eq_none_iff.mp input
    refine ⟨none, ?_⟩
    rw [after, after, take_of_length_le length, take_of_length_le (Nat.le_succ_of_le length)]
    rfl
  | some call =>
    obtain ⟨new, rows, _⟩ := ((formed_after calls n).moves call).grown
    rw [after_succ input]
    exact ⟨new, rows⟩

theorem Grown.parents (h : Grown rows) (mem : c ∈ rows) {p} (parent : p ∈ c.parents) : ∃ d ∈ rows, d.id = p := by
  induction rows with
  | nil => cases mem
  | cons d older ih =>
    have later : ∃ e ∈ older, e.id = p := by
      rcases List.mem_cons.mp mem with rfl | old
      · exact h.2.1 p parent
      · exact ih h.2.2 old
    obtain ⟨e, stored, same⟩ := later
    exact ⟨e, mem_cons_of_mem _ stored, same⟩

theorem new_commit {calls n} (mem : c ∈ (after calls (n + 1)).commits.rows) (new : c ∉ (after calls n).commits.rows) :
    ¬ (after calls n).commits.Has c.id ∧ ∀ p ∈ c.parents, (after calls n).commits.Has p := by
  obtain ⟨added, rows⟩ := rows_after_succ calls n
  have grown := (formed_after calls (n + 1)).grown
  have ids := (after calls (n + 1)).commits.nodup
  rw [rows] at mem grown ids
  cases added with
  | none => exact absurd mem new
  | some d =>
    obtain rfl : c = d := (List.mem_cons.mp mem).resolve_right new
    refine ⟨?_, grown.2.1⟩
    rintro ⟨e, stored, same⟩
    exact (List.nodup_cons.mp ids).1 (same ▸ mem_map_of_mem stored)

theorem checkout_tree {name}
    (found : (st.checkout name).commits.get? ((st.checkout name).branches.value name) = some c) :
    (st.checkout name).index = c.tree ∧ (st.checkout name).files = c.tree := by
  simp only [checkout] at found ⊢
  split at found
  · next d is =>
    rw [is] at found
    cases found
    exact ⟨rfl, rfl⟩
  · next is =>
    rw [is] at found
    cases found

end
end Repo

end SynaMcp
