import SynaMcp.Services.Git

/-! Git repositories behind a blob store. Each process loads the blob into the state it
has in memory, so that its entries stay where the blob has none, and saves that state
after the call. -/
namespace SynaMcp
open Keyed Table Function Runs

namespace Repo

/-- `json.Unmarshal` of a saved state into one that is there. -/
def decodeInto (saved st : Repo) : Repo where
  initialized := saved.initialized
  head := saved.head
  branches := saved.branches.onto st.branches
  commits := saved.commits.onto st.commits
  index := saved.index.onto st.index
  files := saved.files.onto st.files
  remotes := saved.remotes.onto st.remotes
  tags := saved.tags.onto st.tags

/-- Every entry of the maps has its key in those of the saved state. -/
structure Covered (st saved : Repo) : Prop where
  branches : ∀ r ∈ st.branches.rows, saved.branches.Has r.1
  commits : ∀ c ∈ st.commits.rows, saved.commits.Has c.id
  index : ∀ r ∈ st.index.rows, saved.index.Has r.1
  files : ∀ r ∈ st.files.rows, saved.files.Has r.1
  remotes : ∀ r ∈ st.remotes.rows, saved.remotes.Has r.1
  tags : ∀ r ∈ st.tags.rows, saved.tags.Has r.1

theorem Covered.decodeInto {st saved : Repo} (h : st.Covered saved) : saved.decodeInto st = saved := by
  simp only [Repo.decodeInto, onto_eq h.branches, onto_eq h.commits, onto_eq h.index,
    onto_eq h.files, onto_eq h.remotes, onto_eq h.tags]

theorem Covered.refl (st : Repo) : st.Covered st :=
  ⟨fun _ => has_of_mem, fun _ => has_of_mem, fun _ => has_of_mem, fun _ => has_of_mem,
    fun _ => has_of_mem, fun _ => has_of_mem⟩

theorem exec_error {call st e} (h : (exec call st).2 = .error e) : (exec call st).1 = st := by
  by_cases kind : call.kind = .git
  · cases method : call.method with
    | add | commit | branch | checkout | tag =>
      simp only [exec, kind, method, ne_eq, not_true_eq_false, if_false] at h ⊢
      split at h
      · next none => rw [if_pos none]
      · cases h
    | init | clone | status | log | diff | fetch | pull | push | inspect | remote =>
      simp only [exec, kind, method, ne_eq, not_true_eq_false, if_false] at h
      cases h
    | other => simp only [exec, kind, method, ne_eq, not_true_eq_false, if_false]
  · simp only [exec, ne_eq, kind, not_false_eq_true, if_true]

end Repo

/-- What a `Put` comes to. One that fails may have replaced the blob. -/
inductive PutOutcome where
  | stored
  | failed (replaced : Bool)
  deriving DecidableEq

inductive ReplicaEvent (π : Type) where
  | restart (p : π)
  /-- A call of `Exec` in a process; `unread` is a `Get` that fails. -/
  | exec (p : π) (call : GitCall) (unread : Bool) (put : PutOutcome)

/-- The processes with what they have in memory, and the blob. The rest is history: the
calls that returned success, and all answers, the latest first. -/
structure GitReplicas (π : Type) where
  memory : π → Repo := fun _ => {}
  blob : Option Repo := none
  done : List GitCall := []
  answers : List (Except String GitResult) := []

namespace GitReplicas
variable {π : Type} [DecidableEq π]

/-- What the calls make of a new repository. -/
def replay (calls : List GitCall) : Repo := calls.foldr (fun call st => (Repo.exec call st).1) {}

variable (σ : GitReplicas π)

def stored : Repo := σ.blob.getD {}

def load (p : π) (unread : Bool) : Repo :=
  match unread, σ.blob with
  | false, some saved => saved.decodeInto (σ.memory p)
  | _, _ => σ.memory p

def step : ReplicaEvent π → GitReplicas π
  | .restart p => { σ with memory := update σ.memory p {} }
  | .exec p call unread put =>
    let st := σ.load p unread
    let memory := update σ.memory p (Repo.exec call st).1
    match (Repo.exec call st).2, put with
    | .error e, _ => { σ with memory := memory, answers := .error e :: σ.answers }
    | .ok out, .stored =>
      { memory := memory, blob := some (Repo.exec call st).1, done := call :: σ.done, answers := .ok out :: σ.answers }
    | .ok _, .failed replaced =>
      { σ with
        memory := memory
        blob := if replaced then some (Repo.exec call st).1 else σ.blob
        answers := .error "put failed" :: σ.answers }

def Succeeds : ReplicaEvent π → Prop
  | .restart _ => False
  | .exec p call unread put => (∃ out, (Repo.exec call (σ.load p unread)).2 = .ok out) ∧ put = .stored

/-- A process has no entries in memory that the blob lacks; where the blob is not read, it
has in memory what is stored; and a `Put` that fails does not replace the blob. -/
def Intact : ReplicaEvent π → Prop
  | .restart _ => True
  | .exec p _ unread put =>
    (match unread, σ.blob with
      | false, some saved => (σ.memory p).Covered saved
      | _, _ => σ.memory p = σ.stored) ∧ put ≠ .failed true

variable {σ τ : GitReplicas π} {p : π} {call : GitCall} {unread : Bool} {put : PutOutcome}

omit [DecidableEq π] in
theorem Intact.load_eq (h : σ.Intact (.exec p call unread put)) : σ.load p unread = σ.stored := by
  obtain ⟨h, _⟩ := h
  unfold load
  cases unread with
  | true => exact h
  | false =>
    cases blob : σ.blob with
    | none =>
      rw [blob] at h
      exact h
    | some =>
      rw [blob] at h
      simp only [stored, blob, Option.getD_some]
      exact h.decodeInto

theorem stored_step (h : σ.stored = replay σ.done) (ev : ReplicaEvent π) (met : σ.Intact ev) :
    (σ.step ev).stored = replay (σ.step ev).done := by
  cases ev with
  | restart => exact h
  | exec p call unread put =>
    have load := met.load_eq
    simp only [step]
    cases answer : (Repo.exec call (σ.load p unread)).2 with
    | error => exact h
    | ok =>
      cases put with
      | stored =>
        simp only [stored, Option.getD_some, replay, List.foldr_cons]
        rw [load, h]
        rfl
      | failed replaced =>
        cases replaced with
        | true => exact absurd rfl met.2
        | false => exact h

theorem exec_stored (call : GitCall) (load : σ.load p false = σ.stored) :
    (σ.step (.exec p call false .stored)).stored = (Repo.exec call σ.stored).1 ∧
    (σ.step (.exec p call false .stored)).memory p = (Repo.exec call σ.stored).1 ∧
    (σ.step (.exec p call false .stored)).answers = (Repo.exec call σ.stored).2 :: σ.answers := by
  simp only [step, load]
  cases answer : (Repo.exec call σ.stored).2 with
  | error => exact ⟨(Repo.exec_error answer).symm, update_self .., rfl⟩
  | ok => exact ⟨rfl, update_self .., rfl⟩

omit [DecidableEq π] in
theorem intact_of_memory (call : GitCall) (h : σ.memory p = σ.stored) : σ.Intact (.exec p call false .stored) := by
  refine ⟨?_, by decide⟩
  cases blob : σ.blob with
  | none => exact h
  | some saved =>
    rw [h, stored, blob]
    exact .refl saved

def calls (list : List (π × GitCall)) : List (ReplicaEvent π) := list.map fun c => .exec c.1 c.2 false .stored

/-- Two systems that have the same stored give the same answers, where one is a single
process. -/
theorem answers_calls {list} (met : Runs.Guarded Intact step σ (calls list))
    (stored : σ.stored = τ.stored) (answers : σ.answers = τ.answers) (one : τ.memory p = τ.stored) :
    (run step σ (calls list)).answers = (run step τ (calls (list.map fun c => (p, c.2)))).answers := by
  induction list generalizing σ τ with
  | nil => exact answers
  | cons c rest ih =>
    have left := exec_stored c.2 met.1.load_eq
    have right := exec_stored c.2 (intact_of_memory c.2 one).load_eq
    refine ih met.2 (left.1.trans ?_) (left.2.2.trans ?_) (right.2.1.trans right.1.symm)
    · rw [stored]
      exact right.1.symm
    · rw [stored, answers]
      exact right.2.2.symm

end GitReplicas

/-- Calls, restarts and failures in any order and any number of processes, under the
condition: a call that succeeds works on the repository that the successful calls before
it have made. -/
theorem git_survives_failures {π : Type} [DecidableEq π] (events : List (ReplicaEvent π))
    (met : Runs.Guarded GitReplicas.Intact GitReplicas.step {} events) :
    Runs.Along (fun σ ev _ => ∀ p call unread put, ev = .exec p call unread put → σ.Succeeds ev →
      σ.load p unread = GitReplicas.replay σ.done) GitReplicas.step {} events := by
  have preserves : ∀ (σ : GitReplicas π) ev, σ.stored = GitReplicas.replay σ.done → σ.Intact ev →
      (σ.step ev).stored = GitReplicas.replay (σ.step ev).done := fun σ ev h met => GitReplicas.stored_step h ev met
  refine along_of_guarded preserves ?_ met rfl
  rintro σ ev h met p call unread put rfl _
  exact met.load_eq.trans h

def noteArgs : StringMap := ((Table.empty.put ("path", "a")).put ("message", "m")).put ("name", "b")

def committedRun : List (ReplicaEvent Bool) :=
  [.exec true { method := .commit, args := noteArgs } false .stored, .restart true]

theorem commit_survives_restart :
    (GitReplicas.load (Runs.run GitReplicas.step {} committedRun) true false) =
      GitReplicas.replay [{ method := .commit, args := noteArgs }] := by
  have met : Runs.Guarded GitReplicas.Intact GitReplicas.step {}
      (committedRun ++ [.exec true { method := .log } false .stored]) := by
    refine ⟨⟨rfl, by decide⟩, trivial, ⟨⟨?_, ?_, ?_, ?_, ?_, ?_⟩, by decide⟩, trivial⟩
    all_goals exact fun r mem => by cases mem
  exact (git_survives_failures _ met).2.2.1 _ _ _ _ rfl ⟨⟨_, rfl⟩, rfl⟩

/-- The next call does not read the blob, and succeeds on a new repository, which it then
stores: the commit is lost. -/
theorem commit_is_lost :
    (Runs.run GitReplicas.step {} committedRun).Succeeds (.exec true { method := .log } true .stored) ∧
    GitReplicas.load (run GitReplicas.step {} committedRun) true true ≠
      GitReplicas.replay (run GitReplicas.step {} committedRun).done ∧
    ((run GitReplicas.step {} committedRun).step
      (.exec true { method := .log } true .stored)).stored.commits.rows = [] := by
  refine ⟨⟨⟨_, rfl⟩, rfl⟩, fun same => ?_, rfl⟩
  exact absurd (congrArg (fun st => st.commits.rows.length) same) (by decide)

/-- Calls without failures in several processes, where no process has entries in memory
that the blob lacks: they are answered as in one process. -/
theorem replicas_act_as_one {π : Type} [DecidableEq π] (p : π) (list : List (π × GitCall))
    (met : Runs.Guarded GitReplicas.Intact GitReplicas.step {} (GitReplicas.calls list)) :
    (Runs.run GitReplicas.step {} (GitReplicas.calls list)).answers =
      (Runs.run GitReplicas.step {} (GitReplicas.calls (list.map fun c => (p, c.2)))).answers :=
  GitReplicas.answers_calls met rfl rfl rfl

theorem second_process_commits :
    (Runs.run GitReplicas.step {} (GitReplicas.calls
      [(true, { method := .commit, args := noteArgs }), (false, { method := .status })])).answers =
    (run GitReplicas.step {} (GitReplicas.calls
      [(true, { method := .commit, args := noteArgs }), (true, { method := .status })])).answers := by
  refine replicas_act_as_one true _ ⟨⟨rfl, by decide⟩, ⟨⟨?_, ?_, ?_, ?_, ?_, ?_⟩, by decide⟩, trivial⟩
  all_goals exact fun r mem => by cases mem

/-- A file is added in a process after a commit, and another process checks out the branch
of the commit, which has no files: the first process still has the file. -/
theorem file_comes_back :
    let list : List (Bool × GitCall) :=
      [(true, { method := .commit, args := noteArgs }), (true, { method := .add, args := noteArgs }),
        (false, { method := .checkout, args := noteArgs }), (true, { method := .status })]
    (run GitReplicas.step {} (GitReplicas.calls list)).answers.head? = some (.ok (.status "b" ["a"] ["a"])) ∧
    (run GitReplicas.step {} (GitReplicas.calls (list.map fun c => (true, c.2)))).answers.head? =
      some (.ok (.status "b" [] [])) :=
  ⟨rfl, rfl⟩

end SynaMcp
