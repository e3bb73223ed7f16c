import SynaMcp.Knowledge.Deletion
import SynaMcp.Knowledge.Waiting

/-! Deleting a document that a worker may be at. A worker saves the record it has read
before, so a record deleted in between comes back; where no worker is at the document,
every later attempt finds no record. -/
namespace SynaMcp
open Keyed Sections Catalog Table Function List

def Job.Cleans (d : String) (j : Job) : Prop := j.docID = d ∧ j.kind = .deleteVectors

theorem Job.Same.cleans {d} {j j' : Job} (h : j.Same j') : j'.Cleans d ↔ j.Cleans d := by
  unfold Job.Cleans
  rw [h.docID, h.kind]

section
variable {Vec : Type} {d : String} {u u' : IngestWorld Vec}
  {cfg : IngestConfig} {id : String} {here gone : IngestWorld Vec → Prop}

theorem present_saved {docs : Catalog} {doc} (own : doc.docID = d) : (docs.save doc).get? d ≠ none := by
  rw [get?_save docs own]
  exact Option.some_ne_none _

theorem Erases.get?_of_ne
    (h : Erases cfg id here gone u u') (other : id ≠ d) : u'.catalog.get? d = u.catalog.get? d := by
  cases h with
  | still => rfl
  | hidden _ own => exact get?_save_of_ne _ (own ▸ other)
  | removed => exact get?_delete_of_ne _ other.symm
  | queued => rfl

/-- A `Delete` of another document makes no job for this one. -/
theorem Erases.old_row {j}
    (h : Erases cfg id here gone u u') (other : id ≠ d) (row : j ∈ u'.jobs.jobs.rows) (cleans : j.Cleans d) :
    j ∈ u.jobs.jobs.rows := by
  cases h with
  | still | hidden | removed => exact row
  | queued _ enqueued =>
    cases enqueued with
    | existing => exact row
    | added =>
      rcases Table.mem_put.mp row with rfl | ⟨row, _⟩
      · exact absurd cleans.1 other
      · exact row
    | conflict => exact row

theorem Erases.vectors (h : Erases cfg id here gone u u') : u'.vectors = u.vectors := by
  cases h <;> rfl

section
variable {c : Job} {seen : Prop} {done : IngestWorld Vec → Prop} (h : Does c seen done u u')
include h

theorem Does.get? (apart : seen → c.docID ≠ d) : u'.catalog.get? d = u.catalog.get? d := by
  cases h with
  | still | stored => rfl
  | saved known own => exact get?_save_of_ne _ (own ▸ apart known)
  | cleared | completed | returned => rfl

theorem Does.old_row {j} (row : j ∈ u'.jobs.jobs.rows) : ∃ j₀ ∈ u.jobs.jobs.rows, j₀.Same j := by
  cases h with
  | still | stored | saved | cleared => exact ⟨j, row, .refl j⟩
  | @completed r now _ row₀ =>
    rcases Table.mem_put.mp row with rfl | ⟨row, _⟩
    · exact ⟨r, row₀, .completed r now⟩
    · exact ⟨j, row, .refl j⟩
  | @returned r now e last row₀ =>
    rcases Table.mem_put.mp row with rfl | ⟨row, _⟩
    · exact ⟨r, row₀, .returned r now e last⟩
    · exact ⟨j, row, .refl j⟩

theorem Does.present (there : u.catalog.get? d ≠ none) : u'.catalog.get? d ≠ none := by
  cases h with
  | still | stored => exact there
  | @saved doc =>
    by_cases same : doc.docID = d
    · exact present_saved same
    · exact fun gone => there ((get?_save_of_ne _ same).symm.trans gone)
  | cleared | completed | returned => exact there

theorem Does.clean (apart : seen → c.docID ≠ d) (clean : IngestWorld.Clean d u.vectors) :
    IngestWorld.Clean d u'.vectors := by
  cases h with
  | still => exact clean
  | stored known own => exact clean.upsert (own ▸ apart known)
  | saved => exact clean
  | cleared => exact clean.deleteByDocID
  | completed | returned => exact clean

end
end

namespace IngestSystem
section
variable {Vec ω δ : Type} {cfg : IngestConfig} {S S' : IngestSystem Vec ω δ} {e : SystemEvent Vec ω δ} {d : String}
  {i : δ} {w : ω} {j : Job} {events : List (SystemEvent Vec ω δ)}

def Clears (c : Job) (svc : IngestServices Vec) : Prop :=
  c.kind = .deleteVectors → svc.deleteVectors = none ∨ c.attempts < c.maxAttempts ∧ svc.fail = none

/-- A record is deleted only while no worker is at an ingest job of the document and no
other `Delete` of it is under way; and the last attempt to delete vectors succeeds. -/
def Apart [DecidableEq ω] [DecidableEq δ] (cfg : IngestConfig) (S : IngestSystem Vec ω δ) : SystemEvent Vec ω δ → Prop
  | .erase i => ∀ id p, S.deletes i = some (id, p) → S.world.catalog.get? id ≠ none →
      (S.step cfg (.erase i)).world.catalog.get? id = none →
        (∀ w c q, S.workers w = some (c, q) → c.kind = .ingest → c.docID ≠ id) ∧
        ∀ k act next, k ≠ i → S.deletes k ≠ some (id, .enter act next)
  | .claim _ round => ∀ c, (cfg.jobs.claim round.claim S.world.jobs).2 = some c → Clears c round.services
  | _ => True

/-- A worker as seen from the document: it is at another document, or finds no record of
this one, or deletes its vectors. -/
def leaving (Vec : Type) (d : String) (c : Job) : Outlook Vec c where
  rely s t := c.Cleans d → IngestWorld.Clean d s.vectors → IngestWorld.Clean d t.vectors
  assume u := u.Leased c ∧ (c.kind = .ingest → c.docID = d → u.catalog.get? d = none)
  seen := c.docID ≠ d
  done u := c.Cleans d → IngestWorld.Clean d u.vectors
  rely_refl _ _ clean := clean
  rely_trans first second cleans clean := second cleans (first cleans clean)
  leased ok := ok.1
  done_rely moved done cleans := moved cleans (done cleans)
  done_jobs _ done := done
  found ok kind there own := by
    rw [own] at there
    cases (ok.2 kind own).symm.trans there
  settled _ _ _ kind cleans := by cases kind.symm.trans cleans.2
  indexed _ _ kind cleans := by cases kind.symm.trans cleans.2
  cleared _ cleans := by
    rw [cleans.1]
    exact IngestWorld.clean_deleteByDocID

/-- A `Delete` that counts on the record to be there, or to be gone, as it left it. -/
def vanishing (Vec : Type) (id : String) : DeleteOutlook Vec id where
  rely s t := s.catalog.get? id = none ↔ t.catalog.get? id = none
  here u := u.catalog.get? id ≠ none
  gone u := u.catalog.get? id = none
  rely_refl _ := .rfl
  rely_trans := .trans
  here_rely moved here gone := here (moved.mpr gone)
  gone_rely moved := moved.mp
  found there gone := by cases gone.symm.trans there
  hidden own gone := by cases gone.symm.trans (get?_save _ own)
  removed := get?_delete_self _ _
  gone_jobs _ gone := gone

/-- The vectors are gone, or a job that deletes them can be claimed or is being worked on. -/
def Due (d : String) (S : IngestSystem Vec ω δ) : Prop :=
  IngestWorld.Clean d S.world.vectors ∨ ∃ j ∈ S.world.jobs.jobs.rows, j.Cleans d ∧
    (j.claimable = true ∨ ∃ w c p, S.workers w = some (c, p) ∧ c.id = j.id ∧ j.attempts = c.attempts)

theorem succeeded_iff : S.succeeded i d = true ↔ S.deletes i = some (d, .done (.ok ())) := by
  unfold succeeded
  split
  · next id _ found =>
    rw [found, decide_eq_true_eq]
    simp
  · next other => exact ⟨fun false => (by cases false), fun found => absurd found (other d)⟩

structure Vanishes (cfg : IngestConfig) (d : String) (S : IngestSystem Vec ω δ) : Prop where
  works : ∀ w c p, S.workers w = some (c, p) → (c.kind = .ingest → c.docID = d → S.world.catalog.get? d = none) →
    Working (leaving Vec d) Clears S.world c p
  erases : ∀ i act next, S.deletes i = some (d, .enter act next) →
    ∃ s, Safe ((vanishing Vec d).terms cfg)
      (fun _ r t => ∀ a, r = .ok a → t.catalog.get? d = none ∧ ∃ j ∈ t.jobs.jobs.rows, j.activeFor d .deleteVectors = true)
      (.enter act next) s S.world
  /-- After a `Delete` that succeeded. -/
  erased : ∀ i, S.succeeded i d = true → S.world.catalog.get? d = none ∧ ∃ j ∈ S.world.jobs.jobs.rows, j.Cleans d
  unplanned : S.world.catalog.get? d ≠ none → ∀ j ∈ S.world.jobs.jobs.rows, ¬ j.Cleans d
  due : S.world.catalog.get? d = none → (∃ j ∈ S.world.jobs.jobs.rows, j.Cleans d) → Due d S

theorem Vanishes.does (h : Vanishes cfg d S) (sound : Sound cfg S) {c act next}
    (running : S.workers w = some (c, .enter act next))
    (apart : c.kind = .ingest → c.docID = d → S.world.catalog.get? d = none) :
    Does c (c.docID ≠ d) ((leaving Vec d c).done) S.world (act S.world) ∧
      Working (leaving Vec d) Clears (act S.world) c (next S.world) :=
  (h.works w c _ running apart).advance ⟨sound.leased w c _ running, apart⟩

inductive Presence (d : String) (S : IngestSystem Vec ω δ) (e : SystemEvent Vec ω δ) (S' : IngestSystem Vec ω δ) : Prop where
  | same (iff : S.world.catalog.get? d = none ↔ S'.world.catalog.get? d = none)
  | saved (env : JobEnv) (fault : Fault) (doc : DocumentRecord) (event : e = .save env fault doc) (own : doc.docID = d)
      (there : S'.world.catalog.get? d ≠ none)
  | removed (i : δ) (p : Prog (IngestWorld Vec) (Except String Unit)) (event : e = .erase i)
      (running : S.deletes i = some (d, p)) (there : S.world.catalog.get? d ≠ none)
      (gone : S'.world.catalog.get? d = none) (jobs : S'.world.jobs = S.world.jobs)

variable [DecidableEq ω] [DecidableEq δ]

section
variable (h : Vanishes cfg d S) (sound : Sound cfg S) (moves : Moves cfg S e S')
include h sound moves

theorem Vanishes.presence : Presence d S e S' := by
  cases moves with
  | still => exact .same .rfl
  | @saved env fault doc =>
    by_cases own : doc.docID = d
    · exact .saved env fault doc rfl own (present_saved own)
    · refine .same ?_
      simp only [get?_save_of_ne S.world.catalog own]
  | called => exact .same .rfl
  | @erased i id act next running =>
    by_cases own : id = d
    · subst own
      obtain ⟨_, safe⟩ := h.erases i act next running
      obtain ⟨erases, _⟩ := safe S.world .rfl sound.named
      change Erases cfg id (fun u => u.catalog.get? id ≠ none) (fun u => u.catalog.get? id = none) S.world (act S.world)
        at erases
      generalize act S.world = u at erases ⊢
      cases erases with
      | still => exact .same .rfl
      | hidden there own => exact .same (iff_of_false there (present_saved own))
      | removed there => exact .removed i _ rfl running there (get?_delete_self _ _) rfl
      | queued => exact .same .rfl
    · have erases := sound.erase running
      generalize act S.world = u at erases ⊢
      refine .same ?_
      simp only
      rw [erases.get?_of_ne own]
  | claimed => exact .same .rfl
  | @worked _ c _ _ running =>
    refine .same ?_
    by_cases apart : c.kind = .ingest → c.docID = d → S.world.catalog.get? d = none
    · obtain ⟨does, _⟩ := h.does sound running apart
      simp only
      rw [does.get? fun known own => known own]
    · -- The worker may save the record, which is there.
      obtain ⟨_, apart⟩ := Classical.not_imp.mp apart
      obtain ⟨_, there⟩ := Classical.not_imp.mp apart
      exact iff_of_false there ((sound.does running).present there)
  | crashed | recovered => exact .same .rfl

/-- Once the record is gone, nothing is stored for the document. -/
theorem Vanishes.clean (gone : S.world.catalog.get? d = none) (clean : IngestWorld.Clean d S.world.vectors) :
    IngestWorld.Clean d S'.world.vectors := by
  cases moves with
  | still | saved | called => exact clean
  | erased running =>
    have erases := sound.erase running
    simp only
    rw [erases.vectors]
    exact clean
  | claimed => exact clean
  | worked running => exact (h.does sound running fun _ _ => gone).1.clean id clean
  | crashed | recovered => exact clean

theorem Vanishes.due_claimable
    (gone : S.world.catalog.get? d = none) (row : j ∈ S.world.jobs.jobs.rows) (cleans : j.Cleans d)
    (claimable : j.claimable = true) : Due d S' := by
  have kept : j ∈ S'.world.jobs.jobs.rows → Due d S' := fun row => .inr ⟨j, row, cleans, .inl claimable⟩
  cases moves with
  | still => exact kept row
  | saved enqueued =>
    rcases enqueued with ⟨rfl, _⟩ | ⟨_, enqueued⟩
    · exact kept row
    · exact kept (enqueued.kept row)
  | called => exact kept row
  | erased running => exact kept ((sound.erase running).row row)
  | @claimed w round j₀ _ row₀ =>
    by_cases same : j.id = j₀.id
    · obtain rfl := eq_of_key_eq row row₀ same
      obtain ⟨p, begun⟩ := handleJob_enters cfg round.services (j.claimed round.claim.now)
      exact .inr ⟨_, Table.mem_put.mpr (.inl rfl), cleans, .inr ⟨w, _, p, (update_self ..).trans begun, rfl, rfl⟩⟩
    · exact kept (Table.mem_put.mpr (.inr ⟨row, same⟩))
  | @worked _ _ act _ running =>
    obtain ⟨does, _⟩ := h.does sound running fun _ _ => gone
    simp only at kept
    unfold Due
    simp only
    generalize act S.world = u at does kept ⊢
    cases does with
    | still | stored | saved | cleared => exact kept row
    | @completed r _ done row' same =>
      by_cases key : j.id = r.id
      · obtain rfl := eq_of_key_eq row row' key
        exact .inl (done (same.cleans.mp cleans))
      · exact kept (Table.mem_put.mpr (.inr ⟨row, key⟩))
    | @returned r _ _ last row' _ full =>
      by_cases key : j.id = r.id
      · obtain rfl := eq_of_key_eq row row' key
        obtain ⟨_, left⟩ := Job.claimable_iff.mp claimable
        refine .inr ⟨_, Table.mem_put.mpr (.inl rfl), cleans, .inl (Job.claimable_iff.mpr ⟨?_, left⟩)⟩
        cases last with
        | false => rfl
        | true => exact absurd (full rfl) (Nat.not_le_of_lt left)
      · exact kept (Table.mem_put.mpr (.inr ⟨row, key⟩))
  | crashed => exact kept row
  | recovered => exact kept (JobStore.mem_reopen_of_claimable _ _ row claimable)

end

omit [DecidableEq ω] [DecidableEq δ] in
/-- An attempt to delete the vectors that ends has deleted them, or the job can be
claimed again. -/
theorem due_of_ended {svc c t} (clears : Clears c svc)
    (ended : Ended svc c (leaving Vec d c).done t) (cleans : c.Cleans d) (row : j ∈ t.jobs.jobs.rows)
    (id : c.id = j.id) (attempts : j.attempts = c.attempts) (same : c.Same j) :
    IngestWorld.Clean d t.vectors ∨ j.claimable = true := by
  have unique : ∀ r ∈ t.jobs.jobs.rows, c.Same r → r = j := fun r mem same' =>
    eq_of_key_eq mem row (same'.id.trans id)
  cases ended with
  | done holds => exact .inl (holds cleans)
  | again mem same' pending more =>
    obtain rfl := unique _ mem same'
    refine .inr (Job.claimable_iff.mpr ⟨pending, ?_⟩)
    rw [attempts, same.limit]
    exact more
  | unmarked failed fault =>
    rcases clears cleans.2 with works | ⟨_, marked⟩
    · exact absurd works (failed cleans.2)
    · exact absurd marked fault
  | gaveUp failed past =>
    obtain ⟨_, mem, same', full⟩ := past fun ingest => by cases ingest.symm.trans cleans.2
    obtain rfl := unique _ mem same'
    rcases clears cleans.2 with works | ⟨left, _⟩
    · exact absurd works (failed cleans.2)
    · rw [attempts, same.limit] at full
      exact absurd full (Nat.not_le_of_lt left)

section
variable (h : Vanishes cfg d S) (sound : Sound cfg S) (moves : Moves cfg S e S')
include h sound moves

theorem Vanishes.due_running
    (uncrashed : ∀ w, e ≠ .crash w) (row : j ∈ S.world.jobs.jobs.rows) (cleans : j.Cleans d) {c}
    {p : Prog (IngestWorld Vec) Unit} (running : S.workers w = some (c, p)) (id : c.id = j.id)
    (attempts : j.attempts = c.attempts) : Due d S' := by
  have same := sound.same running row id
  have goes : ∀ j' ∈ S'.world.jobs.jobs.rows, j.Same j' → j'.attempts = j.attempts → ∀ p', S'.workers w = some (c, p') →
      Due d S' := fun j' row' later attempts' p' running' =>
    .inr ⟨j', row', later.cleans.mpr cleans, .inr ⟨w, c, p', running', id.trans later.id.symm, attempts'.trans attempts⟩⟩
  cases moves with
  | still | called => exact goes j row (.refl j) rfl p running
  | saved enqueued =>
    rcases enqueued with ⟨rfl, _⟩ | ⟨_, enqueued⟩
    · exact goes j row (.refl j) rfl p running
    · exact goes j (enqueued.kept row) (.refl j) rfl p running
  | erased erasing => exact goes j ((sound.erase erasing).row row) (.refl j) rfl p running
  | @claimed v round j₀ idle row₀ =>
    have other : w ≠ v := by
      rintro rfl
      cases idle.symm.trans running
    by_cases taken : j.id = j₀.id
    · obtain rfl := eq_of_key_eq row row₀ taken
      obtain ⟨p, begun⟩ := handleJob_enters cfg round.services (j.claimed round.claim.now)
      exact .inr ⟨_, Table.mem_put.mpr (.inl rfl), cleans, .inr ⟨v, _, p, (update_self ..).trans begun, rfl, rfl⟩⟩
    · exact goes j (Table.mem_put.mpr (.inr ⟨row, taken⟩)) (.refl j) rfl p ((update_of_ne other ..).trans running)
  | @worked v _ _ next running' =>
    obtain ⟨j', row', later, attempts'⟩ := (sound.does running').rows row
    by_cases own : w = v
    · subst own
      cases running.symm.trans running'
      have ours : c.Cleans d := same.cleans.mp cleans
      obtain ⟨_, _, _, clears, safe⟩ := h.does sound running fun ingest => by cases ingest.symm.trans ours.2
      cases rest : next S.world with
      | done =>
        rw [rest] at safe
        have ended := due_of_ended clears safe ours row' (id.trans later.id.symm) (attempts'.trans attempts)
          (same.trans later)
        exact ended.imp_right fun claimable => ⟨j', row', later.cleans.mpr cleans, .inl claimable⟩
      | enter act' next' =>
        rw [rest] at goes
        exact goes j' row' later attempts' (.enter act' next') (update_self ..)
    · exact goes j' row' later attempts' p ((update_of_ne own ..).trans running)
  | @crashed v => exact absurd rfl (uncrashed v)
  | recovered =>
    refine goes _ (JobStore.mem_reopen _ _ row) ?_ ?_ p running
    · split
      · exact ⟨rfl, rfl, rfl, rfl, Nat.le_refl _⟩
      · exact .refl j
    · split <;> rfl

theorem Vanishes.due_after
    (uncrashed : ∀ w, e ≠ .crash w) (gone : S.world.catalog.get? d = none) (due : Due d S) : Due d S' := by
  rcases due with clean | ⟨_, row, cleans, claimable | ⟨_, _, _, running, id, attempts⟩⟩
  · exact .inl (h.clean sound moves gone clean)
  · exact h.due_claimable sound moves gone row cleans claimable
  · exact h.due_running sound moves uncrashed row cleans running id attempts

theorem Vanishes.planned (row : j ∈ S'.world.jobs.jobs.rows) (cleans : j.Cleans d) :
    (∃ j₀ ∈ S.world.jobs.jobs.rows, j₀.Cleans d) ∨ j.claimable = true ∧ S'.world.catalog.get? d = none := by
  have old : j ∈ S.world.jobs.jobs.rows → ∃ j₀ ∈ S.world.jobs.jobs.rows, j₀.Cleans d := fun row => ⟨j, row, cleans⟩
  cases moves with
  | still => exact .inl (old row)
  | saved enqueued =>
    rcases enqueued with ⟨rfl, _⟩ | ⟨_, enqueued⟩
    · exact .inl (old row)
    · cases enqueued with
      | existing => exact .inl (old row)
      | added =>
        rcases Table.mem_put.mp row with rfl | ⟨row, _⟩
        · cases cleans.2
        · exact .inl (old row)
      | conflict => exact .inl (old row)
  | called => exact .inl (old row)
  | @erased i id act next running =>
    by_cases own : id = d
    · subst own
      obtain ⟨_, safe⟩ := h.erases i act next running
      obtain ⟨erases, _⟩ := safe S.world .rfl sound.named
      change Erases cfg id (fun u => u.catalog.get? id ≠ none) (fun u => u.catalog.get? id = none) S.world (act S.world)
        at erases
      simp only at row
      simp only
      generalize act S.world = u at erases row ⊢
      cases erases with
      | still | hidden | removed => exact .inl (old row)
      | queued away enqueued => exact (enqueued.rows row).imp old fun claimable => ⟨claimable, away⟩
    · exact .inl (old ((sound.erase running).old_row own row cleans))
  | @claimed _ _ j₀ _ row₀ =>
    rcases Table.mem_put.mp row with rfl | ⟨row, _⟩
    · exact .inl ⟨j₀, row₀, cleans⟩
    · exact .inl (old row)
  | worked running =>
    obtain ⟨j₀, row₀, same⟩ := (sound.does running).old_row row
    exact .inl ⟨j₀, row₀, same.cleans.mp cleans⟩
  | crashed => exact .inl (old row)
  | recovered =>
    obtain ⟨r, mem, rfl⟩ := List.mem_map.mp row
    refine .inl ⟨r, mem, ?_⟩
    split at cleans <;> exact cleans

end

theorem Vanishes.moves (h : Vanishes cfg d S) (sound : Sound cfg S) (moves : Moves cfg S e S')
    (event : S' = S.step cfg e) (uncrashed : ∀ w, e ≠ .crash w) (fresh : Fresh cfg S e) (apart : Apart cfg S e) :
    Vanishes cfg d S' where
  works w c p found absent := by
    have before : ∀ q, S.workers w = some (c, q) → c.kind = .ingest → c.docID = d → S.world.catalog.get? d = none := by
      intro q running kind own
      cases h.presence sound moves with
      | same iff => exact iff.mpr (absent kind own)
      | saved _ _ _ _ _ there => exact absurd (absent kind own) there
      | removed i p removing running' there gone =>
        subst removing
        exact absurd own ((apart d p running' there (event ▸ gone)).1 w c q running kind)
    refine .moves moves sound found
      (fun q running => ⟨⟨sound.leased w c q running, before q running⟩, h.works w c q running (before q running)⟩)
      (fun q running _ cleans clean => ?_) fun round claim taken => ?_
    · -- While there is a job for the vectors the record is gone.
      obtain ⟨r, row, same⟩ := sound.leased w c q running
      have gone := not_not.mp fun there => h.unplanned there r row (same.cleans.mpr cleans)
      exact h.clean sound moves gone clean
    · subst claim
      exact apart c taken
  erases i act next found := by
    rcases moves.delete found with ⟨same, still⟩ | ⟨_, _, _, _, begun⟩ | ⟨act', next', _, running, world, rest⟩
    · obtain ⟨s, safe⟩ := h.erases i act next same
      refine ⟨s, safe.moved ?_⟩
      cases h.presence sound moves with
      | same iff => exact iff
      | saved env fault doc save own =>
        subst save
        exact absurd own.symm (fresh.2.2.1 i d _ same)
      | removed k p removing running' there gone =>
        rcases still with rfl | other
        · exact absurd gone there
        · subst removing
          refine absurd same ((apart d p running' there (event ▸ gone)).2 i act next ?_)
          rintro rfl
          exact other rfl
    · rw [begun]
      exact ⟨S'.world, (vanishing Vec d).safe_deleteDocument⟩
    · obtain ⟨_, safe⟩ := h.erases i act' next' running
      rw [world, rest]
      exact ⟨S.world, (safe S.world .rfl sound.named).2⟩
  erased i succeeded := by
    have found := succeeded_iff.mp succeeded
    rcases moves.delete found with ⟨same, _⟩ | ⟨_, _, _, _, begun⟩ | ⟨act, next, _, running, world, rest⟩
    · obtain ⟨gone, j, row, cleans⟩ := h.erased i (succeeded_iff.mpr same)
      obtain ⟨j', row', later⟩ := sound.keeps moves j row
      refine ⟨?_, j', row', later.cleans.mpr cleans⟩
      cases h.presence sound moves with
      | same iff => exact iff.mp gone
      | saved env fault doc save own =>
        subst save
        exact absurd own.symm (fresh.2.2.1 i d _ same)
      | removed _ _ _ _ there => exact absurd gone there
    · cases begun
    · obtain ⟨_, safe⟩ := h.erases i act next running
      obtain ⟨_, ended⟩ := safe S.world .rfl sound.named
      rw [← rest, ← world] at ended
      obtain ⟨gone, j, row, active⟩ := ended () rfl
      obtain ⟨doc, kind, _⟩ := Job.activeFor_iff.mp active
      exact ⟨gone, j, row, doc, kind⟩
  unplanned there j row cleans := by
    cases h.presence sound moves with
    | same iff =>
      rcases h.planned sound moves row cleans with ⟨j₀, row₀, cleans₀⟩ | ⟨_, gone⟩
      · exact h.unplanned (fun gone => there (iff.mp gone)) j₀ row₀ cleans₀
      · exact there gone
    | saved env fault doc save own =>
      subst save
      rcases h.planned sound moves row cleans with ⟨j₀, row₀, cleans₀⟩ | ⟨_, gone⟩
      · exact fresh.2.1 j₀ row₀ (cleans₀.1.trans own.symm)
      · exact there gone
    | removed _ _ _ _ _ gone => exact there gone
  due gone planned := by
    obtain ⟨j, row, cleans⟩ := planned
    cases h.presence sound moves with
    | same iff =>
      rcases h.planned sound moves row cleans with planned₀ | ⟨claimable, _⟩
      · exact h.due_after sound moves uncrashed (iff.mpr gone) (h.due (iff.mpr gone) planned₀)
      · exact .inr ⟨j, row, cleans, .inl claimable⟩
    | saved _ _ _ _ _ there => exact absurd gone there
    | removed _ _ _ _ there _ jobs =>
      rw [jobs] at row
      exact absurd cleans (h.unplanned there j row)

theorem vanishes_after (uncrashed : ∀ e ∈ events, ∀ w, e ≠ .crash w)
    (fresh : Runs.Guarded (Fresh cfg) (step cfg) {} events) (apart : Runs.Guarded (Apart cfg) (step cfg) {} events)
    (d : String) (n : Nat) : Vanishes cfg d (after cfg events n) := by
  refine Runs.run_take_induction (P := fun _ (S : IngestSystem Vec ω δ) => Vanishes cfg d S) ?_ (fun _ _ h => h)
    (fun m e _ input h => ?_) (Nat.zero_le n)
  · exact ⟨fun _ _ _ idle => (by cases idle), fun _ _ _ free => (by cases free), fun _ succeeded => (by cases succeeded),
      fun _ _ mem => (by cases mem), fun _ ⟨_, mem, _⟩ => (by cases mem)⟩
  · have sound := sound_after cfg events m
    exact h.moves sound (step_moves sound.named e) rfl (uncrashed e (mem_of_getElem? input)) (fresh.input input)
      (apart.input input)

theorem Moves.returned (h : Moves cfg S e S') {r} (done : S.deletes i = some (d, .done r)) :
    S'.deletes i = some (d, .done r) := by
  cases h with
  | still | saved => exact done
  | @called k _ _ _ free =>
    have other : i ≠ k := by
      rintro rfl
      cases free.symm.trans done
    exact (update_of_ne other ..).trans done
  | @erased k _ _ _ running =>
    have other : i ≠ k := by
      rintro rfl
      cases running.symm.trans done
    exact (update_of_ne other ..).trans done
  | claimed | worked | crashed | recovered => exact done

theorem succeeded_stays {n m} (le : n ≤ m)
    (h : (after cfg events n).succeeded i d = true) : (after cfg events m).succeeded i d = true := by
  refine succeeded_iff.mpr (Runs.run_take_induction
    (P := fun _ (S : IngestSystem Vec ω δ) => S.deletes i = some (d, .done (.ok ()))) (succeeded_iff.mp h)
    (fun _ _ kept => kept) (fun k e _ _ kept => ?_) le)
  exact (step_moves (sound_after cfg events k).named e).returned kept

end
end IngestSystem

/-- In every interleaving of saves, deletes and workers that do not crash, whatever
fails: once a `Delete` has returned the record does not come back, and when the workers
are idle there are no vectors, if records are deleted only while no worker is at the
document. -/
theorem deleted_document_stays_away {Vec ω δ : Type} [DecidableEq ω] [DecidableEq δ] (cfg : IngestConfig)
    (events : List (SystemEvent Vec ω δ)) (uncrashed : ∀ e ∈ events, ∀ w, e ≠ .crash w)
    (fresh : Runs.Guarded (IngestSystem.Fresh cfg) (IngestSystem.step cfg) {} events)
    (apart : Runs.Guarded (IngestSystem.Apart cfg) (IngestSystem.step cfg) {} events) (i : δ) (d : String) (n : Nat)
    (deleted : (IngestSystem.after cfg events n).succeeded i d = true) (m : Nat) (later : n ≤ m) :
    (IngestSystem.after cfg events m).world.catalog.get? d = none ∧
      ((∀ w, (IngestSystem.after cfg events m).workers w = none) →
        (IngestSystem.after cfg events m).world.jobs.hasPending = false →
          ∀ p ∈ (IngestSystem.after cfg events m).world.vectors, p.record.docID ≠ d) := by
  have vanishes := IngestSystem.vanishes_after uncrashed fresh apart d m
  obtain ⟨gone, planned⟩ := vanishes.erased i (IngestSystem.succeeded_stays later deleted)
  refine ⟨gone, fun idle empty => ?_⟩
  rcases vanishes.due gone planned with clean | ⟨j, row, _, claimable | ⟨w, _, _, running, _⟩⟩
  · exact clean
  · simp only [JobStore.hasPending, any_eq_false] at empty
    exact absurd claimable (empty j row)
  · cases (idle w).symm.trans running

def workAt (n sections : Nat) : List (SystemEvent Unit Unit Unit) :=
  .claim () { claim := jobEnv n, services := workingServices n } :: replicate sections (.work ())

def deleteNote (n : Nat) : List (SystemEvent Unit Unit Unit) :=
  .delete () { env := jobEnv n } (fun _ => .ok ()) "d" :: replicate 4 (.erase ())

def deletedInTurn : List (SystemEvent Unit Unit Unit) :=
  .save (jobEnv 1) none note :: workAt 2 5 ++ deleteNote 3 ++ workAt 4 2

theorem apart_of_idle {cfg} {S : IngestSystem Unit Unit Unit} (idle : S.workers () = none) :
    IngestSystem.Apart cfg S (.erase ()) := by
  refine fun _ _ _ _ _ => ⟨fun w c q running => ?_, fun k _ _ other => absurd rfl other⟩
  cases idle.symm.trans running

theorem note_stays_away :
    (IngestSystem.after {} deletedInTurn 7).world.vectors ≠ [] ∧
      (IngestSystem.after {} deletedInTurn 15).world.catalog.get? "d" = none ∧
      ∀ p ∈ (IngestSystem.after {} deletedInTurn 15).world.vectors, p.record.docID ≠ "d" := by
  have clears : ∀ c n, IngestSystem.Clears c (workingServices n) := fun _ _ _ => .inl rfl
  have away := deleted_document_stays_away {} deletedInTurn (by simp [deletedInTurn, workAt, deleteNote])
    ⟨⟨rfl, fun _ mem => (by cases mem), fun _ _ _ free => (by cases free), fun table => (by cases table)⟩,
      trivial, trivial, trivial, trivial, trivial, trivial, trivial, trivial, trivial, trivial, trivial, trivial, trivial,
      trivial, trivial⟩
    ⟨trivial, fun c _ => clears c 2, trivial, trivial, trivial, trivial, trivial, trivial, apart_of_idle rfl,
      apart_of_idle rfl, apart_of_idle rfl, apart_of_idle rfl, fun c _ => clears c 4, trivial, trivial, trivial⟩
    () "d" 12 (by decide +kernel) 15 (by decide)
  exact ⟨by decide +kernel, away.1, away.2 (fun _ => rfl) (by decide +kernel)⟩

def deletedMeanwhile : List (SystemEvent Unit Unit Unit) :=
  .save (jobEnv 1) none note :: workAt 2 1 ++ deleteNote 3 ++ replicate 4 (.work ())

theorem note_comes_back :
    (IngestSystem.after {} deletedMeanwhile 8).succeeded () "d" = true ∧
      (IngestSystem.after {} deletedMeanwhile 8).world.catalog.get? "d" = none ∧
      ((IngestSystem.after {} deletedMeanwhile 12).world.catalog.get? "d").map DocumentRecord.status = some "ready" ∧
      (IngestSystem.after { jobs := .postgres } deletedMeanwhile 8).succeeded () "d" = true ∧
      ((IngestSystem.after { jobs := .postgres } deletedMeanwhile 12).world.catalog.get? "d").map
        DocumentRecord.status = some "ready" := by
  decide +kernel

end SynaMcp
