import SynaMcp.Services.Calls

/-! Runs of the services, in any interleaving of the critical sections of the calls,
and the isolation of data objects from one another. -/
namespace SynaMcp
open Sections ObjectCall
variable (objectID : String)

def CallID.On : CallID → Prop
  | .object _ id _ => id = objectID
  | .service _ => False

instance (objectID : String) : DecidablePred (CallID.On objectID)
  | .object _ id _ => inferInstanceAs (Decidable (id = objectID))
  | .service _ => inferInstanceAs (Decidable False)

def ServiceCell.ofObject : Set ServiceCell := {k | ∃ b, k.base = some b ∧ b.owner = objectID}

abbrev ServiceEvent := Event CallID CallID.Call

section
variable {objectID} {c : ObjectCall objectID} {k : ServiceCell}

theorem ObjectCall.owner_of_sees (h : k ∈ c.Sees) {b} (base : k.base = some b) : b.owner = objectID := by
  have sees := h b base
  cases b with
  | object => exact sees
  | consumer => exact sees.1

theorem ObjectCall.moves_ofObject : c.Moves ⊆ ServiceCell.ofObject objectID := by
  rintro k ⟨b, base, moves⟩
  exact ⟨b, base, owner_of_sees (moves_subset ⟨b, base, moves⟩) base⟩

end

section
variable [ServiceLib] [Signing] [PolicyLib] (cfg : SecureConfig) (store : Services) (events : List ServiceEvent)

def Services.run : System CallID Services Outcome :=
  Runs.run (System.step (CallID.prog cfg)) (System.quiet store) events

theorem CallID.prog_blind {cfg A} {i : CallID} (other : ¬ i.On A) (c : i.Call) :
    Blind Services.cell (ServiceCell.ofObject A) (i.prog cfg c) := by
  cases i with
  | object =>
    refine (prog_within cfg c).blind fun k sees => ?_
    rintro ⟨b, base, owner⟩
    exact other ((owner_of_sees sees base).symm.trans owner)
  | service =>
    refine ServiceCall.prog_blind ?_ c
    rintro ⟨b, none, _⟩
    cases none

theorem CallID.prog_harmless {cfg A} {i : CallID} (own : i.On A) (c : i.Call)
    {P} : Harmless Services.cell (ServiceCell.ofObject A) P (i.prog cfg c) := by
  cases i with
  | object principal objectID =>
    obtain rfl : objectID = A := own
    exact (prog_within cfg c).harmless moves_ofObject
  | service => exact own.elim

/-- Without the calls on one object, every call on another object has the same result. -/
theorem objects_isolated {A B : String} (distinct : A ≠ B) (principal : String) (n : Nat) :
    (Services.run cfg store events).result (.object principal B n) =
      (Services.run cfg store (events.filter fun e => ¬ e.id.On A)).result (.object principal B n) := by
  have blind : ∀ i c, .call i c ∈ events → ¬ i.On A →
      Blind Services.cell (ServiceCell.ofObject A) (CallID.prog cfg i c) :=
    fun i c _ other => CallID.prog_blind other c
  have harmless : ∀ i c, .call i c ∈ events → i.On A →
      Harmless Services.cell (ServiceCell.ofObject A) (fun _ => True) (CallID.prog cfg i c) :=
    fun i c _ own => CallID.prog_harmless own c
  have free : Runs.Guarded (fun S e => ∀ i, e = .advance i → i.On A → True) (System.step (CallID.prog cfg))
      (System.quiet store) events := Runs.guarded_of_forall fun _ _ _ _ _ => trivial
  exact System.result_filter blind harmless free fun same => distinct same.symm

end

def busScope : ScopeOf objectID :=
  ⟨{ object := { id := objectID, kind := .bus }, method := "consume", access := {}, principal := {} }, rfl⟩

def twoBuses : List ServiceEvent :=
  [.call (.object "ann" "a" 0) (.produce 1 (busScope "a") (some [("n", "1")])), .advance (.object "ann" "a" 0),
    .call (.object "bob" "b" 0) (.produce 2 (busScope "b") (some [("n", "2")])), .advance (.object "bob" "b" 0),
    .call (.object "ann" "a" 1) (.consume 3 (busScope "a") "" 10), .call (.object "bob" "b" 1)
      (.consume 3 (busScope "b") "" 10), .advance (.object "ann" "a" 1), .advance (.object "bob" "b" 1)]

def Services.plainRun (events : List ServiceEvent) : System CallID Services Outcome :=
  @Services.run .plain .plain .plain (.new none 0) (.new false) events

theorem bus_isolated_from_other :
    "a" ≠ "b" ∧
      (Services.plainRun twoBuses).result (.object "bob" "b" 1) =
        some (.events (.ok [{ id := 1, payload := [("n", "2")], createdAt := 2 }])) ∧
      (Services.plainRun twoBuses).result (.object "bob" "b" 1) =
        (Services.plainRun (twoBuses.filter fun e => ¬ e.id.On "a")).result (.object "bob" "b" 1) :=
  ⟨by decide, rfl,
    @objects_isolated .plain .plain .plain (.new none 0) (.new false) twoBuses "a" "b" (by decide) "bob" 1⟩

end SynaMcp
