import Mathlib.Logic.Function.Basic
import SynaMcp.Lib.Run

/-! Discovery of what an MCP server has. Each kind of capability is replaced by what the
server lists, under the flags set before; a listing that fails counts as an empty one. -/
namespace SynaMcp.Proxy
open List Runs

inductive Kind where
  | tool | resource | prompt
deriving DecidableEq, Repr

/-- A tool, a prompt or a resource, whose name is its URI. -/
structure Capability where
  name : String
  details : List String
  enabled : Bool
deriving DecidableEq, Repr

/-- What is stored of a server. Administrators set the flags by name. -/
structure Capabilities where
  rows : Kind → List Capability
  agree {kind e e'} : e ∈ rows kind → e' ∈ rows kind → e.name = e'.name → e.enabled = e'.enabled

/-- What a server answers: whether it initializes, and the listings that succeed. -/
structure Upstream where
  serverID : String
  initialized : Bool
  listing : Kind → Option (List (String × List String))

def Upstream.discover (up : Upstream) (kind : Kind) : List Capability :=
  (((up.listing kind).getD []).filter fun item => item.1 ≠ "").map fun item => ⟨item.1, item.2, false⟩

/-- The primary keys of the tables refuse a name that is listed twice. -/
def Upstream.stored (useDB : Bool) (up : Upstream) : Bool :=
  up.initialized && (!useDB || [Kind.tool, .resource, .prompt].all fun kind => ((up.discover kind).map (·.name)).Nodup)

/-- The flag that stands last under the name. -/
def enabledOf (existing : List Capability) (name : String) : Option Bool :=
  (existing.filter (·.name = name)).getLast?.map (·.enabled)

namespace Capabilities

def found (s : Capabilities) (up : Upstream) (kind : Kind) : List Capability :=
  (up.discover kind).map fun e => { e with enabled := (enabledOf (s.rows kind) e.name).getD e.enabled }

theorem enabled_found {s : Capabilities} {up kind e} (mem : e ∈ s.found up kind) :
    e.enabled = (enabledOf (s.rows kind) e.name).getD false := by
  simp only [found, Upstream.discover, map_map, mem_map] at mem
  obtain ⟨_, _, rfl⟩ := mem
  rfl

theorem enabledOf_row {s : Capabilities} {kind e} (mem : e ∈ s.rows kind) :
    enabledOf (s.rows kind) e.name = some e.enabled := by
  have named : e ∈ (s.rows kind).filter (·.name = e.name) := mem_filter.mpr ⟨mem, by simp⟩
  obtain ⟨_, is⟩ := Option.ne_none_iff_exists'.mp (mt getLast?_eq_none_iff.mp (ne_nil_of_mem named))
  obtain ⟨row, same⟩ := mem_filter.mp (mem_of_getLast? is)
  rw [enabledOf, is, Option.map_some, s.agree row mem (of_decide_eq_true same)]

def upsertDiscovery (s : Capabilities) (up : Upstream) : Capabilities where
  rows := s.found up
  agree mem mem' name := by rw [enabled_found mem, enabled_found mem', name]

end Capabilities

variable (useDB : Bool) (s : String → Capabilities)

def connectTest (up : Upstream) : String → Capabilities :=
  if up.stored useDB then Function.update s up.serverID ((s up.serverID).upsertDiscovery up) else s

/-- What administrators count on: the entries of a listing that fails stay, and an entry that is
reported again keeps its flag. -/
def KeepsChoices (s : String → Capabilities) (up : Upstream) (t : String → Capabilities) : Prop :=
  ∀ kind, (up.listing kind = none → (t up.serverID).rows kind = (s up.serverID).rows kind) ∧
    ∀ e ∈ (s up.serverID).rows kind, (∃ e' ∈ up.discover kind, e'.name = e.name) →
      (∃ e' ∈ (t up.serverID).rows kind, e'.name = e.name) ∧
        ∀ e' ∈ (t up.serverID).rows kind, e'.name = e.name → e'.enabled = e.enabled

/-- A listing fails only where there is nothing to lose. -/
def SparesEntries (up : Upstream) : Prop :=
  up.stored useDB = true → ∀ kind, up.listing kind = none → (s up.serverID).rows kind = []

theorem keepsChoices_iff {useDB s up} : KeepsChoices s up (connectTest useDB s up) ↔ SparesEntries useDB s up := by
  unfold connectTest SparesEntries
  split
  · next stored =>
    have lost : ∀ kind, up.listing kind = none → (s up.serverID).found up kind = [] := by
      intro kind failed
      simp [Capabilities.found, Upstream.discover, failed]
    simp only [KeepsChoices, Function.update_self, Capabilities.upsertDiscovery]
    refine ⟨fun keeps _ kind failed => ((keeps kind).1 failed).symm.trans (lost kind failed), fun spares kind => ⟨?_, ?_⟩⟩
    · intro failed
      rw [lost kind failed, spares stored kind failed]
    · rintro e mem ⟨item, there, same⟩
      refine ⟨⟨_, mem_map_of_mem there, same⟩, fun e' new name => ?_⟩
      rw [Capabilities.enabled_found new, name, Capabilities.enabledOf_row mem, Option.getD_some]
  · next stays =>
    refine iff_of_true (fun kind => ⟨fun _ => rfl, fun e mem _ => ⟨⟨e, mem, rfl⟩, ?_⟩⟩) fun stored => absurd stored stays
    exact fun e' mem' same => (s up.serverID).agree mem' mem same

/-- Along calls of `ConnectTest`, the choices of administrators are kept exactly where no listing
fails of a kind that has entries. -/
theorem choices_kept_iff (calls : List Upstream) :
    Along KeepsChoices (connectTest useDB) s calls ↔ Guarded (SparesEntries useDB) (connectTest useDB) s calls := by
  induction calls generalizing s with
  | nil => exact Iff.rfl
  | cons up calls ih => exact and_congr keepsChoices_iff (ih _)

def oneTool (_ : String) : Capabilities where
  rows
    | .tool => [⟨"t", [], true⟩]
    | _ => []
  agree {kind e e'} mem mem' _ := by
    cases kind <;> simp_all

/-- A tool that was enabled is forgotten when `tools/list` fails, and comes back disabled. -/
theorem failed_listing_forgets :
    let failed := connectTest false oneTool ⟨"s", true, fun _ => none⟩
    (failed "s").rows .tool = [] ∧
      (connectTest false failed ⟨"s", true, fun _ => some [("t", [])]⟩ "s").rows .tool = [⟨"t", [], false⟩] := by
  decide

end SynaMcp.Proxy
