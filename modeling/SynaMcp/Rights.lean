import SynaMcp.Models

/-! What a role, a mode and an object kind amount to: the tables of `internal/access`,
`internal/dataobj` and `internal/mcpproxy`. -/
namespace SynaMcp
variable {m : String} {q : StoragePermission}
open StoragePermission

def rolePermissions : StorageRole → List StoragePermission
  | .storageOwner | .storageAdmin =>
    [storageRead, documentRead, searchRead, documentCreate, documentUpdate, documentDelete,
      aclManage, tokenManage, storageDelete]
  | .storageWriter =>
    [storageRead, documentRead, searchRead, documentCreate, documentUpdate, documentDelete]
  | .storageReader => [storageRead, documentRead, searchRead]
  | _ => []

def modePermissions : AccessMode → List StoragePermission
  | .readWrite => rolePermissions .storageWriter
  | .read => rolePermissions .storageReader
  | _ => []

def intersectMode (a b : AccessMode) : AccessMode :=
  if a = .none ∨ b = .none then .none
  else if a = .read ∨ b = .read then .read
  else .readWrite

/-- The three modes the source has constants for. `intersectMode` takes any other
mode for `read_write`. -/
def AccessMode.Standard (a : AccessMode) : Prop := a = .none ∨ a = .read ∨ a = .readWrite

def mcpServerRolePermissions : MCPServerRole → List MCPServerPermission
  | .owner | .admin => [.use, .manage, .delete]
  | .user => [.use]
  | .other _ => []

def methods : ObjectKind → List String
  | .storage => ["search", "get", "save", "delete"]
  | .variable => ["set", "get"]
  | .counter => ["set", "get", "increase", "decrease"]
  | .table => ["query"]
  | .queue => ["enqueue", "dequeue", "peek", "size"]
  | .bus => ["produce", "consume", "subscribe"]
  | .securebus => ["policy", "publish", "attest", "verify", "consume", "subscribe", "keys"]
  | .schedule => ["set", "get", "list"]
  | .log => ["add", "tail"]
  | .git =>
    ["init", "clone", "add", "commit", "status", "log", "diff",
      "branch", "checkout", "fetch", "pull", "push", "tag", "show", "remote"]
  | .other _ => []

def ObjectKind.text : ObjectKind → String
  | .storage => "storage"
  | .variable => "variable"
  | .counter => "counter"
  | .table => "table"
  | .queue => "queue"
  | .bus => "bus"
  | .securebus => "securebus"
  | .schedule => "schedule"
  | .log => "log"
  | .git => "git"
  | .other raw => raw

variable (kind : ObjectKind)

def hasMethod (method : String) : Bool := decide (method ∈ methods kind)

def isMutating (method : String) : Bool :=
  !decide (method ∈ ["get", "search", "peek", "size", "list", "tail", "status", "log", "diff",
    "show", "consume", "subscribe", "policy", "verify", "keys"])

def validKind : Bool := !(methods kind).isEmpty

def methodsForRole : StorageRole → List String
  | .storageOwner | .storageAdmin | .storageWriter => methods kind
  | .storageReader => (methods kind).filter (fun m => !isMutating m)
  | _ => []

def methodsForMode : AccessMode → List String
  | .readWrite => methods kind
  | .read => (methods kind).filter (fun m => !isMutating m)
  | _ => []

theorem hasMethod_iff {kind} : hasMethod kind m = true ↔ m ∈ methods kind := by
  simp [hasMethod]

/-- On the standard modes `intersectMode` is a meet: it admits what both admit. -/
theorem mem_modePermissions_intersectMode {a b} (ha : a.Standard) (hb : b.Standard) :
    q ∈ modePermissions (intersectMode a b) ↔ q ∈ modePermissions a ∧ q ∈ modePermissions b := by
  have readable : q ∈ rolePermissions .storageReader → q ∈ rolePermissions .storageWriter := by
    cases q <;> simp [rolePermissions]
  rcases ha with rfl | rfl | rfl <;> rcases hb with rfl | rfl | rfl <;>
    simp [intersectMode, modePermissions] <;> exact readable

theorem intersectMode_of_read {a b} (h : a = .read ∨ b = .read) :
    intersectMode a b = .none ∨ intersectMode a b = .read := by
  by_cases closed : a = .none ∨ b = .none
  · exact .inl (if_pos closed)
  · exact .inr ((if_neg closed).trans (if_pos h))

theorem rolePermissions_of_create {r}
    (h : documentCreate ∈ rolePermissions r) (hq : q ∈ rolePermissions .storageWriter) : q ∈ rolePermissions r := by
  cases r <;> simp [rolePermissions] at h hq ⊢ <;> tauto

theorem modePermissions_of_create {a}
    (h : documentCreate ∈ modePermissions a) (hq : q ∈ rolePermissions .storageWriter) : q ∈ modePermissions a := by
  cases a with
  | readWrite => exact hq
  | read => simp [modePermissions, rolePermissions] at h
  | unset | none | other raw => exact absurd h List.not_mem_nil

theorem mem_methodsForMode {kind a b} : m ∈ methodsForMode kind (intersectMode a b) ↔
      m ∈ methods kind ∧ intersectMode a b ≠ .none ∧ (intersectMode a b = .read → isMutating m = false) := by
  unfold intersectMode
  split
  · simp [methodsForMode]
  · split <;> simp [methodsForMode]

end SynaMcp
