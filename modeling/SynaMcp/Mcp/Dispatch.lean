import SynaMcp.Access.McpServers
import SynaMcp.Lib.Json
import SynaMcp.Proxy.Names

/-! The dispatch of a method. A tool call dispatches the method of its tool, which may be a tool call. -/
namespace SynaMcp.Mcp
open GoStrings Proxy
variable {σ ν ε : Type}

abbrev Params (ν : Type) := List (String × Json ν)

/-- What a dispatch leaves: the services, the storage id and the status of the request, and the result. -/
structure Outcome (σ ν ε : Type) where
  services : σ
  (storageID status : String)
  result : Except ε (Json ν)

/-- What a dispatch calls; `others` are the cases of its switch but `tools/call`. -/
structure Server (σ ν ε : Type) where
  proxyEnabled : Bool
  accessibleMCPServers : Principal → APIAccessContext → σ → Except ε (List MCPServer)
  callTool : String → Params ν → List MCPServer → σ → σ × Except ε (Json ν)
  handleDataObjectTool : Principal → APIAccessContext → String → Params ν → σ → σ × Except ε (Json ν)
  others : Principal → APIAccessContext → String → Params ν → σ → String → String → Outcome σ ν ε
  marshalIndent : Json ν → String
  (isCanceled isForbidden : ε → Bool)

def asString : Option (Json ν) → String
  | some (.string s) => s
  | _ => ""

def arguments (params : Params ν) : Params ν :=
  match params.lookup "arguments" with
  | some (.object fields) => fields
  | _ => []

def splitKindMethod (toolName : String) : Option (ObjectKind × String) :=
  [.variable, .counter, .table, .queue, .bus, .securebus, .schedule, .log, .git].findSome? fun kind : ObjectKind =>
    let start := kind.text ++ "_"
    if hasPrefix toolName start ∧ toolName ≠ start then some (kind, trimPrefix toolName start) else none

def methodForToolName : String → String
  | "knowledge_search" => "knowledge.search"
  | "knowledge_get" => "knowledge.get"
  | "knowledge_save" => "knowledge.save"
  | "knowledge_delete" => "knowledge.delete"
  | name => name

inductive Target (ν : Type) where
  | proxied (name : String) (args : Params ν)
  | dataObject (name : String) (args : Params ν)
  | method (name : String) (args : Params ν)

namespace Server
variable (s : Server σ ν ε) (p : Principal) (accessCtx : APIAccessContext)

/-- What `tools/call` calls. -/
def target (params : Params ν) : Target ν :=
  let originalName := asString (params.lookup "name")
  if s.proxyEnabled ∧ (parseNamespacedTool originalName).isSome then .proxied originalName (arguments params)
  else if (splitKindMethod originalName).isSome then .dataObject originalName (arguments params)
  else .method (methodForToolName originalName) (arguments params)

def statusFromError (e : ε) : String :=
  if s.isCanceled e then "error" else if s.isForbidden e then "forbidden" else "error"

def toolCallResult (result : Json ν) : Json ν :=
  .object [("content", .array [.object [("type", .string "text"), ("text", .string (s.marshalIndent result))]])]

/-- What `tools/call` makes of it. -/
def wrapped (o : Outcome σ ν ε) : Outcome σ ν ε :=
  match o.result with
  | .error e => { o with status := s.statusFromError e }
  | .ok result => { o with result := .ok (s.toolCallResult result) }

def once (w : σ) (storageID status : String) : Target ν → Outcome σ ν ε
  | .proxied name args =>
    match s.accessibleMCPServers p accessCtx w with
    | .error e => ⟨w, storageID, status, .error e⟩
    | .ok servers =>
      let (w, result) := s.callTool name args servers w
      ⟨w, storageID, status, result⟩
  | .dataObject name args =>
    let (w, result) := s.handleDataObjectTool p accessCtx name args w
    ⟨w, storageID, status, result⟩
  | .method name args => s.others p accessCtx name args w storageID status

/-- The arguments are in the params, or there are none and no tool call either. -/
theorem sizeOf_lt_of_target {params : Params ν} {name args} (h : s.target params = .method name args) :
    sizeOf args + (if name = "tools/call" then 1 else 0) < sizeOf params + 1 := by
  simp only [target] at h
  split at h
  · cases h
  split at h
  · cases h
  cases h
  rcases params with _ | ⟨⟨key, value⟩, rest⟩
  · exact (by decide : 1 + 0 < 2)
  rw [arguments]
  split
  · next fields found =>
    obtain ⟨before, after, is, _⟩ := List.lookup_eq_some_iff.mp found
    have mem : ("arguments", Json.object fields) ∈ (key, value) :: rest := by simp [is]
    have less := List.sizeOf_lt_of_mem mem
    simp only [Prod.mk.sizeOf_spec, Json.object.sizeOf_spec] at less
    split <;> omega
  · simp only [List.nil.sizeOf_spec, List.cons.sizeOf_spec, Prod.mk.sizeOf_spec]
    split <;> omega

def dispatch (method : String) (params : Params ν) (w : σ) (storageID status : String) : Outcome σ ν ε :=
  if method = "tools/call" then
    match _h : s.target params with
    | .method name args => s.wrapped (dispatch name args w storageID status)
    | target => s.wrapped (s.once p accessCtx w storageID status target)
  else s.once p accessCtx w storageID status (.method method params)
termination_by sizeOf params + if method = "tools/call" then 1 else 0
decreasing_by
  next call => simpa [call] using s.sizeOf_lt_of_target ‹_›

/-- The params nest `levels` tool calls, and the last of them calls `target`. -/
inductive Nests : String → Params ν → Nat → Target ν → Prop where
  | other {method params} (other : method ≠ "tools/call") : Nests method params 0 (.method method params)
  | tool {params} (last : ∀ name args, s.target params ≠ .method name args) :
    Nests "tools/call" params 1 (s.target params)
  | call {params name args levels target} (h : s.target params = .method name args)
    (nests : Nests name args levels target) : Nests "tools/call" params (levels + 1) target

theorem wrapped_map (o : Outcome σ ν ε) : (s.wrapped o).services = o.services ∧
    (s.wrapped o).storageID = o.storageID ∧ (s.wrapped o).result = o.result.map s.toolCallResult := by
  unfold wrapped
  split
  · next failed => exact ⟨rfl, rfl, by rw [failed]; rfl⟩
  · next made => exact ⟨rfl, rfl, by rw [made]; rfl⟩

end Server
end SynaMcp.Mcp
