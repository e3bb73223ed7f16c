import SynaMcp.Services.AgentKeys

/-! The policy documents of secure bus topics: which agents may publish and attest,
and the conditions under which messages are delivered. -/
namespace SynaMcp
open Keyed GoMaps Signing

structure AgentRef where
  (keyID alg publicKey : String)
  deriving DecidableEq, Repr

inductive Rule where
  | publish
  | attest
  | subscribe
  deriving DecidableEq, Repr

def Rule.name : Rule → String
  | .publish => "publish"
  | .attest => "attest"
  | .subscribe => "subscribe"

structure Rules where
  (publish attest subscribe : List String := [])
  deriving DecidableEq, Repr

structure AttestationPolicy where
  statuses : List String := []
  commentMaxBytes : Int := 0
  supersede : Bool := false
  deriving DecidableEq, Repr

structure ConditionRequire where
  (agent status : String)
  deriving DecidableEq, Repr

structure Condition where
  authors : List String := []
  require : List ConditionRequire := []
  minOk : Int := 0
  anyDeny : Option Bool := none
  mode : String := ""
  deriving DecidableEq, Repr

structure Document where
  (schema topicID : String := "")
  version : Int := 0
  issuedAt : String := ""
  chain : Bool := false
  agents : Table (Prod.fst : String × AgentRef → String)
  rules : Rules := {}
  attestation : AttestationPolicy := {}
  conditions : Table (Prod.fst : String × Condition → String)

structure SignedPolicy where
  document : Document
  (hash signature signerKID : String)
  version : Int
  createdAt : Time

def policySchemaID : String := "synamcps.securebus.policy/v1"

namespace Document

/-- In the order of the range over the agents. -/
def agentNameForKey (choose : Nat → Nat) (d : Document) (keyID : String) : Option String :=
  ((range choose d.agents.rows).find? fun a => a.2.keyID = keyID).map Prod.fst

variable (d : Document)

def listOf : Rule → List String
  | .publish => d.rules.publish
  | .attest => d.rules.attest
  | .subscribe => d.rules.subscribe

def may (rule : Rule) (agentName : String) : Bool := (d.listOf rule).contains agentName

section
variable [Signing]

def checkAgent (a : String × AgentRef) : Except String Unit :=
  if a.1 = "" ∨ a.2.keyID = "" ∨ a.2.publicKey = "" then .error ("invalid agent " ++ quote a.1)
  else if a.2.alg ≠ "ed25519" ∧ a.2.alg ≠ "ecdsa-p256" then
    .error ("unsupported alg " ++ quote a.2.alg ++ " for agent " ++ quote a.1)
  else .ok ()

def knows (agent : String) : Bool := (d.agents.get? agent).isSome

def checkNames (d : Document) (rule : Rule) : Except String Unit :=
  match (d.listOf rule).find? fun n => !d.knows n with
  | some n => .error ("rules." ++ rule.name ++ " references unknown agent " ++ quote n)
  | none => .ok ()

def checkRequire (d : Document) (name : String) (r : ConditionRequire) : Except String Unit :=
  if !d.knows r.agent then
    .error ("condition " ++ quote name ++ " require unknown agent " ++ quote r.agent)
  else if r.status ≠ "ok" ∧ r.status ≠ "deny" then
    .error ("condition " ++ quote name ++ " invalid status " ++ quote r.status)
  else .ok ()

def checkCondition (d : Document) (c : String × Condition) : Except String Unit :=
  match c.2.authors.find? fun a => !d.knows a with
  | some a => .error ("condition " ++ quote c.1 ++ " author unknown agent " ++ quote a)
  | none => c.2.require.forM (d.checkRequire c.1)

/-- The two ranges over maps are in the orders that are given. The defaults that the
source sets on its copy of the document are not returned. -/
def validateDocument (agentOrder conditionOrder : Nat → Nat) (d : Document) : Except String Unit := do
  if d.schema ≠ policySchemaID then .error ("unsupported policy schema " ++ quote d.schema)
  else if d.topicID = "" then .error "topicId required"
  else if d.version < 1 then .error "version must be >= 1"
  else if d.issuedAt = "" then .error "issuedAt required"
  else if d.agents.rows = [] then .error "agents required"
  else
    (range agentOrder d.agents.rows).forM checkAgent
    d.checkNames .publish
    d.checkNames .attest
    d.checkNames .subscribe
    (range conditionOrder d.conditions.rows).forM d.checkCondition

end
end Document

structure AttestationView where
  (agentName keyID status : String)
  deriving DecidableEq, Repr

structure MessageView where
  (authorKeyID authorName : String)
  attestations : List AttestationView
  deriving DecidableEq, Repr

namespace Condition
variable (attestations : List AttestationView)

/-- The last status of each agent name, in the order of the attestations. -/
def latest : Table (Prod.fst : String × String → String) :=
  attestations.foldl (fun t a => t.put (a.agentName, a.status)) .empty

def statusOf (agent : String) : String :=
  (((latest attestations).get? agent).map Prod.snd).getD ""

def okCount : Nat :=
  ((latest attestations).rows.filter fun a => a.2 = "ok").length

def hasDeny : Bool := (latest attestations).rows.any fun a => a.2 = "deny"

/-- The mode that the source computes does not enter the result. -/
def matchCondition (cond : Condition) (msg : MessageView) : Bool :=
  if cond.authors ≠ [] ∧ !cond.authors.contains msg.authorName then false
  else if cond.anyDeny = some true then hasDeny msg.attestations
  else if cond.anyDeny = some false ∧ hasDeny msg.attestations then false
  else if cond.require.any fun r => statusOf msg.attestations r.agent ≠ r.status then false
  else if 0 < cond.minOk ∧ okCount msg.attestations < cond.minOk then false
  else true

end Condition

def errUnknownCondition : String := "unknown condition"

/-- The digest of a policy document, and the reading of a filter as a condition. -/
class PolicyLib where
  hashDocument : Document → Bytes
  decodeCondition : JsonObject → Except String Condition

@[reducible] def PolicyLib.plain : PolicyLib where
  hashDocument _ := []
  decodeCondition _ := .ok {}

def resolveCondition [PolicyLib] (doc : Document) (name : String) (adHoc : Option JsonObject) :
    Except String Condition :=
  if name ≠ "" then
    match doc.conditions.get? name with
    | none => .error errUnknownCondition
    | some c => .ok c.2
  else
    match adHoc with
    | none => .ok { mode := "on_publish" }
    | some filter => PolicyLib.decodeCondition filter

structure PolicySigner where
  kid : String
  priv : Bytes
  deriving DecidableEq, Repr

def PolicySigner.signDocument [Signing] [PolicyLib] (signer : Option PolicySigner) (doc : Document) :
    Except String (Bytes × Bytes) :=
  match signer with
  | none => .error "policy signer not configured"
  | some signer =>
    if signer.priv = [] then .error "policy signer not configured"
    else
      let hash := PolicyLib.hashDocument doc
      .ok (hash, signEd25519 signer.priv hash)

theorem PolicySigner.signDocument_ok [Signing] [PolicyLib] {signer doc result} (h : signDocument signer doc = .ok result) : result.1 = PolicyLib.hashDocument doc := by
  unfold signDocument at h
  split at h
  · cases h
  · split at h
    · cases h
    · cases h
      rfl

end SynaMcp
