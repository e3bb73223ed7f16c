import SynaMcp.Access.Service

/-! Requests and responses of the HTTP API. A request carries, for each type that a
handler may decode its body into, the value or the decoder's error. -/
namespace SynaMcp

inductive HttpMethod where
  | get
  | post
  | put
  | patch
  | delete
  | other (raw : String)
  deriving DecidableEq, Repr

structure CreateTokenRequest where
  name : String := ""
  mode : AccessMode := .unset
  storageIDs : List String := []
  mcpServers : List AccessTokenMCPServer := []
  rateLimit : RateLimitPolicy := {}
  expiresAt : Option Time := none
  deriving DecidableEq, Repr

structure PasswordChange where
  (currentPassword newPassword : String := "")
  deriving DecidableEq, Repr

structure SaveInput where
  (storageID title text mimeType : String := "")
  visibility : Visibility := .unset
  groupIDs : List String := []
  (source sourceURL channel : String := "")
  deriving DecidableEq, Repr

structure ObjectPatch where
  config : Config := []
  name : String := ""
  deriving DecidableEq, Repr

/-- The outcome of decoding a body; an empty body fails with `EOF`. -/
abbrev Decoded (α : Type) := Except String α

def Decoded.Holds {α : Type} (P : α → Prop) : Decoded α → Prop
  | .error _ => True
  | .ok a => P a

instance {α : Type} {P : α → Prop} [DecidablePred P] : (body : Decoded α) → Decidable (body.Holds P)
  | .error _ => .isTrue trivial
  | .ok a => inferInstanceAs (Decidable (P a))

structure Body where
  user : Decoded User := .error "EOF"
  password : Decoded PasswordChange := .error "EOF"
  group : Decoded Group := .error "EOF"
  storage : Decoded Storage := .error "EOF"
  binding : Decoded ACLBinding := .error "EOF"
  token : Decoded CreateTokenRequest := .error "EOF"
  rateLimit : Decoded RateLimitPolicy := .error "EOF"
  mcpServers : Decoded (List AccessTokenMCPServer) := .error "EOF"
  document : Decoded SaveInput := .error "EOF"

structure Request where
  method : HttpMethod
  path : String
  body : Body := {}

/-- What a response body holds. `other` is the body of a part that is not modelled. -/
inductive Payload where
  | none
  | text (message : String)
  | fields (entries : List (String × String))
  | user (user : User)
  | users (users : List User)
  | group (group : Group)
  | groups (groups : List Group)
  | members (members : List GroupMembership)
  | storage (storage : Storage)
  | storages (storages : List Storage)
  | storageDetails (storage : Storage) (acl : List ACLBinding) (tokens : List TokenStorageAccess)
  | acl (bindings : List ACLBinding)
  | binding (binding : ACLBinding)
  | tokens (tokens : List AccessToken)
  | minted (token : AccessToken) (rawToken : String)
  | object (object : DataObject)
  | objectACL (bindings : List ObjectACLBinding)
  | objectBinding (binding : ObjectACLBinding)
  | other (body : String)
  deriving DecidableEq, Repr

structure Response where
  status : Nat
  payload : Payload
  deriving DecidableEq, Repr

def httpError (message : String) (status : Nat) : Response := { status := status, payload := .text message }

def badRequest (message : String) : Response := httpError message 400

def forbidden : Response := httpError "forbidden" 403

def notFound : Response := httpError "not found" 404

def noContent : Response := { status := 204, payload := .none }

def writeJSON (payload : Payload) (status : Nat) : Response := { status := status, payload := payload }

end SynaMcp
