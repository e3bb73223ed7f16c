import SynaMcp.Lib.GoStrings

/-! The records of `internal/models`. A named string type is an enumeration with an
`other` case for the values outside its constants; `unset` is the empty string. A time
counts from the zero time. -/
namespace SynaMcp

abbrev Time := Int

inductive Visibility where
  | unset
  | «public»
  | group
  | personal
  | other (raw : String)
  deriving DecidableEq, Repr

inductive StorageRole where
  | platformAdmin
  | storageOwner
  | storageAdmin
  | storageWriter
  | storageReader
  | groupAdmin
  | other (raw : String)
  deriving DecidableEq, Repr

inductive StoragePermission where
  | storageRead
  | documentRead
  | searchRead
  | documentCreate
  | documentUpdate
  | documentDelete
  | aclManage
  | tokenManage
  | storageDelete
  | other (raw : String)
  deriving DecidableEq, Repr

inductive AccessMode where
  | unset
  | none
  | read
  | readWrite
  | other (raw : String)
  deriving DecidableEq, Repr

inductive StorageStatus where
  | unset
  | active
  | archived
  | deleting
  | other (raw : String)
  deriving DecidableEq, Repr

inductive StorageKind where
  | unset
  | knowledge
  | other (raw : String)
  deriving DecidableEq, Repr

inductive ObjectKind where
  | storage
  | variable
  | counter
  | table
  | queue
  | bus
  | securebus
  | schedule
  | log
  | git
  | other (raw : String)
  deriving DecidableEq, Repr

inductive MCPServerRole where
  | owner
  | admin
  | user
  | other (raw : String)
  deriving DecidableEq, Repr

inductive MCPServerPermission where
  | use
  | manage
  | delete
  | other (raw : String)
  deriving DecidableEq, Repr

inductive SubjectKind where
  | user
  | group
  | allAuthenticated
  deriving DecidableEq, Repr

structure Principal where
  (userID issuer email : String := "")
  groups : List String := []
  subjectKey : String := ""
  (groupSubjectKeys scopes : List String := [])
  authSource : String := ""
  deriving DecidableEq, Repr

structure SubjectRef where
  kind : SubjectKind
  source : String
  issuer : String := ""
  externalID : String
  deriving DecidableEq, Repr

structure User where
  (id subjectKey source issuer externalSubject email displayName status passwordHash : String := "")
  (createdAt lastSeenAt : Time := 0)
  deriving DecidableEq, Repr

structure Group where
  (id subjectKey source issuer externalGroupID name managedBy syncStatus : String := "")
  lastSyncedAt : Option Time := none
  createdAt : Time := 0
  deriving DecidableEq, Repr

structure GroupMembership where
  (groupID userID source : String)
  createdAt : Time
  expiresAt : Option Time := none
  deriving DecidableEq, Repr

structure Storage where
  (id slug name ownerSubjectKey : String := "")
  visibility : Visibility := .unset
  defaultAccess : AccessMode := .unset
  kind : StorageKind := .unset
  (s3Bucket s3Prefix : String := "")
  status : StorageStatus := .unset
  (createdAt updatedAt : Time := 0)
  archivedAt : Option Time := none
  deriving DecidableEq, Repr

structure ACLBinding where
  id : String := ""
  (storageID subjectKey : String)
  role : StorageRole
  grantedBy : String := ""
  expiresAt : Option Time := none
  createdAt : Time := 0
  deriving DecidableEq, Repr

structure RateLimitPolicy where
  enabled : Bool := false
  (requestsPerMinute requestsPerHour requestsPerDay burst : Int := 0)
  deriving DecidableEq, Repr

structure AccessToken where
  (id ownerSubjectKey tokenHash name : String := "")
  mode : AccessMode := .unset
  allowedPermissions : List StoragePermission := []
  rateLimit : RateLimitPolicy := {}
  (expiresAt revokedAt lastUsedAt : Option Time := none)
  createdBy : String := ""
  createdAt : Time := 0
  deriving DecidableEq, Repr

structure AccessTokenStorage where
  tokenID : String := ""
  storageID : String
  maxMode : AccessMode
  toolAllowlist : List String := []
  createdAt : Time := 0
  deriving DecidableEq, Repr

structure AccessTokenObject where
  tokenID : String := ""
  objectID : String
  maxMode : AccessMode
  methodAllowlist : List String := []
  createdAt : Time := 0
  deriving DecidableEq, Repr

structure AccessTokenMCPServer where
  tokenID : String := ""
  serverID : String
  (toolAllowlist resourceAllowlist promptAllowlist : List String := [])
  createdAt : Time := 0
  deriving DecidableEq, Repr

/-- The `config` of an object; a value is kept as its JSON text. -/
abbrev Config := List (String × String)

structure DataObject where
  id : String := ""
  kind : ObjectKind
  (slug name ownerSubjectKey : String := "")
  visibility : Visibility := .unset
  defaultAccess : AccessMode := .unset
  status : StorageStatus := .unset
  backend : String := ""
  config : Config := []
  (s3Bucket s3Prefix : String := "")
  (createdAt updatedAt : Time := 0)
  archivedAt : Option Time := none
  deriving DecidableEq, Repr

structure ObjectACLBinding where
  id : String := ""
  (objectID subjectKey : String)
  role : StorageRole
  grantedBy : String := ""
  expiresAt : Option Time := none
  createdAt : Time := 0
  deriving DecidableEq, Repr

structure MCPServerACLBinding where
  id : String := ""
  (serverID subjectKey : String)
  role : MCPServerRole
  grantedBy : String := ""
  expiresAt : Option Time := none
  createdAt : Time := 0
  deriving DecidableEq, Repr

structure EffectiveAccess where
  (tokenID storageID subjectKey : String := "")
  permissions : List StoragePermission := []
  mode : AccessMode := .unset
  deriving DecidableEq, Repr

structure EffectiveObjectAccess where
  objectID : String := ""
  kind : ObjectKind := .other ""
  (subjectKey tokenID : String := "")
  mode : AccessMode := .unset
  methods : List String := []
  deriving DecidableEq, Repr

structure AuditEvent where
  id : String := ""
  (actorSubjectKey action resourceType resourceID : String)
  storageID : String := ""
  createdAt : Time := 0
  deriving DecidableEq, Repr

structure APIAccessContext where
  principal : Principal := {}
  (authMode tokenID : String := "")
  accessToken : Option AccessToken := none
  allowedStorage : List AccessTokenStorage := []
  allowedObjects : List AccessTokenObject := []
  allowedMCPServers : List AccessTokenMCPServer := []
  deriving DecidableEq, Repr

end SynaMcp
