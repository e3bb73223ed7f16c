import SynaMcp.Auth.SignOn
import SynaMcp.Knowledge.Writing

/-! Whose a personal document is. A record keeps the user id of its writer: the subject
of a JWT, the external subject of an account, or the key of a token's owner. A reader is
compared by its user id and its subject key. -/
namespace SynaMcp
open Keyed

structure DocumentRecord.Kept (d d' : DocumentRecord) : Prop where
  owner : d'.ownerID = d.ownerID
  storage : d'.storageID = d.storageID
  visibility : d'.visibility = d.visibility

section
variable [Digests] (writer reader : APIAccessContext)

/-- A writer whose records a reader with the same key finds: its user id is set, and
is the key, or the reader's as well. The user id of a JWT is never the key. -/
def KnownTo : Prop :=
  writer.principal.userID ≠ "" ∧
    (writer.authMode = "access_token" ∨ writer.principal.userID = reader.principal.userID ∨
      writer.authMode = "web_session" ∧ writer.principal.userID = subjectKeyForPrincipal writer.principal)

def HiddenFrom : Prop :=
  writer.principal.userID ≠ "" → writer.principal.userID ≠ reader.principal.userID ∧
    writer.principal.userID ≠ subjectKeyForPrincipal reader.principal

/-- The user id of the writer tells readers of its own key from the others. -/
def OneOwner : Prop :=
  if subjectKeyForPrincipal reader.principal = subjectKeyForPrincipal writer.principal then KnownTo writer reader
  else HiddenFrom writer reader

variable {web : WebAdmin} {writer reader : APIAccessContext}

theorem jwt_key_ne_subject {source claims}
    (outside : source ∈ ["oauth", "teleport_proxy"]) (issued : claims.issuer ≠ "") :
    claims.subject ≠ subjectKeyForPrincipal (jwtPrincipal source claims) := by
  rw [subjectKeyForPrincipal_jwtPrincipal outside issued]
  intro same
  have lengths := congrArg String.length same
  simp only [String.length_append] at lengths
  have named : ":".length = 1 := by decide
  omega

theorem SignedOn.knownTo_iff (signed : SignedOn web writer)
    (same : subjectKeyForPrincipal reader.principal = subjectKeyForPrincipal writer.principal) :
    writer.principal.userID ∈ ownerIdentifiers reader.principal ↔ KnownTo writer reader := by
  rw [mem_ownerIdentifiers, same]
  refine and_congr_right fun named => ?_
  cases signed with
  | session => simp
  | token s mcp t =>
    have key : subjectKeyForPrincipal (tokenPrincipal t) = t.ownerSubjectKey :=
      subjectKeyForPrincipal_tokenPrincipal named
    simp only [tokenContext, true_or, iff_true]
    exact .inr key.symm
  | jwt source claims outside issued =>
    have apart : (jwtPrincipal source claims).userID ≠ subjectKeyForPrincipal (jwtPrincipal source claims) :=
      jwt_key_ne_subject outside issued
    simp [apart]

theorem knowledgeGet_personal {s docs p ac d} (stored : docs.get? d.docID = some d) (personal : d.visibility = .personal)
    (allowed : storageAllowed s p ac.accessToken ac.allowedStorage d.storageID .documentRead = true) :
    knowledgeGet s docs p ac d.docID = .ok d ↔ d.ownerID ∈ ownerIdentifiers p := by
  rw [knowledgeGet_iff stored, mem_ownerIdentifiers]
  simp [canReadDoc, allowed, canSeeVisibility, personal, ownsDocumentKnowledge]

end

/-- The readers of a personal document are exactly those with the writer's subject key,
if and only if the user id of the writer is one by which just such readers go. -/
theorem personal_documents_have_one_owner_iff [Digests] [GoLib] (jwt : Jwt) (gate : GatewayConfig)
    (web : WebAdmin) (sessions : WebSessions web) (pl : Pipeline) (bucket : String) (env : Env)
    (s s₁ s₂ s' : Store) (mcp : Option MCPStore) (docs docs₁ docs' : Catalog) (req : Presented)
    (writer reader : APIAccessContext) (input : SaveInput) (d d' : DocumentRecord)
    (signed : authMiddleware jwt gate sessions env s mcp req = (s₁, .ok writer))
    (saved : knowledgeSave pl bucket env s₁ docs writer.principal writer input = ((s₂, docs₁), .ok d))
    (personal : d.visibility = .personal) (kept : d.Kept d') (stored : docs'.get? d.docID = some d')
    (allowed : storageAllowed s' reader.principal reader.accessToken reader.allowedStorage d.storageID
      .documentRead = true) :
    (knowledgeGet s' docs' reader.principal reader d.docID = .ok d' ↔
      subjectKeyForPrincipal reader.principal = subjectKeyForPrincipal writer.principal) ↔
    OneOwner writer reader := by
  have owner : d'.ownerID = writer.principal.userID := kept.owner.trans (knowledgeSave_ok saved).2.2.1
  have id : d'.docID = d.docID := Table.key_of_get? stored
  have reads := knowledgeGet_personal (d := d') (id ▸ stored) (kept.visibility.trans personal)
    (kept.storage ▸ allowed)
  rw [← id, reads, owner]
  unfold OneOwner
  split
  · next same =>
    rw [(authMiddleware_ok signed).knownTo_iff same]
    exact iff_true_right same
  · next other =>
    rw [iff_false_right other, mem_ownerIdentifiers, not_and, not_or]
    rfl

def spelledJwt : Jwt where
  parseUnverified raw :=
    match GoStrings.splitFirst raw '/' with
    | some (issuer, subject) => .ok { issuer := issuer, subject := subject }
    | none => .error "malformed"
  keyfunc _ := .ok ()
  parseWithClaims _ issuer raw :=
    match GoStrings.splitFirst raw '/' with
    | some (_, subject) => .ok { issuer := issuer, subject := subject }
    | none => .error "malformed"
  issued h := by
    split at h
    · cases h
      rfl
    · cases h

/-- A storage `s` in which everyone writes, and a token of `ann` of the issuer `a`. -/
def openStorage : Store :=
  let (s, _) := Store.empty.createStorage (draws "x") { id := "s", ownerSubjectKey := "user:internal:o" } "o"
  let (s, _) := s.upsertACL (draws "y")
    { storageID := "s", subjectKey := "all:authenticated", role := .storageWriter }
  match @Store.createToken .plain (draws "t") s { mintRequest with ownerSubjectKey := "user:a:ann" } with
  | .ok (s, _) => s
  | .error _ => s

def twoIssuers : GatewayConfig where
  providers := [{ issuer := "a", jwksURL := "keys" }, { issuer := "b", jwksURL := "keys" }]

variable (bearer : String)

/-- A request with a bearer token, at a gateway that knows the issuers `a` and `b`. -/
def signOnWith : Store × Except (String × Nat) APIAccessContext :=
  @authMiddleware .plain .plain spelledJwt twoIssuers {} .empty (draws "d") openStorage none
    { authorization := "bearer " ++ bearer }

def signedOnWith : APIAccessContext :=
  match (signOnWith bearer).2 with
  | .ok ac => ac
  | .error _ => {}

/-- `ann` of the issuer `a` saves a note, with the token named. -/
def annsNote : (Store × Catalog) × Except (String × Nat) DocumentRecord :=
  @knowledgeSave .plain {} "" (draws "d") (signOnWith bearer).1 .empty (signedOnWith bearer).principal
    (signedOnWith bearer) { storageID := "s", title := "note" }

def annsRecord : DocumentRecord :=
  Pipeline.record ((draws "d").after 3) (signedOnWith bearer).principal "s"
    { title := "note", visibility := .personal }

/-- What `ann` saves with a token, a JWT of `ann` reads. -/
theorem token_note_is_read_with_jwt :
    @knowledgeGet .plain openStorage (annsNote "syna_t").1.2 (signedOnWith "a/ann").principal
      (signedOnWith "a/ann") (annsRecord "syna_t").docID = .ok (annsRecord "syna_t") :=
  ((@personal_documents_have_one_owner_iff .plain .plain spelledJwt twoIssuers {} WebSessions.empty {} "" (draws "d")
    openStorage (signOnWith "syna_t").1 (annsNote "syna_t").1.1 openStorage none Table.empty
    (annsNote "syna_t").1.2 (annsNote "syna_t").1.2 { authorization := "bearer syna_t" } (signedOnWith "syna_t")
    (signedOnWith "a/ann") { storageID := "s", title := "note" } (annsRecord "syna_t") (annsRecord "syna_t")
    rfl rfl rfl ⟨rfl, rfl, rfl⟩ rfl (by decide)).mpr
    (by unfold OneOwner; rw [if_pos (by decide)]; exact ⟨by decide, .inl rfl⟩)).mpr (by decide)

/-- What `ann` of `a` saves with a JWT, `ann` of `b` reads, and a token of `ann` of `a` does not. -/
theorem jwt_note_is_read_by_namesake :
    signOnWith "a/ann" = (openStorage, .ok (signedOnWith "a/ann")) ∧
      signOnWith "b/ann" = (openStorage, .ok (signedOnWith "b/ann")) ∧
      (signOnWith "syna_t").2 = .ok (signedOnWith "syna_t") ∧
      (annsNote "a/ann").2 = .ok (annsRecord "a/ann") ∧ (annsRecord "a/ann").visibility = .personal ∧
      @subjectKeyForPrincipal .plain (signedOnWith "b/ann").principal ≠
        @subjectKeyForPrincipal .plain (signedOnWith "a/ann").principal ∧
      @knowledgeGet .plain openStorage (annsNote "a/ann").1.2 (signedOnWith "b/ann").principal
        (signedOnWith "b/ann") (annsRecord "a/ann").docID = .ok (annsRecord "a/ann") ∧
      @subjectKeyForPrincipal .plain (signedOnWith "syna_t").principal =
        @subjectKeyForPrincipal .plain (signedOnWith "a/ann").principal ∧
      @storageAllowed .plain (signOnWith "syna_t").1 (signedOnWith "syna_t").principal
        (signedOnWith "syna_t").accessToken (signedOnWith "syna_t").allowedStorage "s" .documentRead = true ∧
      @knowledgeGet .plain (signOnWith "syna_t").1 (annsNote "a/ann").1.2 (signedOnWith "syna_t").principal
        (signedOnWith "syna_t") (annsRecord "a/ann").docID = .error "forbidden" := by
  refine ⟨rfl, rfl, rfl, rfl, rfl, by decide, ?_, by decide, by decide, ?_⟩
  · exact (@knowledgeGet_personal .plain openStorage (annsNote "a/ann").1.2 (signedOnWith "b/ann").principal
      (signedOnWith "b/ann") (annsRecord "a/ann") rfl rfl (by decide)).mpr (by decide +kernel)
  · rfl

end SynaMcp
