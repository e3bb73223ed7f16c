import SynaMcp.Http.Admin
import SynaMcp.Knowledge.Reading

/-! Writing documents: `knowledge.Save` with the ingest pipeline behind it, and
`Delete`. Who may create a document may read, list and delete it. -/
namespace SynaMcp
open Keyed Bindings Table

/-- What the pipeline is configured with and what it calls: the parser of request
URIs, the blob store and the job store. -/
structure Pipeline where
  largeDocBytes : Int := 0
  parseRequestURI : String → Except String Unit := fun _ => .ok ()
  putBlob : (key body : String) → Except String Unit := fun _ _ => .ok ()
  enqueue : (docID : String) → Except String Unit := fun _ => .ok ()

def normalizeSource (source channel : String) : String :=
  if source ≠ "" then source
  else
    match channel with
    | "mcp" => "mcp"
    | "api" => "api"
    | "admin" => "admin"
    | _ => "unknown"

def defaultStorageID (id : String) : String := orElse "" id "legacy"

def Catalog.save (docs : Catalog) (doc : DocumentRecord) : Catalog :=
  docs.put { doc with storageID := defaultStorageID doc.storageID }

theorem Catalog.get?_save (docs : Catalog) {doc id} (key : doc.docID = id) :
    (docs.save doc).get? id = some { doc with storageID := defaultStorageID doc.storageID } := by
  subst key
  exact get?_put_self docs { doc with storageID := defaultStorageID doc.storageID }

theorem Catalog.get?_save_of_ne (docs : Catalog) {doc id} (other : doc.docID ≠ id) :
    (docs.save doc).get? id = docs.get? id :=
  get?_put_of_ne docs other

namespace Pipeline

def record (env : Env) (p : Principal) (storageID : String) (input : SaveInput) : DocumentRecord :=
  { docID := (env.uuid 0).val
    storageID := defaultStorageID storageID
    ownerID := p.userID
    visibility := orElse .unset input.visibility .personal
    groupIDs := input.groupIDs
    title := input.title
    mimeType := input.mimeType
    source := normalizeSource input.source input.channel
    sourceURL := input.sourceURL
    status := "processing"
    body := input.text
    createdAt := env.now
    updatedAt := env.now }

def sourceKey (s3Prefix : String) (doc : DocumentRecord) : String :=
  GoStrings.trimRightFunc (· == '/') (orElse "" s3Prefix ("storages/" ++ doc.storageID ++ "/")) ++
    "/documents/" ++ doc.docID ++ "/source.txt"

def prepareDocument (pl : Pipeline) (env : Env) (p : Principal) (storageID s3Prefix : String)
    (input : SaveInput) : Except String DocumentRecord :=
  match if input.sourceURL = "" then .ok () else pl.parseRequestURI input.sourceURL with
  | .error e => .error ("invalid sourceUrl: " ++ e)
  | .ok () =>
    let doc := record env p storageID input
    if pl.largeDocBytes < input.text.utf8ByteSize ∧ 0 < pl.largeDocBytes then
      match pl.putBlob (sourceKey s3Prefix doc) input.text with
      | .error e => .error e
      | .ok () => .ok { doc with s3Key := sourceKey s3Prefix doc }
    else .ok doc

/-- A document whose job is refused stays in the catalog. -/
def save (pl : Pipeline) (env : Env) (docs : Catalog) (p : Principal) (storageID s3Prefix : String)
    (input : SaveInput) : Catalog × Except String DocumentRecord :=
  match pl.prepareDocument env p storageID s3Prefix input with
  | .error e => (docs, .error e)
  | .ok doc =>
    (docs.save doc,
      match pl.enqueue doc.docID with
      | .error e => .error e
      | .ok () => .ok doc)

section
variable {pl : Pipeline} {env : Env} {p : Principal} {docs docs' : Catalog} {storageID s3Prefix : String}
  {input : SaveInput} {d : DocumentRecord}

theorem prepareDocument_ok (h : pl.prepareDocument env p storageID s3Prefix input = .ok d) :
    ∃ key, d = { record env p storageID input with s3Key := key } := by
  unfold prepareDocument at h
  split at h
  · cases h
  · simp only at h
    split at h
    · split at h
      · cases h
      · cases h
        exact ⟨_, rfl⟩
    · cases h
      exact ⟨_, rfl⟩

theorem save_ok (h : pl.save env docs p storageID s3Prefix input = (docs', .ok d)) :
    docs' = docs.save d ∧ ∃ key, d = { record env p storageID input with s3Key := key } := by
  unfold save at h
  split at h
  · cases h
  · next doc prepared =>
    split at h
    · cases h
    · cases h
      exact ⟨rfl, prepareDocument_ok prepared⟩

end

end Pipeline

section
variable [Digests] (bucket : String) (env : Env) (s : Store) (p : Principal)

/-- The storage that is named, or the caller's personal one. -/
def saveStorage (storageID : String) : Store × Option Storage :=
  if storageID = "" then
    let (s, _, st) := ensurePrincipal env s p bucket
    (s, some st)
  else (s, s.getStorage storageID)

/-- `Save` up to the pipeline: the storage to write to and the input with its
visibility, once the caller may create documents there. -/
def saveTarget (ac : APIAccessContext) (input : SaveInput) : Store × Except (String × Nat) (Storage × SaveInput) :=
  let visibility := orElse .unset input.visibility .personal
  match saveStorage bucket env s p input.storageID with
  | (s, none) => (s, .error ("not found", 404))
  | (s, some st) =>
    match canAccessStorage s p ac.accessToken ac.allowedStorage st.id .documentCreate with
    | .error e => (s, .error (e, 400))
    | .ok (_, ok) =>
      if !ok then (s, .error ("forbidden", 403))
      else if !canWriteVisibility p visibility input.groupIDs then (s, .error ("forbidden", 403))
      else (s, .ok (st, { input with visibility := visibility }))

/-- The draws of the pipeline come after those of `EnsurePrincipal`. -/
def knowledgeSave (pl : Pipeline) (bucket : String) (env : Env) (s : Store) (docs : Catalog) (p : Principal)
    (ac : APIAccessContext) (input : SaveInput) :
    (Store × Catalog) × Except (String × Nat) DocumentRecord :=
  match saveTarget bucket env s p ac input with
  | (s, .error e) => ((s, docs), .error e)
  | (s, .ok (st, input)) =>
    match pl.save (env.after 3) docs p st.id st.s3Prefix input with
    | (docs, .error e) => ((s, docs), .error (e, 400))
    | (docs, .ok doc) => ((s, docs), .ok doc)

def canDeleteDocument (p : Principal) (d : DocumentRecord) : Bool :=
  if ownsDocumentKnowledge p d then true
  else
    match d.visibility with
    | .public => decide ("knowledge.delete.public" ∈ p.scopes) || decide ("platform_admin" ∈ p.scopes)
    | .group => decide ("knowledge.delete.group" ∈ p.scopes)
    | _ => false

/-- `cleanup` drops the vectors of a document, at once or through the worker. -/
def knowledgeDelete (cleanup : String → Except String Unit) (s : Store) (docs : Catalog) (p : Principal)
    (ac : APIAccessContext) (id : String) : Catalog × Except String Unit :=
  match docs.get? id with
  | none => (docs, .error "not found")
  | some doc =>
    match canAccessStorage s p ac.accessToken ac.allowedStorage doc.storageID .documentDelete with
    | .error e => (docs, .error e)
    | .ok (_, ok) =>
      if !ok then (docs, .error "forbidden")
      else if !canDeleteDocument p doc then (docs, .error "forbidden")
      else ((docs.save { doc with status := "deleting" }).delete id, cleanup id)

section
variable {pl : Pipeline} {bucket : String} {env : Env} {s s' : Store} {docs docs' : Catalog} {p : Principal}
  {ac : APIAccessContext} {input input' : SaveInput} {st : Storage} {d : DocumentRecord}

theorem saveDocument_eq_saveTarget (cfg : AdminConfig) :
    AdminHandler.saveDocument s p cfg env ac input =
      match saveTarget cfg.bucket env s p ac input with
      | (s, .error e) => (s, .error e)
      | (s, .ok (st, input)) => (s, cfg.ingest p st.id st.s3Prefix input) := by
  have target : (if input.storageID = "" then
      let (s, _, st) := ensurePrincipal env s p cfg.bucket
      (s, some st)
    else (s, s.getStorage input.storageID)) = saveStorage cfg.bucket env s p input.storageID := rfl
  unfold AdminHandler.saveDocument saveTarget
  rw [target]
  obtain ⟨s, _ | st⟩ := saveStorage cfg.bucket env s p input.storageID
  · rfl
  · cases checked : canAccessStorage s p ac.accessToken ac.allowedStorage st.id .documentCreate with
    | error => simp only [checked]
    | ok answer =>
      obtain ⟨_, ok⟩ := answer
      simp only [checked]
      cases ok with
      | false => rfl
      | true => cases canWriteVisibility p (orElse .unset input.visibility .personal) input.groupIDs <;> rfl

/-- The storage that `EnsurePrincipal` returns is in the store, and no binding is
written that expires. -/
theorem ensurePrincipal_storage (env : Env) (s : Store) (p : Principal) (bucket : String) :
    (ensurePrincipal env s p bucket).2.2 ∈ (ensurePrincipal env s p bucket).1.storages.rows ∧
      ∀ b ∈ (ensurePrincipal env s p bucket).1.acl.rows, b ∈ s.acl.rows ∨ b.expiresAt = none := by
  obtain ⟨_, _, ⟨_, found, store, storage⟩ | ⟨_, store, storage⟩⟩ := ensurePrincipal_cases env s p bucket
  · rw [store, storage]
    exact ⟨List.mem_of_find?_eq_some found, fun b hb => .inl hb⟩
  · rw [store, storage]
    refine ⟨Table.mem_put.mpr (.inl rfl), fun b hb => ?_⟩
    rcases Table.mem_put.mp hb with rfl | ⟨old, _⟩
    · exact .inr rfl
    · exact .inl old

theorem saveStorage_some {storageID} (h : saveStorage bucket env s p storageID = (s', some st)) :
    st ∈ s'.storages.rows ∧ ∀ b ∈ s'.acl.rows, b ∈ s.acl.rows ∨ b.expiresAt = none := by
  unfold saveStorage at h
  split at h
  · cases h
    exact ensurePrincipal_storage env s p bucket
  · obtain ⟨rfl, found⟩ := Prod.mk.inj h
    exact ⟨mem_of_get? found, fun b hb => .inl hb⟩

theorem saveTarget_ok (h : saveTarget bucket env s p ac input = (s', .ok (st, input'))) : st ∈ s'.storages.rows ∧
      storageAllowed s' p ac.accessToken ac.allowedStorage st.id .documentCreate = true ∧
      ∀ b ∈ s'.acl.rows, b ∈ s.acl.rows ∨ b.expiresAt = none := by
  simp only [saveTarget] at h
  split at h
  · cases h
  · next store target chosen =>
    obtain ⟨row, bindings⟩ := saveStorage_some chosen
    split at h
    · cases h
    · next eff ok checked =>
      split at h
      · cases h
      · next allowed =>
        split at h
        · cases h
        · cases h
          refine ⟨row, ?_, bindings⟩
          unfold storageAllowed
          rw [checked]
          simpa using allowed

/-- Who may create documents in a storage may do there all that a writer may, if
the token has no permission list. -/
theorem storageAllowed_of_create {id q} (unrestricted : ∀ t, ac.accessToken = some t → t.allowedPermissions = [])
    (h : storageAllowed s p ac.accessToken ac.allowedStorage id .documentCreate = true)
    (hq : q ∈ rolePermissions .storageWriter) : storageAllowed s p ac.accessToken ac.allowedStorage id q = true := by
  obtain ⟨named, gate, decided⟩ := storageAllowed_iff.mp h
  refine storageAllowed_iff.mpr ⟨named, ?_, ?_⟩
  · intro t token
    exact ⟨modePermissions_of_create (gate t token).1 hq, .inl (unrestricted t token)⟩
  · rcases decided with ⟨b, own, onIt, carried⟩ | fallback
    · exact .inl ⟨b, own, onIt, rolePermissions_of_create carried hq⟩
    · exact .inr fallback

theorem knowledgeSave_ok (h : knowledgeSave pl bucket env s docs p ac input = ((s', docs'), .ok d)) :
    docs'.get? d.docID = some d ∧ s'.storages.Has d.storageID ∧ d.ownerID = p.userID ∧
      storageAllowed s' p ac.accessToken ac.allowedStorage d.storageID .documentCreate = true ∧
      ∀ b ∈ s'.acl.rows, b ∈ s.acl.rows ∨ b.expiresAt = none := by
  unfold knowledgeSave at h
  split at h
  · cases h
  · next _ store st input' target =>
    obtain ⟨row, creates, bindings⟩ := saveTarget_ok target
    have named : st.id ≠ "" := store.storages_named st row
    split at h
    · cases h
    · next _ catalog doc saved =>
      cases h
      obtain ⟨rfl, _, rfl⟩ := Pipeline.save_ok saved
      have located : defaultStorageID st.id = st.id := if_neg named
      have stored : defaultStorageID (defaultStorageID st.id) = defaultStorageID st.id := by
        rw [located, located]
      refine ⟨?_, ?_, rfl, ?_, bindings⟩
      · simp only [Catalog.save, Pipeline.record, stored]
        exact get?_put_self docs _
      · simp only [Pipeline.record, located]
        exact has_of_mem row
      · simpa only [Pipeline.record, located] using creates

theorem canSeeVisibility_of_owner (owned : ownsDocumentKnowledge p d = true) : canSeeVisibility p d = true := by
  unfold canSeeVisibility
  rw [owned]
  split <;> rfl

theorem knowledgeDelete_of_permitted {cleanup} (stored : docs.get? d.docID = some d)
    (allowed : storageAllowed s p ac.accessToken ac.allowedStorage d.storageID .documentDelete = true)
    (deletable : canDeleteDocument p d = true) : knowledgeDelete cleanup s docs p ac d.docID =
      ((docs.save { d with status := "deleting" }).delete d.docID, cleanup d.docID) := by
  unfold storageAllowed at allowed
  unfold knowledgeDelete
  rw [stored]
  split at allowed
  · next eff ok checked => simp [checked, allowed, deletable]
  · cases allowed

end

end

/-- A document that `Save` returned can be got, listed and deleted by the same caller
with the same token, if no binding is expired and the token has no permission list. -/
theorem saved_document_is_readable_and_deletable [Digests] (pl : Pipeline) (bucket : String) (env : Env)
    (s s' : Store) (docs docs' : Catalog) (p : Principal) (ac : APIAccessContext) (input : SaveInput)
    (d : DocumentRecord) (now : Time) (n : Int) (cleanup : String → Except String Unit)
    (unexpired : ∀ b ∈ s.acl.rows, Store.expired now b.expiresAt = false) (user : p.userID ≠ "")
    (unrestricted : ∀ t, ac.accessToken = some t → t.allowedPermissions = [])
    (saved : knowledgeSave pl bucket env s docs p ac input = ((s', docs'), .ok d))
    (size : 0 < n) (fits : docs'.rows.length ≤ n) :
    knowledgeGet s' docs' p ac d.docID = .ok d ∧
      (∃ l, knowledgeList now s' docs' p ac { pageSize := n } = .ok l ∧ d ∈ l.items) ∧
      (knowledgeDelete cleanup s' docs' p ac d.docID).2 = cleanup d.docID ∧
      (knowledgeDelete cleanup s' docs' p ac d.docID).1.get? d.docID = none := by
  obtain ⟨stored, located, owner, creates, bindings⟩ := knowledgeSave_ok saved
  have owned : ownsDocumentKnowledge p d = true := by
    simp [ownsDocumentKnowledge, owner, user]
  have live : ∀ b ∈ s'.acl.rows, Store.expired now b.expiresAt = false := by
    intro b hb
    rcases bindings b hb with old | lasting
    · exact unexpired b old
    · rw [lasting]
      rfl
  have reads : canReadDoc s' p ac d = true := by
    rw [canReadDoc, storageAllowed_of_create unrestricted creates (by decide), canSeeVisibility_of_owner owned]
    rfl
  refine ⟨(knowledgeGet_iff stored).mpr reads, ?_, ?_⟩
  · rw [mem_knowledgeList stored size fits]
    exact (canReadDocCached_iff live located).mpr reads
  · have deletable : canDeleteDocument p d = true := if_pos owned
    rw [knowledgeDelete_of_permitted stored (storageAllowed_of_create unrestricted creates (by decide)) deletable]
    exact ⟨rfl, get?_delete_self _ _⟩

/-- `ann` saves a note without naming a storage. -/
def annNote : (Store × Catalog) × Except (String × Nat) DocumentRecord :=
  @knowledgeSave .plain {} "" (draws "x") .empty .empty { userID := "ann" } {} { title := "note" }

def savedNote : DocumentRecord :=
  Pipeline.record ((draws "x").after 3) { userID := "ann" } "x" { title := "note", visibility := .personal }

theorem ann_reads_and_deletes_own_note :
    @knowledgeGet .plain annNote.1.1 annNote.1.2 { userID := "ann" } {} savedNote.docID = .ok savedNote ∧
      (∃ l, @knowledgeList .plain 5 annNote.1.1 annNote.1.2 { userID := "ann" } {} { pageSize := 9 } = .ok l ∧
        savedNote ∈ l.items) ∧
      (@knowledgeDelete .plain (fun _ => .ok ()) annNote.1.1 annNote.1.2 { userID := "ann" } {}
        savedNote.docID).2 = .ok () ∧
      (@knowledgeDelete .plain (fun _ => .ok ()) annNote.1.1 annNote.1.2 { userID := "ann" } {}
        savedNote.docID).1.get? savedNote.docID = none :=
  @saved_document_is_readable_and_deletable .plain {} "" (draws "x") .empty annNote.1.1 Table.empty
    annNote.1.2 { userID := "ann" } {} { title := "note" } savedNote 5 9 (fun _ => .ok ()) (by decide)
    (by decide) (by intro t token; cases token) rfl (by decide) (by decide)

end SynaMcp
