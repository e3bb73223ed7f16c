import SynaMcp.Access.Storages

/-! The three ways a document is read. `Get` evaluates one document, `List` passes
filters to the catalog, `Search` filters what the vector store returns. -/
namespace SynaMcp
open Bindings Keyed List

structure DocumentRecord where
  docID : String
  storageID : String
  ownerID : String := ""
  visibility : Visibility := .unset
  groupIDs : List String := []
  title : String := ""
  source : String := ""
  sourceURL : String := ""
  status : String := ""
  updatedAt : Time := 0
  mimeType : String := ""
  body : String := ""
  s3Key : String := ""
  createdAt : Time := 0
  /-- This and the hash are filled in by indexing; the hash also takes the last error. -/
  summaryChunkID : String := ""
  sourceHash : String := ""
  deriving DecidableEq, Repr

abbrev Catalog := Table DocumentRecord.docID

structure PageRequest where
  page : Int := 0
  pageSize : Int := 0
  storageID : String := ""
  source : String := ""
  sourceURL : String := ""
  sourceURLMode : String := ""
  allowedStorageIDs : List String := []
  applyVisibility : Bool := false
  visibilityOwnerIDs : List String := []
  visibilityGroups : List String := []
  deriving DecidableEq, Repr

structure PaginatedKnowledgeList where
  items : List DocumentRecord
  page : Int
  pageSize : Int
  total : Nat := 0
  hasNext : Bool := false
  deriving DecidableEq, Repr

def overlaps (a b : List String) : Bool := b.any (fun v => v ∈ a)

variable (d : DocumentRecord) (owners groups : List String)

def visibleInMemory : Bool :=
  match d.visibility with
  | .public => true
  | .personal => decide (d.ownerID ∈ owners)
  | .group => decide (d.ownerID ∈ owners) || overlaps d.groupIDs groups
  | _ => true

/-- The `WHERE` clause of `listDB` on a row whose columns are not null:
`visibility = 'public' OR visibility NOT IN ('public','personal','group') OR
(visibility = 'personal' AND owner_id = ANY(owners)) OR (visibility = 'group' AND
(owner_id = ANY(owners) OR group_ids && groups))`. -/
def sqlVisible : Bool :=
  decide (d.visibility = .public) ||
    !decide (d.visibility ∈ [.public, .personal, .group]) ||
    (decide (d.visibility = .personal) && decide (d.ownerID ∈ owners)) ||
    (decide (d.visibility = .group) && (decide (d.ownerID ∈ owners) || overlaps d.groupIDs groups))

namespace Catalog
variable (page : PageRequest)

def matchesPage (d : DocumentRecord) : Bool :=
  (page.storageID = "" || d.storageID = page.storageID) &&
    (page.allowedStorageIDs.isEmpty || decide (d.storageID ∈ page.allowedStorageIDs)) &&
    (page.source = "" || d.source = page.source) &&
    (page.sourceURL = "" ||
      if page.sourceURLMode = "partial" then GoStrings.contains d.sourceURL page.sourceURL
      else d.sourceURL = page.sourceURL) &&
    (!page.applyVisibility || visibleInMemory d page.visibilityOwnerIDs page.visibilityGroups)

def pageSizeOf : Int := if page.pageSize ≤ 0 then 20 else page.pageSize

def pageOf : Int := if page.page ≤ 0 then 1 else page.page

def list (docs : Catalog) (page : PageRequest) : PaginatedKnowledgeList :=
  let items := (docs.rows.filter (matchesPage page)).mergeSort (fun a b => decide (b.updatedAt ≤ a.updatedAt))
  let start := min ((pageOf page - 1) * pageSizeOf page) items.length
  let stop := min (start + pageSizeOf page) items.length
  { items := (items.take stop.toNat).drop start.toNat
    page := pageOf page
    pageSize := pageSizeOf page
    total := items.length
    hasNext := decide (stop < items.length) }

theorem mem_list_items {docs} {page : PageRequest} {d} (first : page.page ≤ 1)
    (size : 0 < page.pageSize) (fits : docs.rows.length ≤ page.pageSize) :
    d ∈ (list docs page).items ↔ d ∈ docs.rows ∧ matchesPage page d = true := by
  have one : pageOf page = 1 := by
    unfold pageOf
    split <;> omega
  have whole : pageSizeOf page = page.pageSize := by
    unfold pageSizeOf
    split <;> omega
  have bound : ((docs.rows.filter (matchesPage page)).mergeSort
      (fun a b => decide (b.updatedAt ≤ a.updatedAt))).length ≤ docs.rows.length := by
    rw [length_mergeSort]
    exact length_filter_le _ _
  simp only [list, one, whole]
  rw [show min ((1 - 1) * page.pageSize) _ = (0 : Int) by omega]
  rw [take_of_length_le (by omega)]
  simp [mem_mergeSort]

end Catalog

section
variable [Digests]

def ownerIdentifiers (p : Principal) : List String :=
  ([p.userID, subjectKeyForPrincipal p].filter (fun id => id ≠ "")).dedup

variable (p : Principal) (d : DocumentRecord)

def ownsDocumentKnowledge : Bool :=
  d.ownerID ≠ "" && (d.ownerID = p.userID || d.ownerID = subjectKeyForPrincipal p)

def canSeeVisibility : Bool :=
  match d.visibility with
  | .public => true
  | .personal => ownsDocumentKnowledge p d
  | .group => ownsDocumentKnowledge p d || overlaps d.groupIDs p.groups
  | _ => true

def canReadDoc (s : Store) (p : Principal) (ac : APIAccessContext) (d : DocumentRecord) : Bool :=
  storageAllowed s p ac.accessToken ac.allowedStorage d.storageID .documentRead && canSeeVisibility p d

def canReadDocCached (readable : List String) : Bool :=
  decide (d.storageID ∈ readable) && canSeeVisibility p d

def knowledgeGet (s : Store) (docs : Catalog) (p : Principal) (ac : APIAccessContext) (id : String) :
    Except String DocumentRecord :=
  match docs.get? id with
  | none => .error "not found"
  | some doc => if !canReadDoc s p ac doc then .error "forbidden" else .ok doc

def emptyPage (page : PageRequest) : PaginatedKnowledgeList :=
  { items := [], page := Catalog.pageOf page, pageSize := Catalog.pageSizeOf page }

def knowledgeList (now : Time) (s : Store) (docs : Catalog) (p : Principal) (ac : APIAccessContext)
    (page : PageRequest) : Except String PaginatedKnowledgeList :=
  let readable := readableStorageIDs now s p ac.accessToken ac.allowedStorage
  let page := { page with
    applyVisibility := true, visibilityOwnerIDs := ownerIdentifiers p, visibilityGroups := p.groups }
  if page.storageID ≠ "" then
    if page.storageID ∉ readable then .error "forbidden"
    else .ok (docs.list { page with allowedStorageIDs := [page.storageID] })
  else if readable = [] then .ok (emptyPage page)
  else .ok (docs.list { page with allowedStorageIDs := readable })

variable {s : Store} {docs : Catalog} {p : Principal} {ac : APIAccessContext} {d : DocumentRecord} {now : Time}

theorem mem_ownerIdentifiers {id} :
    id ∈ ownerIdentifiers p ↔ id ≠ "" ∧ (id = p.userID ∨ id = subjectKeyForPrincipal p) := by
  simp only [ownerIdentifiers, mem_dedup, mem_filter, mem_cons, not_mem_nil, or_false, decide_eq_true_eq]
  exact and_comm

theorem visibleInMemory_of_caller : visibleInMemory d (ownerIdentifiers p) p.groups = canSeeVisibility p d := by
  have owns : decide (d.ownerID ∈ ownerIdentifiers p) = ownsDocumentKnowledge p d := by
    rw [Bool.eq_iff_iff]
    simp [mem_ownerIdentifiers, ownsDocumentKnowledge]
  unfold visibleInMemory canSeeVisibility
  rw [owns]

omit [Digests] in
theorem sqlVisible_eq_visibleInMemory (d : DocumentRecord) (owners groups : List String) :
    sqlVisible d owners groups = visibleInMemory d owners groups := by
  unfold sqlVisible visibleInMemory
  cases d.visibility with
  | «public» | personal | group | unset | other raw => simp

theorem knowledgeGet_iff (stored : docs.get? d.docID = some d) :
    knowledgeGet s docs p ac d.docID = .ok d ↔ canReadDoc s p ac d = true := by
  unfold knowledgeGet
  rw [stored]
  cases reads : canReadDoc s p ac d with
  | false | true => simp [reads]

theorem canReadDocCached_iff (unexpired : ∀ b ∈ s.acl.rows, Store.expired now b.expiresAt = false)
    (located : s.storages.Has d.storageID) :
    canReadDocCached p d (readableStorageIDs now s p ac.accessToken ac.allowedStorage) = true ↔
      canReadDoc s p ac d = true := by
  simp [canReadDocCached, canReadDoc, mem_readableStorageIDs unexpired, located]

theorem mem_knowledgeList (stored : docs.get? d.docID = some d) {n : Int} (size : 0 < n)
    (fits : docs.rows.length ≤ n) : (∃ l, knowledgeList now s docs p ac { pageSize := n } = .ok l ∧ d ∈ l.items) ↔
      canReadDocCached p d (readableStorageIDs now s p ac.accessToken ac.allowedStorage) = true := by
  unfold knowledgeList canReadDocCached
  generalize readableStorageIDs now s p ac.accessToken ac.allowedStorage = readable
  simp only [ne_eq, not_true_eq_false, if_false]
  cases readable with
  | nil => simp [emptyPage]
  | cons =>
    have row : d ∈ docs.rows := Table.mem_of_get? stored
    simp only [reduceCtorEq, if_false, Except.ok.injEq, exists_eq_left']
    rw [Catalog.mem_list_items (show (0 : Int) ≤ 1 by decide) size fits]
    simp [row, Catalog.matchesPage, visibleInMemory_of_caller]

end

/-- `Get`, `List` and the filter of `Search` agree on every document whose storage
exists, while no storage binding is expired; and the catalog's SQL predicate accepts
what its in-memory test accepts. -/
theorem read_paths_agree [Digests] (now : Time) (s : Store) (docs : Catalog) (p : Principal)
    (ac : APIAccessContext) (d : DocumentRecord) (n : Int)
    (unexpired : ∀ b ∈ s.acl.rows, Store.expired now b.expiresAt = false)
    (stored : docs.get? d.docID = some d) (located : s.storages.Has d.storageID) (size : 0 < n)
    (fits : docs.rows.length ≤ n) :
    (knowledgeGet s docs p ac d.docID = .ok d ↔
      ∃ l, knowledgeList now s docs p ac { pageSize := n } = .ok l ∧ d ∈ l.items) ∧
    (knowledgeGet s docs p ac d.docID = .ok d ↔
      canReadDocCached p d (readableStorageIDs now s p ac.accessToken ac.allowedStorage) = true) ∧
    ∀ owners groups, sqlVisible d owners groups = visibleInMemory d owners groups := by
  have cached : canReadDocCached p d (readableStorageIDs now s p ac.accessToken ac.allowedStorage) = true ↔
      canReadDoc s p ac d = true := canReadDocCached_iff unexpired located
  refine ⟨?_, ?_, sqlVisible_eq_visibleInMemory d⟩
  · rw [mem_knowledgeList stored size fits, cached, knowledgeGet_iff stored]
  · rw [cached, knowledgeGet_iff stored]

/-- A group document in a storage of `u`, and the catalog that holds it. -/
def groupNote : DocumentRecord :=
  { docID := "d", storageID := "s", ownerID := "user:internal:a", visibility := .group, groupIDs := ["g"] }

/-- A member of the group who owns the storage finds it on the list. -/
theorem read_paths_agree_group_note :
    ∃ l, @knowledgeList .plain 2
        (Store.empty.createStorage (draws "x") { id := "s", ownerSubjectKey := "user:internal:u" } "u").1
        (Table.empty.put groupNote) { userID := "u", groups := ["g"] } {} { pageSize := 5 } = .ok l ∧
      groupNote ∈ l.items :=
  (@read_paths_agree .plain 2 _ (Table.empty.put groupNote) { userID := "u", groups := ["g"] } {} groupNote 5
    (by decide) (by decide) (by decide) (by decide) (by decide)).1.mp rfl

end SynaMcp
