import SynaMcp.Knowledge.Reading
import SynaMcp.Lib.GoMaps
import SynaMcp.Lib.Ranking

/-! `knowledge.Search`: the vector store ranks the records and cuts off at a number, and
the service then drops what the caller may not read. So such documents take places of
the list. -/
namespace SynaMcp
open Bindings Keyed List Ranking GoMaps

structure VectorRecord (Vec : Type) where
  vector : Vec
  docID : String
  (storageID source sourceURL text : String := "")
  deriving DecidableEq, Repr

structure SearchRequest where
  query : String
  topK : Int := 0
  filters : PageRequest := {}
  deriving DecidableEq, Repr

/-- The snippet is missing where cutting it out of the text panics. -/
structure SearchHit (σ : Type) where
  (docID title : String)
  snippet : Option String
  score : σ
  visibility : Visibility
  (source sourceURL : String)
  deriving DecidableEq, Repr

/-- `strings.ToLower`, and `ILIKE` of the database. -/
class SearchLib where
  toLower : String → String
  ilike : (text pattern : String) → Bool

@[reducible] def SearchLib.plain : SearchLib where
  toLower s := s
  ilike _ _ := true

def indexOfRunes (q : List Char) : List Char → Option Nat
  | [] => if q = [] then some 0 else none
  | c :: rest => if q.isPrefixOf (c :: rest) then some 0 else (indexOfRunes q rest).map (· + 1)

/-- The place is one in the lower case text, which can be longer than the text. -/
def extractSnippet [SearchLib] (text query : String) : Option String :=
  if query = "" then some text
  else
    match indexOfRunes (SearchLib.toLower query).toList (SearchLib.toLower text).toList with
    | none => some (if 180 < text.toList.length then String.ofList (text.toList.take 180) else text)
    | some idx =>
      let stop := min (idx + query.toList.length + 100) text.toList.length
      if stop < idx - 50 then none else some (String.ofList ((text.toList.take stop).drop (idx - 50)))

theorem indexOfRunes_some {q l i} (h : indexOfRunes q l = some i) : q <+: l.drop i := by
  induction l generalizing i with
  | nil =>
    rw [indexOfRunes] at h
    split at h
    · next none => simp [none]
    · cases h
  | cons c rest ih =>
    rw [indexOfRunes] at h
    split at h
    · next found =>
      cases h
      exact isPrefixOf_iff_prefix.mp found
    · obtain ⟨_, found, rfl⟩ := Option.map_eq_some_iff.mp h
      exact ih found

theorem indexOfRunes_none {q l} (h : indexOfRunes q l = none) : ¬ q <:+: l := by
  induction l with
  | nil => simpa [indexOfRunes] using h
  | cons c rest ih =>
    rw [indexOfRunes] at h
    split at h
    · cases h
    · next missed =>
      rw [infix_cons_iff, not_or, ← isPrefixOf_iff_prefix]
      exact ⟨missed, ih (Option.map_eq_none_iff.mp h)⟩

/-- With lower case rune by rune, a snippet is cut out of the text without a panic, and it
shows the query exactly where the text has it. -/
theorem snippet_shows_query (lower : Char → Char) (ilike : String → String → Bool) (text query : String) :
    ∃ snippet, @extractSnippet ⟨fun s => String.ofList (s.toList.map lower), ilike⟩ text query = some snippet ∧
      snippet.toList <:+: text.toList ∧
      (query.toList.map lower <:+: snippet.toList.map lower ↔ query.toList.map lower <:+: text.toList.map lower) := by
  simp only [extractSnippet, String.toList_ofList]
  split
  · exact ⟨text, rfl, infix_rfl, .rfl⟩
  · next given =>
    split
    · next missed =>
      have part : (if 180 < text.toList.length then String.ofList (text.toList.take 180) else text).toList <:+:
          text.toList := by
        split
        · rw [String.toList_ofList]
          exact ( take_prefix 180 text.toList).isInfix
        · exact infix_rfl
      have missing := indexOfRunes_none missed
      exact ⟨_, rfl, part, fun found => found.trans (part.map lower), fun found => absurd found missing⟩
    · next idx found =>
      have place := indexOfRunes_some found
      have room := place.length_le
      have some : 0 < query.toList.length := length_pos_iff.mpr (mt String.toList_eq_nil_iff.mp given)
      simp only [length_drop, length_map] at room
      have part : (text.toList.take (min (idx + query.toList.length + 100) text.toList.length)).drop (idx - 50) <:+:
          text.toList := (drop_suffix _ _).isInfix.trans ( take_prefix _ _).isInfix
      rw [if_neg (by omega)]
      refine ⟨_, rfl, by rwa [String.toList_ofList], fun shown => ?_, fun _ => ?_⟩
      · rw [String.toList_ofList] at shown
        exact shown.trans (part.map lower)
      · rw [String.toList_ofList, map_drop, map_take]
        have start := prefix_take_iff.mpr ⟨place, by
          show _ ≤ min (idx + query.toList.length + 100) text.toList.length - idx
          rw [length_map]
          omega⟩
        rw [← drop_take] at start
        exact start.isInfix.trans (drop_suffix_drop_left _ (Nat.sub_le idx 50)).isInfix

/-! The vector stores. -/

section
variable {Vec σ : Type}

def VectorRecord.matchesFilter (contains : String → String → Bool) (filter : PageRequest) (r : VectorRecord Vec) : Bool :=
  (filter.storageID = "" || r.storageID = filter.storageID) && (filter.source = "" || r.source = filter.source) &&
    (filter.sourceURL = "" ||
      if filter.sourceURLMode = "partial" then contains r.sourceURL filter.sourceURL
      else r.sourceURL = filter.sourceURL)

def maxVectorScan : Nat := 50000

/-- The store in memory, the table in Postgres, with the order in which it gives its
rows, or a collection of Qdrant. -/
inductive VectorBackend where
  | memory
  | postgres (order : Nat → Nat)
  | qdrant

variable [LinearOrder σ]

/-- The records with the largest scores; all of them if no number is given. -/
def topRecords (score : Vec → σ) (topK : Int) (records : List (VectorRecord Vec)) : List (VectorRecord Vec × σ) :=
  let topK := if topK ≤ 0 ∨ records.length < topK then records.length else topK.toNat
  (Ranking.best (fun r : VectorRecord Vec => score r.vector) topK records).map fun r => (r, score r.vector)

def likePart [SearchLib] (text part : String) : Bool := SearchLib.ilike text ("%" ++ part ++ "%")

/-- Qdrant does not know of the filter. -/
def VectorBackend.search [SearchLib] (b : VectorBackend) (score : Vec → σ) (records : List (VectorRecord Vec)) (topK : Int)
    (filter : PageRequest) : List (VectorRecord Vec × σ) :=
  match b with
  | .memory => topRecords score topK (records.filter (VectorRecord.matchesFilter GoStrings.contains filter))
  | .postgres order =>
    let rows := records.filter (VectorRecord.matchesFilter likePart filter)
    topRecords score topK ((range order rows).take maxVectorScan)
  | .qdrant =>
    (topRecords score (if topK ≤ 0 then 10 else topK) records).filter fun r =>
      r.1.matchesFilter GoStrings.contains filter

end

section
variable [Digests]

def hitDocument (docs : Catalog) (p : Principal) (readable : List String) (docID : String) : Option DocumentRecord :=
  if docID = "" then none
  else
    match docs.get? docID with
    | none => none
    | some doc =>
      if doc.status ≠ "" ∧ doc.status ≠ "ready" then none
      else if !canReadDocCached p doc readable then none
      else some doc

variable [SearchLib] {Vec σ : Type}

def searchHit (docs : Catalog) (p : Principal) (readable : List String) (query : String) (r : VectorRecord Vec × σ) :
    Option (SearchHit σ) :=
  (hitDocument docs p readable r.1.docID).map fun doc =>
    { docID := doc.docID, title := doc.title
      snippet := if query ≠ "" then extractSnippet r.1.text query else some r.1.text
      score := r.2, visibility := doc.visibility, source := doc.source, sourceURL := doc.sourceURL }

/-- A part of a URL is looked for only where that is allowed. -/
def searchFilter (allowPartial : Bool) (page : PageRequest) : PageRequest :=
  let mode := if page.sourceURLMode = "" then "exact" else page.sourceURLMode
  { page with sourceURLMode := if mode = "partial" ∧ !allowPartial then "exact" else mode }

/-- The embedding of the query is that of the pipeline. -/
def knowledgeSearch [LinearOrder σ] (embed : String → Except String Vec) (score : Vec → Vec → σ) (b : VectorBackend)
    (now : Time) (s : Store) (records : List (VectorRecord Vec)) (docs : Catalog) (p : Principal) (ac : APIAccessContext)
    (req : SearchRequest) (allowPartial : Bool) : Except String (List (SearchHit σ)) :=
  let readable := readableStorageIDs now s p ac.accessToken ac.allowedStorage
  if req.filters.storageID ≠ "" ∧ req.filters.storageID ∉ readable then .error "forbidden"
  else
    match embed req.query with
    | .error e => .error e
    | .ok vec =>
      let recs := b.search (score vec) records req.topK (searchFilter allowPartial req.filters)
      .ok (recs.filterMap (searchHit docs p readable req.query))

end

section
variable {Vec σ : Type} [LinearOrder σ] {score : Vec → σ} {l l' : List (VectorRecord Vec)} {topK : Int}

/-- The cut is at a number that does not depend on how many records there are. -/
theorem topRecords_eq {n} (bound : l.length ≤ n) : topRecords score topK l =
      (Ranking.best (fun r : VectorRecord Vec => score r.vector) (if topK ≤ 0 then n else topK.toNat) l).map
        fun r => (r, score r.vector) := by
  have size := (sorted_perm (fun r : VectorRecord Vec => score r.vector) l).length_eq
  unfold topRecords Ranking.best
  refine congrArg (map _) ?_
  by_cases none : topK ≤ 0
  · rw [if_pos (.inl none), if_pos none, take_of_length_le (Nat.le_of_eq size), take_of_length_le (size ▸ bound)]
  · rw [if_neg none]
    by_cases more : (l.length : Int) < topK
    · rw [if_pos (.inr more), take_of_length_le (Nat.le_of_eq size), take_of_length_le (by omega)]
    · rw [if_neg (not_or.mpr ⟨none, more⟩)]

theorem topRecords_perm (noTies : Ranking.NoTies (fun r : VectorRecord Vec => score r.vector) l) (same : l.Perm l') :
    topRecords score topK l = topRecords score topK l' := by
  have order : Ranking.sorted (fun r : VectorRecord Vec => score r.vector) l = Ranking.sorted _ l' :=
    noTies.sorted_unique (same.trans (sorted_perm _ l').symm) (noTies.perm same).pairwise_sorted
  simp only [topRecords, Ranking.best, order, same.length_eq]

end

section
variable [Digests] [SearchLib] {Vec σ : Type} {docs docs' : Catalog} {p : Principal} {readable : List String}
  {query : String} {docID : String} {k : Nat}

def found (docs : Catalog) (p : Principal) (readable : List String) (r : VectorRecord Vec) : Bool :=
  (hitDocument docs p readable r.docID).isSome

omit [SearchLib] in
theorem hitDocument_congr (same : docs'.get? docID = docs.get? docID) :
    hitDocument docs' p readable docID = hitDocument docs p readable docID := by
  unfold hitDocument
  rw [same]

omit [SearchLib] in
theorem hitDocument_of_unreadable (unreadable : ∀ d ∈ docs.get? docID, canReadDocCached p d readable = false) :
    hitDocument docs p readable docID = none := by
  unfold hitDocument
  split
  · rfl
  · split
    · rfl
    · next d stored =>
      rw [unreadable d stored]
      split <;> rfl

omit [SearchLib] in
theorem found_of_unreadable {r : VectorRecord Vec} (unreadable : ∀ d ∈ docs.get? r.docID, canReadDocCached p d readable = false) :
    found docs p readable r = false := by
  rw [found, hitDocument_of_unreadable unreadable]
  rfl

theorem isSome_searchHit (query : String) (r : VectorRecord Vec) (score : σ) :
    (searchHit docs p readable query (r, score)).isSome = found docs p readable r := by
  rw [searchHit, Option.isSome_map]
  rfl

theorem score_searchHit {x : VectorRecord Vec × σ} {hit}
    (is : searchHit docs p readable query x = some hit) : hit.score = x.2 := by
  obtain ⟨_, _, rfl⟩ := Option.map_eq_some_iff.mp is
  rfl

theorem filterMap_searchHit (score : Vec → σ) (l : List (VectorRecord Vec)) :
    (l.map fun r => (r, score r.vector)).filterMap (searchHit docs p readable query) =
      (l.filter (found docs p readable)).filterMap fun r => searchHit docs p readable query (r, score r.vector) := by
  rw [filterMap_map, filterMap_filter]
  refine filterMap_congr fun r _ => ?_
  rw [Function.comp_apply]
  split
  · rfl
  · next none =>
    rw [← isSome_searchHit query r (score r.vector)] at none
    simpa using none

def hitsOf (docs : Catalog) (p : Principal) (readable : List String) (query : String) (score : Vec → σ)
    (l : List (VectorRecord Vec)) : List (SearchHit σ) :=
  l.filterMap fun r => searchHit docs p readable query (r, score r.vector)

theorem length_hitsOf {score : Vec → σ} {l} (all : ∀ r ∈ l, found docs p readable r = true) :
    (hitsOf docs p readable query score l).length = l.length := by
  refine List.filterMap_length_eq_length.mpr fun r mem => ?_
  rw [isSome_searchHit]
  exact all r mem

theorem hitsOf_congr {score : Vec → σ} {l} (same : ∀ r ∈ l, docs'.get? r.docID = docs.get? r.docID) :
    hitsOf docs' p readable query score l = hitsOf docs p readable query score l := by
  refine filterMap_congr fun r mem => ?_
  rw [searchHit, searchHit, hitDocument_congr (same r mem)]

variable {records : List (VectorRecord Vec)} {removed : List String}

omit [Digests] [SearchLib] in
theorem mem_best {f : VectorRecord Vec → σ} [LinearOrder σ] {l r} (mem : r ∈ Ranking.best f k l) : r ∈ l :=
  (sorted_perm f l).mem_iff.mp (mem_of_mem_take mem)

/-- Documents that are left out change the hits, by some scores, if something is cut off,
some of their records compete, and something is found. -/
theorem cut_iff (query : String) (distinct : (records.map VectorRecord.vector).Nodup) {m test : VectorRecord Vec → Bool}
    (tests : ∀ r ∈ records.filter m, test r = true → found docs p readable r = true ∧ r.docID ∉ removed)
    (others : ∀ id ∉ removed, docs'.get? id = docs.get? id) (pos : 0 < k ∨ (records.filter m).length ≤ k) :
    (∀ (σ : Type) [LinearOrder σ] (score : Vec → σ), Ranking.NoTies (fun r : VectorRecord Vec => score r.vector) records →
      hitsOf docs p readable query score ((Ranking.best (fun r => score r.vector) k (records.filter m)).filter test) =
        hitsOf docs' p readable query score ((Ranking.best (fun r => score r.vector) k
          ((records.filter m).filter fun r => r.docID ∉ removed)).filter test)) ↔
      (records.filter m).length ≤ k ∨ (∀ r ∈ records.filter m, r.docID ∉ removed) ∨
        ∀ r ∈ records.filter m, test r = false := by
  classical
  have imp : ∀ r ∈ records.filter m, test r = true → decide (r.docID ∉ removed) = true :=
    fun r mem passes => decide_eq_true (tests r mem passes).2
  have inside : ∀ {σ : Type} [LinearOrder σ] {f : VectorRecord Vec → σ} {q r},
      r ∈ (Ranking.best f k ((records.filter m).filter q)).filter test →
        found docs p readable r = true ∧ r.docID ∉ removed := by
    intro σ _ f q r mem
    obtain ⟨mem, passes⟩ := List.mem_filter.mp mem
    exact tests r (mem_of_mem_filter (mem_best mem)) passes
  constructor
  · intro same
    by_contra none
    simp only [not_or, not_le, not_forall] at none
    obtain ⟨cut, ⟨a, mem, left⟩, b, mem', hit⟩ := none
    obtain ⟨score, noTies, less⟩ := exists_dependent distinct rfl imp (pos.resolve_right (not_le_of_gt cut)) cut
      ⟨a, mem, decide_eq_false left⟩ ⟨b, mem', by simpa using hit⟩
    have same := (same Int score noTies).trans (hitsOf_congr fun r mem => others _ (inside mem).2)
    have sizes := congrArg length same
    rw [length_hitsOf fun r mem => ?_, length_hitsOf fun r mem => (inside mem).1] at sizes
    · exact absurd sizes (ne_of_lt less)
    · obtain ⟨mem, passes⟩ := List.mem_filter.mp mem
      exact (tests r (mem_best mem) passes).1
  · intro cond σ _ score noTies
    refine Eq.trans ?_ (hitsOf_congr fun r mem => others _ (inside mem).2).symm
    rw [(noTies.filter m).independent imp]
    refine cond.imp_right (Or.imp_left fun kept r mem => ?_)
    exact decide_eq_true (kept r mem)

end

section
variable [Digests] [SearchLib] {Vec : Type} (embed : String → Except String Vec) (now : Time) (s : Store)
  (records : List (VectorRecord Vec)) (docs docs' : Catalog) (p : Principal) (ac : APIAccessContext) (req : SearchRequest)
  (allowPartial : Bool) (removed : List String)

/-- Whatever the scores are, the hits are the same without the documents that are removed. -/
def SameHits (b b' : VectorBackend) : Prop :=
  ∀ (σ : Type) [LinearOrder σ] (score : Vec → Vec → σ),
    (∀ v, Ranking.NoTies (fun r : VectorRecord Vec => score v r.vector) records) →
    knowledgeSearch embed score b now s records docs p ac req allowPartial =
      knowledgeSearch embed score b' now s (records.filter fun r => r.docID ∉ removed) docs' p ac req allowPartial

/-- The storage that is asked for is not readable, or the query has no embedding. -/
def SearchRefused : Prop :=
  (req.filters.storageID ≠ "" ∧ req.filters.storageID ∉ readableStorageIDs now s p ac.accessToken ac.allowedStorage) ∨
    ∃ e, embed req.query = .error e

def searchCandidates (contains : String → String → Bool) : List (VectorRecord Vec) :=
  records.filter (VectorRecord.matchesFilter contains (searchFilter allowPartial req.filters))

end

section
variable [Digests] [SearchLib] {Vec : Type} {embed : String → Except String Vec} {now : Time} {s : Store}
  {records : List (VectorRecord Vec)} {docs docs' : Catalog} {p : Principal} {ac : APIAccessContext} {req : SearchRequest}
  {allowPartial : Bool} {removed : List String}

theorem sameHits_of_refused (refused : SearchRefused embed now s p ac req) (b b' : VectorBackend) :
    SameHits embed now s records docs docs' p ac req allowPartial removed b b' := by
  intro σ _ score _
  unfold knowledgeSearch
  by_cases forbidden : req.filters.storageID ≠ "" ∧
      req.filters.storageID ∉ readableStorageIDs now s p ac.accessToken ac.allowedStorage
  · simp only [if_pos forbidden]
  · obtain ⟨_, failed⟩ := refused.resolve_left forbidden
    simp only [if_neg forbidden, failed]

theorem sameHits_iff (accepted : ¬SearchRefused embed now s p ac req) (b b' : VectorBackend) :
    SameHits embed now s records docs docs' p ac req allowPartial removed b b' ↔
      ∀ (σ : Type) [LinearOrder σ] (score : Vec → σ),
        Ranking.NoTies (fun r : VectorRecord Vec => score r.vector) records →
        (b.search score records req.topK (searchFilter allowPartial req.filters)).filterMap
            (searchHit docs p (readableStorageIDs now s p ac.accessToken ac.allowedStorage) req.query) =
          (b'.search score (records.filter fun r => r.docID ∉ removed) req.topK
            (searchFilter allowPartial req.filters)).filterMap
              (searchHit docs' p (readableStorageIDs now s p ac.accessToken ac.allowedStorage) req.query) := by
  obtain ⟨allowed, embeds⟩ := not_or.mp accepted
  cases embedded : embed req.query with
  | error e => exact absurd ⟨e, embedded⟩ embeds
  | ok vec =>
    constructor
    · intro same σ _ score noTies
      have equal := same σ (fun _ => score) fun _ => noTies
      simp only [knowledgeSearch, if_neg allowed, embedded, Except.ok.injEq] at equal
      exact equal
    · intro same σ _ score noTies
      simp only [knowledgeSearch, if_neg allowed, embedded, Except.ok.injEq]
      exact same σ (score vec) (noTies vec)

variable {readable : List String}

/-- The hits of the best records, in a catalog that has the same documents for them. -/
theorem hits_topRecords {σ : Type} [LinearOrder σ] {score : Vec → σ} {query l topK n} (bound : l.length ≤ n) (same : ∀ r ∈ l, docs'.get? r.docID = docs.get? r.docID) :
    (topRecords score topK l).filterMap (searchHit docs' p readable query) = hitsOf docs' p readable query score
        ((Ranking.best (fun r => score r.vector) (if topK ≤ 0 then n else topK.toNat) l).filter (found docs p readable)) := by
  rw [topRecords_eq bound, filterMap_searchHit, hitsOf]
  refine congrArg (filterMap _) (filter_congr fun r mem => ?_)
  rw [found, found, hitDocument_congr (same r (mem_best mem))]

omit [SearchLib] in
theorem not_removed_of_found (unreadable : ∀ id ∈ removed, ∀ d ∈ docs.get? id, canReadDocCached p d readable = false)
    {r : VectorRecord Vec} (hit : found docs p readable r = true) : r.docID ∉ removed := by
  intro out
  rw [found_of_unreadable (unreadable _ out)] at hit
  cases hit

omit [Digests] [SearchLib] in
theorem length_le_cut {n} {topK : Int} : n ≤ (if topK ≤ 0 then n else topK.toNat) ↔ topK ≤ 0 ∨ (n : Int) ≤ topK := by
  split <;> omega

section
variable (distinct : (records.map VectorRecord.vector).Nodup)
  (unreadable : ∀ id ∈ removed, ∀ d ∈ docs.get? id, canReadDocCached p d readable = false)
  (others : ∀ id ∉ removed, docs'.get? id = docs.get? id) {σ : Type} {score : Vec → σ} {l : List (VectorRecord Vec)}
include distinct unreadable others

variable (query : String) (topK : Int) (m : VectorRecord Vec → Bool)

theorem topRecords_iff :
    (∀ (σ : Type) [LinearOrder σ] (score : Vec → σ), Ranking.NoTies (fun r : VectorRecord Vec => score r.vector) records →
      (topRecords score topK (records.filter m)).filterMap (searchHit docs p readable query) =
        (topRecords score topK ((records.filter m).filter fun r => r.docID ∉ removed)).filterMap
          (searchHit docs' p readable query)) ↔
      (topK ≤ 0 ∨ ((records.filter m).length : Int) ≤ topK) ∨ (∀ r ∈ records.filter m, r.docID ∉ removed) ∨
        ∀ r ∈ records.filter m, found docs p readable r = false := by
  rw [← length_le_cut]
  have tests : ∀ r ∈ records.filter m, found docs p readable r = true →
      found docs p readable r = true ∧ r.docID ∉ removed :=
    fun r _ hit => ⟨hit, not_removed_of_found unreadable hit⟩
  refine Iff.trans ?_ (cut_iff query distinct tests others ?_)
  · refine forall_congr' fun σ => forall_congr' fun _ => forall_congr' fun score => imp_congr_right fun _ => ?_
    rw [hits_topRecords (le_refl _) fun _ _ => rfl, hits_topRecords (length_filter_le _ _) fun r mem => ?_]
    exact others _ (of_decide_eq_true (List.mem_filter.mp mem).2)
  · split
    · exact .inr (le_refl _)
    · exact .inl (by omega)

omit distinct unreadable others [Digests] [SearchLib] in
theorem mem_topRecords [LinearOrder σ] {topK : Int}
    {x} (mem : x ∈ topRecords score topK l) : x.1 ∈ l ∧ x.2 = score x.1.vector := by
  obtain ⟨_, best, rfl⟩ := List.mem_map.mp mem
  exact ⟨mem_best best, rfl⟩

omit distinct unreadable others in
theorem no_hits [LinearOrder σ] {query topK} (none : ∀ r ∈ l, found docs p readable r = false) :
    (topRecords score topK l).filterMap (searchHit docs p readable query) = [] := by
  refine List.filterMap_eq_nil_iff.mpr fun x mem => ?_
  have missing : (searchHit docs p readable query x).isSome = false :=
    (isSome_searchHit query x.1 x.2).trans (none x.1 (mem_topRecords mem).1)
  simpa using missing

omit unreadable others [Digests] [SearchLib] in
/-- By some scores and some order of the rows, a record that is found is not looked at. -/
theorem scan_misses {b m} (keep : VectorRecord Vec → Bool)
    (many : maxVectorScan < (records.filter m).length) (mem : b ∈ records.filter m) (kept : keep b = true) :
    ∃ (order order' : Nat → Nat) (score : Vec → Int), Ranking.NoTies (fun r : VectorRecord Vec => score r.vector) records ∧
      b ∉ (range order (records.filter m)).take maxVectorScan ∧ ∀ topK, (b, score b.vector) ∈
        topRecords score topK ((range order' ((records.filter m).filter keep)).take maxVectorScan) := by
  classical
  -- The record has the largest score, and is the last row; without the others it is the first row.
  obtain ⟨order, last⟩ := exists_range
    ((perm_append_singleton b ((records.filter m).erase b)).trans (perm_cons_erase mem).symm)
  obtain ⟨order', first⟩ := exists_range (perm_cons_erase (List.mem_filter.mpr ⟨mem, kept⟩)).symm
  obtain ⟨score, noTies, sorted⟩ := exists_score distinct m (perm_cons_erase mem)
  have nodup : (records.filter m).Nodup := (distinct.of_map _).filter m
  have ties : Ranking.NoTies (fun r : VectorRecord Vec => score r.vector) (records.filter m) := noTies.filter m
  refine ⟨order, order', score, noTies, ?_, fun topK => ?_⟩
  · have size : ((records.filter m).erase b).length = (records.filter m).length - 1 := length_erase_of_mem mem
    rw [last, take_append_of_le_length (by omega)]
    exact fun inside => nodup.not_mem_erase (mem_of_mem_take inside)
  · rw [first]
    have seen : b ∈ (b :: ((records.filter m).filter keep).erase b).take maxVectorScan := by
      rw [show maxVectorScan = 49999 + 1 from rfl, take_succ_cons]
      exact mem_cons_self
    have inside : ∀ r ∈ (b :: ((records.filter m).filter keep).erase b).take maxVectorScan, r ∈ records.filter m := by
      intro r row
      rcases List.mem_cons.mp (mem_of_mem_take row) with rfl | row
      · exact mem
      · exact mem_of_mem_filter (mem_of_mem_erase row)
    have few := ((ties.filter keep).perm (perm_cons_erase (List.mem_filter.mpr ⟨mem, kept⟩))).sublist
      ((take_sublist maxVectorScan _).map _)
    rw [topRecords_eq (le_refl _)]
    refine List.mem_map.mpr ⟨b, Ranking.NoTies.mem_best few seen (fun r row => ?_) ?_, rfl⟩
    · have best := ties.pairwise_sorted
      rw [show Ranking.sorted (fun r : VectorRecord Vec => score r.vector) (records.filter m) =
        b :: (records.filter m).erase b from sorted] at best
      rcases List.mem_cons.mp ((perm_cons_erase mem).mem_iff.mp (inside r row)) with rfl | other
      · exact le_refl _
      · exact le_of_lt (rel_of_pairwise_cons best other)
    · split
      · exact length_pos_of_mem seen
      · omega

theorem postgres_iff : (∀ (order order' : Nat → Nat) (σ : Type) [LinearOrder σ] (score : Vec → σ),
      Ranking.NoTies (fun r : VectorRecord Vec => score r.vector) records →
      (topRecords score topK ((range order (records.filter m)).take maxVectorScan)).filterMap
          (searchHit docs p readable query) =
        (topRecords score topK ((range order' ((records.filter m).filter fun r => r.docID ∉ removed)).take
          maxVectorScan)).filterMap (searchHit docs' p readable query)) ↔
      (∀ r ∈ records.filter m, found docs p readable r = false) ∨ (records.filter m).length ≤ maxVectorScan ∧
        ((topK ≤ 0 ∨ ((records.filter m).length : Int) ≤ topK) ∨ ∀ r ∈ records.filter m, r.docID ∉ removed) := by
  have scan : ∀ {l : List (VectorRecord Vec)} {order : Nat → Nat}, l.length ≤ maxVectorScan →
      (range order l).take maxVectorScan = range order l := by
    intro l order few
    exact take_of_length_le ((range_perm order l).length_eq ▸ few)
  have rows : (records.filter m).length ≤ maxVectorScan → ∀ (order order' : Nat → Nat) (σ : Type) [LinearOrder σ]
      (score : Vec → σ), Ranking.NoTies (fun r : VectorRecord Vec => score r.vector) records →
      topRecords score topK ((range order (records.filter m)).take maxVectorScan) =
          topRecords score topK (records.filter m) ∧
        topRecords score topK ((range order' ((records.filter m).filter fun r => r.docID ∉ removed)).take
          maxVectorScan) = topRecords score topK ((records.filter m).filter fun r => r.docID ∉ removed) := by
    intro few order order' σ _ score noTies
    rw [scan few, scan ((length_filter_le _ _).trans few)]
    refine ⟨?_, ?_⟩
    · exact (topRecords_perm (noTies.filter m) (range_perm _ _).symm).symm
    · exact (topRecords_perm ((noTies.filter m).filter _) (range_perm _ _).symm).symm
  constructor
  · intro same
    by_cases none : ∀ r ∈ records.filter m, found docs p readable r = false
    · exact .inl none
    · refine .inr ?_
      by_cases few : (records.filter m).length ≤ maxVectorScan
      · refine ⟨few, ?_⟩
        have cond := (topRecords_iff distinct unreadable others query topK m).mp fun σ _ score noTies => by
          obtain ⟨all, without⟩ := rows few id id σ score noTies
          rw [← all, ← without]
          exact same id id σ score noTies
        exact cond.imp_right fun or => or.resolve_right none
      · simp only [not_forall, Bool.not_eq_false] at none
        obtain ⟨b, mem, hit⟩ := none
        have kept := not_removed_of_found unreadable hit
        obtain ⟨order, order', score, noTies, missed, seen⟩ := scan_misses distinct (fun r => r.docID ∉ removed)
          (not_le.mp few) mem (decide_eq_true kept)
        have hit : (searchHit docs' p readable query (b, score b.vector)).isSome = true := by
          rw [isSome_searchHit, found, hitDocument_congr (others _ kept)]
          exact hit
        obtain ⟨_, is⟩ := Option.isSome_iff_exists.mp hit
        have listed := List.mem_filterMap.mpr ⟨_, seen topK, is⟩
        rw [← same order order' Int score noTies] at listed
        obtain ⟨x, best, is'⟩ := List.mem_filterMap.mp listed
        obtain ⟨row, own⟩ := mem_topRecords best
        have equal : score x.1.vector = score b.vector := own.symm.trans ((score_searchHit is').symm.trans (score_searchHit is))
        have stored := mem_of_mem_filter (GoMaps.mem_range.mp (mem_of_mem_take row))
        rw [inj_on_of_nodup_map noTies stored (mem_of_mem_filter mem) equal] at row
        exact absurd row missed
  · rintro (none | ⟨few, cond⟩) order order' σ _ score noTies
    · rw [no_hits fun r mem => none r (GoMaps.mem_range.mp (mem_of_mem_take mem))]
      refine (no_hits fun r mem => ?_).symm
      obtain ⟨mem, kept⟩ := List.mem_filter.mp (GoMaps.mem_range.mp (mem_of_mem_take mem))
      rw [found, hitDocument_congr (others _ (of_decide_eq_true kept))]
      exact none r mem
    · obtain ⟨all, without⟩ := rows few order order' σ score noTies
      rw [all, without]
      exact (topRecords_iff distinct unreadable others query topK m).mpr (cond.imp_right .inl) σ score noTies

/-- The limit of Qdrant is for all records, and the filter comes after it. -/
theorem qdrant_iff (query : String) {limit : Int} (pos : 0 < limit) (m : VectorRecord Vec → Bool) :
    (∀ (σ : Type) [LinearOrder σ] (score : Vec → σ), Ranking.NoTies (fun r : VectorRecord Vec => score r.vector) records →
      ((topRecords score limit records).filter fun x => m x.1).filterMap (searchHit docs p readable query) =
        ((topRecords score limit (records.filter fun r => r.docID ∉ removed)).filter fun x => m x.1).filterMap
          (searchHit docs' p readable query)) ↔ (records.length : Int) ≤ limit ∨ (∀ r ∈ records, r.docID ∉ removed) ∨
        ∀ r ∈ records, m r = true → found docs p readable r = false := by
  have whole : records.filter (fun _ => true) = records := List.filter_eq_self.mpr fun _ _ => rfl
  have tests : ∀ r ∈ records.filter (fun _ => true), (found docs p readable r && m r) = true →
      found docs p readable r = true ∧ r.docID ∉ removed := by
    intro r _ passes
    have hit := (Bool.and_eq_true_iff.mp passes).1
    exact ⟨hit, not_removed_of_found unreadable hit⟩
  have cut := cut_iff query distinct tests others (.inl (Int.pos_iff_toNat_pos.mp pos))
  rw [whole] at cut
  have hits : ∀ {σ : Type} [LinearOrder σ] (score : Vec → σ) {l : List (VectorRecord Vec)} {cat : Catalog},
      (∀ r ∈ l, cat.get? r.docID = docs.get? r.docID) →
      ((topRecords score limit l).filter fun x => m x.1).filterMap (searchHit cat p readable query) =
        hitsOf cat p readable query score ((Ranking.best (fun r => score r.vector) limit.toNat l).filter
          fun r => found docs p readable r && m r) := by
    intro σ _ score l cat same
    rw [topRecords_eq (le_refl _), if_neg (not_le.mpr pos), filter_map, filterMap_searchHit, hitsOf, filter_filter]
    refine congrArg (filterMap _) (filter_congr fun r mem => ?_)
    rw [found, found, hitDocument_congr (same r (mem_best mem))]
    rfl
  refine Iff.trans ?_ (cut.trans ?_)
  · refine forall_congr' fun σ => forall_congr' fun _ => forall_congr' fun score => imp_congr_right fun _ => ?_
    rw [hits score fun _ _ => rfl, hits score fun r mem => others _ (of_decide_eq_true (List.mem_filter.mp mem).2)]
  · refine or_congr (by omega) (or_congr_right ?_)
    refine forall_congr' fun r => imp_congr_right fun _ => ?_
    cases m r <;> simp

end

/-- Documents that the caller may not read do not influence the hits, whatever the
scores, exactly where no record is cut off, none of theirs takes part, or nothing is
found. -/
theorem search_independent_iff (distinct : (records.map VectorRecord.vector).Nodup)
    (unreadable : ∀ id ∈ removed, ∀ d ∈ docs.get? id,
      canReadDocCached p d (readableStorageIDs now s p ac.accessToken ac.allowedStorage) = false)
    (others : ∀ id ∉ removed, docs'.get? id = docs.get? id) :
    (SameHits embed now s records docs docs' p ac req allowPartial removed .memory .memory ↔
      SearchRefused embed now s p ac req ∨
      (req.topK ≤ 0 ∨ ((searchCandidates records req allowPartial GoStrings.contains).length : Int) ≤ req.topK) ∨
      (∀ r ∈ searchCandidates records req allowPartial GoStrings.contains, r.docID ∉ removed) ∨
      ∀ r ∈ searchCandidates records req allowPartial GoStrings.contains,
        found docs p (readableStorageIDs now s p ac.accessToken ac.allowedStorage) r = false) ∧
    ((∀ order order', SameHits embed now s records docs docs' p ac req allowPartial removed (.postgres order)
        (.postgres order')) ↔
      SearchRefused embed now s p ac req ∨
      (∀ r ∈ searchCandidates records req allowPartial likePart,
        found docs p (readableStorageIDs now s p ac.accessToken ac.allowedStorage) r = false) ∨
      (searchCandidates records req allowPartial likePart).length ≤ maxVectorScan ∧
        ((req.topK ≤ 0 ∨ ((searchCandidates records req allowPartial likePart).length : Int) ≤ req.topK) ∨
          ∀ r ∈ searchCandidates records req allowPartial likePart, r.docID ∉ removed)) ∧
    (SameHits embed now s records docs docs' p ac req allowPartial removed .qdrant .qdrant ↔
      SearchRefused embed now s p ac req ∨
      (records.length : Int) ≤ (if req.topK ≤ 0 then 10 else req.topK) ∨ (∀ r ∈ records, r.docID ∉ removed) ∨
      ∀ r ∈ records, r.matchesFilter GoStrings.contains (searchFilter allowPartial req.filters) = true →
        found docs p (readableStorageIDs now s p ac.accessToken ac.allowedStorage) r = false) := by
  by_cases refused : SearchRefused embed now s p ac req
  · exact ⟨iff_of_true (sameHits_of_refused refused _ _) (.inl refused),
      iff_of_true (fun _ _ => sameHits_of_refused refused _ _) (.inl refused),
      iff_of_true (sameHits_of_refused refused _ _) (.inl refused)⟩
  · have comm : ∀ m : VectorRecord Vec → Bool, (records.filter fun r => r.docID ∉ removed).filter m =
        (records.filter m).filter fun r => r.docID ∉ removed := fun m => filter_comm m _ records
    have positive : (0 : Int) < if req.topK ≤ 0 then 10 else req.topK := by split <;> omega
    simp only [sameHits_iff refused, refused, false_or, VectorBackend.search, comm]
    exact ⟨topRecords_iff distinct unreadable others req.query req.topK _,
      postgres_iff distinct unreadable others req.query req.topK _,
      qdrant_iff distinct unreadable others req.query positive _⟩

end

def someNotes : Catalog :=
  (Table.empty.put { docID := "x", storageID := "s", ownerID := "v", visibility := .personal }).put
    { docID := "d", storageID := "s", visibility := .public }

def someRecords : List (VectorRecord Nat) := [{ vector := 2, docID := "x" }, { vector := 1, docID := "d" }]

/-- The storage of the notes, which `u` may read. -/
def someStore : Store := (Store.empty.createStorage (draws "x") { id := "s", ownerSubjectKey := "user:internal:u" } "u").1

theorem search_without_limit :
    @SameHits .plain .plain Nat (fun _ => .ok 0) 2 someStore someRecords someNotes (someNotes.delete "x") { userID := "u" } {}
      { query := "q" } false ["x"] .memory .memory :=
  (@search_independent_iff .plain .plain Nat (fun _ => .ok 0) 2 someStore someRecords someNotes (someNotes.delete "x")
    { userID := "u" } {} { query := "q" } false ["x"] (by decide) (by decide +kernel)
    (fun id other => Table.get?_delete_of_ne _ (by simpa using other))).1.mpr (.inr (.inl (.inl (by decide))))

/-- With a limit of one, a note that the caller may not read takes the place of one that
is there without it. -/
theorem search_tells_of_unreadable :
    (∀ id ∈ ["x"], ∀ d ∈ someNotes.get? id, @canReadDocCached .plain { userID := "u" } d
      (@readableStorageIDs .plain 2 someStore { userID := "u" } none []) = false) ∧
    ((@knowledgeSearch .plain .plain Nat Nat _ (fun _ => .ok 0) (fun _ v => v) .memory 2 someStore someRecords someNotes
      { userID := "u" } {} { query := "q", topK := 1 } false).toOption.map fun hits => hits.map SearchHit.docID) = some [] ∧
    ((@knowledgeSearch .plain .plain Nat Nat _ (fun _ => .ok 0) (fun _ v => v) .memory 2 someStore
      (someRecords.filter fun r => r.docID ∉ ["x"]) (someNotes.delete "x")
      { userID := "u" } {} { query := "q", topK := 1 } false).toOption.map fun hits => hits.map SearchHit.docID) = some ["d"] := by
  decide +kernel

end SynaMcp
