import Mathlib.Data.Prod.Lex
import KalamDB.Raft.Commands
import KalamDB.Vector.HotCache

/-!
# Vector search

`vector_search` ranks the rows of a vector column by the distance of their vectors to a query. It
asks two indexes: the cache of the staged operations and the snapshot of the last flush, from which
it drops the rows that staged operations touch. The candidates of both are merged, ranked, cut to
the number of rows asked for, and then filtered.

**The indexes are exact**: they answer with the nearest entries. Nothing fixes how rows at one
distance are ordered: the candidates are collected in a hash map, sorted by the distance alone, and
a hash map is iterated in an order of its own. `order` stands for that order, any one of them.
`produceBatch` is the search of one call, with the cache it leaves.
-/

namespace KalamDB.Vector

open Raft (TableType)

/-- A snapshot as it is decoded: the rows with the vectors of its index. A flush builds it from a
map. -/
structure VixSnapshotFile (F : Type) where
  dimensions : ℕ
  metric : VectorMetric
  entries : List (String × List F)
  pks_nodup : (entries.map Prod.fst).Nodup

structure VectorIndexMetadata where
  enabled : Bool
  metric : VectorMetric
  lastAppliedSeq : ℤ
  snapshotPath : Option String

structure VectorSearchScope where
  metric : VectorMetric
  lastAppliedSeq : ℤ
  snapshotPath : Option String

def tableTypeText : TableType → String
  | .user => "User"
  | .shared => "Shared"
  | .stream => "Stream"
  | .system => "System"

/-- Where a search looks. The table type and the state of the index are all that is checked. -/
def resolveScope (tableType : TableType) (vectorIndex : Option VectorIndexMetadata) :
    Except String (Option VectorSearchScope) :=
  if tableType ≠ .user ∧ tableType ≠ .shared then
    .error ("vector_search supports only user/shared tables, got " ++ tableTypeText tableType)
  else
    match vectorIndex with
    | some vectorMeta =>
      if vectorMeta.enabled then
        .ok (some ⟨vectorMeta.metric, vectorMeta.lastAppliedSeq, vectorMeta.snapshotPath⟩)
      else .ok none
    | none => .ok none

/-- The arguments of a call as they are parsed. -/
structure VectorSearchArgs (F : Type) where
  queryVector : List F
  topK : ℕ
  queryVector_ne : queryVector ≠ []
  topK_pos : 0 < topK

/-- How many rows to rank and how many to return. A filter runs after the ranking, so a pushed
limit must not cut the ranking then. -/
def vectorScanLimits (hasProviderSideFilter : Bool) (topK : ℕ) (pushedLimit : Option ℕ) :
    ℕ × Option ℕ :=
  let outputLimit := pushedLimit.map (min · topK)
  (if hasProviderSideFilter then topK else outputLimit.getD topK, outputLimit)

def finalizeDeferredBatch {R : Type} (batch : List R) (physicalFilter : Option (R → Bool))
    (limit : Option ℕ) : List R :=
  let batch := match physicalFilter with
    | some predicate => batch.filter predicate
    | none => batch
  match limit with
  | some limit => batch.take limit
  | none => batch

/-- `CANDIDATE_MULTIPLIER` -/
def candidateMultiplier : ℕ := 4

def candidateLimit (searchLimit : ℕ) : ℕ := max (searchLimit * candidateMultiplier) searchLimit

section

/-- A row with its distance to the query, ordered by the distance and then by a place among the rows
at that distance. -/
abbrev Candidate (D : Type) : Type := D ×ₗ ℕ ×ₗ String

variable {F D S : Type}

def pkOf (e : Candidate D) : String := (ofLex (ofLex e).2).2

variable (order : String → ℕ)

def candidate (distance : D) (pk : String) : Candidate D := toLex (distance, toLex (order pk, pk))

variable [LinearOrder D] (distance : VectorMetric → List F → List F → D)

def measure (metric : VectorMetric) (queryVector : List F) (e : String × List F) : Candidate D :=
  candidate order (distance metric queryVector e.2) e.1

def searchIndex (metric : VectorMetric) (index : List (String × List F)) (queryVector : List F)
    (k : ℕ) : List (Candidate D) :=
  smallest k (index.map (measure order distance metric queryVector))

/-! ### The staged operations -/

structure HotSearchResult (D : Type) where
  candidates : List (Candidate D)
  touchedPks : List String

/-- The cache that a search starts from: the one there is, unless it was built for another
dimension, metric or snapshot. -/
def HotCacheState.prepare (cache : Option (HotCacheState F)) (dimensions : ℕ)
    (metric : VectorMetric) (lastAppliedSeq : ℤ) : HotCacheState F :=
  match cache with
  | none => .new dimensions metric lastAppliedSeq
  | some s =>
    if s.dimensions ≠ dimensions ∨ s.metric ≠ metric ∨ s.baseLastAppliedSeq ≠ lastAppliedSeq then
      .new dimensions metric lastAppliedSeq
    else s

def HotCacheState.indexEntries (s : HotCacheState F) : List (String × List F) :=
  s.index.entries.map fun e => (e.1, e.2)

def HotCacheState.search (s : HotCacheState F) (queryVector : List F) (candidateLimit : ℕ) :
    HotSearchResult D :=
  let touchedPks := s.latestSeqByPk.keys
  let effectiveLimit := candidateLimit + touchedPks.length
  if s.indexEntries.isEmpty || effectiveLimit == 0 then ⟨[], touchedPks⟩
  else ⟨searchIndex order distance s.metric s.indexEntries queryVector effectiveLimit, touchedPks⟩

def searchHotCandidates (staged : List (StagedOp F)) (cache : Option (HotCacheState F))
    (lastAppliedSeq : ℤ) (metric : VectorMetric) (queryVector : List F) (candidateLimit : ℕ) :
    Except String (HotSearchResult D) × Option (HotCacheState F) :=
  if queryVector.isEmpty then (.ok ⟨[], []⟩, cache)
  else
    let s := HotCacheState.prepare cache queryVector.length metric lastAppliedSeq
    match s.applyStaged lastAppliedSeq (s.scanStaged staged) with
    | (.error e, s) => (.error e, some s)
    | (.ok (), s) => (.ok (s.search order distance queryVector candidateLimit), some s)

/-! ### The search -/

/-- The snapshot that a search reads: a missing file counts as none. -/
def readSnapshot (snapshotPath : Option String) (files : String → Option (VixSnapshotFile F)) :
    Option (VixSnapshotFile F) :=
  match snapshotPath with
  | some path => if path.isEmpty then none else files path
  | none => none

def VixSnapshotFile.search (file : VixSnapshotFile F) (queryVector : List F) (limit : ℕ)
    (touchedPks : List String) : List (Candidate D) :=
  (searchIndex order distance file.metric file.entries queryVector limit).filter fun e =>
    !touchedPks.contains (pkOf e)

def baseCandidates (base : Option (VixSnapshotFile F)) (queryVector : List F) (limit : ℕ)
    (touchedPks : List String) : List (Candidate D) :=
  match base with
  | some file => file.search order distance queryVector limit touchedPks
  | none => []

def bestDistanceByPk (candidates : List (Candidate D)) : AList fun _ : String => D :=
  candidates.foldl
    (fun best e =>
      match best.lookup (pkOf e) with
      | some existing =>
        if (ofLex e).1 < existing then best.insert (pkOf e) (ofLex e).1 else best
      | none => best.insert (pkOf e) (ofLex e).1)
    ∅

def rank (candidates : List (Candidate D)) (searchLimit : ℕ) : List (Candidate D) :=
  smallest searchLimit ((bestDistanceByPk candidates).entries.map fun e => candidate order e.2 e.1)

def produceBatch (score : VectorMetric → D → S)
    (scope : Except String (Option VectorSearchScope))
    (files : String → Option (VixSnapshotFile F)) (staged : List (StagedOp F))
    (cache : Option (HotCacheState F)) (args : VectorSearchArgs F)
    (physicalFilter : Option (String × S → Bool)) (limit : Option ℕ) :
    Except String (List (String × S)) × Option (HotCacheState F) :=
  let (searchLimit, outputLimit) := vectorScanLimits physicalFilter.isSome args.topK limit
  match scope with
  | .error e => (.error e, cache)
  | .ok none => (.ok (finalizeDeferredBatch [] physicalFilter outputLimit), cache)
  | .ok (some scope) =>
    let base := readSnapshot scope.snapshotPath files
    match base.filter (·.dimensions ≠ args.queryVector.length) with
    | some parsed =>
      (.error ("vector_search query vector dimensions mismatch: query has " ++
        toString args.queryVector.length ++ ", index has " ++ toString parsed.dimensions), cache)
    | none =>
      match searchHotCandidates order distance staged cache scope.lastAppliedSeq scope.metric
        args.queryVector (candidateLimit searchLimit) with
      | (.error e, cache) => (.error e, cache)
      | (.ok hot, cache) =>
        let coldCandidateLimit := candidateLimit searchLimit + hot.touchedPks.length
        let candidates :=
          baseCandidates order distance base args.queryVector coldCandidateLimit hot.touchedPks ++
            hot.candidates
        let batch := (rank order candidates searchLimit).map fun e =>
          (pkOf e, score scope.metric (ofLex e).1)
        (.ok (finalizeDeferredBatch batch physicalFilter outputLimit), cache)

end

/-! ### Contents of a vector column -/

/-- A vector column of a table and the state of its index. -/
structure VectorColumn where
  dimensions : ℕ
  metric : VectorMetric
  enabled : Bool

/-- What is stored for a column of a shared table: operations in the order of their sequence
numbers, and the snapshot. Vectors are checked against the column when they are written. -/
structure VectorContent (F : Type) (col : VectorColumn) where
  staged : List (StagedOp F)
  staged_sorted : staged.Pairwise fun a b => a.1 < b.1
  staged_dims : ∀ e ∈ staged, ∀ v, e.2.vector = some v → v.length = col.dimensions
  lastAppliedSeq : ℤ
  snapshotPath : Option String
  files : String → Option (VixSnapshotFile F)
  snapshot_ok : ∀ file, readSnapshot snapshotPath files = some file →
    file.dimensions = col.dimensions ∧ file.metric = col.metric

namespace VectorContent

variable {F D S : Type} {col : VectorColumn}

def metadata (c : VectorContent F col) : VectorIndexMetadata :=
  ⟨col.enabled, col.metric, c.lastAppliedSeq, c.snapshotPath⟩

def base (c : VectorContent F col) : List (String × List F) :=
  (readSnapshot c.snapshotPath c.files).elim [] VixSnapshotFile.entries

/-- The operations that are not in the snapshot yet. -/
def pending (c : VectorContent F col) : List (StagedOp F) :=
  c.staged.filter fun e => c.lastAppliedSeq < e.1

/-- The vector of a row: what its last pending operation left, or else the snapshot's. -/
def vectorOf (c : VectorContent F col) (pk : String) : Option (List F) :=
  if c.pending.any (·.2.pk == pk) then latestVector c.pending pk else c.base.lookup pk

/-- The rows that have a vector. -/
def current (c : VectorContent F col) : List (String × List F) :=
  (c.pending.map (·.2.pk) ++ c.base.map Prod.fst).dedup.filterMap fun pk =>
    (c.vectorOf pk).map (pk, ·)

variable (order : String → ℕ) [LinearOrder D] (distance : VectorMetric → List F → List F → D)

/-- They are ranked by their distances to a query. -/
def measured (c : VectorContent F col) (queryVector : List F) : List (Candidate D) :=
  c.current.map (measure order distance col.metric queryVector)

/-- `vector_search` on a column of a shared table. -/
def vectorSearch (score : VectorMetric → D → S) (c : VectorContent F col)
    (cache : Option (HotCacheState F)) (args : VectorSearchArgs F)
    (physicalFilter : Option (String × S → Bool)) (limit : Option ℕ) :
    Except String (List (String × S)) × Option (HotCacheState F) :=
  produceBatch order distance score (resolveScope .shared (some c.metadata)) c.files c.staged cache
    args physicalFilter limit

end VectorContent

end KalamDB.Vector
