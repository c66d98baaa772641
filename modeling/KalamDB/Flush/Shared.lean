import KalamDB.Storage.Tiers

/-!
# Flushing a shared table

`SharedTableFlushJob.execute` as the code runs it. The job **scans** the hot store in
batches and keeps, in a winner map, the newest version of every group; superseded keys are
deleted in bounded batches while the scan is still running. The winners are then split into
live rows, which are written to a new cold segment, and tombstones, which stay hot only
while a cold segment may still hold their key. Last, the keys that need not stay hot are
deleted.

Rows are grouped by the bucket of `extractPkFieldName`, the **first field of the schema that
does not start with an underscore**. Each batch of the scan starts at the last key of the
batch before, and a scan's start key is inclusive.

Failures are explicit: the manifest may fail to load when the tombstone mask is built (every
tombstone is then kept), and writing the segment may fail at each of its stages. The scan
loop has no bound in the source; here it runs on fuel, which `scanFuel` provides and the
proofs show to suffice.
-/

namespace KalamDB

/-! ### Grouping versions -/

/-- The field by which the flush groups versions: the first one that does not start with an
underscore. -/
def extractPkFieldName (t : TableDefinition) : String :=
  (t.fieldNames.find? fun name => name.toList.head? ≠ some '_').getD "id"

/-- The winner of each bucket seen so far. -/
abbrev LatestVersions : Type := AList fun _ : PkBucketKey => SharedTableRow

/-- The bucket of a row under the flush's grouping field. The flush takes the cells as the codec
decodes them, so that the bucket of a UUID is its **display text**. -/
def flushBucket (pkField : String) (row : SharedTableRow) : PkBucketKey :=
  pkBucketKeyFromRow row.fields.decoded pkField row.version

/-- Enter a row into the winner map; the key of the version that lost, if any, is returned
for deletion. -/
def trackLatestVersion (latest : LatestVersions) (row : SharedTableRow) (pkField : String) :
    LatestVersions × Option VersionId :=
  match latest.lookup (flushBucket pkField row) with
  | some current =>
    if current.version < row.version then
      (latest.insert (flushBucket pkField row) row, some current.version)
    else (latest, some row.version)
  | none => (latest.insert (flushBucket pkField row) row, none)

/-! ### The scan loop -/

/-- Superseded keys are deleted in batches of this size. -/
def DELETE_BATCH_SIZE : ℕ := 4096

/-- The variables of the scan loop. -/
structure ScanState where
  hot : HotStore
  latest : LatestVersions
  superseded : List VersionId
  cursor : Option VersionId

namespace ScanState

/-- The loop's variables before the first batch. -/
def start (hot : HotStore) : ScanState := ⟨hot, ∅, [], none⟩

/-- The loop body for one row. -/
def processRow (pkField : String) (s : ScanState) (row : SharedTableRow) : ScanState :=
  match trackLatestVersion s.latest row pkField with
  | (latest, none) => { s with latest := latest }
  | (latest, some displaced) =>
    if DELETE_BATCH_SIZE ≤ (s.superseded ++ [displaced]).length then
      { s with
        latest := latest
        hot := s.hot.deleteBatch (s.superseded ++ [displaced])
        superseded := [] }
    else { s with latest := latest, superseded := s.superseded ++ [displaced] }

/-- The batched scan: stop at an empty or a short batch, else go on from the last key. -/
def scanLoop (pkField : String) (batchSize : ℕ) : ℕ → ScanState → Option ScanState
  | 0, _ => none
  | fuel + 1, s =>
    let batch := s.hot.scan s.cursor batchSize
    match batch.getLast? with
    | none => some s
    | some last =>
      let s' := batch.foldl (processRow pkField) { s with cursor := some last.version }
      if batch.length < batchSize then some s' else scanLoop pkField batchSize fuel s'

/-- Enough fuel for a store of `n` rows. -/
def scanFuel (n : ℕ) : ℕ := (DELETE_BATCH_SIZE + 2) * (n + 1)

end ScanState

/-! ### Tombstones that still mask a cold row -/

/-- Did the manifest load when the mask was built? -/
inductive ManifestLoad where
  | loaded
  | failed
  deriving DecidableEq

/-- Hot tombstones are kept only while a cold segment can still contain the key. -/
structure TombstoneColdMask where
  columnId : Option ℕ
  manifest : Option Manifest
  dropAll : Bool

namespace TombstoneColdMask

def preserveAll : TombstoneColdMask := ⟨none, none, false⟩
def dropEvery : TombstoneColdMask := ⟨none, none, true⟩
def fromManifest (columnId : ℕ) (m : Manifest) : TombstoneColdMask := ⟨some columnId, some m, false⟩

/-- The id of the grouping field, if segments keep statistics of it. -/
def pkColumnId (indexedColumns : List (ℕ × String)) (pkField : String) : Option ℕ :=
  (indexedColumns.find? fun column => column.2 == pkField).map Prod.fst

/-- Which tombstones the flush must keep. -/
def coldMask (manifest : Option Manifest) (load : ManifestLoad) (pkColumnId : Option ℕ) :
    TombstoneColdMask :=
  match pkColumnId with
  | none => preserveAll
  | some columnId =>
    match load, manifest with
    | .failed, _ => preserveAll
    | .loaded, none => dropEvery
    | .loaded, some m => fromManifest columnId m

/-- Must the tombstone of this bucket stay hot? -/
def preserves (mask : TombstoneColdMask) (pk : PkBucketKey) : Bool :=
  if mask.dropAll then false
  else
    match mask.columnId, mask.manifest with
    | some columnId, some m =>
      if m.segments = [] then false else m.planByPkValue columnId pk.toDisplay ≠ []
    | _, _ => true

end TombstoneColdMask

/-- Split the winners into live rows to write and tombstone keys to keep. -/
def rowsAndTombstonesFromVersions (latest : LatestVersions)
    (preserveTombstone : PkBucketKey → Bool) : List SharedTableRow × List VersionId :=
  (((latest.entries.filter fun e => !e.2.deleted).map fun e => e.2),
    ((latest.entries.filter fun e => e.2.deleted && preserveTombstone e.1).map
      fun e => e.2.version))

/-- The keys of the current hot rows, tombstones included. -/
def liveHotKeys (latest : LatestVersions) : List VersionId :=
  latest.entries.map fun e => e.2.version

/-- The keys to delete: all but the preserved ones. -/
def cleanupKeysExcludingPreserved (keys preserved : List VersionId) : List VersionId :=
  keys.filter fun key => decide (key ∉ preserved)

/-! ### Writing the segment -/

/-- The stage at which writing a segment failed. -/
inductive WriteFault where
  | reserve
  | upload
  | commit
  | hook
  deriving DecidableEq

/-- Why a flush failed. -/
inductive FlushError where
  | scopeWriterRequiresRows
  | writeScope (fault : WriteFault)
  | scanDidNotFinish
  deriving DecidableEq

/-- The cells of a column over a batch; a missing cell is null. -/
def columnCells (name : String) (rows : List SharedTableRow) : List ScalarValue :=
  rows.map fun r => (r.fields.get name).getD .null

/-- Statistics of the indexed columns that the schema has, `_version` apart. -/
def extractColumnStats (t : TableDefinition) (rows : List SharedTableRow) :
    List (ℕ × ColumnStats) :=
  (t.computeIndexedColumns.filter fun column =>
      column.2 ≠ SystemColumnNames.VERSION && decide (column.2 ∈ t.fieldNames)).map fun column =>
    let cells := columnCells column.2 rows
    (column.1,
      { min := (computeMinMax cells).1
        max := (computeMinMax cells).2
        nullCount := (cells.filter (· = .null)).length })

/-- The smallest and the largest version of a batch. -/
def extractVersionRange (rows : List SharedTableRow) : ℕ × ℕ :=
  match rows with
  | [] => (1, 1)
  | r :: rest =>
    (rest.foldl (fun lo s => min lo s.version.val) r.version.val,
      rest.foldl (fun hi s => max hi s.version.val) r.version.val)

/-- The segment of a batch. -/
def flushSegment (t : TableDefinition) (batchNumber : ℕ) (status : SegmentStatus)
    (rows : List SharedTableRow) : Segment where
  batchNumber := batchNumber
  columnStats := extractColumnStats t rows
  minSeq := (extractVersionRange rows).1
  maxSeq := (extractVersionRange rows).2
  status := status
  rows := rows

/-- A segment without content: reserved before the upload, or given up after it failed. -/
def emptySegment (batchNumber : ℕ) (status : SegmentStatus) (rows : List SharedTableRow) :
    Segment where
  batchNumber := batchNumber
  columnStats := []
  minSeq := (extractVersionRange rows).1
  maxSeq := (extractVersionRange rows).2
  status := status
  rows := []

/-- **Write the live rows**: reserve a batch file, upload it, and publish it as a committed
segment. A failed upload leaves the reservation as a tombstone; a failing hook leaves the
committed segment behind. -/
def writeScope (t : TableDefinition) (fault : Option WriteFault) (manifest : Option Manifest)
    (rows : List SharedTableRow) : Except FlushError String × Option Manifest :=
  if rows = [] then (.error .scopeWriterRequiresRows, manifest)
  else
    let m := manifest.getD .empty
    let n := m.nextBatchNumber
    let reserved := m.addSegment (emptySegment n .inProgress rows)
    let segment := flushSegment t n .committed rows
    match fault with
    | some .reserve => (.error (.writeScope .reserve), manifest)
    | some .upload =>
      (.error (.writeScope .upload), some (reserved.addSegment (emptySegment n .tombstone rows)))
    | some .commit => (.error (.writeScope .commit), some reserved)
    | some .hook => (.error (.writeScope .hook), some (reserved.addSegment segment))
    | none => (.ok segment.path, some (reserved.addSegment segment))

/-! ### The job -/

/-- A flush of one shared table with the configuration it reads. -/
structure SharedTableFlushJob where
  table : TableDefinition
  flushBatchSize : ℕ
  retainLatestHot : Bool

/-- What may go wrong around a flush. -/
structure FlushEnv where
  maskLoad : ManifestLoad
  writeFault : Option WriteFault
  deriving DecidableEq

/-- What a flush reports. -/
structure FlushJobResult where
  rowsFlushed : ℕ
  parquetFiles : List String
  deriving DecidableEq

namespace SharedTableFlushJob

variable (job : SharedTableFlushJob)

/-- The configured batch size, clamped to a valid minimum. -/
def scanBatchSize : ℕ := max job.flushBatchSize 1

variable (env : FlushEnv) (manifest : Option Manifest)

/-- The mask the job builds from the manifest it loads. -/
def mask : TombstoneColdMask :=
  .coldMask manifest env.maskLoad
    (TombstoneColdMask.pkColumnId job.table.computeIndexedColumns (extractPkFieldName job.table))

/-- The live winners of the scan, which are written to a segment. -/
def rowsToWrite (s : ScanState) :
    List SharedTableRow :=
  (rowsAndTombstonesFromVersions s.latest (job.mask env manifest).preserves).1

/-- The hot store after the cleanup: the superseded keys that are left go first, then the keys
of the winners that need not stay hot. -/
def cleanedHot (s : ScanState) : HotStore :=
  let tombstones := (rowsAndTombstonesFromVersions s.latest (job.mask env manifest).preserves).2
  let preserved := tombstones ++ (if job.retainLatestHot then liveHotKeys s.latest else [])
  (s.hot.deleteBatch s.superseded).deleteBatch
    (cleanupKeysExcludingPreserved (liveHotKeys s.latest) preserved)

/-- The job after the scan: write the live winners, unless there are none or the job retains
them, and clean the hot store up. -/
def finish (s : ScanState) :
    Except FlushError FlushJobResult × TableStorage :=
  if job.retainLatestHot || job.rowsToWrite env manifest s = [] then
    (.ok { rowsFlushed := 0, parquetFiles := [] }, ⟨job.cleanedHot env manifest s, manifest⟩)
  else
    match writeScope job.table env.writeFault manifest (job.rowsToWrite env manifest s) with
    | (.error e, manifest') => (.error e, ⟨s.hot.deleteBatch s.superseded, manifest'⟩)
    | (.ok path, manifest') =>
      (.ok { rowsFlushed := (job.rowsToWrite env manifest s).length, parquetFiles := [path] },
        ⟨job.cleanedHot env manifest s, manifest'⟩)

/-- **The flush.** -/
def execute (st : TableStorage) :
    Except FlushError FlushJobResult × TableStorage :=
  match ScanState.scanLoop (extractPkFieldName job.table) job.scanBatchSize
      (ScanState.scanFuel st.hot.rows.length) (.start st.hot) with
  | none => (.error .scanDidNotFinish, st)
  | some s => job.finish env st.manifest s

end SharedTableFlushJob

end KalamDB
