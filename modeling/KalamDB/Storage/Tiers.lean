import Mathlib.Data.Set.Finite.List
import KalamDB.Commons.Table
import KalamDB.Lib.LatestVersion

/-!
# The two storage tiers of a shared table

A shared table keeps its row versions in a **hot** key-value store, ordered by version, and
in **cold** immutable segments listed by a manifest. The hot store is a structure that
carries its key order, so that a scan, a seek and a batched delete cannot leave it unsorted.

The cold tier is what a reader can tell about it: each segment has its status, its column
statistics and the rows a scan decodes from it (the `_version` and `_deleted` columns which a
flush adds are decoded back into the row's own fields). Segments are named by batch number,
`batch-N.parquet`.

`TableStorage.view` is the abstract meaning of the two tiers: the newest version of every
primary key over both, without the deleted ones.
-/

namespace KalamDB

open List

/-! ### Rows -/

/-- One stored version of a row. -/
structure SharedTableRow where
  version : VersionId
  deleted : Bool
  fields : Row
  deriving DecidableEq

/-- A hot row before a reader converts its cells. -/
def SharedTableRow.decoded (r : SharedTableRow) : SharedTableRow :=
  { r with fields := r.fields.decoded }

/-- The primary key of a row as DML identifies it. -/
def TableDefinition.primaryKey (t : TableDefinition) (r : SharedTableRow) : Option PkBucketKey :=
  (r.fields.get t.primaryKeyFieldName).bind tryPkBucketKey

/-! ### Hot store -/

/-- The hot rows in key order; a row's key is its version. The cells are those a reader of the
columns gets; what the store's codec decodes first is `Row.decoded`. -/
structure HotStore where
  rows : List SharedTableRow
  sorted : rows.Pairwise fun a b => a.version < b.version

namespace HotStore

variable {hot : HotStore} {r : SharedTableRow}

/-- Rows a scan from the start key can return. The start key is **inclusive**. -/
def atOrAfter (start : Option VersionId) (r : SharedTableRow) : Bool :=
  match start with
  | none => true
  | some key => decide (key ≤ r.version)

/-- An ordered scan of at most `limit` rows. -/
def scan (hot : HotStore) (start : Option VersionId) (limit : ℕ) : List SharedTableRow :=
  (hot.rows.filter (atOrAfter start)).take limit

/-- A batched delete by key. -/
def deleteBatch (hot : HotStore) (keys : List VersionId) : HotStore where
  rows := hot.rows.filter fun r => decide (r.version ∉ keys)
  sorted := hot.sorted.filter _

@[simp]
theorem mem_deleteBatch {keys : List VersionId} :
    r ∈ (hot.deleteBatch keys).rows ↔ r ∈ hot.rows ∧ r.version ∉ keys := by
  simp [deleteBatch]

/-- A key determines its row. -/
theorem eq_of_version_eq {s : SharedTableRow} (hr : r ∈ hot.rows) (hs : s ∈ hot.rows)
    (h : r.version = s.version) : r = s :=
  inj_on_of_nodup_map (pairwise_map.mpr (hot.sorted.imp fun h => h.ne)) hr hs h

end HotStore

/-! ### Segment statistics -/

/-- Minimum, maximum and null count of a column within one segment. -/
structure ColumnStats where
  min : Option ScalarValue
  max : Option ScalarValue
  nullCount : ℕ
  deriving DecidableEq

/-- The statistic as a signed integer, when it is one that fits. -/
def ScalarValue.asI64 : ScalarValue → Option ℤ
  | .int8 v => some v.toInt
  | .int16 v => some v.toInt
  | .int32 v => some v.toInt
  | .int64 v => some v.toInt
  | .uint8 v => some v.toNat
  | .uint16 v => some v.toNat
  | .uint32 v => some v.toNat
  | .uint64 v => if v.toNat < 2 ^ 63 then some v.toNat else none
  | _ => none

/-- The statistic as a text, when it is one. -/
def ScalarValue.asStr : ScalarValue → Option String
  | .utf8 s => some s
  | .largeUtf8 s => some s
  | _ => none

namespace ColumnStats

variable (stats : ColumnStats)

def minAsI64 : Option ℤ := stats.min.bind ScalarValue.asI64
def maxAsI64 : Option ℤ := stats.max.bind ScalarValue.asI64
def minAsStr : Option String := stats.min.bind ScalarValue.asStr
def maxAsStr : Option String := stats.max.bind ScalarValue.asStr

end ColumnStats

/-- The value of a non-empty digit string. -/
def parseDigits (cs : List Char) : Option ℕ :=
  if cs ≠ [] ∧ cs.all Char.isDigit then
    some (cs.foldl (fun n c => 10 * n + (c.toNat - '0'.toNat)) 0)
  else none

/-- Decimal text to a signed 64-bit integer: an optional sign, digits, no overflow. -/
def parseI64 (s : String) : Option ℤ :=
  match s.toList with
  | '-' :: cs => (parseDigits cs).bind fun n => if n ≤ 2 ^ 63 then some (-(n : ℤ)) else none
  | '+' :: cs => (parseDigits cs).bind fun n => if n < 2 ^ 63 then some (n : ℤ) else none
  | cs => (parseDigits cs).bind fun n => if n < 2 ^ 63 then some (n : ℤ) else none

/-- Order of two statistics of one type; false across types. -/
def ScalarValue.statLe : ScalarValue → ScalarValue → Bool
  | .int8 a, .int8 b => decide (a ≤ b)
  | .int16 a, .int16 b => decide (a ≤ b)
  | .int32 a, .int32 b => decide (a ≤ b)
  | .int64 a, .int64 b => decide (a ≤ b)
  | .uint8 a, .uint8 b => decide (a ≤ b)
  | .uint16 a, .uint16 b => decide (a ≤ b)
  | .uint32 a, .uint32 b => decide (a ≤ b)
  | .uint64 a, .uint64 b => decide (a ≤ b)
  | .utf8 a, .utf8 b => decide (a ≤ b)
  | .largeUtf8 a, .largeUtf8 b => decide (a ≤ b)
  | _, _ => false

/-- Minimum and maximum of the non-null cells of a column; none for types without
statistics. -/
def computeMinMax (cells : List ScalarValue) : Option ScalarValue × Option ScalarValue :=
  match cells.filter (· ≠ .null) with
  | [] => (none, none)
  | v :: vs =>
    if (v :: vs).all fun w => w.statLe w then
      (some (vs.foldl (fun m w => if m.statLe w then m else w) v),
        some (vs.foldl (fun m w => if w.statLe m then m else w) v))
    else (none, none)

/-! ### Segments and the manifest -/

/-- The life of a segment: reserved, readable, or given up. -/
inductive SegmentStatus where
  | inProgress
  | committed
  | tombstone
  deriving DecidableEq

/-- A segment with the rows a scan decodes from it. -/
structure Segment where
  batchNumber : ℕ
  columnStats : List (ℕ × ColumnStats)
  minSeq : ℕ
  maxSeq : ℕ
  status : SegmentStatus
  rows : List SharedTableRow
  deriving DecidableEq

namespace Segment

/-- Only committed segments are read. -/
def isReadable (s : Segment) : Bool := s.status == .committed

/-- The file name of a segment, which is also its id. -/
def path (s : Segment) : String := "batch-" ++ toString s.batchNumber ++ ".parquet"

end Segment

/-- The segments of a table and the largest batch number they used. -/
structure Manifest where
  segments : List Segment
  lastSequenceNumber : ℕ
  batchNumber_le : ∀ s ∈ segments, s.batchNumber ≤ lastSequenceNumber

namespace Manifest

variable {m : Manifest}

/-- The manifest of a table without segments. -/
def empty : Manifest := ⟨[], 0, by simp⟩

/-- Enter a segment, replacing an earlier one of the same id. -/
def addSegment (m : Manifest) (s : Segment) : Manifest where
  segments := m.segments.filter (fun old => old.batchNumber ≠ s.batchNumber) ++ [s]
  lastSequenceNumber := max m.lastSequenceNumber s.batchNumber
  batchNumber_le := by
    intro old hold
    rw [List.mem_append, List.mem_filter, List.mem_singleton] at hold
    rcases hold with ⟨hold, -⟩ | rfl
    · exact (m.batchNumber_le old hold).trans (le_max_left _ _)
    · exact le_max_right _ _

/-- The number of the next batch file. -/
def nextBatchNumber (m : Manifest) : ℕ :=
  if m.segments = [] then 0 else m.lastSequenceNumber + 1

/-- The next batch number is new. -/
theorem batchNumber_ne_nextBatchNumber {s : Segment} (hs : s ∈ m.segments) :
    s.batchNumber ≠ m.nextBatchNumber := by
  have hle := m.batchNumber_le s hs
  have hne : m.segments ≠ [] := ne_nil_of_mem hs
  simp only [nextBatchNumber, hne, if_false]
  omega

/-- The readable rows of the cold tier. -/
def rows (m : Manifest) : List SharedTableRow :=
  (m.segments.filter Segment.isReadable).flatMap Segment.rows

theorem mem_rows {r : SharedTableRow} :
    r ∈ m.rows ↔ ∃ s ∈ m.segments, s.status = .committed ∧ r ∈ s.rows := by
  simp [rows, Segment.isReadable, and_assoc]

/-- Could a segment with these statistics hold the key? -/
def pkValueInRange (pkValue : String) (stats : ColumnStats) : Bool :=
  if stats.min.isNone || stats.max.isNone then true
  else
    match parseI64 pkValue, stats.minAsI64, stats.maxAsI64 with
    | some pk, some lo, some hi => decide (lo ≤ pk ∧ pk ≤ hi)
    | _, _, _ =>
      match stats.minAsStr, stats.maxAsStr with
      | some lo, some hi => decide (lo ≤ pkValue ∧ pkValue ≤ hi)
      | _, _ => true

/-- The readable segments that may hold the key. -/
def planByPkValue (m : Manifest) (pkColumnId : ℕ) (pkValue : String) : List String :=
  (m.segments.filter fun s => s.isReadable &&
    match s.columnStats.lookup pkColumnId with
    | none => true
    | some stats => pkValueInRange pkValue stats).map Segment.path

end Manifest

/-! ### The two tiers together -/

/-- The stored state of a shared table. A table that was never flushed has no manifest. -/
structure TableStorage where
  hot : HotStore
  manifest : Option Manifest

namespace TableStorage

variable (st : TableStorage)

/-- The rows of the cold tier. -/
def coldRows : List SharedTableRow :=
  match st.manifest with
  | none => []
  | some m => m.rows

/-- Every row version a reader can reach. -/
def allRows : Set SharedTableRow :=
  {r | r ∈ st.hot.rows ∨ r ∈ st.coldRows}

theorem finite_allRows : st.allRows.Finite := by
  have h : st.allRows = {r | r ∈ st.hot.rows ++ st.coldRows} := by
    ext r
    simp [allRows]
  rw [h]
  exact finite_toSet _

/-- **What a reader sees**: the newest version of every primary key over both tiers, without
the deleted ones. -/
def view (t : TableDefinition) (st : TableStorage) : Set SharedTableRow :=
  LatestVersion.view t.primaryKey SharedTableRow.version (fun r => r.deleted = false) st.allRows

end TableStorage

/-- A table's storage as the write path leaves it: versions come from the committed log, so
equal versions are one row. -/
structure TableState extends TableStorage where
  version_injective : ∀ r ∈ toTableStorage.allRows, ∀ s ∈ toTableStorage.allRows,
    r.version = s.version → r = s

theorem TableState.versionsIdentify (st : TableState) {K : Type*} (key : SharedTableRow → K) :
    LatestVersion.VersionsIdentify key SharedTableRow.version st.allRows :=
  fun r hr s hs _ h => st.version_injective r hr s hs h

end KalamDB
