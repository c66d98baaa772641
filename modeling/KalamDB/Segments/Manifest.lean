import Mathlib.Data.List.Nodup
import KalamDB.Storage.Tiers

/-!
# Segment manifests and segment files

The manifest of a scope as the manifest service handles it: **metadata** of segments, apart from
the files it names. A segment is identified by its file, `batch-N.parquet` for a flushed batch
and `compact-<uuid>.parquet` for a compacted one. The manifest carries two facts: no file is
listed twice, and no listed batch number exceeds `lastSequenceNumber`.

`addSegment` replaces an entry of the same file and **moves it to the end**, so that every change
of the segment list shows in its tail.
-/

namespace KalamDB.Segments

open List

/-- The name of a segment file, which is also the id of the segment. -/
inductive SegmentFile where
  | batch (number : ℕ)
  | compact (uuid : ℕ)
  deriving DecidableEq

structure SegmentMetadata where
  file : SegmentFile
  minSeq : ℤ
  maxSeq : ℤ
  rowCount : ℕ
  sizeBytes : ℕ
  schemaVersion : ℕ
  status : SegmentStatus
  deriving DecidableEq

namespace SegmentMetadata

/-- Only committed segments are read. -/
def isReadable (s : SegmentMetadata) : Bool := s.status == .committed

/-- A reserved segment: the file is still to be uploaded. -/
def inProgress (file : SegmentFile) (minSeq maxSeq : ℤ) (schemaVersion : ℕ) : SegmentMetadata where
  file := file
  minSeq := minSeq
  maxSeq := maxSeq
  rowCount := 0
  sizeBytes := 0
  schemaVersion := schemaVersion
  status := .inProgress

end SegmentMetadata

/-- The segments of a scope and the largest batch number they used. -/
structure Manifest where
  segments : List SegmentMetadata
  lastSequenceNumber : ℕ
  files_nodup : (segments.map SegmentMetadata.file).Nodup
  number_le : ∀ s ∈ segments, ∀ n, s.file = .batch n → n ≤ lastSequenceNumber
  deriving DecidableEq

namespace Manifest

variable {s : SegmentMetadata} {m : Manifest}

/-- The manifest of a scope without segments. -/
def new : Manifest := ⟨[], 0, List.nodup_nil, by simp⟩

/-- The counter after a segment of this file was entered. -/
def advance (last : ℕ) : SegmentFile → ℕ
  | .batch n => max last n
  | .compact _ => last

theorem le_advance (last : ℕ) (file : SegmentFile) : last ≤ advance last file := by
  cases file <;> simp [advance]

/-- Enter a segment at the end, in place of an earlier one of the same file. -/
def addSegment (m : Manifest) (s : SegmentMetadata) : Manifest where
  segments := m.segments.filter (fun old => decide (old.file ≠ s.file)) ++ [s]
  lastSequenceNumber := advance m.lastSequenceNumber s.file
  files_nodup := by
    rw [List.map_append, List.nodup_append]
    refine ⟨m.files_nodup.sublist (List.filter_sublist.map _), List.nodup_singleton _, ?_⟩
    rintro file hfile _ hs rfl
    obtain ⟨old, hold, rfl⟩ := List.mem_map.mp hfile
    simp_all
  number_le := by
    intro old hold n hn
    rcases List.mem_append.mp hold with hold | hold
    · exact (m.number_le old (List.mem_filter.mp hold).1 n hn).trans (le_advance _ _)
    · rw [List.mem_singleton.mp hold] at hn
      simp [hn, advance]

@[simp]
theorem mem_addSegment {x : SegmentMetadata} :
    x ∈ (m.addSegment s).segments ↔ x ∈ m.segments ∧ x.file ≠ s.file ∨ x = s := by
  simp [addSegment]

theorem segments_addSegment_ne_nil (m : Manifest) (s : SegmentMetadata) :
    (m.addSegment s).segments ≠ [] := by
  simp [addSegment]

/-- A segment of a file that is not listed is appended. -/
theorem segments_addSegment_of_new (h : ∀ old ∈ m.segments, old.file ≠ s.file) :
    (m.addSegment s).segments = m.segments ++ [s] := by
  have hfilter : m.segments.filter (fun old => decide (old.file ≠ s.file)) = m.segments :=
    filter_eq_self.mpr fun old hold => decide_eq_true (h old hold)
  exact congrArg (· ++ [s]) hfilter

/-- The first segments of the list. The counter stays. -/
def truncate (m : Manifest) (n : ℕ) : Manifest where
  segments := m.segments.take n
  lastSequenceNumber := m.lastSequenceNumber
  files_nodup := m.files_nodup.sublist ((List.take_sublist _ _).map _)
  number_le s hs := m.number_le s (List.mem_of_mem_take hs)

@[simp]
theorem segments_truncate (m : Manifest) (n : ℕ) : (m.truncate n).segments = m.segments.take n :=
  rfl

/-- The number of the next batch: `0` for a manifest without segments, whatever its counter. -/
def nextBatchNumber (m : Manifest) : ℕ :=
  if m.segments = [] then 0 else m.lastSequenceNumber + 1

/-- The next batch is not listed. -/
theorem file_ne_nextBatch (hs : s ∈ m.segments) : s.file ≠ .batch m.nextBatchNumber := by
  intro hfile
  have hle := m.number_le s hs _ hfile
  have hne : m.segments ≠ [] := ne_nil_of_mem hs
  rw [nextBatchNumber, if_neg hne] at hle
  omega

end Manifest

/-! ### Files -/

/-- The contents of the segment files of a scope. -/
abbrev SegmentFiles : Type := SegmentFile → Option (List SharedTableRow)

namespace SegmentFiles

variable {segments : List SegmentMetadata} {files : SegmentFiles}

/-- The rows of the files of some segments. A missing file is skipped. -/
def rows (files : SegmentFiles) (segments : List SegmentMetadata) : List SharedTableRow :=
  segments.flatMap fun s => (files s.file).getD []

theorem mem_rows {r : SharedTableRow} :
    r ∈ files.rows segments ↔ ∃ s ∈ segments, r ∈ (files s.file).getD [] := by
  simp [rows]

@[simp]
theorem rows_append (files : SegmentFiles) (l l' : List SegmentMetadata) :
    files.rows (l ++ l') = files.rows l ++ files.rows l' :=
  flatMap_append

end SegmentFiles

/-- The cold tier of a scope. -/
structure ColdScope where
  manifest : Manifest
  files : SegmentFiles

namespace ColdScope

/-- The rows of the readable segments. -/
def rows (scope : ColdScope) : List SharedTableRow :=
  scope.files.rows (scope.manifest.segments.filter SegmentMetadata.isReadable)

/-- Every row version a reader can reach. -/
def allRows (hot : HotStore) (scope : ColdScope) : Set SharedTableRow :=
  {r | r ∈ hot.rows ∨ r ∈ scope.rows}

/-- **What a reader sees**: the newest version of every primary key over both tiers, without
the deleted ones. -/
def view (t : TableDefinition) (hot : HotStore) (scope : ColdScope) : Set SharedTableRow :=
  LatestVersion.view t.primaryKey SharedTableRow.version (fun r => r.deleted = false)
    (allRows hot scope)

end ColdScope

end KalamDB.Segments
