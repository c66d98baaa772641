import KalamDB.Flush.Preservation
import KalamDB.Lib.Fallible
import KalamDB.Lib.OrderedStore
import KalamDB.Lib.Runs
import KalamDB.Raft.Errors
import KalamDB.Segments.Compaction

/-!
# Pinned snapshots

A transaction **pins** the frontier of its group at its first data access: the log index of the last
entry that has been applied. From then on it reads the newest version of every key among the entries
up to that index. Commits with larger indexes stay hidden; one with a smaller index, which was
drained late, does not.

Readers take care of this, but nothing keeps the versions they need. A write deletes the hot row
that it replaces. A flush writes the newest hot version of every group and drops the others, and
drops them also when it fails. A compaction keeps the newest version in the segments it merges.
Whatever the pinned snapshot sees must survive all of them (`Keeps`), and then it is read in every
later state.

A reader resolves hot rows by the **display text** of a UUID key, which shows ten of its bytes, so
that rows of different keys may hide each other (`ToldApart`).
-/

namespace KalamDB.Snapshots

open LatestVersion Runs List Raft

variable {t : TableDefinition}

/-! ### Versions and pins -/

variable {index count : ℕ} {hot : HotStore} {r : SharedTableRow} {m : Manifest}

/-- The log index of the entry that wrote a version; the low 16 bits number the rows of the
entry. -/
def logIndex (version : VersionId) : ℕ := version.val / 2 ^ 16

/-- The last version of an entry. -/
def entryVersionBound (index : ℕ) : Option VersionId :=
  if h : 0 < index ∧ index ≤ MAX_LOG_INDEX then
    some ⟨index * 2 ^ 16 + (2 ^ 16 - 1), by have hmax : MAX_LOG_INDEX = 2 ^ 47 - 1 := rfl; omega⟩
  else none

theorem le_entryVersionBound_iff {bound : VersionId} (h : entryVersionBound index = some bound)
    (version : VersionId) : version ≤ bound ↔ logIndex version ≤ index := by
  unfold entryVersionBound at h
  split at h
  · cases h
    change version.val ≤ index * 2 ^ 16 + (2 ^ 16 - 1) ↔ version.val / 2 ^ 16 ≤ index
    omega
  · cases h

/-- The first pin of a transaction stays. -/
def pinSnapshot (cell : Option ℕ) (frontier : ℕ) : ℕ := cell.getD frontier

/-! ### Writes -/

/-- A row put under its version, in the order of the store. -/
def put (hot : HotStore) (row : SharedTableRow) : HotStore where
  rows := hot.rows.filter (fun r => decide (r.version < row.version)) ++
    row :: hot.rows.filter fun r => decide (row.version < r.version)
  sorted := ((⟨hot.rows, hot.sorted⟩ : OrderedStore SharedTableRow.version).put row).sorted

theorem mem_put {row : SharedTableRow} :
    r ∈ (put hot row).rows ↔ r = row ∨ (r ∈ hot.rows ∧ r.version ≠ row.version) :=
  OrderedStore.mem_put (s := ⟨hot.rows, hot.sorted⟩)

/-- A row and the hot row that it replaces. -/
structure ReplacedRow where
  previous : Option SharedTableRow
  entity : SharedTableRow

variable {writes : List ReplacedRow}

/-- **The write of a row**: the row that it replaces is deleted in the same batch. -/
def writeReplacedRow (hot : HotStore) (write : ReplacedRow) : HotStore :=
  put (hot.deleteBatch (write.previous.map SharedTableRow.version).toList) write.entity

/-- The write leaves this row version alone. -/
def ReplacedRow.Spares (write : ReplacedRow) (r : SharedTableRow) : Prop :=
  r.version ≠ write.entity.version ∧ ∀ old ∈ write.previous, r.version ≠ old.version

theorem mem_writeReplacedRow {write : ReplacedRow} :
    r ∈ (writeReplacedRow hot write).rows ↔ r = write.entity ∨ (r ∈ hot.rows ∧ write.Spares r) := by
  rw [writeReplacedRow, mem_put, ReplacedRow.Spares]
  cases write.previous with
  | none => simp
  | some old => simp [and_assoc, and_comm]

def writeRows (hot : HotStore) (writes : List ReplacedRow) : HotStore :=
  writes.foldl writeReplacedRow hot

theorem mem_of_mem_writeRows (h : r ∈ (writeRows hot writes).rows) :
    r ∈ hot.rows ∨ ∃ w ∈ writes, r = w.entity := by
  induction writes generalizing hot with
  | nil => exact .inl h
  | cons w rest ih =>
    rcases ih h with hr | ⟨w', hw', rfl⟩
    · rcases mem_writeReplacedRow.mp hr with rfl | ⟨hr, -⟩
      · exact .inr ⟨w, mem_cons_self, rfl⟩
      · exact .inl hr
    · exact .inr ⟨w', mem_cons_of_mem _ hw', rfl⟩

theorem mem_writeRows_of_spares (hr : r ∈ hot.rows) (h : ∀ w ∈ writes, w.Spares r) :
    r ∈ (writeRows hot writes).rows := by
  induction writes generalizing hot with
  | nil => exact hr
  | cons w rest ih =>
    refine ih (mem_writeReplacedRow.mpr (.inr ⟨hr, h w mem_cons_self⟩)) fun w' hw' => ?_
    exact h w' (mem_cons_of_mem _ hw')

/-! ### Compactions -/

/-- The last segments of a manifest, which a compaction merges, and the ones before. -/
def selected (m : Manifest) (count : ℕ) : List Segment :=
  m.segments.drop (m.segments.length - count)

def olderSegments (m : Manifest) (count : ℕ) : List Segment :=
  m.segments.take (m.segments.length - count)

/-- The merged segment takes the place and the number of the last one it replaces. -/
def replaceSegments (t : TableDefinition) (m : Manifest) (count : ℕ)
    (output : List SharedTableRow) : Manifest where
  segments := olderSegments m count ++
    if output = [] then []
    else [flushSegment t (((selected m count).getLast?.map Segment.batchNumber).getD 0) .committed
      output]
  lastSequenceNumber := m.lastSequenceNumber
  batchNumber_le := by
    intro s hs
    rcases List.mem_append.mp hs with hs | hs
    · exact m.batchNumber_le s (List.mem_of_mem_take hs)
    split at hs
    · cases hs
    obtain rfl := List.mem_singleton.mp hs
    change ((selected m count).getLast?.map Segment.batchNumber).getD 0 ≤ _
    cases hlast : (selected m count).getLast? with
    | none => exact Nat.zero_le _
    | some last =>
      exact m.batchNumber_le last (List.mem_of_mem_drop (List.mem_of_getLast? hlast))

/-- A compaction of the last segments, all of them readable. -/
def compact (t : TableDefinition) (m : Manifest) (count : ℕ) : Except String (Option Manifest) :=
  if (selected m count).all Segment.isReadable then do
    let output ← Segments.compactedRows t.primaryKeyFieldName
      ((selected m count).flatMap Segment.rows) ((olderSegments m count).flatMap Segment.rows)
    return some (replaceSegments t m count output)
  else .ok none

/-- The rows before and after a compaction, apart from those of the older segments. -/
theorem mem_rows_iff_selected (hreadable : (selected m count).all Segment.isReadable = true) :
    r ∈ m.rows ↔ (∃ s ∈ olderSegments m count, s.status = .committed ∧ r ∈ s.rows) ∨
      r ∈ (selected m count).flatMap Segment.rows := by
  have hsegments : m.segments = olderSegments m count ++ selected m count :=
    (take_append_drop _ _).symm
  rw [Manifest.mem_rows, hsegments, mem_flatMap]
  constructor
  · rintro ⟨s, hs, hstatus, hr⟩
    rcases mem_append.mp hs with hs | hs
    · exact .inl ⟨s, hs, hstatus, hr⟩
    · exact .inr ⟨s, hs, hr⟩
  · rintro (⟨s, hs, hstatus, hr⟩ | ⟨s, hs, hr⟩)
    · exact ⟨s, mem_append_left _ hs, hstatus, hr⟩
    · have hstatus := all_eq_true.mp hreadable s hs
      exact ⟨s, mem_append_right _ hs, by simpa [Segment.isReadable] using hstatus, hr⟩

theorem mem_rows_replaceSegments {output : List SharedTableRow} :
    r ∈ (replaceSegments t m count output).rows ↔
      (∃ s ∈ olderSegments m count, s.status = .committed ∧ r ∈ s.rows) ∨ r ∈ output := by
  rw [Manifest.mem_rows]
  simp only [replaceSegments, mem_append, or_and_right, exists_or]
  split
  · next hempty => simp [hempty]
  · simp [flushSegment]

/-- The rows that a compaction merges. -/
def selectedRows (m : Manifest) (count : ℕ) : List SharedTableRow :=
  (selected m count).flatMap Segment.rows

/-- No merged row of the bucket is newer. -/
def NewestSelected (t : TableDefinition) (m : Manifest) (count : ℕ) (r : SharedTableRow) : Prop :=
  ∀ s ∈ selectedRows m count, Segments.pkBucketKeyFromArray t.primaryKeyFieldName s =
    Segments.pkBucketKeyFromArray t.primaryKeyFieldName r → s.version ≤ r.version

/-- **A compaction writes rows that were there, and among them the live ones that are the newest
of their bucket.** -/
theorem compact_spec {m' : Manifest}
    (hid : ∀ r ∈ m.rows, ∀ s ∈ m.rows, r.version = s.version → r = s)
    (h : compact t m count = .ok (some m')) :
    (∀ r ∈ m'.rows, r ∈ m.rows) ∧
      ∀ r ∈ m.rows, r.deleted = false → NewestSelected t m count r → r ∈ m'.rows := by
  unfold compact at h
  split at h
  · next hreadable =>
    obtain ⟨output, houtput, h⟩ := Fallible.bind_eq_ok_iff.mp h
    obtain rfl := Option.some.inj (Fallible.pure_eq_ok_iff.mp h)
    have hmem : ∀ r ∈ selectedRows m count, r ∈ m.rows := fun r hr =>
      (mem_rows_iff_selected hreadable).mpr (.inr hr)
    obtain ⟨hnewest, hwritten⟩ := Segments.compactedRows_spec
      (fun r hr s hs => hid r (hmem r hr) s (hmem s hs)) houtput
    refine ⟨fun r hr => ?_, fun r hr hlive hmax => ?_⟩
    · rcases mem_rows_replaceSegments.mp hr with hr | hr
      · exact (mem_rows_iff_selected hreadable).mpr (.inl hr)
      · exact hmem r (hnewest r hr).1
    · refine mem_rows_replaceSegments.mpr ?_
      refine ((mem_rows_iff_selected hreadable).mp hr).imp_right fun hr => hwritten r ⟨hr, hmax⟩ ?_
      simp [hlive]
  · cases h

/-! ### The table and a transaction -/

/-- The table of a group, the frontier of the group, and the pin of an open transaction. -/
structure Database where
  storage : TableStorage
  frontier : ℕ
  cell : Option ℕ
  frontier_le : frontier ≤ MAX_LOG_INDEX
  cell_le : ∀ index ∈ cell, index ≤ frontier

variable {db db' db₀ : Database}

inductive Event where
  /-- A data access of the transaction. -/
  | access
  /-- An entry of the log, applied and observed. -/
  | commit (index : ℕ) (writes : List ReplacedRow)
  | flush (batchSize : ℕ) (retainLatestHot : Bool) (env : FlushEnv)
  | compact (count : ℕ)

variable {event : Event}

/-- The rows of an entry carry its index, each with a number of its own, and have passed the primary
key check. An entry is applied once, so that no stored row has one of its versions; entries with
larger indexes may have been applied before it. -/
def IsEntry (t : TableDefinition) (db : Database) (index : ℕ) (writes : List ReplacedRow) : Prop :=
  0 < index ∧ index ≤ MAX_LOG_INDEX ∧
    (writes.map fun w => w.entity.version).Nodup ∧
    ∀ w ∈ writes, logIndex w.entity.version = index ∧ (t.primaryKey w.entity).isSome ∧
      ∀ r ∈ db.storage.hot.rows ++ db.storage.coldRows, r.version ≠ w.entity.version

instance (db : Database) (index : ℕ) (writes : List ReplacedRow) :
    Decidable (IsEntry t db index writes) :=
  inferInstanceAs (Decidable (_ ∧ _ ∧ _ ∧ _))

variable (t)

def flushJob (batchSize : ℕ) (retainLatestHot : Bool) :
    SharedTableFlushJob := ⟨t, batchSize, retainLatestHot⟩

def step (db : Database) : Event → Option Database
  | .access => some { db with
      cell := some (pinSnapshot db.cell db.frontier)
      cell_le := by
        rintro _ ⟨⟩
        cases hcell : db.cell with
        | none => exact le_rfl
        | some index => exact db.cell_le index hcell }
  | .commit index writes =>
    if h : IsEntry t db index writes then
      some { db with
        storage := { db.storage with hot := writeRows db.storage.hot writes }
        frontier := max db.frontier index
        frontier_le := max_le db.frontier_le h.2.1
        cell_le := fun i hi => (db.cell_le i hi).trans (le_max_left _ _) }
    else none
  | .flush batchSize retainLatestHot env =>
    -- a failing flush is reported, but what it has deleted is gone
    some { db with storage := ((flushJob t batchSize retainLatestHot).execute env db.storage).2 }
  | .compact count =>
    match db.storage.manifest with
    | none => none
    | some m =>
      match compact t m count with
      | .ok (some m') => some { db with storage := { db.storage with manifest := some m' } }
      | _ => none

/-- What the transaction reads. Before the first entry its snapshot is empty. Hot rows are resolved
as the codec decodes them, and their cells are converted later. -/
def Database.read (db : Database) (scan : ScanEnv) (t : TableDefinition) : List SharedTableRow :=
  let hot := db.storage.hot.rows.map SharedTableRow.decoded
  match db.cell with
  | none => selectLatestVersions scan t hot db.storage.coldRows none false
  | some 0 => []
  | some index =>
    selectLatestVersions scan t hot db.storage.coldRows (entryVersionBound index) false

/-- **The rows that a snapshot sees**: the newest version of every key among the entries up to the
index, without the deleted ones. -/
def seenAt (index : ℕ) (st : TableStorage) : Set SharedTableRow :=
  view t.primaryKey SharedTableRow.version (fun r => r.deleted = false)
    {r | r ∈ st.allRows ∧ logIndex r.version ≤ index}

/-- The buckets in which a row may compete: that of a hot row and that of a cold one. -/
def buckets (r : SharedTableRow) : List PkBucketKey := [t.mergeBucket r.decoded, t.mergeBucket r]

/-- A reader may take the two for versions of one row. -/
def Rivals (s r : SharedTableRow) : Prop :=
  t.primaryKey s = t.primaryKey r ∨ ∃ bucket ∈ buckets t s, bucket ∈ buckets t r

/-- **The rows that the snapshot sees are told apart**: nothing that it sees and that a reader may
take for one of them is newer. -/
def ToldApart (index : ℕ) (st : TableStorage) : Prop :=
  ∀ r ∈ seenAt t index st, ∀ s ∈ st.allRows, logIndex s.version ≤ index → Rivals t s r →
    s.version ≤ r.version

variable {t}

/-- Decoding changes a key only if it is a UUID. -/
theorem mergeBucket_decoded
    (h : (r.fields.get t.primaryKeyFieldName).all fun value => decide (value.decoded = value)) :
    t.mergeBucket r.decoded = t.mergeBucket r := by
  have hget : r.fields.decoded.get t.primaryKeyFieldName =
      (r.fields.get t.primaryKeyFieldName).map ScalarValue.decoded := Row.get_decoded
  rw [TableDefinition.mergeBucket, TableDefinition.mergeBucket, pkBucketKeyFromRow,
    pkBucketKeyFromRow, SharedTableRow.decoded, hget]
  cases hvalue : r.fields.get t.primaryKeyFieldName with
  | none => rfl
  | some value =>
    rw [hvalue, Option.all_some, decide_eq_true_eq] at h
    simp [h]

/-- Keys that are not UUIDs are told apart. -/
theorem toldApart_of_decoded_eq {st : TableStorage}
    (hkey : ∀ r ∈ st.allRows, (t.primaryKey r).isSome)
    (h : ∀ r ∈ st.allRows,
      (r.fields.get t.primaryKeyFieldName).all fun value => decide (value.decoded = value)) :
    ToldApart t index st := by
  intro r hr s hs hle hrivals
  refine hr.1.2 s ⟨hs, hle⟩ (hrivals.elim id fun hbucket => ?_)
  have hr := hr.1.1.1
  simp only [buckets, mergeBucket_decoded (h s hs), mergeBucket_decoded (h r hr), mem_cons,
    not_mem_nil, or_false, or_self, exists_eq_left] at hbucket
  exact TableDefinition.primaryKey_eq_of_mergeBucket_eq (hkey s hs) (hkey r hr) hbucket

/-! ### What every step keeps -/

theorem step_commit (h : step t db (.commit index writes) = some db') :
    IsEntry t db index writes ∧
      db'.storage = { db.storage with hot := writeRows db.storage.hot writes } ∧
      db'.frontier = max db.frontier index ∧ db'.cell = db.cell := by
  simp only [step] at h
  split at h
  · next hentry =>
    cases h
    exact ⟨hentry, rfl, rfl, rfl⟩
  · cases h

theorem step_flush {batchSize : ℕ} {retainLatestHot : Bool} {env : FlushEnv}
    (h : step t db (.flush batchSize retainLatestHot env) = some db') :
    db'.storage.allRows = {r | r ∈ db.storage.coldRows ∨
        (flushJob t batchSize retainLatestHot).Leaves env db.storage r} ∧
      db'.frontier = db.frontier ∧ db'.cell = db.cell := by
  cases h
  exact ⟨SharedTableFlushJob.execute_snd_allRows _ _ _, rfl, rfl⟩

/-- The storage as the log has left it: every version is of an entry up to the frontier, a version
is one row, and every row has a primary key. -/
structure Settled (t : TableDefinition) (db : Database) : Prop where
  logIndex_pos : ∀ r ∈ db.storage.allRows, 0 < logIndex r.version
  logIndex_le : ∀ r ∈ db.storage.allRows, logIndex r.version ≤ db.frontier
  version_injective : ∀ r ∈ db.storage.allRows, ∀ s ∈ db.storage.allRows,
    r.version = s.version → r = s
  primaryKey_isSome : ∀ r ∈ db.storage.allRows, (t.primaryKey r).isSome

theorem Settled.of_subset (h : Settled t db) (hrows : db'.storage.allRows ⊆ db.storage.allRows)
    (hfrontier : db'.frontier = db.frontier) : Settled t db' where
  logIndex_pos r hr := h.logIndex_pos r (hrows hr)
  logIndex_le r hr := hfrontier ▸ h.logIndex_le r (hrows hr)
  version_injective r hr s hs := h.version_injective r (hrows hr) s (hrows hs)
  primaryKey_isSome r hr := h.primaryKey_isSome r (hrows hr)

section

variable (hdb : Settled t db)
include hdb

/-- A compaction touches the cold rows only, as `compact_spec` says. -/
theorem Settled.step_compact (h : step t db (.compact count) = some db') :
    db'.frontier = db.frontier ∧ db'.cell = db.cell ∧ db'.storage.hot = db.storage.hot ∧
      (∀ r ∈ db'.storage.coldRows, r ∈ db.storage.coldRows) ∧
      ∀ r ∈ db.storage.coldRows, r.deleted = false →
        (∀ m ∈ db.storage.manifest, NewestSelected t m count r) → r ∈ db'.storage.coldRows := by
  simp only [step] at h
  split at h
  · cases h
  rename_i m hm
  have hcoldRows : db.storage.coldRows = m.rows := by simp [TableStorage.coldRows, hm]
  split at h
  · next m' hcompact =>
    cases h
    have hspec := compact_spec (fun r hr s hs => hdb.version_injective r (.inr (hcoldRows ▸ hr)) s
      (.inr (hcoldRows ▸ hs))) hcompact
    rw [hcoldRows]
    exact ⟨rfl, rfl, rfl, hspec.1, fun r hr hlive hnewest => hspec.2 r hr hlive (hnewest m hm)⟩
  · cases h

/-- The rows after a step: those that were there, and after a commit those of the entry. -/
theorem mem_allRows_of_step (hstep : step t db event = some db') (hr : r ∈ db'.storage.allRows) :
    r ∈ db.storage.allRows ∨ ∃ index writes, event = .commit index writes ∧
      ∃ w ∈ writes, r = w.entity := by
  cases event with
  | access =>
    cases hstep
    exact .inl hr
  | commit index writes =>
    obtain ⟨-, hstorage, -, -⟩ := step_commit hstep
    rw [hstorage] at hr
    rcases hr with hhot | hcold
    · rcases mem_of_mem_writeRows hhot with hhot | hnew
      · exact .inl (.inl hhot)
      · exact .inr ⟨index, writes, rfl, hnew⟩
    · exact .inl (.inr hcold)
  | flush batchSize retainLatestHot env =>
    rw [(step_flush hstep).1] at hr
    rcases hr with hcold | hleft
    · exact .inl (.inr hcold)
    · exact .inl (.inl hleft.mem)
  | compact count =>
    obtain ⟨-, -, hsame, hcold, -⟩ := hdb.step_compact hstep
    exact .inl (hr.imp (hsame ▸ id) (hcold r))

/-- **Every step keeps the storage settled.** Only a commit adds rows; their versions are new and
distinct. -/
theorem Settled.step (hstep : step t db event = some db') : Settled t db' := by
  cases event with
  | commit index writes =>
    obtain ⟨⟨hpos, -, hnodup, hentry⟩, -, hfrontier, -⟩ := step_commit hstep
    have hrows : ∀ r ∈ db'.storage.allRows,
        r ∈ db.storage.allRows ∨ ∃ w ∈ writes, r = w.entity := by
      intro r hr
      rcases mem_allRows_of_step hdb hstep hr with hold | ⟨_, _, ⟨⟩, hnew⟩
      · exact .inl hold
      · exact .inr hnew
    have hne : ∀ r ∈ db.storage.allRows, ∀ w ∈ writes, r.version ≠ w.entity.version :=
      fun r hr w hw => (hentry w hw).2.2 r (mem_append.mpr hr)
    refine ⟨fun r hr => ?_, fun r hr => ?_, fun r hr s hs hversion => ?_, fun r hr => ?_⟩
    · rcases hrows r hr with hr | ⟨w, hw, rfl⟩
      · exact hdb.logIndex_pos r hr
      · exact (hentry w hw).1 ▸ hpos
    · rw [hfrontier]
      rcases hrows r hr with hr | ⟨w, hw, rfl⟩
      · exact (hdb.logIndex_le r hr).trans (le_max_left _ _)
      · exact (hentry w hw).1.le.trans (le_max_right _ _)
    · rcases hrows r hr with hr | ⟨w, hw, rfl⟩ <;> rcases hrows s hs with hs | ⟨w', hw', rfl⟩
      · exact hdb.version_injective r hr s hs hversion
      · exact absurd hversion (hne r hr w' hw')
      · exact absurd hversion.symm (hne s hs w hw)
      · rw [inj_on_of_nodup_map hnodup hw hw' hversion]
    · rcases hrows r hr with hr | ⟨w, hw, rfl⟩
      · exact hdb.primaryKey_isSome r hr
      · exact (hentry w hw).2.1
  | access =>
    cases hstep
    exact hdb.of_subset subset_rfl rfl
  | flush batchSize retainLatestHot env =>
    refine hdb.of_subset (fun r hr => ?_) (step_flush hstep).2.1
    exact (mem_allRows_of_step hdb hstep hr).resolve_right nofun
  | compact count =>
    refine hdb.of_subset (fun r hr => ?_) (hdb.step_compact hstep).1
    exact (mem_allRows_of_step hdb hstep hr).resolve_right nofun

section

variable (hcell : db.cell = some index) (hstep : step t db event = some db')
include hcell hstep

/-- The first pin of a transaction stays. -/
theorem cell_step : db'.cell = some index := by
  cases event with
  | access =>
    cases hstep
    simp [hcell, pinSnapshot]
  | commit _ writes =>
    exact (step_commit hstep).2.2.2.trans hcell
  | flush batchSize retainLatestHot env => exact (step_flush hstep).2.2.trans hcell
  | compact count => exact (hdb.step_compact hstep).2.1.trans hcell

end

end

/-! ### Pinned rows -/

/-- **A step that keeps the pinned rows.** Each of them stays in one of the tiers:

* a commit replaces other hot rows, or the version is cold as well; and if the entry is not beyond
  the pin, its rows are not taken for the pinned one;
* a flush finds it cold, or the newest hot row of its group;
* a compaction finds it hot, or merges no newer version of its key. -/
def Keeps (t : TableDefinition) (db : Database) (event : Event) : Prop :=
  ∀ index ∈ db.cell, ∀ r ∈ seenAt t index db.storage,
    match event with
    | .access => True
    | .commit _ writes =>
      (r ∈ db.storage.coldRows ∨ ∀ w ∈ writes, ∀ old ∈ w.previous, r.version ≠ old.version) ∧
        ∀ w ∈ writes, logIndex w.entity.version ≤ index → ¬ Rivals t w.entity r
    | .flush batchSize retainLatestHot env =>
      r ∈ db.storage.coldRows ∨ (flushJob t batchSize retainLatestHot).Leaves env db.storage r
    | .compact count =>
      r ∈ db.storage.hot.rows ∨ ∀ m ∈ db.storage.manifest, NewestSelected t m count r

theorem Keeps.mem_allRows (hdb : Settled t db) (hkeeps : Keeps t db event)
    (hcell : db.cell = some index) (hr : r ∈ seenAt t index db.storage)
    (hstep : step t db event = some db') : r ∈ db'.storage.allRows := by
  have hkept := hkeeps index hcell r hr
  obtain ⟨⟨⟨hmem, hle⟩, -⟩, hlive⟩ := hr
  cases event with
  | access =>
    cases hstep
    exact hmem
  | commit next writes =>
    obtain ⟨⟨-, -, -, hentry⟩, hstorage, -, -⟩ := step_commit hstep
    rw [hstorage]
    rcases hkept.1 with hcold | hspared
    · exact .inr hcold
    rcases hmem with hhot | hcold
    · refine .inl (mem_writeRows_of_spares hhot fun w hw => ⟨?_, hspared w hw⟩)
      exact (hentry w hw).2.2 r (mem_append_left _ hhot)
    · exact .inr hcold
  | flush batchSize retainLatestHot env =>
    rw [(step_flush hstep).1]
    exact hkept
  | compact count =>
    obtain ⟨-, -, hsame, -, hwritten⟩ := hdb.step_compact hstep
    rcases hkept with hhot | hnewest
    · exact .inl (hsame ▸ hhot)
    · exact hmem.imp (hsame ▸ id) fun hcold => hwritten r hcold hlive hnewest

/-- What relates a later state to the state of the pin. -/
structure PinnedAt (t : TableDefinition) (index : ℕ) (db₀ db : Database) : Prop where
  settled : Settled t db
  cell : db.cell = some index
  mem_of_rivals : ∀ r ∈ seenAt t index db₀.storage, ∀ s ∈ db.storage.allRows,
    logIndex s.version ≤ index → Rivals t s r → s ∈ db₀.storage.allRows
  kept : ∀ r ∈ seenAt t index db₀.storage, r ∈ db.storage.allRows

/-- What the snapshot has seen it sees still. -/
theorem PinnedAt.mem_seenAt (h : PinnedAt t index db₀ db) (hr : r ∈ seenAt t index db₀.storage) :
    r ∈ seenAt t index db.storage := by
  refine ⟨⟨⟨h.kept r hr, hr.1.1.2⟩, fun s hs hkey => ?_⟩, hr.2⟩
  exact hr.1.2 s ⟨h.mem_of_rivals r hr s hs.1 hs.2 (.inl hkey), hs.2⟩ hkey

theorem PinnedAt.step (hkeeps : Keeps t db event) (h : PinnedAt t index db₀ db)
    (hstep : step t db event = some db') : PinnedAt t index db₀ db' where
  settled := h.settled.step hstep
  cell := cell_step h.settled h.cell hstep
  mem_of_rivals r hr s hs hle hrivals := by
    rcases mem_allRows_of_step h.settled hstep hs with hold | ⟨next, writes, rfl, w, hw, rfl⟩
    · exact h.mem_of_rivals r hr s hold hle hrivals
    · exact absurd hrivals ((hkeeps index h.cell r (h.mem_seenAt hr)).2 w hw hle)
  kept _ hr := hkeeps.mem_allRows h.settled h.cell (h.mem_seenAt hr) hstep

/-- A row that is resolved is a stored one, which it shares a bucket and its version with. -/
theorem exists_mem_allRows {st : TableStorage} {e : SharedTableRow}
    (he : e ∈ st.hot.rows.map SharedTableRow.decoded ++ st.coldRows) :
    ∃ s ∈ st.allRows, (e = s ∨ e = s.decoded) ∧ t.mergeBucket e ∈ buckets t s := by
  rcases mem_append.mp he with he | he
  · obtain ⟨s, hs, rfl⟩ := mem_map.mp he
    exact ⟨s, .inl hs, .inr rfl, mem_cons_self⟩
  · exact ⟨e, .inr he, .inl rfl, mem_cons_of_mem _ mem_cons_self⟩

/-- What the snapshot sees is read, if it is told apart. -/
theorem Database.mem_read (hdb : Settled t db) (hcell : db.cell = some index) (scan : ScanEnv)
    (hr : r ∈ seenAt t index db.storage)
    (happart : ∀ s ∈ db.storage.allRows, logIndex s.version ≤ index → Rivals t s r →
      s.version ≤ r.version) :
    ∃ e ∈ db.read scan t, e = r ∨ e = r.decoded := by
  obtain ⟨⟨⟨hmem, hle⟩, -⟩, hlive⟩ := hr
  have hpos : 0 < index := (hdb.logIndex_pos r hmem).trans_le hle
  obtain ⟨bound, hbound⟩ : ∃ bound, entryVersionBound index = some bound := by
    have hmax := (db.cell_le index hcell).trans db.frontier_le
    exact ⟨_, dif_pos ⟨hpos, hmax⟩⟩
  have hread : db.read scan t = selectLatestVersions scan t
      (db.storage.hot.rows.map SharedTableRow.decoded) db.storage.coldRows (some bound) false := by
    unfold Database.read
    rw [hcell, ← hbound]
    cases index with
    | zero => cases hpos
    | succ n => rfl
  have hvisible : ∀ s, isVisibleAtSnapshot (some bound) s = true ↔ logIndex s.version ≤ index := by
    intro s
    rw [isVisibleAtSnapshot, Option.all_some, decide_eq_true_eq, le_entryVersionBound_iff hbound]
  have hdecoded : ∀ {e s : SharedTableRow}, e = s ∨ e = s.decoded →
      e.version = s.version ∧ e.deleted = s.deleted := by
    rintro e s (rfl | rfl) <;> exact ⟨rfl, rfl⟩
  -- the row competes as a hot or as a cold one
  obtain ⟨e₀, he₀, hform₀, hbucket₀⟩ : ∃ e₀ ∈ db.storage.hot.rows.map SharedTableRow.decoded ++
      db.storage.coldRows, (e₀ = r ∨ e₀ = r.decoded) ∧ t.mergeBucket e₀ ∈ buckets t r := by
    rcases hmem with hhot | hcold
    · exact ⟨r.decoded, mem_append_left _ (mem_map_of_mem hhot), .inr rfl, mem_cons_self⟩
    · exact ⟨r, mem_append_right _ hcold, .inl rfl, mem_cons_of_mem _ mem_cons_self⟩
  obtain ⟨e, he, hsee, hbucket, hversion, hresolved⟩ := exists_mem_selectLatestVersions (t := t)
    scan false he₀ ((hvisible e₀).mpr (by rwa [(hdecoded hform₀).1]))
  obtain ⟨s, hs, hform, hbucket'⟩ := exists_mem_allRows (t := t) he
  -- the winner is no newer than the row, so it is the row
  have hrivals : Rivals t s r := .inr ⟨_, hbucket', hbucket ▸ hbucket₀⟩
  have hsle := (hvisible e).mp hsee
  rw [(hdecoded hform).1] at hsle hversion
  rw [(hdecoded hform₀).1] at hversion
  obtain rfl := hdb.version_injective s hs r hmem
    (le_antisymm (happart s hs hsle hrivals) hversion)
  exact ⟨e, hread ▸ hresolved ((hdecoded hform).2.trans hlive), hform⟩

/-- **A pinned snapshot is stable** along every run that keeps its rows: whatever it saw at the pin
is read in the state reached. -/
theorem pinned_snapshot_stable {db db' : Database} {index : ℕ} {events : List Event}
    (scan : ScanEnv) (hdb : Settled t db) (hpin : db.cell = some index)
    (happart : ToldApart t index db.storage)
    (hevents : Meets (step t) (Keeps t) db events) (hrun : run (step t) db events = some db') :
    ∀ r ∈ seenAt t index db.storage, ∃ e ∈ db'.read scan t, e = r ∨ e = r.decoded := by
  intro r hr
  have hinit : PinnedAt t index db db :=
    ⟨hdb, hpin, fun _ _ s hs _ _ => hs, fun r hr => hr.1.1.1⟩
  have hlast : PinnedAt t index db db' :=
    run_invariant (PinnedAt t index db) (fun _ _ _ hkeeps h hstep => h.step hkeeps hstep) hinit
      hevents hrun
  refine Database.mem_read hlast.settled hlast.cell scan (hlast.mem_seenAt hr) ?_
  exact fun s hs hle hrivals =>
    happart r hr s (hlast.mem_of_rivals r hr s hs hle hrivals) hle hrivals

/-! ### Replaced under the pin -/

/-- A table without rows, before the first entry. -/
def emptyDatabase : Database where
  storage := ⟨⟨[], List.Pairwise.nil⟩, none⟩
  frontier := 0
  cell := none
  frontier_le := Nat.zero_le _
  cell_le := nofun

/-- The first person, as entry 1 inserts it. -/
def ann : SharedTableRow :=
  ⟨⟨1 * 2 ^ 16, by decide⟩, false, ⟨[("name", .utf8 "ann"), ("id", .int32 1)]⟩⟩

/-- The same person under another name, as entry 2 updates it. -/
def annie : SharedTableRow :=
  ⟨⟨2 * 2 ^ 16, by decide⟩, false, ⟨[("name", .utf8 "annie"), ("id", .int32 1)]⟩⟩

/-- Another person, as entry 2 inserts it. -/
def bob : SharedTableRow :=
  ⟨⟨2 * 2 ^ 16, by decide⟩, false, ⟨[("name", .utf8 "bob"), ("id", .int32 2)]⟩⟩

/-- Entry 1 inserts a person, and a transaction pins it. -/
def pinEvents : List Event := [.commit 1 [⟨none, ann⟩], .access]

/-- The state of the pin. -/
def pinnedDatabase : Database where
  storage := ⟨⟨[ann], List.pairwise_singleton _ _⟩, none⟩
  frontier := 1
  cell := some 1
  frontier_le := by decide
  cell_le := by simp

theorem mem_allRows_pinnedDatabase : r ∈ pinnedDatabase.storage.allRows ↔ r = ann := by
  simp [TableStorage.allRows, TableStorage.coldRows, pinnedDatabase]

theorem settled_pinnedDatabase : Settled peopleTable pinnedDatabase where
  logIndex_pos r hr := by
    obtain rfl := mem_allRows_pinnedDatabase.mp hr
    decide
  logIndex_le r hr := by
    obtain rfl := mem_allRows_pinnedDatabase.mp hr
    decide
  version_injective r hr s hs _ := by
    rw [mem_allRows_pinnedDatabase.mp hr, mem_allRows_pinnedDatabase.mp hs]
  primaryKey_isSome r hr := by
    obtain rfl := mem_allRows_pinnedDatabase.mp hr
    decide

theorem ann_mem_seenAt : ann ∈ seenAt peopleTable 1 pinnedDatabase.storage := by
  refine ⟨⟨⟨mem_allRows_pinnedDatabase.mpr rfl, by decide⟩, fun r hr _ => ?_⟩, rfl⟩
  rw [mem_allRows_pinnedDatabase.mp hr.1]

/-- **An update takes the row away from the snapshot.** A transaction has pinned the entry that
inserted a person. Another one renames the person: the old version is deleted, the new one lies
beyond the pin, and the transaction no longer reads the person at all. -/
theorem pinned_row_lost :
    ∃ db db', run (step peopleTable) emptyDatabase pinEvents = some db ∧ db.cell = some 1 ∧
      ann ∈ seenAt peopleTable 1 db.storage ∧
      run (step peopleTable) db [.commit 2 [⟨some ann, annie⟩]] = some db' ∧
      ∀ scan, db'.read scan peopleTable = [] := by
  refine ⟨pinnedDatabase, _, rfl, rfl, ann_mem_seenAt, rfl, fun scan => ?_⟩
  -- only the new version is left, and it is not visible
  have hnil : scan.mapOrder [] = [] := perm_nil.mp (scan.mapOrder_perm [])
  change (scan.mapOrder []).filter _ = []
  rw [hnil, filter_nil]

/-- Another person is inserted. -/
def otherInsert : List Event := [.commit 2 [⟨none, bob⟩]]

theorem keeps_otherInsert :
    Meets (step peopleTable) (Keeps peopleTable) pinnedDatabase otherInsert := by
  refine ⟨fun index hcell r _ => ⟨.inr (by simp), ?_⟩, fun _ _ => trivial⟩
  obtain rfl : 1 = index := Option.some.inj hcell
  simp only [mem_singleton, forall_eq]
  exact fun hle => absurd hle (by decide)

theorem pinned_snapshot_stable_of_insert :
    ∃ db', run (step peopleTable) pinnedDatabase otherInsert = some db' ∧
      ∀ scan, ∃ e ∈ db'.read scan peopleTable, e = ann ∨ e = ann.decoded := by
  have happart : ToldApart peopleTable 1 pinnedDatabase.storage := by
    refine toldApart_of_decoded_eq settled_pinnedDatabase.primaryKey_isSome fun r hr => ?_
    obtain rfl := mem_allRows_pinnedDatabase.mp hr
    decide
  exact ⟨_, rfl, fun scan => pinned_snapshot_stable scan settled_pinnedDatabase rfl happart
    keeps_otherInsert rfl ann ann_mem_seenAt⟩

end KalamDB.Snapshots
