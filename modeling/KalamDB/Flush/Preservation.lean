import KalamDB.Flush.ScanLoop

/-!
# When a flush preserves what readers see

A flush rearranges row versions between the tiers and drops those it holds to be superseded.
`execute_allRows` says exactly which versions are left: all cold ones, the winners that stay
hot and the winners that are archived (`Survives`). `execute_view_eq_iff` then decides, for
every table, store and environment, whether the reader's view is the same before and after.

The winners are chosen within the buckets of the **first schema field**, while readers
resolve versions by the **primary key**. Where the two differ, rows of different keys
compete for one bucket and all but one of them are lost
(`execute_view_ne_of_key_not_first`). UUID keys do so when their first ten bytes agree, for the
codec decodes them as binary values and these bucket by their display text. The other two ways in
which a newest version can fail to survive are a tombstone on a batch boundary, which the scan reads
twice and therefore deletes, and a tombstone whose bucket the cold mask does not recognise.

A flush that fails has deleted the superseded versions all the same (`execute_snd_allRows`).
-/

namespace KalamDB

open LatestVersion List SharedTableFlushJob Manifest

/-! ### The segment that is written -/

variable {rows : List SharedTableRow} {t : TableDefinition}

section

variable {m : Manifest} {r : SharedTableRow}

/-- A reservation has no rows. -/
theorem mem_rows_addSegment_reserved :
    r ∈ (m.addSegment (emptySegment m.nextBatchNumber .inProgress rows)).rows ↔ r ∈ m.rows := by
  simp only [mem_rows, addSegment, mem_append, mem_filter, mem_singleton]
  constructor
  · rintro ⟨s, ⟨hs, -⟩ | rfl, hstatus, hr⟩
    · exact ⟨s, hs, hstatus, hr⟩
    · cases hr
  · rintro ⟨s, hs, hstatus, hr⟩
    exact ⟨s, .inl ⟨hs, decide_eq_true (batchNumber_ne_nextBatchNumber hs)⟩, hstatus, hr⟩

/-- A segment in the place of its reservation adds its rows if it is committed. -/
theorem mem_rows_addSegment {s : Segment} (hs : s.batchNumber = m.nextBatchNumber) :
    r ∈ ((m.addSegment (emptySegment m.nextBatchNumber .inProgress rows)).addSegment s).rows ↔
      r ∈ m.rows ∨ s.status = .committed ∧ r ∈ s.rows := by
  simp only [mem_rows, addSegment, mem_append, mem_filter, mem_singleton]
  constructor
  · rintro ⟨s, ⟨⟨hs, -⟩ | rfl, -⟩ | rfl, hstatus, hr⟩
    · exact .inl ⟨s, hs, hstatus, hr⟩
    · cases hr
    · exact .inr ⟨hstatus, hr⟩
  · rintro (⟨old, hold, hstatus, hr⟩ | ⟨hstatus, hr⟩)
    · have hne := batchNumber_ne_nextBatchNumber hold
      exact ⟨old, .inl ⟨.inl ⟨hold, decide_eq_true hne⟩, decide_eq_true (hs ▸ hne)⟩, hstatus, hr⟩
    · exact ⟨_, .inr rfl, hstatus, hr⟩

end

section

variable {manifest : Option Manifest} (hot : HotStore) (r : SharedTableRow)

theorem mem_coldRows_iff_getD : r ∈ (TableStorage.mk hot manifest).coldRows ↔
    r ∈ (manifest.getD .empty).rows := by
  cases manifest with
  | none => simp [TableStorage.coldRows, Manifest.empty, Manifest.rows]
  | some m => rfl

/-- A successful write publishes one segment with the given rows. -/
theorem writeScope_ok {fault : Option WriteFault} {manifest' : Option Manifest}
    {path : String} (h : writeScope t fault manifest rows = (.ok path, manifest')) :
    r ∈ (TableStorage.mk hot manifest').coldRows ↔
      r ∈ (TableStorage.mk hot manifest).coldRows ∨ r ∈ rows := by
  unfold writeScope at h
  split_ifs at h with hrows
  · cases h
  split at h <;> simp only [Prod.mk.injEq, reduceCtorEq, false_and] at h
  obtain ⟨-, rfl⟩ := h
  rw [mem_coldRows_iff_getD, mem_coldRows_iff_getD, Option.getD_some, mem_rows_addSegment rfl]
  simp [flushSegment]

variable (t manifest) in
/-- A failing write publishes its rows only if it is the hook that fails. -/
theorem writeScope_error (hrows : rows ≠ []) (fault : WriteFault) :
    (∃ error, (writeScope t (some fault) manifest rows).1 = .error error) ∧
    (r ∈ (TableStorage.mk hot (writeScope t (some fault) manifest rows).2).coldRows ↔
      r ∈ (TableStorage.mk hot manifest).coldRows ∨ fault = .hook ∧ r ∈ rows) := by
  unfold writeScope
  rw [if_neg hrows, mem_coldRows_iff_getD, mem_coldRows_iff_getD]
  cases fault with
  | reserve => exact ⟨⟨_, rfl⟩, by simp⟩
  | upload =>
    refine ⟨⟨_, rfl⟩, ?_⟩
    rw [Option.getD_some, mem_rows_addSegment rfl]
    simp [emptySegment]
  | commit =>
    refine ⟨⟨_, rfl⟩, ?_⟩
    rw [Option.getD_some, mem_rows_addSegment_reserved]
    simp
  | hook =>
    refine ⟨⟨_, rfl⟩, ?_⟩
    rw [Option.getD_some, mem_rows_addSegment rfl]
    simp [flushSegment]

end

namespace SharedTableFlushJob

variable (job : SharedTableFlushJob) (env : FlushEnv) (st : TableStorage) {ρ : List SharedTableRow}
  {s : ScanState} {r : SharedTableRow} {v : VersionId}

theorem scanBatchSize_pos : 0 < job.scanBatchSize := lt_of_lt_of_le Nat.one_pos (le_max_right _ _)

/-! ### Which versions are left -/

/-- The bucket by which the job groups a row. -/
def group (r : SharedTableRow) : PkBucketKey := flushBucket (extractPkFieldName job.table) r

/-- `r` is the newest hot row of its group. -/
def NewestInGroup (r : SharedTableRow) : Prop :=
  IsNewest job.group SharedTableRow.version {x | x ∈ st.hot.rows} r

/-- `r` stays in the hot store: it is the newest of its group, it was read only once, and the
job retains current rows or keeps `r` as a tombstone of a key that may be cold. -/
def StaysHot (r : SharedTableRow) : Prop :=
  job.NewestInGroup st r ∧ ¬ ScanState.ReadTwice job.scanBatchSize st.hot r ∧
    (job.retainLatestHot = true ∨
      (r.deleted = true ∧ (job.mask env st.manifest).preserves (job.group r) = true))

/-- `r` is written to the new segment: it is the newest of its group and live. -/
def IsArchived (r : SharedTableRow) : Prop :=
  job.NewestInGroup st r ∧ job.retainLatestHot = false ∧ r.deleted = false

/-- `r` is a hot row that the flush does not lose. -/
def Survives (r : SharedTableRow) : Prop := job.StaysHot env st r ∨ job.IsArchived st r

/-- The flush has rows to write, and the write fails. -/
def Fails : Prop :=
  env.writeFault ≠ none ∧ ∃ r, job.IsArchived st r

/-- `r` is a hot row that a failing flush does not lose: the superseded rows are deleted before the
segment is written, and a hook fails when the segment is already published. -/
def SurvivesFault (r : SharedTableRow) : Prop :=
  (job.NewestInGroup st r ∧ ¬ ScanState.ReadTwice job.scanBatchSize st.hot r) ∨
    (env.writeFault = some .hook ∧ job.IsArchived st r)

/-- `r` is a hot row that is left, whether or not the flush succeeds. -/
def Leaves (r : SharedTableRow) : Prop :=
  (¬ job.Fails env st → job.Survives env st r) ∧ (job.Fails env st → job.SurvivesFault env st r)

variable {job env st} in
theorem Leaves.mem (h : job.Leaves env st r) : r ∈ st.hot.rows := by
  by_cases hfails : job.Fails env st
  · exact (h.2 hfails).elim (fun hstays => hstays.1.1) fun harchived => harchived.2.1.1
  · exact (h.1 hfails).elim (fun hstays => hstays.1.1) fun harchived => harchived.1.1

/-- **The condition under which a flush is invisible.** Every newest version that only the hot
store holds survives, or is a tombstone under which no live version resurfaces. -/
def KeepsNewest : Prop :=
  ∀ m ∈ st.hot.rows, m ∉ st.coldRows →
    IsNewest job.table.primaryKey SharedTableRow.version st.allRows m →
      job.Survives env st m ∨
        (m.deleted = true ∧
          ∀ r, IsNewest job.table.primaryKey SharedTableRow.version
              {r | r ∈ st.coldRows ∨ job.Survives env st r} r →
            job.table.primaryKey r = job.table.primaryKey m → r.deleted = true)

variable {job env st}

section

variable (h : ScanState.Reads (extractPkFieldName job.table) st.hot ρ s)
  (hρ : ∀ r, r ∈ ρ ↔ r ∈ st.hot.rows)
include h hρ

/-- The entries of the winner map after a scan of the whole store. -/
private theorem mem_entries_iff {e : Sigma fun _ : PkBucketKey => SharedTableRow} :
    e ∈ s.latest.entries ↔ job.group e.2 = e.1 ∧ job.NewestInGroup st e.2 := by
  have hset : {x | x ∈ ρ} = {x | x ∈ st.hot.rows} := Set.ext hρ
  have hid : VersionsIdentify (flushBucket (extractPkFieldName job.table))
      SharedTableRow.version {x | x ∈ ρ} := fun r hr r' hr' _ hv =>
    HotStore.eq_of_version_eq (h.subset r hr) (h.subset r' hr') hv
  rw [← AList.mem_lookup_iff, Option.mem_def, h.latest.lookup_eq_some_iff hid, hset]
  rfl

/-- The rows of the hot store after the superseded keys are deleted. -/
private theorem mem_deleteBatch_superseded_iff
    (hcount : ∀ r, 2 ≤ ρ.count r ↔ ScanState.ReadTwice job.scanBatchSize st.hot r) :
    r ∈ (s.hot.deleteBatch s.superseded).rows ↔
      job.NewestInGroup st r ∧ ¬ ScanState.ReadTwice job.scanBatchSize st.hot r := by
  have hset : {x | x ∈ ρ} = {x | x ∈ st.hot.rows} := Set.ext hρ
  have hretains := h.retains_iff r
  rw [HotStore.mem_deleteBatch]
  refine hretains.trans ?_
  unfold ScanState.Dropped
  rw [hρ, hcount, hset]
  constructor
  · rintro ⟨hr, hnot⟩
    simp only [hr, true_and, not_or, not_not] at hnot
    exact hnot
  · rintro ⟨hnew, htwice⟩
    refine ⟨hnew.1, fun hdrop => ?_⟩
    rcases hdrop.2 with hnot | h2
    · exact hnot hnew
    · exact htwice h2

/-- The keys of the winners. -/
private theorem mem_liveHotKeys_iff :
    v ∈ liveHotKeys s.latest ↔ ∃ r, job.NewestInGroup st r ∧ r.version = v := by
  simp only [liveHotKeys, mem_map, mem_entries_iff h hρ]
  constructor
  · rintro ⟨e, ⟨-, hnew⟩, rfl⟩
    exact ⟨e.2, hnew, rfl⟩
  · rintro ⟨r, hnew, rfl⟩
    exact ⟨⟨job.group r, r⟩, ⟨rfl, hnew⟩, rfl⟩

variable (env) in
/-- The live winners are the rows to write. -/
private theorem mem_rowsToWrite_iff :
    r ∈ job.rowsToWrite env st.manifest s ↔ job.NewestInGroup st r ∧ r.deleted = false := by
  simp only [rowsToWrite, rowsAndTombstonesFromVersions, mem_map, mem_filter,
    mem_entries_iff h hρ, Bool.not_eq_true']
  constructor
  · rintro ⟨e, ⟨⟨-, hnew⟩, hlive⟩, rfl⟩
    exact ⟨hnew, hlive⟩
  · rintro ⟨hnew, hlive⟩
    exact ⟨⟨job.group r, r⟩, ⟨⟨rfl, hnew⟩, hlive⟩, rfl⟩

/-- The preserved tombstone keys. -/
private theorem mem_tombstones_split_iff {preserve : PkBucketKey → Bool} :
    v ∈ (rowsAndTombstonesFromVersions s.latest preserve).2 ↔
      ∃ r, job.NewestInGroup st r ∧ r.deleted = true ∧ preserve (job.group r) = true ∧
        r.version = v := by
  simp only [rowsAndTombstonesFromVersions, mem_map, mem_filter,
    mem_entries_iff h hρ, Bool.and_eq_true]
  constructor
  · rintro ⟨e, ⟨⟨hgroup, hnew⟩, hdead, hpres⟩, rfl⟩
    exact ⟨e.2, hnew, hdead, hgroup ▸ hpres, rfl⟩
  · rintro ⟨r, hnew, hdead, hpres, rfl⟩
    exact ⟨⟨job.group r, r⟩, ⟨⟨rfl, hnew⟩, hdead, hpres⟩, rfl⟩

variable (env) in
/-- A winner's key is deleted unless the row stays hot. -/
private theorem mem_cleanedHot_iff
    (hcount : ∀ r, 2 ≤ ρ.count r ↔ ScanState.ReadTwice job.scanBatchSize st.hot r) :
    r ∈ (job.cleanedHot env st.manifest s).rows ↔ job.StaysHot env st r := by
  rw [cleanedHot, HotStore.mem_deleteBatch, mem_deleteBatch_superseded_iff h hρ hcount]
  rw [and_assoc]
  refine and_congr_right fun hnew => and_congr_right fun _ => ?_
  have hkey : r.version ∈ liveHotKeys s.latest := (mem_liveHotKeys_iff h hρ).mpr ⟨r, hnew, rfl⟩
  simp only [cleanupKeysExcludingPreserved, mem_filter, hkey, true_and, decide_eq_true_eq,
    not_not, mem_append, mem_tombstones_split_iff h hρ]
  cases job.retainLatestHot with
  | true => simp [hkey]
  | false =>
    simp only [Bool.false_eq_true, if_false, not_mem_nil, or_false, false_or]
    constructor
    · rintro ⟨r', hnew', hdead, hpres, hv⟩
      obtain rfl := HotStore.eq_of_version_eq hnew'.1 hnew.1 hv
      exact ⟨hdead, hpres⟩
    · rintro ⟨hdead, hpres⟩
      exact ⟨r, hnew, hdead, hpres, rfl⟩

end

variable (job env st) in
/-- The flush always ends, and without a fault while writing it succeeds. -/
theorem execute_ok (hfault : env.writeFault = none) :
    ∃ res st', job.execute env st = (.ok res, st') := by
  obtain ⟨s, ρ, hscan, -⟩ := ScanState.scanLoop_spec
    (extractPkFieldName job.table) st.hot job.scanBatchSize_pos
  unfold execute
  rw [hscan]
  simp only [finish]
  split_ifs with hskip
  · exact ⟨_, _, rfl⟩
  simp only [Bool.or_eq_true, decide_eq_true_eq, not_or] at hskip
  simp only [writeScope, hskip.2, hfault]
  exact ⟨_, _, rfl⟩

/-- **Which versions are left** after a successful flush: the cold ones and the survivors. -/
theorem execute_allRows {res : FlushJobResult} {st' : TableStorage}
    (hok : job.execute env st = (.ok res, st')) :
    st'.allRows = {r | r ∈ st.coldRows ∨ job.Survives env st r} := by
  obtain ⟨s, ρ, hscan, h, hρ, hcount⟩ := ScanState.scanLoop_spec
    (extractPkFieldName job.table) st.hot job.scanBatchSize_pos
  unfold execute at hok
  rw [hscan] at hok
  simp only [finish] at hok
  ext r
  have hhot := mem_cleanedHot_iff env h hρ hcount (r := r)
  have hrows := mem_rowsToWrite_iff env h hρ (r := r)
  split_ifs at hok with hskip
  · -- nothing is archived
    cases hok
    have hnone : ¬ job.IsArchived st r := by
      rintro ⟨hnew, hretain, hlive⟩
      simp only [hretain, Bool.false_or, decide_eq_true_eq] at hskip
      have hmem := hrows.mpr ⟨hnew, hlive⟩
      rw [hskip] at hmem
      cases hmem
    simp only [TableStorage.allRows, Set.mem_ofPred_eq, hhot, Survives, hnone, or_false]
    exact or_comm
  · split at hok
    · cases hok
    rename_i path manifest' hwrite
    cases hok
    have hretain : job.retainLatestHot = false := by
      simp only [Bool.or_eq_true, not_or, Bool.not_eq_true] at hskip
      exact hskip.1
    simp only [TableStorage.allRows, Set.mem_ofPred_eq, writeScope_ok _ _ hwrite, Survives,
      IsArchived]
    tauto

variable (job env st) in
/-- Which versions are left, whether or not the flush succeeds. -/
theorem execute_snd_allRows :
    (job.execute env st).2.allRows = {r | r ∈ st.coldRows ∨ job.Leaves env st r} := by
  obtain ⟨s, ρ, hscan, h, hρ, hcount⟩ := ScanState.scanLoop_spec
    (extractPkFieldName job.table) st.hot job.scanBatchSize_pos
  have hfinish : job.execute env st = job.finish env st.manifest s := by rw [execute, hscan]
  by_cases hfails : job.Fails env st
  · obtain ⟨hfault, a, hnew, hretain, hlive⟩ := hfails
    obtain ⟨fault, hfault⟩ := Option.ne_none_iff_exists'.mp hfault
    have hrows : job.rowsToWrite env st.manifest s ≠ [] :=
      ne_nil_of_mem ((mem_rowsToWrite_iff env h hρ).mpr ⟨hnew, hlive⟩)
    obtain ⟨⟨error, herror⟩, -⟩ := writeScope_error job.table st.manifest st.hot a hrows fault
    have hst : (job.execute env st).2 = ⟨s.hot.deleteBatch s.superseded,
        (writeScope job.table (some fault) st.manifest (job.rowsToWrite env st.manifest s)).2⟩ := by
      rw [hfinish, finish, if_neg (by simp [hretain, hrows]), hfault]
      generalize writeScope job.table (some fault) st.manifest
        (job.rowsToWrite env st.manifest s) = written at herror ⊢
      obtain ⟨outcome, manifest'⟩ := written
      subst herror
      rfl
    ext r
    have hcold := (writeScope_error job.table st.manifest (s.hot.deleteBatch s.superseded) r hrows
      fault).2
    have hfails : job.Fails env st := ⟨by simp [hfault], a, hnew, hretain, hlive⟩
    rw [hst]
    simp only [TableStorage.allRows, Set.mem_ofPred_eq, hcold, Leaves, hfails, not_true_eq_false,
      false_imp_iff, true_and, true_imp_iff, SurvivesFault, IsArchived, hretain, hfault,
      Option.some.injEq, mem_deleteBatch_superseded_iff h hρ hcount,
      mem_rowsToWrite_iff env h hρ]
    tauto
  · obtain ⟨res, hok⟩ : ∃ res, (job.execute env st).1 = .ok res := by
      rw [hfinish, finish]
      split_ifs with hskip
      · exact ⟨_, rfl⟩
      simp only [Bool.or_eq_true, decide_eq_true_eq, not_or, Bool.not_eq_true] at hskip
      have hfault : env.writeFault = none := by
        by_contra hfault
        obtain ⟨a, ha⟩ := exists_mem_of_ne_nil _ hskip.2
        obtain ⟨hnew, hlive⟩ := (mem_rowsToWrite_iff env h hρ).mp ha
        exact hfails ⟨hfault, a, hnew, hskip.1, hlive⟩
      simp only [writeScope, hskip.2, hfault]
      exact ⟨_, rfl⟩
    rw [execute_allRows (Prod.ext hok rfl)]
    simp [Leaves, hfails]

/-- **When a flush preserves the view.** After a successful flush a reader sees what it saw
before, exactly when the flush keeps the newest versions. -/
theorem execute_view_eq_iff (job : SharedTableFlushJob) (env : FlushEnv)
    (st : TableState) {res : FlushJobResult} {st' : TableStorage}
    (hok : job.execute env st.toTableStorage = (.ok res, st')) :
    st'.view job.table = st.view job.table ↔ job.KeepsNewest env st.toTableStorage := by
  have hrows := execute_allRows hok
  have hsub : st'.allRows ⊆ st.allRows := by
    rw [hrows]
    rintro r (hcold | hstay | harch)
    · exact .inr hcold
    · exact .inl hstay.1.1
    · exact .inl harch.1.1
  unfold TableStorage.view KeepsNewest
  rw [view_eq_iff_of_subset st.finite_allRows (st.versionsIdentify _) hsub, hrows]
  constructor
  · intro hkeep m _ hcold hnew
    rcases hkeep m hnew with (hcold' | hsurv) | ⟨hdead, hhidden⟩
    · exact absurd hcold' hcold
    · exact .inl hsurv
    · refine .inr ⟨by simpa using hdead, fun r hr hk => ?_⟩
      simpa using hhidden r hr hk
  · intro hkeep m hnew
    by_cases hcold : m ∈ st.coldRows
    · exact .inl (.inl hcold)
    rcases hkeep m (hnew.1.resolve_right hcold) hcold hnew with hsurv | ⟨hdead, hhidden⟩
    · exact .inl (.inr hsurv)
    · refine .inr ⟨by simpa using hdead, fun r hr hk => ?_⟩
      simpa using hhidden r hr hk

end SharedTableFlushJob

/-! ### A key that is not the first column -/

/-- The storage of a table that was never flushed. -/
def TableState.ofHot (hot : HotStore) : TableState where
  hot := hot
  manifest := none
  version_injective r hr s hs hv := by
    simp only [TableStorage.allRows, TableStorage.coldRows, List.not_mem_nil, or_false,
      Set.mem_ofPred_eq] at hr hs
    exact HotStore.eq_of_version_eq hr hs hv

/-- `CREATE TABLE people (name TEXT, id INT PRIMARY KEY)`. -/
def peopleStatement : CreateTableStatement := ⟨[("name", .text), ("id", .int)], some "id"⟩

/-- The table `peopleStatement` creates. -/
def peopleTable : TableDefinition where
  columns := peopleStatement.allColumns
  nextColumnId := peopleStatement.allColumns.length + 1
  scalarIndexes := []
  names_nodup := by decide
  exists_primaryKey := by decide

/-- The first person of a name. -/
def firstAnn : SharedTableRow :=
  ⟨⟨1, by decide⟩, false, ⟨[("name", .utf8 "ann"), ("id", .int32 1)]⟩⟩

/-- A second person of the same name. -/
def secondAnn : SharedTableRow :=
  ⟨⟨2, by decide⟩, false, ⟨[("name", .utf8 "ann"), ("id", .int32 2)]⟩⟩

/-- Both people, not yet flushed. -/
def peopleHot : HotStore := ⟨[firstAnn, secondAnn], by decide⟩

/-- The two people before any flush. -/
def peopleState : TableState := .ofHot peopleHot

/-- A flush of the two people with a large batch and no faults. -/
def peopleJob : SharedTableFlushJob := ⟨peopleTable, 1000, false⟩

/-- **A flush loses rows.** The statement is accepted, the flush succeeds, and the person who
shares a name with a later one is gone: the two rows compete for one bucket. -/
theorem execute_view_ne_of_key_not_first :
    peopleStatement.createTable = .ok peopleTable ∧
      ∃ res st', peopleJob.execute ⟨.loaded, none⟩ peopleState.toTableStorage = (.ok res, st') ∧
        st'.view peopleTable ≠ peopleState.view peopleTable := by
  refine ⟨rfl, ?_⟩
  obtain ⟨res, st', hok⟩ := execute_ok peopleJob ⟨.loaded, none⟩ peopleState.toTableStorage rfl
  refine ⟨res, st', hok, fun heq => ?_⟩
  have hseen : firstAnn ∈ peopleState.view peopleTable := by
    refine ⟨⟨.inl mem_cons_self, ?_⟩, rfl⟩
    rintro r (hr | hr) hkey
    · have hrows : r = firstAnn ∨ r = secondAnn := by
        simpa [peopleState, TableState.ofHot, peopleHot] using hr
      rcases hrows with rfl | rfl
      · exact le_rfl
      · exact absurd hkey (by decide)
    · cases hr
  rw [← heq] at hseen
  have hleft : firstAnn ∈ st'.allRows := hseen.1.1
  rw [execute_allRows hok] at hleft
  have hnewest : peopleJob.NewestInGroup peopleState.toTableStorage firstAnn := by
    rcases hleft with hcold | hstays | harchived
    · cases hcold
    · exact hstays.1
    · exact harchived.1
  have hle : secondAnn.version ≤ firstAnn.version :=
    hnewest.2 secondAnn (mem_cons_of_mem _ mem_cons_self) (by decide)
  exact absurd hle (by decide)

/-- The criterion at work on the same flush. -/
theorem execute_view_eq_iff_people :
    ∃ res st', peopleJob.execute ⟨.loaded, none⟩ peopleState.toTableStorage = (.ok res, st') ∧
      (st'.view peopleTable = peopleState.view peopleTable ↔
        peopleJob.KeepsNewest ⟨.loaded, none⟩ peopleState.toTableStorage) := by
  obtain ⟨res, st', hok⟩ := execute_ok peopleJob ⟨.loaded, none⟩ peopleState.toTableStorage rfl
  exact ⟨res, st', hok, execute_view_eq_iff peopleJob ⟨.loaded, none⟩ peopleState hok⟩

end KalamDB
