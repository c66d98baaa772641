import KalamDB.Storage.Tiers

/-!
# Resolving versions

A scan reads rows of both tiers and keeps, of every bucket of the primary key, the **newest version
that its snapshot sees** (`selectLatestVersions`). The winners are collected in a hash map, whose
order is a parameter.

A row's bucket is its primary key, except for the empty text: rows with that key have a bucket of
their own each (`mergeBucket_of_primaryKey`, `mergeBucket_of_empty`).
-/

namespace KalamDB

open LatestVersion List TableDefinition Option

/-- The order in which a hash map gives out its values. -/
structure ScanEnv where
  mapOrder : List SharedTableRow → List SharedTableRow
  mapOrder_perm : ∀ l, (mapOrder l).Perm l

/-- The bucket in which a row competes with the other versions of its key. -/
def TableDefinition.mergeBucket (t : TableDefinition) (r : SharedTableRow) : PkBucketKey :=
  pkBucketKeyFromRow r.fields t.primaryKeyFieldName r.version

/-- A version no later than the snapshot; without a snapshot every version is visible. -/
def isVisibleAtSnapshot (snapshot : Option VersionId) (r : SharedTableRow) : Bool :=
  snapshot.all fun bound => decide (r.version ≤ bound)

/-- **The newest visible version of every bucket**, hot rows first so that they win ties, in
the order of the hash map and without tombstones unless they are asked for. -/
def selectLatestVersions (env : ScanEnv) (t : TableDefinition) (hot cold : List SharedTableRow)
    (snapshot : Option VersionId) (keepDeleted : Bool) : List SharedTableRow :=
  let candidates := (hot ++ cold).filter (isVisibleAtSnapshot snapshot)
  let best := winners t.mergeBucket SharedTableRow.version candidates
  (env.mapOrder (best.entries.map Sigma.snd)).filter fun r => keepDeleted || !r.deleted

/-! ### Buckets and primary keys -/

theorem tryPkBucketKey_ne_version (value : ScalarValue) (v : VersionId) :
    tryPkBucketKey value ≠ some (.version v) := by
  cases value <;> simp [tryPkBucketKey]

namespace TableDefinition

variable {t : TableDefinition} {r s : SharedTableRow}

/-- A row's key that is not the empty text is its bucket. -/
theorem mergeBucket_of_primaryKey {key : PkBucketKey} (h : t.primaryKey r = some key)
    (hne : key ≠ .text "") : t.mergeBucket r = key := by
  obtain ⟨value, hget, hkey⟩ := bind_eq_some_iff.mp h
  rw [mergeBucket, pkBucketKeyFromRow, hget]
  exact pkBucketKeyFromScalar_of_tryPkBucketKey hkey hne _

/-- Under the empty text every version has a bucket of its own. -/
theorem mergeBucket_of_empty (h : t.primaryKey r = some (.text "")) :
    t.mergeBucket r = .version r.version := by
  obtain ⟨value, hget, hkey⟩ := bind_eq_some_iff.mp h
  rw [mergeBucket, pkBucketKeyFromRow, hget]
  simp [pkBucketKeyFromScalar, hkey]

theorem primaryKey_ne_version (v : VersionId) : t.primaryKey r ≠ some (.version v) := by
  intro h
  obtain ⟨value, -, hkey⟩ := bind_eq_some_iff.mp h
  exact tryPkBucketKey_ne_version value v hkey

/-- Rows that share a bucket share their key. -/
theorem primaryKey_eq_of_mergeBucket_eq (hr : (t.primaryKey r).isSome)
    (hs : (t.primaryKey s).isSome) (h : t.mergeBucket r = t.mergeBucket s) :
    t.primaryKey r = t.primaryKey s := by
  obtain ⟨a, ha⟩ := isSome_iff_exists.mp hr
  obtain ⟨b, hb⟩ := isSome_iff_exists.mp hs
  by_cases hra : a = .text ""
  · by_cases hsb : b = .text ""
    · rw [ha, hb, hra, hsb]
    · rw [mergeBucket_of_empty (hra ▸ ha), mergeBucket_of_primaryKey hb hsb] at h
      exact absurd (h ▸ hb) (primaryKey_ne_version _)
  · by_cases hsb : b = .text ""
    · rw [mergeBucket_of_primaryKey ha hra, mergeBucket_of_empty (hsb ▸ hb)] at h
      exact absurd (h ▸ ha) (primaryKey_ne_version _)
    · rw [mergeBucket_of_primaryKey ha hra, mergeBucket_of_primaryKey hb hsb] at h
      rw [ha, hb, h]

end TableDefinition

/-! ### The rows that are kept -/

section

variable {env : ScanEnv} {t : TableDefinition} {r : SharedTableRow} {hot cold : List SharedTableRow}
  {snapshot : Option VersionId} {keep : Bool}

/-- The rows a scan at a snapshot resolves, before filter and limit. -/
theorem mem_selectLatestVersions_snapshot_iff
    (hid : VersionsIdentify t.mergeBucket SharedTableRow.version
      {r | r ∈ hot ++ cold ∧ isVisibleAtSnapshot snapshot r = true}) :
    r ∈ selectLatestVersions env t hot cold snapshot keep ↔
      IsNewest t.mergeBucket SharedTableRow.version
          {r | r ∈ hot ++ cold ∧ isVisibleAtSnapshot snapshot r = true} r ∧
        (keep = true ∨ r.deleted = false) := by
  have hset : {r | r ∈ (hot ++ cold).filter (isVisibleAtSnapshot snapshot)} =
      {r | r ∈ hot ++ cold ∧ isVisibleAtSnapshot snapshot r = true} :=
    Set.ext fun _ => mem_filter
  rw [← hset] at hid ⊢
  rw [selectLatestVersions, mem_filter, (env.mapOrder_perm _).mem_iff, mem_values_winners_iff hid]
  simp

variable (env keep) in
/-- Of the bucket of a row that the snapshot sees, a row no older than it is resolved. -/
theorem exists_mem_selectLatestVersions (hr : r ∈ hot ++ cold)
    (hvisible : isVisibleAtSnapshot snapshot r = true) :
    ∃ s ∈ hot ++ cold, isVisibleAtSnapshot snapshot s = true ∧
      t.mergeBucket s = t.mergeBucket r ∧ r.version ≤ s.version ∧
      (s.deleted = false → s ∈ selectLatestVersions env t hot cold snapshot keep) := by
  have hsel := selects_winners t.mergeBucket SharedTableRow.version
    ((hot ++ cold).filter (isVisibleAtSnapshot snapshot))
  have hmem : r ∈ (hot ++ cold).filter (isVisibleAtSnapshot snapshot) :=
    mem_filter.mpr ⟨hr, hvisible⟩
  obtain ⟨s, hs⟩ := isSome_iff_exists.mp (hsel.complete r hmem)
  obtain ⟨hsmem, hbucket, hmax⟩ := hsel.sound _ s hs
  obtain ⟨hsmem, hsvisible⟩ := mem_filter.mp hsmem
  refine ⟨s, hsmem, hsvisible, hbucket, hmax r hmem rfl, fun hlive => ?_⟩
  rw [selectLatestVersions, mem_filter, (env.mapOrder_perm _).mem_iff, List.mem_map]
  exact ⟨⟨⟨_, s⟩, AList.mem_lookup_iff.mp hs, rfl⟩, by simp [hlive]⟩

theorem nodup_selectLatestVersions : (selectLatestVersions env t hot cold snapshot keep).Nodup :=
  ((env.mapOrder_perm _).nodup_iff.mpr (nodup_values_winners _)).filter _

end

/-! ### Merging and counting -/

/-- `CREATE TABLE tickets (id BIGINT PRIMARY KEY, status TEXT)` with an index on `status`. -/
def ticketsTable : TableDefinition where
  columns := [⟨1, "id", .bigInt, true⟩, ⟨2, "status", .text, false⟩,
    ⟨3, SystemColumnNames.VERSION, .bigInt, false⟩, ⟨4, SystemColumnNames.DELETED, .boolean, false⟩]
  nextColumnId := 5
  scalarIndexes := [⟨[2]⟩]
  names_nodup := by decide
  exists_primaryKey := by decide

/-- One version of a ticket. -/
def ticket (version : VersionId) (deleted : Bool) (id : Int64) (status : String) :
    SharedTableRow :=
  ⟨version, deleted, ⟨[("id", .int64 id), ("status", .utf8 status)]⟩⟩

/-- Hash maps in entry order. -/
def plainEnv : ScanEnv := ⟨id, fun _ => .refl _⟩

section Merge

variable (t : TableDefinition) (hot cold : List SharedTableRow) (snapshot : Option VersionId)

/-- The rows of a merge, under their keys. -/
def mergeVersionedRows (env : ScanEnv) (keepDeleted : Bool) : List (VersionId × SharedTableRow) :=
  (selectLatestVersions env t hot cold snapshot keepDeleted).map fun r => (r.version, r)

/-- Counting runs the selection again, in a hash map of its own. -/
def countMergedRows (env : ScanEnv) : ℕ :=
  (selectLatestVersions env t hot cold snapshot false).length

/-- No row of the bucket that the snapshot sees is newer. -/
def IsLatest (r : SharedTableRow) : Prop :=
  IsNewest t.mergeBucket SharedTableRow.version
    {r | r ∈ hot ++ cold ∧ isVisibleAtSnapshot snapshot r = true} r

/-- Rows of one bucket have different versions. -/
def Apart (a b : SharedTableRow) : Prop :=
  t.mergeBucket a = t.mergeBucket b → a.version ≠ b.version

instance : Std.Symm (Apart t) := ⟨fun _ _ h hkey hversion => h hkey.symm hversion.symm⟩

variable {t hot cold} {env : ScanEnv} {r : SharedTableRow} {keep : Bool}

theorem mem_selectLatestVersions_of_apart (h : (hot ++ cold).Pairwise (Apart t)) :
    r ∈ selectLatestVersions env t hot cold snapshot keep ↔
      IsLatest t hot cold snapshot r ∧ (keep = true ∨ r.deleted = false) := by
  refine mem_selectLatestVersions_snapshot_iff fun a ha b hb hkey hversion => ?_
  by_contra hne
  exact h.forall ha.1 hb.1 hne hkey hversion

/-- **Latest-version selection**: of each bucket the newest row that the snapshot sees is kept,
unless it is a tombstone. The order of the rows does not matter, nor the order of the hash map, and
counting agrees with merging. -/
theorem selectLatestVersions_latest (h : (hot ++ cold).Pairwise (Apart t)) (env : ScanEnv)
    (keep : Bool) :
    (selectLatestVersions env t hot cold snapshot keep).Nodup ∧
    (∀ r, r ∈ selectLatestVersions env t hot cold snapshot keep ↔
      IsLatest t hot cold snapshot r ∧ (keep = true ∨ r.deleted = false)) ∧
    (∀ env' hot' cold', hot'.Perm hot → cold'.Perm cold →
      (selectLatestVersions env' t hot' cold' snapshot keep).Perm
        (selectLatestVersions env t hot cold snapshot keep)) ∧
    ∀ env', countMergedRows t hot cold snapshot env' =
      (mergeVersionedRows t hot cold snapshot env false).length := by
  have hperm : ∀ env' hot' cold' keep, hot'.Perm hot → cold'.Perm cold →
      (selectLatestVersions env' t hot' cold' snapshot keep).Perm
        (selectLatestVersions env t hot cold snapshot keep) := by
    intro env' hot' cold' keep hhot hcold
    have hboth : (hot' ++ cold').Perm (hot ++ cold) := hhot.append hcold
    have h' := h.perm hboth.symm fun hab => Std.Symm.symm _ _ hab
    refine (perm_ext_iff_of_nodup nodup_selectLatestVersions
      nodup_selectLatestVersions).mpr fun r => ?_
    simp only [mem_selectLatestVersions_of_apart snapshot h,
      mem_selectLatestVersions_of_apart snapshot h', IsLatest, hboth.mem_iff]
  refine ⟨nodup_selectLatestVersions, fun r => mem_selectLatestVersions_of_apart snapshot h,
    fun env' hot' cold' => hperm env' hot' cold' keep, fun env' => ?_⟩
  rw [mergeVersionedRows, length_map]
  exact (hperm env' hot cold false .rfl .rfl).length_eq

/-- A snapshot from before a delete sees the flushed version. -/
theorem selectLatestVersions_before_delete :
    countMergedRows ticketsTable [ticket ⟨2, by decide⟩ true 1 "open"]
      [ticket ⟨1, by decide⟩ false 1 "open"] (some ⟨1, by decide⟩) plainEnv =
        (mergeVersionedRows ticketsTable [ticket ⟨2, by decide⟩ true 1 "open"]
          [ticket ⟨1, by decide⟩ false 1 "open"] (some ⟨1, by decide⟩) plainEnv false).length ∧
      ticket ⟨1, by decide⟩ false 1 "open" ∈ selectLatestVersions plainEnv ticketsTable
        [ticket ⟨2, by decide⟩ true 1 "open"] [ticket ⟨1, by decide⟩ false 1 "open"]
        (some ⟨1, by decide⟩) false := by
  refine ⟨(selectLatestVersions_latest _ ?_ plainEnv false).2.2.2 plainEnv, by decide⟩
  exact pairwise_pair.mpr fun _ => by decide

end Merge

end KalamDB
