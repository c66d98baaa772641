import Mathlib.Data.Finset.Card
import KalamDB.Flush.Shared
import KalamDB.Scan.Versions
import KalamDB.Segments.Manifest

/-!
# Compaction of small trailing segments

`compactSmallSegments` merges the small segments at the end of a manifest into one:

* the trailing run of small readable segments of one schema version is **selected**;
* the newest version of every key within the selection is kept, and a **tombstone** only if an
  older segment still holds a row of its key;
* the result replaces the selection **if it is still the tail** of the manifest, and the files of
  the selection are deleted.

The older segments are searched in the cold tier only. A hot row is never consulted, so the
compaction keeps the table as it is as long as no live hot row is older than a selected tombstone
of its key (`compaction_preserves_table`).
-/

namespace KalamDB.Segments

open LatestVersion List SegmentMetadata ColdScope TableDefinition SharedTableRow

/-! ### Selection -/

variable {l : List SegmentMetadata} {m : Manifest}

structure FlushCompactionSettings where
  targetSegmentRows : ℕ
  minEligibleSegments : ℕ
  maxSegmentsPerRun : ℕ

structure SmallSegmentCompactionSelection where
  segments : List SegmentMetadata
  eligibleTailCount : ℕ
  schemaVersion : ℕ
  olderSegmentCount : ℕ

/-- The run of small readable segments of one schema version at the head of the list. -/
def smallRun (target : ℕ) : Option ℕ → List SegmentMetadata → List SegmentMetadata
  | _, [] => []
  | schemaVersion, s :: rest =>
    if !s.isReadable || decide (target ≤ s.rowCount) then []
    else
      match schemaVersion with
      | some v => if v ≠ s.schemaVersion then [] else s :: smallRun target (some v) rest
      | none => s :: smallRun target (some s.schemaVersion) rest

/-- Further segments as long as their rows fit the target. -/
def fillTarget (target : ℕ) : ℕ → List SegmentMetadata → List SegmentMetadata
  | _, [] => []
  | total, s :: rest =>
    if target < total + s.rowCount then [] else s :: fillTarget target (total + s.rowCount) rest

/-- The first segment, and further ones as long as they fit. -/
def chooseRun (target : ℕ) : List SegmentMetadata → List SegmentMetadata
  | [] => []
  | s :: rest => s :: fillTarget target s.rowCount rest

/-- The loops walk the manifest from its end, so their lists are newest first. -/
def selectTrailingSmallSegments (m : Manifest) (settings : FlushCompactionSettings) :
    Option SmallSegmentCompactionSelection :=
  if settings.targetSegmentRows = 0 ∨ settings.minEligibleSegments < 2 ∨
      settings.maxSegmentsPerRun < 2 then none
  else
    let tail := smallRun settings.targetSegmentRows none m.segments.reverse
    if tail.length < settings.minEligibleSegments then none
    else
      let selected :=
        chooseRun settings.targetSegmentRows (tail.take settings.maxSegmentsPerRun)
      if selected.length < 2 then none
      else
        some
          { segments := selected.reverse
            eligibleTailCount := tail.length
            schemaVersion := (tail.head?.map SegmentMetadata.schemaVersion).getD 0
            olderSegmentCount := m.segments.length - selected.length }

/-! ### Winners and tombstones -/

variable (pkField : String) {t : TableDefinition} (target : ℕ)

/-- The bucket of a row read from a file. A key that is null, of another type or the **empty
text** falls back to the version of the row. -/
def pkBucketKeyFromArray (r : SharedTableRow) : PkBucketKey :=
  match (r.fields.get pkField).bind tryPkBucketKey with
  | some (.text text) => if text = "" then .version r.version else .text text
  | some key => key
  | none => .version r.version

/-- Does the batch of the row have the key column? -/
def hasColumn (r : SharedTableRow) : Bool := (r.fields.get pkField).isSome

def missingColumn : String :=
  "Compaction input batch is missing required column " ++ pkField

/-- The newest version of every bucket. Its version and its deleted flag are what the passes
below read. -/
def collectLatestVersions (rows : List SharedTableRow) :
    Except String LatestVersions :=
  if rows.all (hasColumn pkField) then
    .ok (winners (pkBucketKeyFromArray pkField) SharedTableRow.version rows)
  else .error (missingColumn pkField)

/-- The buckets whose newest version is a tombstone. -/
def deletedKeys (latest : LatestVersions) : Finset PkBucketKey :=
  ((latest.entries.filter fun e => e.2.deleted).map Sigma.fst).toFinset

/-- The search through the rows of older segments; it ends early once every deleted bucket was
found. -/
def searchOlder (pkField : String) (deleted : Finset PkBucketKey) :
    Finset PkBucketKey → List SharedTableRow → Except String (Finset PkBucketKey)
  | preserve, [] => .ok preserve
  | preserve, r :: rest =>
    if !hasColumn pkField r then .error (missingColumn pkField)
    else if pkBucketKeyFromArray pkField r ∈ deleted then
      let preserve' := insert (pkBucketKeyFromArray pkField r) preserve
      if preserve'.card = deleted.card then .ok preserve'
      else searchOlder pkField deleted preserve' rest
    else searchOlder pkField deleted preserve rest

/-- **The tombstones to keep**: those whose bucket occurs in an older segment. -/
def findDeletedKeysThatMaskOlderColdRows (older : List SharedTableRow)
    (latest : LatestVersions) : Except String (Finset PkBucketKey) :=
  if deletedKeys latest = ∅ then .ok ∅ else searchOlder pkField (deletedKeys latest) ∅ older

/-- The rows to write: the first row of every bucket with the newest version, without the
tombstones that mask nothing. -/
def filterLatestLiveRows (pkField : String) (latest : LatestVersions)
    (preserve : Finset PkBucketKey) : Finset PkBucketKey → List SharedTableRow → List SharedTableRow
  | _, [] => []
  | emitted, r :: rest =>
    let bucket := pkBucketKeyFromArray pkField r
    match latest.lookup bucket with
    | none => filterLatestLiveRows pkField latest preserve emitted rest
    | some newest =>
      if newest.version ≠ r.version ∨ bucket ∈ emitted then
        filterLatestLiveRows pkField latest preserve emitted rest
      else if r.deleted ∧ bucket ∉ preserve then
        filterLatestLiveRows pkField latest preserve (insert bucket emitted) rest
      else r :: filterLatestLiveRows pkField latest preserve (insert bucket emitted) rest

/-! ### The manifest swap -/

/-- Replace the expected segments by the compacted one, if they are still the tail. -/
def replaceSegmentsWithCompactedSegment (m : Manifest) (expected : List SegmentMetadata)
    (replacement : Option SegmentMetadata) : Option Manifest :=
  if m.segments.length < expected.length then none
  else
    let start := m.segments.length - expected.length
    if m.segments.drop start = expected then
      match replacement with
      | none => some (m.truncate start)
      | some s => some ((m.truncate start).addSegment s)
    else none

/-! ### The compaction -/

structure SmallSegmentCompactionContext where
  table : TableDefinition
  settings : FlushCompactionSettings
  schemaVersion : ℕ

structure SmallSegmentCompactionResult where
  mergedSegments : ℕ
  rowsMerged : ℕ
  outputPath : Option SegmentFile
  eligibleTailCount : ℕ
  deriving DecidableEq

/-- The compacted file as a segment. -/
def compactedSegment (uuid sizeBytes schemaVersion : ℕ) (rows : List SharedTableRow) :
    SegmentMetadata where
  file := .compact uuid
  minSeq := (extractVersionRange rows).1
  maxSeq := (extractVersionRange rows).2
  rowCount := rows.length
  sizeBytes := sizeBytes
  schemaVersion := schemaVersion
  status := .committed

/-- The segment to swap in; none if every row of the selection can go. -/
def replacementSegment (uuid sizeBytes schemaVersion : ℕ) (rows : List SharedTableRow) :
    Option SegmentMetadata :=
  if rows = [] then none else some (compactedSegment uuid sizeBytes schemaVersion rows)

/-- The files after a swap: the compacted one is there and those of the selection are gone. -/
def swappedFiles (files : SegmentFiles) (selected : List SegmentMetadata) (uuid : ℕ)
    (rows : List SharedTableRow) : SegmentFiles := fun file =>
  if file ∈ selected.map SegmentMetadata.file then none
  else if file = .compact uuid ∧ rows ≠ [] then some rows
  else files file

/-- The two passes over the selection: the rows of the compacted file. -/
def compactedRows (input older : List SharedTableRow) :
    Except String (List SharedTableRow) := do
  let latest ← collectLatestVersions pkField input
  let preserve ← findDeletedKeysThatMaskOlderColdRows pkField older latest
  return filterLatestLiveRows pkField latest preserve ∅ input

/-- **A compaction.** It reads the scope as it finds it, and swaps its result into the manifest
of the moment, `current`. -/
def compactSmallSegments (ctx : SmallSegmentCompactionContext) (uuid sizeBytes : ℕ)
    (scope : ColdScope) (current : Manifest) :
    Except String (Option SmallSegmentCompactionResult × ColdScope) :=
  match selectTrailingSmallSegments scope.manifest ctx.settings with
  | none => .ok (none, ⟨current, scope.files⟩)
  | some selection =>
    if selection.schemaVersion ≠ ctx.schemaVersion then .ok (none, ⟨current, scope.files⟩)
    else do
      let older := scope.manifest.segments.take selection.olderSegmentCount
      let output ← compactedRows ctx.table.primaryKeyFieldName
        (scope.files.rows selection.segments) (scope.files.rows older)
      match replaceSegmentsWithCompactedSegment current selection.segments
          (replacementSegment uuid sizeBytes selection.schemaVersion output) with
      | none => return (none, ⟨current, scope.files⟩)
      | some manifest =>
        return (some
          { mergedSegments := selection.segments.length
            rowsMerged := output.length
            outputPath := if output = [] then none else some (.compact uuid)
            eligibleTailCount := selection.eligibleTailCount },
          ⟨manifest, swappedFiles scope.files selection.segments uuid output⟩)

/-! ### The selection is the tail -/

/-- The run is a stretch of readable segments at the head of the list. -/
theorem smallRun_spec (schemaVersion : Option ℕ) (l : List SegmentMetadata) :
    smallRun target schemaVersion l <+: l ∧
      ∀ s ∈ smallRun target schemaVersion l, s.isReadable = true := by
  fun_induction smallRun target schemaVersion l with
  | case1 | case2 | case3 =>
    refine ⟨?_, by simp⟩
    exact nil_prefix
  | case4 s rest h _ _ ih | case5 s rest h ih =>
    have hreadable : s.isReadable = true := by
      by_contra hne
      exact h (by simp [hne])
    exact ⟨(prefix_cons_inj s).mpr ih.1, forall_mem_cons.mpr ⟨hreadable, ih.2⟩⟩

theorem prefix_fillTarget (target total : ℕ) (l : List SegmentMetadata) :
    fillTarget target total l <+: l := by
  fun_induction fillTarget target total l with
  | case1 | case2 => exact nil_prefix
  | case3 _ s rest _ ih => exact (prefix_cons_inj s).mpr ih

theorem prefix_chooseRun (l : List SegmentMetadata) : chooseRun target l <+: l := by
  cases l with
  | nil => exact nil_prefix
  | cons s rest => exact prefix_cons_inj s |>.mpr (prefix_fillTarget _ _ _)

theorem eq_take_append_of_prefix_reverse {p : List SegmentMetadata} (h : p <+: l.reverse) :
    l = l.take (l.length - p.length) ++ p.reverse := by
  obtain ⟨rest, hrest⟩ := h
  obtain rfl : l = rest.reverse ++ p.reverse := by
    rw [← reverse_append, hrest, reverse_reverse]
  simp

/-- The selected segments are the tail of the manifest, and all of them are readable. -/
theorem selectTrailingSmallSegments_spec {settings : FlushCompactionSettings}
    {selection : SmallSegmentCompactionSelection}
    (h : selectTrailingSmallSegments m settings = some selection) :
    m.segments = m.segments.take selection.olderSegmentCount ++ selection.segments ∧
      ∀ s ∈ selection.segments, s.isReadable = true := by
  have hinitial : chooseRun settings.targetSegmentRows
      ((smallRun settings.targetSegmentRows none m.segments.reverse).take
        settings.maxSegmentsPerRun) <+:
      smallRun settings.targetSegmentRows none m.segments.reverse := by
    refine (prefix_chooseRun _ _).trans ?_
    exact take_prefix _ _
  unfold selectTrailingSmallSegments at h
  simp only [Option.ite_none_left_eq_some, Option.some.injEq] at h
  obtain ⟨-, -, -, rfl⟩ := h
  refine ⟨eq_take_append_of_prefix_reverse (hinitial.trans (smallRun_spec _ _ _).1), ?_⟩
  intro s hs
  exact (smallRun_spec _ _ _).2 s (hinitial.subset (mem_reverse.mp hs))

/-! ### The rows of the compacted file -/

section Winners

variable {pkField : String} {input older : List SharedTableRow}
  {preserve found : Finset PkBucketKey} {latest : LatestVersions} {r : SharedTableRow}
  {output : List SharedTableRow}

theorem searchOlder_spec {deleted : Finset PkBucketKey} (hsubset : preserve ⊆ deleted)
    (h : searchOlder pkField deleted preserve older = .ok found) :
    preserve ⊆ found ∧
      ∀ r ∈ older, pkBucketKeyFromArray pkField r ∈ deleted →
        pkBucketKeyFromArray pkField r ∈ found := by
  fun_induction searchOlder pkField deleted preserve older with
  | case1 =>
    cases h
    exact ⟨subset_rfl, by simp⟩
  | case2 => cases h
  | case3 preserve r rest _ hr _ hcard =>
    -- Every deleted bucket was found.
    rw [← Except.ok.inj h]
    have hall := Finset.eq_of_subset_of_card_le (Finset.insert_subset hr hsubset) hcard.ge
    exact ⟨Finset.subset_insert _ _, fun s _ hs => hall.ge hs⟩
  | case4 preserve r rest _ hr _ _ ih =>
    obtain ⟨hkept, hrest⟩ := ih (Finset.insert_subset hr hsubset) h
    have hr := hkept (Finset.mem_insert_self _ _)
    exact ⟨(Finset.subset_insert _ _).trans hkept, forall_mem_cons.mpr ⟨fun _ => hr, hrest⟩⟩
  | case5 preserve r rest _ hr ih =>
    obtain ⟨hkept, hrest⟩ := ih hsubset h
    exact ⟨hkept, forall_mem_cons.mpr ⟨fun hdeleted => absurd hdeleted hr, hrest⟩⟩

theorem mem_deletedKeys {bucket : PkBucketKey} :
    bucket ∈ deletedKeys latest ↔ ∃ r, latest.lookup bucket = some r ∧ r.deleted = true := by
  simp only [deletedKeys, mem_toFinset, mem_map, mem_filter]
  constructor
  · rintro ⟨⟨b, r⟩, ⟨hmem, hdeleted⟩, rfl⟩
    exact ⟨r, AList.mem_lookup_iff.mpr hmem, hdeleted⟩
  · rintro ⟨r, hlookup, hdeleted⟩
    exact ⟨⟨bucket, r⟩, ⟨AList.mem_lookup_iff.mp hlookup, hdeleted⟩, rfl⟩

/-- The rows that are written: newest versions that are live or preserved. -/
theorem mem_filterLatestLiveRows
    (hlatest : ∀ r ∈ input, ∀ newest, latest.lookup (pkBucketKeyFromArray pkField r) = some newest →
      newest.version = r.version → newest = r) (emitted : Finset PkBucketKey) :
    r ∈ filterLatestLiveRows pkField latest preserve emitted input ↔
      (r ∈ input ∧ latest.lookup (pkBucketKeyFromArray pkField r) = some r ∧
        (r.deleted = true → pkBucketKeyFromArray pkField r ∈ preserve)) ∧
        pkBucketKeyFromArray pkField r ∉ emitted := by
  induction input generalizing emitted with
  | nil => simp [filterLatestLiveRows]
  | cons x rest ih =>
    obtain ⟨hx, hrest⟩ := forall_mem_cons.mp hlatest
    by_cases hwins : latest.lookup (pkBucketKeyFromArray pkField x) = some x ∧
        pkBucketKeyFromArray pkField x ∉ emitted
    · have hstep : r ∈ filterLatestLiveRows pkField latest preserve emitted (x :: rest) ↔
          r = x ∧ (x.deleted = true → pkBucketKeyFromArray pkField x ∈ preserve) ∨
            r ∈ filterLatestLiveRows pkField latest preserve
              (insert (pkBucketKeyFromArray pkField x) emitted) rest := by
        simp only [filterLatestLiveRows, hwins, ne_eq, not_true, or_false, if_false]
        split
        · next hdropped => simp [hdropped]
        · next hkept => rw [mem_cons, and_iff_left (not_and_not_right.mp hkept)]
      rw [hstep, ih hrest, mem_cons, Finset.mem_insert, not_or]
      by_cases hne : r = x
      · subst hne
        simp [hwins]
      -- Another row of this bucket is not its newest version.
      have hother : latest.lookup (pkBucketKeyFromArray pkField r) = some r →
          pkBucketKeyFromArray pkField r ≠ pkBucketKeyFromArray pkField x :=
        fun hr hbucket => hne (Option.some.inj (hr.symm.trans (hbucket ▸ hwins.1)))
      rw [or_iff_right fun h => hne h.1, or_iff_right hne]
      refine and_congr_right fun h => ?_
      rw [and_iff_right (hother h.2.1)]
    · have hskip : filterLatestLiveRows pkField latest preserve emitted (x :: rest) =
          filterLatestLiveRows pkField latest preserve emitted rest := by
        rw [filterLatestLiveRows]
        cases hlookup : latest.lookup (pkBucketKeyFromArray pkField x) with
        | none => rfl
        | some newest =>
          refine if_pos ?_
          by_contra hnot
          rw [not_or, not_not] at hnot
          exact hwins ⟨hx newest hlookup hnot.1 ▸ hlookup, hnot.2⟩
      rw [hskip, ih hrest, mem_cons]
      refine and_congr_left fun hemitted => and_congr_left fun h => ?_
      rw [or_iff_right]
      rintro rfl
      exact hwins ⟨h.1, hemitted⟩

/-- The newest versions of their buckets. -/
abbrev IsWinner (pkField : String) (input : List SharedTableRow) : SharedTableRow → Prop :=
  IsNewest (pkBucketKeyFromArray pkField) SharedTableRow.version {r | r ∈ input}

/-- **The compacted rows**: newest versions of their buckets, among them every live one and every
tombstone whose bucket occurs in an older segment. -/
theorem compactedRows_spec (hid : ∀ r ∈ input, ∀ s ∈ input, r.version = s.version → r = s)
    (h : compactedRows pkField input older = .ok output) :
    (∀ r ∈ output, IsWinner pkField input r) ∧ ∀ r, IsWinner pkField input r →
      (r.deleted = true → ∃ o ∈ older, pkBucketKeyFromArray pkField o =
        pkBucketKeyFromArray pkField r) → r ∈ output := by
  unfold compactedRows collectLatestVersions at h
  split at h
  swap
  · cases h
  simp only [bind, Except.bind] at h
  split at h
  · cases h
  rename_i found hfound
  cases h
  have hversions : VersionsIdentify (pkBucketKeyFromArray pkField) version
      {r | r ∈ input} := fun r hr s hs _ => hid r hr s hs
  have hlookup : ∀ b r, (winners (pkBucketKeyFromArray pkField) version input).lookup b = some r ↔
        pkBucketKeyFromArray pkField r = b ∧ IsWinner pkField input r :=
    fun _ _ => (selects_winners _ _ input).lookup_eq_some_iff hversions
  have hlatest : ∀ r ∈ input, ∀ newest,
      (winners (pkBucketKeyFromArray pkField) version input).lookup
        (pkBucketKeyFromArray pkField r) = some newest → newest.version = r.version → newest = r :=
    fun r hr newest hnewest hversion => hid newest ((hlookup _ _).mp hnewest).2.1 r hr hversion
  refine ⟨fun r hr => ?_, fun r hr holder => ?_⟩
  · obtain ⟨⟨-, hr, -⟩, -⟩ := (mem_filterLatestLiveRows hlatest ∅).mp hr
    exact ((hlookup _ _).mp hr).2
  · have hwins := (hlookup (pkBucketKeyFromArray pkField r) r).mpr ⟨rfl, hr⟩
    refine (mem_filterLatestLiveRows hlatest ∅).mpr
      ⟨⟨hr.1, hwins, fun hdeleted => ?_⟩, Finset.notMem_empty _⟩
    obtain ⟨o, ho, hbucket⟩ := holder hdeleted
    have hmask := mem_deletedKeys.mpr ⟨r, hwins, hdeleted⟩
    rw [← hbucket] at hmask ⊢
    unfold findDeletedKeysThatMaskOlderColdRows at hfound
    split at hfound
    · next hnone => exact absurd hmask (hnone ▸ Finset.notMem_empty _)
    · exact (searchOlder_spec (Finset.empty_subset _) hfound).2 o ho hmask

/-- The bucket of a row with a key is the one readers merge it in. -/
theorem pkBucketKeyFromArray_eq_mergeBucket (h : (t.primaryKey r).isSome) :
    pkBucketKeyFromArray t.primaryKeyFieldName r = t.mergeBucket r := by
  obtain ⟨key, hkey⟩ := Option.isSome_iff_exists.mp h
  have hbind : (r.fields.get t.primaryKeyFieldName).bind tryPkBucketKey = some key := hkey
  by_cases hempty : key = .text ""
  · subst hempty
    rw [mergeBucket_of_empty hkey, pkBucketKeyFromArray, hbind]
    simp
  rw [mergeBucket_of_primaryKey hkey hempty, pkBucketKeyFromArray, hbind]
  cases key with
  | text s =>
    have hs : s ≠ "" := fun hs => hempty (by rw [hs])
    simp [hs]
  | int | uint | version => rfl

end Winners

/-! ### The table before and after -/

/-- The newest live version of a key in the hot store is newer than every tombstone of the key
among some rows. -/
def HotIsNewer (t : TableDefinition) (hot : HotStore) (rows : List SharedTableRow) : Prop :=
  ∀ r ∈ rows, r.deleted = true → ∀ h,
    IsNewest t.primaryKey SharedTableRow.version {r | r ∈ hot.rows} h → h.deleted = false →
    t.primaryKey h = t.primaryKey r → r.version < h.version

/-- Replacing rows by their compaction leaves the table as it is. `kept` are the cold rows that
stay; `older` are the rows searched for keys of tombstones. -/
theorem view_compactedRows {hot : HotStore} {kept input older output : List SharedTableRow}
    (hid : ∀ r, r ∈ hot.rows ∨ r ∈ kept ∨ r ∈ input → ∀ s, s ∈ hot.rows ∨ s ∈ kept ∨ s ∈ input →
      r.version = s.version → r = s)
    (hkey : ∀ r, r ∈ kept ∨ r ∈ input → (t.primaryKey r).isSome) (hkept : ∀ r ∈ kept, r ∈ older)
    (hempty : ∀ r ∈ input, r.deleted = true → t.primaryKey r ≠ some (.text ""))
    (hhot : HotIsNewer t hot input)
    (h : compactedRows t.primaryKeyFieldName input older = .ok output) :
    view t.primaryKey version (fun r => r.deleted = false)
        {r | r ∈ hot.rows ∨ r ∈ kept ∨ r ∈ output} =
      view t.primaryKey version (fun r => r.deleted = false)
        {r | r ∈ hot.rows ∨ r ∈ kept ∨ r ∈ input} := by
  have hinput : ∀ r ∈ input, ∀ s ∈ input, r.version = s.version → r = s :=
    fun r hr s hs => hid r (.inr (.inr hr)) s (.inr (.inr hs))
  obtain ⟨hnewest, hwritten⟩ := compactedRows_spec hinput h
  have hsubset : {r | r ∈ hot.rows ∨ r ∈ kept ∨ r ∈ output} ⊆
      {r | r ∈ hot.rows ∨ r ∈ kept ∨ r ∈ input} :=
    fun r hr => hr.imp_right (Or.imp_right fun hr => (hnewest r hr).1)
  have hfinite : {r | r ∈ hot.rows ∨ r ∈ kept ∨ r ∈ input}.Finite :=
    (finite_toSet (hot.rows ++ (kept ++ input))).subset fun r hr => by simpa using hr
  refine (view_eq_iff_of_subset hfinite (fun r hr s hs _ => hid r hr s hs) hsubset).mpr ?_
  rintro m ⟨hm | hm | hm, hmax⟩
  · exact .inl (.inl hm)
  · exact .inl (.inr (.inl hm))
  -- The newest version of a key is the newest version of its bucket.
  have hsome := hkey m (.inr hm)
  have hwins : IsWinner t.primaryKeyFieldName input m := by
    refine ⟨hm, fun r hr hbucket => hmax r (.inr (.inr hr)) ?_⟩
    have hr' := hkey r (.inr hr)
    rw [pkBucketKeyFromArray_eq_mergeBucket hr', pkBucketKeyFromArray_eq_mergeBucket hsome]
      at hbucket
    exact primaryKey_eq_of_mergeBucket_eq hr' hsome hbucket
  by_cases hwrite : m ∈ output
  · exact .inl (.inr (.inr hwrite))
  -- What is left is a tombstone whose bucket does not occur in an older segment.
  have hdropped : ¬(m.deleted = true → ∃ o ∈ older, pkBucketKeyFromArray t.primaryKeyFieldName o =
      pkBucketKeyFromArray t.primaryKeyFieldName m) := fun hkeep => hwrite (hwritten m hwins hkeep)
  rw [Classical.not_imp] at hdropped
  obtain ⟨hdeleted, hnone⟩ := hdropped
  have hbucket : ∀ r, (t.primaryKey r).isSome → t.primaryKey r = t.primaryKey m →
      pkBucketKeyFromArray t.primaryKeyFieldName r =
        pkBucketKeyFromArray t.primaryKeyFieldName m := by
    intro r hr hsame
    obtain ⟨key, hkeym⟩ := Option.isSome_iff_exists.mp hsome
    have hne : key ≠ .text "" := fun he => hempty m hm hdeleted (he ▸ hkeym)
    rw [pkBucketKeyFromArray_eq_mergeBucket hr, pkBucketKeyFromArray_eq_mergeBucket hsome,
      mergeBucket_of_primaryKey (hsame.trans hkeym) hne,
      mergeBucket_of_primaryKey hkeym hne]
  refine .inr ⟨by simp [hdeleted], ?_⟩
  rintro r ⟨hr | hr | hr, hrmax⟩ hsame hlive
  · have hrhot : IsNewest t.primaryKey version {r | r ∈ hot.rows} r :=
      ⟨hr, fun s hs => hrmax s (.inl hs)⟩
    exact not_lt.mpr (hmax r (.inl hr) hsame) (hhot m hm hdeleted r hrhot hlive hsame)
  · exact hnone ⟨r, hkept r hr, hbucket r (hkey r (.inl hr)) hsame⟩
  · have hrm := (hnewest r hr).eq (fun a ha b hb _ => hinput a ha b hb) hwins
      (hbucket r (hkey r (.inr (hnewest r hr).1)) hsame)
    exact hwrite (hrm ▸ hr)

/-! ### The swap -/

/-- What is left of a manifest whose tail is cut off. -/
theorem segments_truncate_tail {older tail : List SegmentMetadata}
    (h : older ++ tail = m.segments) :
    (m.truncate (m.segments.length - tail.length)).segments = older := by
  rw [Manifest.segments_truncate, ← h]
  simp

theorem replaceSegments_eq_some_iff {m' : Manifest} {expected : List SegmentMetadata}
    {replacement : Option SegmentMetadata} :
    replaceSegmentsWithCompactedSegment m expected replacement = some m' ↔
      expected <:+ m.segments ∧
        replacement.elim (m.truncate (m.segments.length - expected.length))
          (m.truncate (m.segments.length - expected.length)).addSegment = m' := by
  unfold replaceSegmentsWithCompactedSegment
  split
  · next hshort =>
    have hnot : ¬expected <:+ m.segments := fun h => not_le.mpr hshort h.length_le
    simp [hnot]
  simp only [suffix_iff_eq_drop, eq_comm (a := expected)]
  split
  · next htail => cases replacement <;> simp [htail]
  · next htail => simp [htail]

/-- A compaction of a scope: rows as the write path leaves them, and a name for the new file. -/
structure CompactionRun where
  ctx : SmallSegmentCompactionContext
  uuid : ℕ
  sizeBytes : ℕ
  scope : ColdScope
  /-- The manifest at the time of the swap. -/
  current : Manifest
  hot : HotStore
  version_injective : ∀ r ∈ ColdScope.allRows hot scope, ∀ s ∈ ColdScope.allRows hot scope,
    r.version = s.version → r = s
  primaryKey_isSome : ∀ r ∈ scope.rows, (ctx.table.primaryKey r).isSome
  uuid_new : ∀ s ∈ scope.manifest.segments, s.file ≠ .compact uuid

namespace CompactionRun

variable (c : CompactionRun) {result : Option SmallSegmentCompactionResult} {scope' : ColdScope}

def run : Except String (Option SmallSegmentCompactionResult × ColdScope) :=
  compactSmallSegments c.ctx c.uuid c.sizeBytes c.scope c.current

def selection : Option SmallSegmentCompactionSelection :=
  selectTrailingSmallSegments c.scope.manifest c.ctx.settings

section

variable {selection : SmallSegmentCompactionSelection} (hselection : c.selection = some selection)
include hselection

/-- The two ways in which a compaction with a selection ends without an error. -/
theorem run_eq_ok (h : c.run = .ok (result, scope')) :
    result = none ∧ scope' = ⟨c.current, c.scope.files⟩ ∨
      ∃ output manifest,
        compactedRows c.ctx.table.primaryKeyFieldName (c.scope.files.rows selection.segments)
          (c.scope.files.rows (c.scope.manifest.segments.take selection.olderSegmentCount)) =
            .ok output ∧
        replaceSegmentsWithCompactedSegment c.current selection.segments
          (replacementSegment c.uuid c.sizeBytes selection.schemaVersion output) = some manifest ∧
        scope' = ⟨manifest, swappedFiles c.scope.files selection.segments c.uuid output⟩ := by
  have hselect : selectTrailingSmallSegments c.scope.manifest c.ctx.settings = some selection :=
    hselection
  unfold run compactSmallSegments at h
  rw [hselect] at h
  simp only at h
  split at h
  · cases h
    exact .inl ⟨rfl, rfl⟩
  simp only [bind, Except.bind] at h
  split at h
  · cases h
  rename_i output houtput
  split at h
  · cases h
    exact .inl ⟨rfl, rfl⟩
  rename_i manifest hmanifest
  cases h
  exact .inr ⟨output, manifest, houtput, hmanifest, rfl⟩

/-- The cold rows after a swap: the older ones stay, and the compacted ones are there in place of
the selection. -/
theorem rows_of_swap {output : List SharedTableRow} {manifest : Manifest}
    (hcurrent : c.current.segments = c.scope.manifest.segments)
    (h : replaceSegmentsWithCompactedSegment c.current selection.segments
      (replacementSegment c.uuid c.sizeBytes selection.schemaVersion output) = some manifest) :
    rows ⟨manifest, swappedFiles c.scope.files selection.segments c.uuid output⟩ =
      c.scope.files.rows ((c.scope.manifest.segments.take selection.olderSegmentCount).filter
        isReadable) ++ output := by
  obtain ⟨hsplit, -⟩ := selectTrailingSmallSegments_spec hselection
  generalize c.scope.manifest.segments.take selection.olderSegmentCount = older at hsplit ⊢
  obtain ⟨-, rfl⟩ := replaceSegments_eq_some_iff.mp h
  have hnodup := c.scope.manifest.files_nodup
  rw [hsplit, map_append, nodup_append] at hnodup
  have htruncate := segments_truncate_tail (hcurrent.trans hsplit).symm
  have hnew : ∀ s ∈ older, s.file ≠ .compact c.uuid := fun s hs =>
    c.uuid_new s (hsplit ▸ mem_append_left _ hs)
  have holder : ∀ s ∈ older, swappedFiles c.scope.files selection.segments c.uuid output s.file =
        c.scope.files s.file := by
    intro s hs
    have hnot : s.file ∉ selection.segments.map file := fun hmem =>
      hnodup.2.2 _ (mem_map_of_mem hs) _ hmem rfl
    rw [swappedFiles, if_neg hnot, if_neg fun hfile => hnew s hs hfile.1]
  have hkept : (swappedFiles c.scope.files selection.segments c.uuid output).rows
      (older.filter isReadable) = c.scope.files.rows (older.filter isReadable) :=
    flatMap_congr fun s hs => by rw [holder s (mem_filter.mp hs).1]
  by_cases hempty : output = []
  · subst hempty
    simp only [rows, replacementSegment, if_true, Option.elim_none, htruncate, hkept, append_nil]
  have hcompacted : swappedFiles c.scope.files selection.segments c.uuid output
      (.compact c.uuid) = some output := by
    have hnot : SegmentFile.compact c.uuid ∉ selection.segments.map file := by
      intro hmem
      obtain ⟨s, hs, hfile⟩ := mem_map.mp hmem
      exact c.uuid_new s (hsplit ▸ mem_append_right _ hs) hfile
    rw [swappedFiles, if_neg hnot, if_pos ⟨rfl, hempty⟩]
  have hsegments := Manifest.segments_addSegment_of_new
    (s := compactedSegment c.uuid c.sizeBytes selection.schemaVersion output)
    (fun s hs => hnew s (htruncate ▸ hs))
  simp only [rows, replacementSegment, hempty, if_false, Option.elim_some, hsegments,
    htruncate, filter_append, SegmentFiles.rows_append]
  congr 1
  simp [SegmentFiles.rows, compactedSegment, isReadable, hcompacted]

/-- The cold rows before: those of the older segments and those of the selection. -/
theorem rows_of_selection :
    c.scope.rows =
      c.scope.files.rows ((c.scope.manifest.segments.take selection.olderSegmentCount).filter
        isReadable) ++ c.scope.files.rows selection.segments := by
  obtain ⟨hsplit, hreadable⟩ := selectTrailingSmallSegments_spec hselection
  have hselected : selection.segments.filter isReadable = selection.segments :=
    filter_eq_self.mpr hreadable
  generalize c.scope.manifest.segments.take selection.olderSegmentCount = older at hsplit ⊢
  rw [rows, hsplit, filter_append, SegmentFiles.rows_append, hselected]

end

/-- **Compaction keeps the table**, if the newest live hot version of a key is newer than every
selected tombstone of the key and no selected tombstone has the empty text as its key. A
compaction that finds its selection no longer at the end of the manifest changes nothing. -/
theorem compaction_preserves_table {selection : SmallSegmentCompactionSelection}
    {result : Option SmallSegmentCompactionResult} {scope' : ColdScope}
    (hselection : c.selection = some selection) (h : c.run = .ok (result, scope')) :
    (c.current.segments = c.scope.manifest.segments →
      HotIsNewer c.ctx.table c.hot (c.scope.files.rows selection.segments) →
      (∀ r ∈ c.scope.files.rows selection.segments, r.deleted = true →
        c.ctx.table.primaryKey r ≠ some (.text "")) →
      ColdScope.view c.ctx.table c.hot scope' =
        ColdScope.view c.ctx.table c.hot ⟨c.current, c.scope.files⟩) ∧
    (¬selection.segments <:+ c.current.segments →
      result = none ∧ scope' = ⟨c.current, c.scope.files⟩) := by
  rcases c.run_eq_ok hselection h with ⟨rfl, rfl⟩ | ⟨output, manifest, houtput, hswap, rfl⟩
  · exact ⟨fun _ _ _ => rfl, fun _ => ⟨rfl, rfl⟩⟩
  refine ⟨fun hcurrent hhot hempty => ?_, fun hnot =>
    absurd (replaceSegments_eq_some_iff.mp hswap).1 hnot⟩
  have hbefore : ColdScope.rows ⟨c.current, c.scope.files⟩ = c.scope.rows := by
    rw [ColdScope.rows, ColdScope.rows, hcurrent]
  have hsplit := c.rows_of_selection hselection
  have hafter := c.rows_of_swap hselection hcurrent hswap
  have hinjective := c.version_injective
  have hkey := c.primaryKey_isSome
  simp only [ColdScope.view, ColdScope.allRows, hbefore, hafter, hsplit,
    mem_append] at hinjective hkey ⊢
  refine view_compactedRows hinjective hkey ?_ hempty hhot houtput
  intro r hr
  obtain ⟨s, hs, hr⟩ := SegmentFiles.mem_rows.mp hr
  exact SegmentFiles.mem_rows.mpr ⟨s, (mem_filter.mp hs).1, hr⟩

end CompactionRun

/-! ### A hot row older than a cold tombstone -/

/-- `CREATE TABLE tasks (id INT PRIMARY KEY)`. -/
def tasksTable : TableDefinition where
  columns := (CreateTableStatement.mk [("id", .int)] (some "id")).allColumns
  nextColumnId := 4
  scalarIndexes := []
  names_nodup := by decide
  exists_primaryKey := by decide

def taskRow (version : VersionId) (deleted : Bool) (id : Int32) : SharedTableRow :=
  ⟨version, deleted, ⟨[("id", .int32 id)]⟩⟩

/-- A flushed batch of one row. -/
def taskSegment (number : ℕ) (seq : ℤ) : SegmentMetadata :=
  ⟨.batch number, seq, seq, 1, 100, 1, .committed⟩

/-- Two small segments: a tombstone of task 1 and a live task 2. -/
def taskScope : ColdScope where
  manifest := (Manifest.new.addSegment (taskSegment 0 5)).addSegment (taskSegment 1 6)
  files
    | .batch 0 => some [taskRow ⟨5, by decide⟩ true 1]
    | .batch 1 => some [taskRow ⟨6, by decide⟩ false 2]
    | _ => none

/-- A compaction of the two segments while one version of task 1 is in the hot store. -/
def taskCompaction (hotVersion : VersionId) (hne : hotVersion ≠ ⟨5, by decide⟩)
    (hne' : hotVersion ≠ ⟨6, by decide⟩) : CompactionRun where
  ctx := ⟨tasksTable, ⟨10, 2, 10⟩, 1⟩
  uuid := 0
  sizeBytes := 100
  scope := taskScope
  current := taskScope.manifest
  hot := ⟨[taskRow hotVersion false 1], List.pairwise_singleton _ _⟩
  version_injective := by
    have hcold : taskScope.rows = [taskRow ⟨5, by decide⟩ true 1, taskRow ⟨6, by decide⟩ false 2] :=
      rfl
    intro r hr s hs hversion
    simp only [ColdScope.allRows, hcold, List.mem_cons, List.not_mem_nil, or_false,
      Set.mem_ofPred_eq] at hr hs
    rcases hr with rfl | rfl | rfl <;> rcases hs with rfl | rfl | rfl <;>
      simp_all [taskRow]
  primaryKey_isSome := by decide
  uuid_new := by decide

/-- The selection of `taskCompaction`. -/
def taskSelection : SmallSegmentCompactionSelection where
  segments := [taskSegment 0 5, taskSegment 1 6]
  eligibleTailCount := 2
  schemaVersion := 1
  olderSegmentCount := 0

/-- The compaction drops a tombstone that hides an older hot row, and the row is back. -/
theorem compaction_revives_older_hot_row :
    ∃ result scope',
      (taskCompaction ⟨3, by decide⟩ (by decide) (by decide)).run = .ok (some result, scope') ∧
      ColdScope.view tasksTable ⟨[taskRow ⟨3, by decide⟩ false 1], List.pairwise_singleton _ _⟩
          scope' ≠
        ColdScope.view tasksTable ⟨[taskRow ⟨3, by decide⟩ false 1], List.pairwise_singleton _ _⟩
          taskScope := by
  refine ⟨_, _, rfl, fun heq => ?_⟩
  have hafter : taskRow ⟨3, by decide⟩ false 1 ∈ view tasksTable
      ⟨[taskRow ⟨3, by decide⟩ false 1], pairwise_singleton _ _⟩ taskScope := by
    rw [← heq]
    refine ⟨⟨.inl mem_cons_self, ?_⟩, rfl⟩
    rintro r (hr | hr) hkey
    · rw [mem_singleton.mp hr]
    · rw [mem_singleton.mp hr] at hkey
      exact absurd hkey (by decide)
  exact absurd (hafter.1.2 (taskRow ⟨5, by decide⟩ true 1) (.inr (by decide)) rfl) (by decide)

/-- With a newer version in the hot store the table stays as it is. -/
theorem compaction_preserves_tasks :
    ∃ result scope',
      (taskCompaction ⟨7, by decide⟩ (by decide) (by decide)).run = .ok (some result, scope') ∧
      ColdScope.view tasksTable ⟨[taskRow ⟨7, by decide⟩ false 1], List.pairwise_singleton _ _⟩
          scope' =
        ColdScope.view tasksTable ⟨[taskRow ⟨7, by decide⟩ false 1], List.pairwise_singleton _ _⟩
          taskScope := by
  have hselection : (taskCompaction ⟨7, by decide⟩ (by decide) (by decide)).selection =
      some taskSelection := rfl
  refine ⟨_, _, rfl, (CompactionRun.compaction_preserves_table _ hselection rfl).1 rfl ?_
    (by decide)⟩
  rintro r hr - h ⟨hh, -⟩ - -
  rw [mem_singleton.mp hh]
  revert r
  decide

end KalamDB.Segments
