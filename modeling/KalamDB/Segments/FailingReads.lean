import KalamDB.Segments.FileSafety
import KalamDB.Segments.Service

/-!
# Flushes whose manifest reads fail

A flush looks the manifest up three times: for its **batch number**, for its **reservation** and
for its **commit**. A failed lookup for the number is not an error, the flush goes on with batch
`0`. A lookup that finds an entry without segments is answered by it when `manifest.json` cannot
be read. Either way the reservation can overwrite committed segments.

`ScopeFlush.keeps_segments_iff` says exactly when a flush keeps the committed segments of
`manifest.json`, for every state of the cache and every pattern of failing reads.
-/

namespace KalamDB.Segments

open ManifestService

inductive FlushError where
  | invalidOperation (text : String)
  | manifest (error : StorageError)
  | filestore

/-- A flush of one scope whose `manifest.json` has committed segments, with the errors its
manifest reads meet. -/
structure ScopeFlush where
  service : ManifestService
  files : SegmentFiles
  stored : ScopeManifest
  manifestJson_eq : service.manifestJson = some stored
  exists_committed : ∃ s ∈ stored.segments, s.isReadable = true
  rows : List SharedTableRow
  sizeBytes : ℕ
  schemaVersion : ℕ
  /-- The file is written and renamed. -/
  uploads : Bool
  syncing : Option StorageError
  number : ManifestRead
  reserve : ManifestWrite
  /-- The commit, or the tombstone after a failed upload. -/
  finish : ManifestWrite

/-- What a flush leaves behind. `uploaded` is the file it wrote. -/
structure FlushOutcome where
  result : Except FlushError Unit
  service : ManifestService
  uploaded : Option SegmentFile
  files : SegmentFiles

namespace ScopeFlush

variable (f : ScopeFlush)

/-- The service when the number is looked up. -/
def atNumber : ManifestService := (f.service.markSyncingInLockedScope f.syncing).2

/-- The service when the reservation looks the manifest up. -/
def atReserve : ManifestService := (f.atNumber.getNextBatchNumber f.number).2

def flush : FlushInFlight where
  number := (f.atNumber.getNextBatchNumber f.number).1
  rows := f.rows
  sizeBytes := f.sizeBytes
  schemaVersion := f.schemaVersion
  uploaded := false

/-- The upload and what follows it. -/
def uploadAndFinish (s : ManifestService) : FlushOutcome :=
  if f.uploads then
    let files := Function.update f.files f.flush.file (some f.rows)
    let (result, s) := s.persistFlushedSegmentInLockedScope f.finish f.flush.segment
    ⟨result.mapError .manifest, s, some f.flush.file, files⟩
  else
    let s := (s.persistFlushedSegmentInLockedScope f.finish f.flush.abandoned).2
    ⟨.error .filestore, s, none, f.files⟩

/-- **The flush of a scope.** -/
def writeScope : FlushOutcome :=
  if f.rows = [] then
    ⟨.error (.invalidOperation "flush scope writer requires at least one row"), f.service, none,
      f.files⟩
  else
    match f.atReserve.persistFlushedSegmentInLockedScope f.reserve f.flush.reserved with
    | (.error error, s) => ⟨.error (.manifest error), s, none, f.files⟩
    | (.ok _, s) => f.uploadAndFinish s

/-- The segment is committed in `manifest.json`. -/
def Committed (s : SegmentMetadata) : Prop := s ∈ f.stored.segments ∧ s.isReadable = true

/-- **The flush loses nothing.** It fails and leaves `manifest.json` and the files as they were,
or the manifest it persisted lists every segment that was committed; and it wrote over no file of
a committed segment. -/
def KeepsSegments : Prop :=
  ((∃ error, f.writeScope.result = .error error) ∧
      f.writeScope.service.manifestJson = some f.stored ∧ f.writeScope.files = f.files ∨
    ∃ m, f.writeScope.service.manifestJson = some m ∧ ∀ s, f.Committed s → s ∈ m.segments) ∧
  ∀ s, f.Committed s → f.writeScope.uploaded ≠ some s.file

end ScopeFlush

/-! ### Where answers come from -/

/-- The read fails for good. An entry that cannot be decoded is passed over. -/
def blocks : Option StorageError → Bool
  | none | some (.serializationError _) => false
  | some _ => true

/-- Where the manifest of a lookup comes from. -/
inductive Answer where
  | failed
  | cached (entry : ManifestCacheEntry)
  | stored

namespace ManifestService

variable (s : ManifestService) (r : ManifestRead) {error : Option StorageError}
  {entry : ManifestCacheEntry}

/-- The answer of a lookup of a scope whose `manifest.json` has segments. -/
def answer : Answer :=
  match r.cacheError, s.cache with
  | none, some entry =>
    if entry.manifest.segments ≠ [] ∨ s.emptyStorageCheck = some entry.lastRefreshed ∨
        r.storageError.isSome = true then .cached entry
    else if blocks r.snapshotError then .failed else .stored
  | cacheError, _ =>
    if blocks cacheError || r.storageError.isSome || blocks r.snapshotError then .failed
    else .stored

/-- The result of a lookup follows its answer. -/
def Follows (stored : ScopeManifest) : Answer →
    Except StorageError (Option ManifestCacheEntry) → Prop
  | .failed, result => ∃ error, result = .error error
  | .cached entry, result => result = .ok (some entry)
  | .stored, result => ∃ entry, result = .ok (some entry) ∧ entry.manifest = stored

variable {s r} {stored : ScopeManifest}

theorem upsertEntry_of_blocks (h : blocks error = true) :
    ∃ e, (s.upsertEntry error entry).1 = .error e := by
  rcases error with _ | _ | _ | _ <;> simp_all [blocks, upsertEntry, cachedEntrySnapshot]

theorem upsertEntry_of_not_blocks (h : blocks error = false) :
    s.upsertEntry error entry =
      (.ok entry, { s with cache := some entry, emptyStorageCheck := none }) := by
  rcases error with _ | _ | _ | _ <;> simp_all [blocks, upsertEntry, cachedEntrySnapshot]

theorem follows_upsertEntry {syncState : SyncState} :
    Follows stored (if blocks r.snapshotError then .failed else .stored)
      ((s.upsertEntry r.snapshotError ⟨stored, r.now, syncState⟩).1.map some) := by
  cases hblocks : blocks r.snapshotError with
  | true =>
    obtain ⟨error, herror⟩ := upsertEntry_of_blocks hblocks
    exact ⟨error, by rw [herror]; rfl⟩
  | false =>
    rw [upsertEntry_of_not_blocks hblocks]
    exact ⟨_, rfl, rfl⟩

theorem follows_loadFromStorageAndHydrate (h : s.manifestJson = some stored) :
    Follows stored (if r.storageError.isSome || blocks r.snapshotError then .failed else .stored)
      (s.loadFromStorageAndHydrate r).1 := by
  unfold loadFromStorageAndHydrate readManifestFromStorage
  cases herror : r.storageError with
  | some error => exact ⟨error, rfl⟩
  | none =>
    simp only [h]
    exact follows_upsertEntry

/-- **What a lookup returns** in a scope whose `manifest.json` has segments. -/
theorem follows_getOrLoad (h : s.manifestJson = some stored) (hne : stored.segments ≠ []) :
    Follows stored (s.answer r) (s.getOrLoad r).1 := by
  unfold getOrLoad answer cachedEntrySnapshot
  cases hcacheError : r.cacheError with
  | some error =>
    cases error with
    | serializationError _ =>
      exact follows_loadFromStorageAndHydrate h
    | ioError _ | other _ => exact ⟨_, rfl⟩
  | none =>
    cases hcache : s.cache with
    | none =>
      exact follows_loadFromStorageAndHydrate h
    | some entry =>
      simp only [entryVisibleToReaders]
      by_cases hsegments : entry.manifest.segments = []
      · by_cases hchecked : s.emptyStorageCheck = some entry.lastRefreshed
        · simp [hchecked, Follows]
        simp only [hsegments, hchecked, ne_eq, readManifestFromStorage, h]
        cases hstorage : r.storageError with
        | some error => rfl
        | none =>
          simp only [hne]
          exact follows_upsertEntry
      · simp [hsegments, Follows]

theorem cache_of_answer_cached (h : s.answer r = .cached entry) : s.cache = some entry := by
  unfold answer at h
  split at h
  · next cached _ hcache =>
    split at h
    · exact hcache.trans (congrArg some (Answer.cached.inj h))
    · split at h <;> cases h
  · split at h <;> cases h

/-- The manifest that is looked up to be changed, and the number that a lookup leads to. -/
theorem lookups_eq (h : s.manifestJson = some stored) (hne : stored.segments ≠ []) :
    match s.answer r with
    | .failed => (∃ error, (s.ensureManifestInitialized r).1 = .error error) ∧
        (s.getNextBatchNumber r).1 = 0
    | .cached entry => (s.ensureManifestInitialized r).1 = .ok entry.manifest ∧
        (s.getNextBatchNumber r).1 = entry.manifest.nextBatchNumber
    | .stored => (s.ensureManifestInitialized r).1 = .ok stored ∧
        (s.getNextBatchNumber r).1 = stored.nextBatchNumber := by
  have hfollows := follows_getOrLoad (r := r) h hne
  unfold ensureManifestInitialized getNextBatchNumber
  generalize s.answer r = answer at hfollows
  cases answer with
  | failed =>
    obtain ⟨error, herror⟩ := hfollows
    refine ⟨⟨error, ?_⟩, ?_⟩ <;> split <;> simp_all
  | cached entry =>
    have hentry : (s.getOrLoad r).1 = .ok (some entry) := hfollows
    constructor <;> split <;> simp_all
  | stored =>
    obtain ⟨entry, hentry, hmanifest⟩ := hfollows
    constructor <;> split <;> simp_all

/-! ### What is persisted -/

variable {w : ManifestWrite} {manifest : ScopeManifest}

@[simp]
theorem manifestJson_persistInLockedScope :
    (s.persistInLockedScope w manifest).2.manifestJson = some manifest := by
  unfold persistInLockedScope
  simp only
  split
  · rfl
  · simp [upsertCacheEntry, writeManifestToStorage]

/-- Both copies are the manifest that was persisted. -/
def Settled (s : ManifestService) (manifest : ScopeManifest) : Prop :=
  s.manifestJson = some manifest ∧ ∃ entry, s.cache = some entry ∧ entry.manifest = manifest

theorem settled_persistInLockedScope (h : (s.persistInLockedScope w manifest).1 = .ok ()) :
    (s.persistInLockedScope w manifest).2.Settled manifest := by
  refine ⟨manifestJson_persistInLockedScope, ?_⟩
  unfold persistInLockedScope at h ⊢
  simp only at h ⊢
  split at h
  · cases h
  simp only [upsertCacheEntry] at h ⊢
  cases hblocks : blocks w.snapshotError with
  | true =>
    obtain ⟨error, herror⟩ := upsertEntry_of_blocks hblocks
    rw [herror] at h
    cases h
  | false =>
    rw [upsertEntry_of_not_blocks hblocks]
    exact ⟨_, rfl, rfl⟩

/-- Once the copies agree, a change of the manifest is made on top of them or not at all. -/
theorem Settled.persistFlushedSegment (h : s.Settled manifest) (hne : manifest.segments ≠ [])
    (w : ManifestWrite) (segment : SegmentMetadata) :
    (s.persistFlushedSegmentInLockedScope w segment).2.manifestJson = some manifest ∨
      (s.persistFlushedSegmentInLockedScope w segment).2.manifestJson =
        some (manifest.addSegment segment) := by
  obtain ⟨hjson, entry, hcache, hentry⟩ := h
  have hensure := lookups_eq (r := w.read) hjson hne
  cases hanswer : s.answer w.read with
  | failed =>
    obtain ⟨⟨error, herror⟩, -⟩ := hanswer ▸ hensure
    exact .inl ((persistFlushedSegment_of_error segment herror).2.trans hjson)
  | cached cached =>
    rw [hanswer] at hensure
    have hok : (s.ensureManifestInitialized w.read).1 = .ok cached.manifest := hensure.1
    obtain rfl : entry = cached :=
      Option.some.inj (hcache.symm.trans (cache_of_answer_cached hanswer))
    rw [persistFlushedSegment_of_ok (hentry ▸ hok)]
    exact .inr manifestJson_persistInLockedScope
  | stored =>
    rw [hanswer] at hensure
    have hok : (s.ensureManifestInitialized w.read).1 = .ok manifest := hensure.1
    rw [persistFlushedSegment_of_ok hok]
    exact .inr manifestJson_persistInLockedScope

end ManifestService

namespace ScopeFlush

variable (f : ScopeFlush)

/-! ### When segments are kept -/

variable {m : ScopeManifest}

/-- The number of the flush is not that of a committed batch. It is `0` when the lookup fails, and
the next number of the cached entry when that is the answer. -/
def NumberFree : Prop :=
  match f.atNumber.answer f.number with
  | .failed => ∀ s, f.Committed s → s.file ≠ .batch 0
  | .cached entry => ∀ s, f.Committed s → s.file ≠ .batch entry.manifest.nextBatchNumber
  | .stored => True

/-- The reservation fails to look the manifest up, or it is answered by a manifest with all
committed segments and the number of the flush is free. -/
def ReadsComplete : Prop :=
  f.rows = [] ∨
    match f.atReserve.answer f.reserve.read with
    | .failed => True
    | .cached entry => (∀ s, f.Committed s → s ∈ entry.manifest.segments) ∧ f.NumberFree
    | .stored => f.NumberFree

theorem stored_segments_ne_nil : f.stored.segments ≠ [] := by
  obtain ⟨s, hs, -⟩ := f.exists_committed
  exact List.ne_nil_of_mem hs

theorem manifestJson_atNumber : f.atNumber.manifestJson = some f.stored := by
  simp [atNumber, f.manifestJson_eq]

theorem manifestJson_atReserve : f.atReserve.manifestJson = some f.stored := by
  simp [atReserve, f.manifestJson_atNumber]

theorem numberFree_iff : f.NumberFree ↔ ∀ s, f.Committed s → s.file ≠ f.flush.file := by
  have hnumber := lookups_eq (r := f.number) f.manifestJson_atNumber f.stored_segments_ne_nil
  change _ ↔ ∀ s, f.Committed s → s.file ≠ .batch (f.atNumber.getNextBatchNumber f.number).1
  unfold NumberFree
  generalize f.atNumber.answer f.number = answer at hnumber ⊢
  cases answer with
  | failed | cached => rw [hnumber.2]
  | stored =>
    rw [hnumber.2]
    exact iff_of_true trivial fun s hs => Manifest.file_ne_nextBatch hs.1

/-- What of the flush is listed does not count as committed before it is uploaded. -/
theorem readable_mem_addSegment {s segment : SegmentMetadata} (hs : s.isReadable = true)
    (hsegment : segment.isReadable = false) :
    s ∈ (m.addSegment segment).segments ↔ s ∈ m.segments ∧ s.file ≠ segment.file := by
  have hne : s ≠ segment := fun h => absurd (hsegment.symm.trans (h ▸ hs)) (by simp)
  simp [hne]

/-- The upload and what follows it change only the segment of the flush. -/
theorem exists_persisted_uploadAndFinish {service : ManifestService} (h : service.Settled m)
    (hne : m.segments ≠ [])
    (hfile : ∀ s ∈ m.segments, s.isReadable = true → s.file ≠ f.flush.file) :
    ∃ m', (f.uploadAndFinish service).service.manifestJson = some m' ∧
      ∀ s, s.isReadable = true →
        ((s ∈ m'.segments ∧ (f.uploadAndFinish service).uploaded ≠ some s.file) ↔
          s ∈ m.segments) := by
  unfold uploadAndFinish
  split
  · have hother : ∀ s ∈ m.segments, s.isReadable = true →
        some f.flush.file ≠ some s.file := fun s hs hreadable heq =>
      hfile s hs hreadable (Option.some.inj heq).symm
    rcases h.persistFlushedSegment hne f.finish f.flush.segment with hjson | hjson
    · exact ⟨m, hjson, fun s hreadable =>
        ⟨And.left, fun hs => ⟨hs, hother s hs hreadable⟩⟩⟩
    refine ⟨_, hjson, fun s hreadable => ⟨?_, fun hs => ⟨?_, hother s hs hreadable⟩⟩⟩
    · rintro ⟨hs, hnot⟩
      rcases ScopeManifest.mem_addSegment.mp hs with ⟨hs, -⟩ | rfl
      · exact hs
      · exact absurd rfl hnot
    · exact ScopeManifest.mem_addSegment.mpr (.inl ⟨hs, hfile s hs hreadable⟩)
  · rcases h.persistFlushedSegment hne f.finish f.flush.abandoned with hjson | hjson
    · exact ⟨m, hjson, fun s _ => by simp⟩
    refine ⟨_, hjson, fun s hreadable => ?_⟩
    rw [readable_mem_addSegment hreadable f.flush.isReadable_abandoned]
    exact ⟨fun hs => hs.1.1, fun hs => ⟨⟨hs, hfile s hs hreadable⟩, by simp⟩⟩

/-- A flush that gets past its reservation's lookup persists its own segment, in some state, on
top of the manifest it found. -/
theorem exists_persisted {manifest : ScopeManifest} (hrows : f.rows ≠ [])
    (h : (f.atReserve.ensureManifestInitialized f.reserve.read).1 = .ok manifest) :
    ∃ m, f.writeScope.service.manifestJson = some m ∧
      ∀ s, s.isReadable = true →
        ((s ∈ m.segments ∧ f.writeScope.uploaded ≠ some s.file) ↔
          (s ∈ manifest.segments ∧ s.file ≠ f.flush.file)) := by
  have hbase : ∀ s, s.isReadable = true →
      (s ∈ (manifest.addSegment f.flush.reserved).segments ↔
        s ∈ manifest.segments ∧ s.file ≠ f.flush.file) :=
    fun s hs => readable_mem_addSegment hs f.flush.isReadable_reserved
  have hne := manifest.segments_addSegment_ne_nil f.flush.reserved
  unfold writeScope
  rw [if_neg hrows, persistFlushedSegment_of_ok h]
  generalize hpersist :
    (f.atReserve.ensureManifestInitialized f.reserve.read).2.persistInLockedScope
      f.reserve (manifest.addSegment f.flush.reserved) = persisted
  have hjson : persisted.2.manifestJson = some (manifest.addSegment f.flush.reserved) :=
    hpersist ▸ manifestJson_persistInLockedScope
  have hsettled (hok : persisted.1 = .ok ()) :
      persisted.2.Settled (manifest.addSegment f.flush.reserved) := by
    subst hpersist
    exact settled_persistInLockedScope hok
  obtain ⟨result, s⟩ := persisted
  cases result with
  | error error => exact ⟨_, hjson, fun s hs => by simp [hbase s hs]⟩
  | ok _ =>
    obtain ⟨m, hm, hiff⟩ := f.exists_persisted_uploadAndFinish (hsettled rfl) hne
      fun s hs hreadable => ((hbase s hreadable).mp hs).2
    exact ⟨m, hm, fun s hs => (hiff s hs).trans (hbase s hs)⟩

/-- **When a flush keeps the committed segments**: exactly when its lookups are complete. -/
theorem keeps_segments_iff : f.KeepsSegments ↔ f.ReadsComplete := by
  have hne := f.stored_segments_ne_nil
  by_cases hrows : f.rows = []
  · refine iff_of_true ⟨.inr ⟨f.stored, ?_, fun s hs => hs.1⟩, ?_⟩ (.inl hrows)
    · simp [writeScope, hrows, f.manifestJson_eq]
    · simp [writeScope, hrows]
  -- A manifest was found: it has to list the committed segments apart from that of the flush.
  have hfound : ∀ manifest,
      (f.atReserve.ensureManifestInitialized f.reserve.read).1 = .ok manifest →
        (f.KeepsSegments ↔ (∀ s, f.Committed s → s ∈ manifest.segments) ∧ f.NumberFree) := by
    intro manifest hmanifest
    obtain ⟨m, hm, hiff⟩ := f.exists_persisted hrows hmanifest
    rw [f.numberFree_iff]
    constructor
    · rintro ⟨hkeeps, hover⟩
      have hlisted : ∀ s, f.Committed s → s ∈ m.segments := by
        rcases hkeeps with ⟨-, hstored, -⟩ | ⟨m', hm', hlisted⟩
        · obtain rfl : m = f.stored := Option.some.inj (hm.symm.trans hstored)
          exact fun s hs => hs.1
        · obtain rfl : m = m' := Option.some.inj (hm.symm.trans hm')
          exact hlisted
      have hboth := fun s hs => (hiff s hs.2).mp ⟨hlisted s hs, hover s hs⟩
      exact ⟨fun s hs => (hboth s hs).1, fun s hs => (hboth s hs).2⟩
    · rintro ⟨hlisted, hnumber⟩
      have hboth := fun s hs => (hiff s hs.2).mpr ⟨hlisted s hs, hnumber s hs⟩
      exact ⟨.inr ⟨m, hm, fun s hs => (hboth s hs).1⟩, fun s hs => (hboth s hs).2⟩
  have hensure := lookups_eq (r := f.reserve.read) f.manifestJson_atReserve hne
  simp only [ReadsComplete, hrows, false_or]
  generalize f.atReserve.answer f.reserve.read = answer at hensure
  cases answer with
  | failed =>
    obtain ⟨⟨error, herror⟩, -⟩ := hensure
    obtain ⟨hresult, hjson⟩ := persistFlushedSegment_of_error f.flush.reserved herror
    refine iff_of_true ⟨.inr ⟨f.stored, ?_, fun s hs => hs.1⟩, ?_⟩ trivial
    · simp only [writeScope, hrows, if_false]
      split <;> simp_all [f.manifestJson_atReserve]
    · simp only [writeScope, hrows, if_false]
      split <;> simp_all
  | cached entry => exact hfound _ hensure.1
  | stored =>
    refine (hfound _ hensure.1).trans ⟨And.right, fun hnumber => ⟨fun s hs => hs.1, hnumber⟩⟩

end ScopeFlush

/-! ### Committed segments that are lost -/

/-- A lookup that cannot read `manifest.json`. -/
def ManifestRead.storageFails : ManifestRead := ⟨none, some (.ioError "timeout"), none, 1⟩

namespace ScopeFlush

/-- A flush of a third task in a scope with two committed batches. -/
def taskFlush (cache : Option ManifestCacheEntry) (number reserve : ManifestRead) : ScopeFlush where
  service := ⟨cache, none, some { taskScope.manifest with files := none }⟩
  files := taskScope.files
  stored := { taskScope.manifest with files := none }
  manifestJson_eq := rfl
  exists_committed := by decide
  rows := [taskRow (.ofNat 7) false 3]
  sizeBytes := 100
  schemaVersion := 1
  uploads := true
  syncing := none
  number := number
  reserve := ⟨reserve, none, none, 1⟩
  finish := .succeeds 1

/-- The flush after a cache miss at a write, which leaves an entry without segments, while
`manifest.json` cannot be read. -/
def coldFlush : ScopeFlush :=
  taskFlush (some ⟨.new, 0, .pendingWrite⟩) .storageFails .storageFails

/-- The flush persists a manifest with its own batch only. Without an entry, a failing lookup of
the number alone is enough to replace the first batch. -/
theorem failing_reads_lose_segments :
    (¬coldFlush.KeepsSegments ∧
      coldFlush.writeScope.service.manifestJson.map (fun m => m.segments.map SegmentMetadata.file) =
        some [SegmentFile.batch 0]) ∧
    ¬(taskFlush none .storageFails (.succeeds 1)).KeepsSegments := by
  have hfirst : ∀ f : ScopeFlush, f.Committed (taskSegment 0 5) →
      f.writeScope.uploaded = some (.batch 0) → ¬f.KeepsSegments :=
    fun f hs huploaded hkeeps => hkeeps.2 _ hs huploaded
  exact ⟨⟨hfirst coldFlush ⟨by decide, rfl⟩ rfl, rfl⟩, hfirst _ ⟨by decide, rfl⟩ rfl⟩

end ScopeFlush

end KalamDB.Segments
