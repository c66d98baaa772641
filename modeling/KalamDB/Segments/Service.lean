import KalamDB.Segments.Compaction

/-!
# The manifest service

The manifest of a scope has two copies: a **cached entry** and the stored `manifest.json`. Every
reader and writer looks it up through `getOrLoad`, which answers from the cache, and loads
`manifest.json` when there is no entry. An entry **without segments** is compared with
`manifest.json` first, once for each `lastRefreshed`; if that read fails, the empty entry is the
answer.

Memory holds a copy of the entry in RocksDB, so the two are one cache here: a lookup that memory
answers is one whose RocksDB read does not fail. Every read is given the error it fails with.
-/

namespace KalamDB.Segments

inductive SyncState where
  | inSync
  | pendingWrite
  | syncing
  | stale
  | error
  deriving DecidableEq

inductive StorageError where
  | serializationError (text : String)
  | ioError (text : String)
  | other (text : String)
  deriving DecidableEq

/-- The folder that files of `FILE` columns go to. -/
structure FileSubfolderState where
  subfolder : ℕ
  count : ℕ
  deriving DecidableEq

/-- A manifest with the part that is not about segments. -/
structure ScopeManifest extends Manifest where
  files : Option FileSubfolderState
  deriving DecidableEq

namespace ScopeManifest

def new : ScopeManifest := { Manifest.new with files := none }

def addSegment (m : ScopeManifest) (s : SegmentMetadata) : ScopeManifest :=
  { m.toManifest.addSegment s with files := m.files }

@[simp]
theorem mem_addSegment {m : ScopeManifest} {s x : SegmentMetadata} :
    x ∈ (m.addSegment s).segments ↔ x ∈ m.segments ∧ x.file ≠ s.file ∨ x = s :=
  Manifest.mem_addSegment

theorem segments_addSegment_ne_nil (m : ScopeManifest) (s : SegmentMetadata) :
    (m.addSegment s).segments ≠ [] :=
  Manifest.segments_addSegment_ne_nil m.toManifest s

end ScopeManifest

structure ManifestCacheEntry where
  manifest : ScopeManifest
  lastRefreshed : ℤ
  syncState : SyncState
  deriving DecidableEq

/-- What the service knows of one scope. `emptyStorageCheck` is the `lastRefreshed` of the empty
entry that was last compared with `manifest.json`. -/
structure ManifestService where
  cache : Option ManifestCacheEntry
  emptyStorageCheck : Option ℤ
  manifestJson : Option ScopeManifest

/-- The errors that the reads of one lookup meet, and its time: the read of the cached entry, the
read of `manifest.json`, and the read of the entry that is replaced when the answer is cached. -/
structure ManifestRead where
  cacheError : Option StorageError
  storageError : Option StorageError
  snapshotError : Option StorageError
  now : ℤ

/-- The errors that the reads of one change of the manifest meet: those of its lookup, the read of
the sync state, and the read of the entry that is replaced. -/
structure ManifestWrite where
  read : ManifestRead
  stateError : Option StorageError
  snapshotError : Option StorageError
  now : ℤ

/-- A lookup whose reads succeed. -/
def ManifestRead.succeeds (now : ℤ) : ManifestRead := ⟨none, none, none, now⟩

/-- A change whose reads succeed. -/
def ManifestWrite.succeeds (now : ℤ) : ManifestWrite := ⟨.succeeds now, none, none, now⟩

namespace ManifestService

variable {s : ManifestService} {w : ManifestWrite}

def cachedEntrySnapshot (s : ManifestService) (error : Option StorageError) :
    Except StorageError (Option ManifestCacheEntry) :=
  match error with
  | some error => .error error
  | none => .ok s.cache

/-- Cache an entry. One that cannot be decoded is overwritten. -/
def upsertEntry (s : ManifestService) (error : Option StorageError) (entry : ManifestCacheEntry) :
    Except StorageError ManifestCacheEntry × ManifestService :=
  let s := { s with emptyStorageCheck := none }
  match s.cachedEntrySnapshot error with
  | .ok _ | .error (.serializationError _) => (.ok entry, { s with cache := some entry })
  | .error error => (.error error, s)

def readManifestFromStorage (s : ManifestService) (error : Option StorageError) :
    Except StorageError (Option ScopeManifest) :=
  match error with
  | some error => .error error
  | none => .ok s.manifestJson

def loadFromStorageAndHydrate (s : ManifestService) (r : ManifestRead) :
    Except StorageError (Option ManifestCacheEntry) × ManifestService :=
  match s.readManifestFromStorage r.storageError with
  | .error error => (.error error, s)
  | .ok none => (.ok none, s)
  | .ok (some manifest) =>
    let (result, s) := s.upsertEntry r.snapshotError ⟨manifest, r.now, .inSync⟩
    (result.map some, s)

def adoptStorageManifest (s : ManifestService) (r : ManifestRead) (entry : ManifestCacheEntry)
    (manifest : ScopeManifest) :
    Except StorageError (Option ManifestCacheEntry) × ManifestService :=
  let s := { s with emptyStorageCheck := none }
  let (result, s) := s.upsertEntry r.snapshotError ⟨manifest, r.now, entry.syncState⟩
  (result.map some, s)

/-- An entry without segments must not hide those of `manifest.json`. -/
def entryVisibleToReaders (s : ManifestService) (r : ManifestRead) (entry : ManifestCacheEntry) :
    Except StorageError (Option ManifestCacheEntry) × ManifestService :=
  if entry.manifest.segments ≠ [] then (.ok (some entry), s)
  else if s.emptyStorageCheck = some entry.lastRefreshed then (.ok (some entry), s)
  else
    match s.readManifestFromStorage r.storageError with
    | .ok (some manifest) =>
      if manifest.segments ≠ [] then s.adoptStorageManifest r entry manifest
      else (.ok (some entry), { s with emptyStorageCheck := some entry.lastRefreshed })
    | .ok none => (.ok (some entry), { s with emptyStorageCheck := some entry.lastRefreshed })
    -- The check failed, and the entry is taken as it is.
    | .error _ => (.ok (some entry), s)

def getOrLoad (s : ManifestService) (r : ManifestRead) :
    Except StorageError (Option ManifestCacheEntry) × ManifestService :=
  match s.cachedEntrySnapshot r.cacheError with
  | .ok (some entry) => s.entryVisibleToReaders r entry
  | .ok none => s.loadFromStorageAndHydrate r
  | .error (.serializationError _) => { s with cache := none }.loadFromStorageAndHydrate r
  | .error error => (.error error, s)

def ensureManifestInitialized (s : ManifestService) (r : ManifestRead) :
    Except StorageError ScopeManifest × ManifestService :=
  match s.getOrLoad r with
  | (.error error, s) => (.error error, s)
  | (.ok none, s) => (.ok .new, s)
  | (.ok (some entry), s) => (.ok entry.manifest, s)

def upsertCacheEntry (s : ManifestService) (error : Option StorageError) (now : ℤ)
    (manifest : ScopeManifest) (syncState : SyncState) :
    Except StorageError Unit × ManifestService :=
  let (result, s) := s.upsertEntry error ⟨manifest, now, syncState⟩
  (result.map fun _ => (), s)

def writeManifestToStorage (s : ManifestService) (manifest : ScopeManifest) : ManifestService :=
  { s with manifestJson := some manifest }

/-- A locked writer keeps a pending write pending. -/
def nextSyncState : Option ManifestCacheEntry → SyncState
  | some entry => if entry.syncState = .pendingWrite then .pendingWrite else .inSync
  | none => .inSync

/-- How locked writers persist a manifest: `manifest.json` first, then the cache. -/
def persistInLockedScope (s : ManifestService) (w : ManifestWrite) (manifest : ScopeManifest) :
    Except StorageError Unit × ManifestService :=
  let s := s.writeManifestToStorage manifest
  match s.cachedEntrySnapshot w.stateError with
  | .error error => (.error error, s)
  | .ok entry => s.upsertCacheEntry w.snapshotError w.now manifest (nextSyncState entry)

def persistFlushedSegmentInLockedScope (s : ManifestService) (w : ManifestWrite)
    (segment : SegmentMetadata) : Except StorageError Unit × ManifestService :=
  match s.ensureManifestInitialized w.read with
  | (.error error, s) => (.error error, s)
  | (.ok manifest, s) => s.persistInLockedScope w (manifest.addSegment segment)

/-- An entry that cannot be decoded is dropped. -/
def updateCachedEntry (s : ManifestService) (error : Option StorageError)
    (update : ManifestCacheEntry → ManifestCacheEntry) :
    Except StorageError Unit × ManifestService :=
  match s.cachedEntrySnapshot error with
  | .ok (some entry) => (.ok (), { s with cache := some (update entry) })
  | .ok none => (.ok (), s)
  | .error (.serializationError _) => (.ok (), { s with cache := none })
  | .error error => (.error error, s)

def markSyncingInLockedScope (s : ManifestService) (error : Option StorageError) :
    Except StorageError Unit × ManifestService :=
  s.updateCachedEntry error fun entry => { entry with syncState := .syncing }

/-- A write leaves hot data behind: the scope is pending a flush. Without an entry, a new one
without segments is made. -/
def markPendingWriteInLockedScope (s : ManifestService) (error snapshotError : Option StorageError)
    (now : ℤ) : Except StorageError Unit × ManifestService :=
  match s.cachedEntrySnapshot error with
  | .ok (some entry) =>
    if entry.syncState = .pendingWrite then (.ok (), s)
    else (.ok (), { s with cache := some { entry with syncState := .pendingWrite } })
  | .ok none => s.upsertCacheEntry snapshotError now .new .pendingWrite
  | .error (.serializationError _) => (.ok (), { s with cache := none })
  | .error error => (.error error, s)

/-- The flush interval starts again after a flush that wrote no file. -/
def noteRetainedHotWindow (s : ManifestService) (error : Option StorageError) (now : ℤ) :
    Except StorageError Unit × ManifestService :=
  s.updateCachedEntry error fun entry => { entry with lastRefreshed := now }

/-- Entries that were not refreshed for `ttlSeconds` are deleted. -/
def evictStaleEntries (s : ManifestService) (ttlSeconds now : ℤ) : ManifestService :=
  match s.cache with
  | some entry =>
    if entry.lastRefreshed < now - ttlSeconds * 1000 then { s with cache := none } else s
  | none => s

/-- The index of pending writes has the scope. -/
def hasPendingWrites (s : ManifestService) : Bool :=
  s.cache.any fun entry => entry.syncState = .pendingWrite

/-- The number of the next batch. A failed lookup counts as a scope without a manifest. -/
def getNextBatchNumber (s : ManifestService) (r : ManifestRead) : ℕ × ManifestService :=
  match s.getOrLoad r with
  | (.ok (some entry), s) => (entry.manifest.nextBatchNumber, s)
  | (_, s) => (0, s)

/-! ### What lookups leave alone -/

section

variable (s : ManifestService) (error : Option StorageError)

@[simp]
theorem manifestJson_upsertEntry (entry : ManifestCacheEntry) :
    (s.upsertEntry error entry).2.manifestJson = s.manifestJson := by
  unfold upsertEntry
  simp only
  split <;> rfl

variable (r : ManifestRead)

@[simp]
theorem manifestJson_loadFromStorageAndHydrate :
    (s.loadFromStorageAndHydrate r).2.manifestJson = s.manifestJson := by
  unfold loadFromStorageAndHydrate
  split <;> simp

@[simp]
theorem manifestJson_entryVisibleToReaders (entry : ManifestCacheEntry) :
    (s.entryVisibleToReaders r entry).2.manifestJson = s.manifestJson := by
  unfold entryVisibleToReaders adoptStorageManifest
  split
  · rfl
  split
  · rfl
  split
  · split <;> simp
  · rfl
  · rfl

@[simp]
theorem manifestJson_getOrLoad : (s.getOrLoad r).2.manifestJson = s.manifestJson := by
  unfold getOrLoad
  split <;> simp

@[simp]
theorem manifestJson_markSyncing :
    (s.markSyncingInLockedScope error).2.manifestJson = s.manifestJson := by
  unfold markSyncingInLockedScope updateCachedEntry
  split <;> rfl

@[simp]
theorem manifestJson_getNextBatchNumber :
    (s.getNextBatchNumber r).2.manifestJson = s.manifestJson := by
  rw [← manifestJson_getOrLoad s r]
  unfold getNextBatchNumber
  split <;> next h => simp [h]

@[simp]
theorem manifestJson_ensureManifestInitialized :
    (s.ensureManifestInitialized r).2.manifestJson = s.manifestJson := by
  rw [← manifestJson_getOrLoad s r]
  unfold ensureManifestInitialized
  split <;> next h => simp [h]

end

theorem persistFlushedSegment_of_error {error : StorageError} (segment : SegmentMetadata)
    (h : (s.ensureManifestInitialized w.read).1 = .error error) :
    (s.persistFlushedSegmentInLockedScope w segment).1 = .error error ∧
      (s.persistFlushedSegmentInLockedScope w segment).2.manifestJson = s.manifestJson := by
  have hjson := manifestJson_ensureManifestInitialized s w.read
  unfold persistFlushedSegmentInLockedScope
  split <;> simp_all

theorem persistFlushedSegment_of_ok {segment : SegmentMetadata} {manifest : ScopeManifest}
    (h : (s.ensureManifestInitialized w.read).1 = .ok manifest) :
    s.persistFlushedSegmentInLockedScope w segment =
      (s.ensureManifestInitialized w.read).2.persistInLockedScope w
        (manifest.addSegment segment) := by
  unfold persistFlushedSegmentInLockedScope
  split <;> simp_all

/-! ### Lookups that succeed -/

/-- The manifest that a successful lookup answers with. -/
def visible (s : ManifestService) : ScopeManifest :=
  match s.cache with
  | none => s.manifestJson.getD .new
  | some entry =>
    if entry.manifest.segments ≠ [] ∨ s.emptyStorageCheck = some entry.lastRefreshed then
      entry.manifest
    else
      match s.manifestJson with
      | some manifest => if manifest.segments ≠ [] then manifest else entry.manifest
      | none => entry.manifest

variable (entry : ManifestCacheEntry)

/-- An entry with the manifest of `manifest.json` is what readers see. -/
theorem visible_of_cache_eq_json (hcache : s.cache = some entry)
    (hjson : s.manifestJson = some entry.manifest) : s.visible = entry.manifest := by
  unfold visible
  rw [hcache, hjson]
  simp

theorem entryVisibleToReaders_succeeds {entry : ManifestCacheEntry}
    (hcache : s.cache = some entry) (now : ℤ) :
    ∃ answer s', s.entryVisibleToReaders (.succeeds now) entry = (.ok (some answer), s') ∧
      answer.manifest = s.visible ∧ s'.visible = s.visible := by
  by_cases hkept : entry.manifest.segments ≠ [] ∨ s.emptyStorageCheck = some entry.lastRefreshed
  · have hvisible : s.visible = entry.manifest := by simp [visible, hcache, hkept]
    refine ⟨entry, s, ?_, hvisible.symm, rfl⟩
    rcases hkept with h | h <;> simp [entryVisibleToReaders, h]
  obtain ⟨hsegments, hchecked⟩ := not_or.mp hkept
  by_cases hfound : ∃ manifest, s.manifestJson = some manifest ∧ manifest.segments ≠ []
  · obtain ⟨manifest, hjson, hne⟩ := hfound
    have hvisible : s.visible = manifest := by
      simp [visible, hcache, hsegments, hchecked, hjson, hne]
    refine ⟨⟨manifest, now, entry.syncState⟩, { s with
      cache := some ⟨manifest, now, entry.syncState⟩, emptyStorageCheck := none }, ?_,
      hvisible.symm, ?_⟩
    · simp [entryVisibleToReaders, hsegments, hchecked, readManifestFromStorage,
        ManifestRead.succeeds, hjson, hne, adoptStorageManifest, upsertEntry,
        cachedEntrySnapshot, Except.map]
    · rw [hvisible]
      exact visible_of_cache_eq_json ⟨manifest, now, entry.syncState⟩ rfl hjson
  · have hvisible : s.visible = entry.manifest := by
      cases hjson : s.manifestJson <;> simp_all [visible]
    refine ⟨entry, { s with emptyStorageCheck := some entry.lastRefreshed }, ?_, hvisible.symm, ?_⟩
    · cases hjson : s.manifestJson <;>
        simp_all [entryVisibleToReaders, readManifestFromStorage, ManifestRead.succeeds]
    · rw [hvisible]
      simp [visible, hcache]

section

variable (s : ManifestService) (now : ℤ)

/-- A successful lookup answers with the visible manifest, and leaves it visible. -/
theorem getOrLoad_succeeds :
    ∃ s', s'.visible = s.visible ∧
      (s.getOrLoad (.succeeds now) = (.ok none, s') ∧ s.visible = .new ∨
        ∃ entry, s.getOrLoad (.succeeds now) = (.ok (some entry), s') ∧
          entry.manifest = s.visible) := by
  cases hcache : s.cache with
  | some entry =>
    obtain ⟨answer, s', hanswer, hmanifest, hvisible⟩ := entryVisibleToReaders_succeeds hcache now
    refine ⟨s', hvisible, .inr ⟨answer, ?_, hmanifest⟩⟩
    rw [← hanswer]
    simp [getOrLoad, cachedEntrySnapshot, ManifestRead.succeeds, hcache]
  | none =>
    cases hjson : s.manifestJson with
    | none =>
      refine ⟨s, rfl, .inl ⟨?_, by simp [visible, hcache, hjson]⟩⟩
      simp [getOrLoad, cachedEntrySnapshot, ManifestRead.succeeds, hcache, hjson,
        loadFromStorageAndHydrate, readManifestFromStorage]
    | some manifest =>
      have hvisible : s.visible = manifest := by simp [visible, hcache, hjson]
      refine ⟨{ s with cache := some ⟨manifest, now, .inSync⟩, emptyStorageCheck := none }, ?_,
        .inr ⟨⟨manifest, now, .inSync⟩, ?_, hvisible.symm⟩⟩
      · rw [hvisible]
        exact visible_of_cache_eq_json ⟨manifest, now, .inSync⟩ rfl hjson
      · simp [getOrLoad, cachedEntrySnapshot, ManifestRead.succeeds, hcache, hjson,
          loadFromStorageAndHydrate, readManifestFromStorage, upsertEntry, Except.map]

theorem ensureManifestInitialized_succeeds :
    (s.ensureManifestInitialized (.succeeds now)).1 = .ok s.visible ∧
      (s.ensureManifestInitialized (.succeeds now)).2.visible = s.visible := by
  unfold ensureManifestInitialized
  obtain ⟨s', hvisible, ⟨h, hnew⟩ | ⟨entry, h, hmanifest⟩⟩ := s.getOrLoad_succeeds now
  · rw [h]
    exact ⟨congrArg Except.ok hnew.symm, hvisible⟩
  · rw [h]
    exact ⟨congrArg Except.ok hmanifest, hvisible⟩

theorem getNextBatchNumber_succeeds :
    (s.getNextBatchNumber (.succeeds now)).1 = s.visible.nextBatchNumber ∧
      (s.getNextBatchNumber (.succeeds now)).2.visible = s.visible := by
  unfold getNextBatchNumber
  obtain ⟨s', hvisible, ⟨h, hnew⟩ | ⟨entry, h, hmanifest⟩⟩ := s.getOrLoad_succeeds now
  · rw [h, hnew]
    exact ⟨rfl, hvisible.trans hnew⟩
  · rw [h, ← hmanifest]
    exact ⟨rfl, hvisible.trans hmanifest.symm⟩

/-! ### Writes -/

variable (manifest : ScopeManifest)

theorem upsertCacheEntry_visible (syncState : SyncState) :
    (s.upsertCacheEntry none now manifest syncState).2.visible = manifest ∨
      manifest.segments = [] := by
  by_cases hne : manifest.segments = []
  · exact .inr hne
  · exact .inl (by simp [upsertCacheEntry, upsertEntry, cachedEntrySnapshot, visible, hne])

theorem writeManifestToStorage_visible :
    (s.writeManifestToStorage manifest).visible = s.visible ∨
      (s.writeManifestToStorage manifest).visible = manifest ∨ manifest.segments = [] := by
  by_cases hne : manifest.segments = []
  · exact .inr (.inr hne)
  unfold visible writeManifestToStorage
  cases s.cache with
  | none => exact .inr (.inl rfl)
  | some entry =>
    simp only [hne]
    split
    · exact .inl rfl
    · exact .inr (.inl rfl)

/-- A locked change of the manifest is visible afterwards. -/
theorem persistInLockedScope_succeeds :
    (s.persistInLockedScope (.succeeds now) manifest).1 = .ok () ∧
      (s.persistInLockedScope (.succeeds now) manifest).2.visible = manifest := by
  refine ⟨rfl, ?_⟩
  exact visible_of_cache_eq_json ⟨manifest, now, nextSyncState s.cache⟩ rfl rfl

end

end ManifestService

end KalamDB.Segments
