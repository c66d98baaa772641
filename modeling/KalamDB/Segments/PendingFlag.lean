import KalamDB.Segments.FileSafety
import KalamDB.Segments.Service

/-!
# The pending flag of a scope

The scheduler visits the scopes whose manifest entry is **pending a write**. A write to the hot
store sets the flag. A flush scans the hot rows, takes the flag away when it reserves its batch,
uploads, commits the segment and deletes the rows it scanned; the flag is kept from then on if a
write sets it again. A flush that finds nothing to write leaves the flag.

So the flag is away while a flush is running, and it stays away in three cases: when rows were
written **between the scan and the reservation**, when the **upload fails**, and when a pending
entry is **evicted**. Apart from those, every hot row that no completed flush has scanned is
recorded: by the flag, or by a running flush that scanned it (`unflushed_rows_recorded`).
-/

namespace KalamDB.Segments

open Runs Function ManifestService

/-! ### The system -/

inductive FlushStage where
  | scanned
  | reserved (flush : FlushInFlight)
  | committed

/-- A flush that is running. Its scan saw the rows that were written before write number
`scanned`. -/
structure RunningFlush where
  scanned : ℕ
  stage : FlushStage

/-- A scope with its hot rows, each one by the number of its write. `lastScan` is where the
furthest scan of a completed flush ended. -/
structure PendingState where
  service : ManifestService
  hot : List ℕ
  writes : ℕ
  flushes : ℕ → Option RunningFlush
  lastScan : ℕ

inductive PendingEvent where
  | write (now : ℤ)
  | scan (flush : ℕ)
  | retain (flush : ℕ) (kept : List ℕ) (now : ℤ)
  | reserve (flush : ℕ) (rows : List SharedTableRow) (sizeBytes schemaVersion : ℕ) (now : ℤ)
  | upload (flush : ℕ)
  | failUpload (flush : ℕ) (now : ℤ)
  | commit (flush : ℕ) (now : ℤ)
  | cleanup (flush : ℕ) (kept : List ℕ)
  | evict (ttlSeconds now : ℤ)

namespace PendingState

variable (s : PendingState)

/-- A flush ends: of the rows it scanned those `kept` stay hot. -/
def complete (i : ℕ) (run : RunningFlush) (kept : List ℕ) : PendingState :=
  { s with
    hot := s.hot.filter fun r => decide (run.scanned ≤ r ∨ r ∈ kept)
    flushes := Function.update s.flushes i none
    lastScan := max s.lastScan run.scanned }

def step : PendingEvent → Option PendingState
  | .write now =>
    some { s with
      service := (s.service.markPendingWriteInLockedScope none none now).2
      hot := s.writes :: s.hot
      writes := s.writes + 1 }
  | .scan i =>
    match s.flushes i with
    | some _ => none
    | none => some { s with flushes := Function.update s.flushes i (some ⟨s.writes, .scanned⟩) }
  | .retain i kept now =>
    match s.flushes i with
    | some ⟨scanned, .scanned⟩ =>
      some { s.complete i ⟨scanned, .scanned⟩ kept with
        service := (s.service.noteRetainedHotWindow none now).2 }
    | _ => none
  | .reserve i rows sizeBytes schemaVersion now =>
    match s.flushes i with
    | some ⟨scanned, .scanned⟩ =>
      if rows = [] then none
      else
        let service := (s.service.markSyncingInLockedScope none).2
        let (number, service) := service.getNextBatchNumber (.succeeds now)
        let f : FlushInFlight := ⟨number, rows, sizeBytes, schemaVersion, false⟩
        some { s with
          service := (service.persistFlushedSegmentInLockedScope (.succeeds now) f.reserved).2
          flushes := Function.update s.flushes i (some ⟨scanned, .reserved f⟩) }
    | _ => none
  | .upload i =>
    match s.flushes i with
    | some ⟨scanned, .reserved f⟩ =>
      if f.uploaded then none
      else
        some { s with
          flushes := Function.update s.flushes i
            (some ⟨scanned, .reserved { f with uploaded := true }⟩) }
    | _ => none
  | .failUpload i now =>
    match s.flushes i with
    | some ⟨_, .reserved f⟩ =>
      if f.uploaded then none
      else
        some { s with
          service :=
            (s.service.persistFlushedSegmentInLockedScope (.succeeds now) f.abandoned).2
          flushes := Function.update s.flushes i none }
    | _ => none
  | .commit i now =>
    match s.flushes i with
    | some ⟨scanned, .reserved f⟩ =>
      if f.uploaded then
        some { s with
          service := (s.service.persistFlushedSegmentInLockedScope (.succeeds now) f.segment).2
          flushes := Function.update s.flushes i (some ⟨scanned, .committed⟩) }
      else none
    | _ => none
  | .cleanup i kept =>
    match s.flushes i with
    | some ⟨scanned, .committed⟩ => some (s.complete i ⟨scanned, .committed⟩ kept)
    | _ => none
  | .evict ttlSeconds now =>
    some { s with service := s.service.evictStaleEntries ttlSeconds now }

/-- A scope without hot rows. -/
def start (service : ManifestService) : PendingState where
  service := service
  hot := []
  writes := 0
  flushes _ := none
  lastScan := 0

/-! ### What should hold, and when it does -/

/-- **The flag covers unflushed rows**: a hot row written after the scan of the last completed
flush means that the scope is pending. -/
def Flagged : Prop :=
  ∀ r ∈ s.hot, s.lastScan ≤ r → s.service.hasPendingWrites = true

/-- A running flush scanned the row. -/
def BeingFlushed (r : ℕ) : Prop :=
  ∃ i run, s.flushes i = some run ∧ r < run.scanned

/-- Every hot row written after the scan of the last completed flush is recorded, by the flag or
by a running flush. -/
def Recorded : Prop :=
  ∀ r ∈ s.hot, s.lastScan ≤ r → s.service.hasPendingWrites = true ∨ s.BeingFlushed r

/-- No row was written between the scan and the reservation of a flush; an upload fails only when a
later write has come or another running flush scanned the same rows; and an eviction passes
pending entries over. -/
def Undisturbed : PendingEvent → Prop
  | .reserve i _ _ _ _ => ∀ run, s.flushes i = some run → ∀ r ∈ s.hot, r < run.scanned
  | .failUpload i _ => ∀ run, s.flushes i = some run → ∀ r ∈ s.hot, r < run.scanned →
      (∃ later ∈ s.hot, run.scanned ≤ later) ∨
        ∃ j ≠ i, ∃ other, s.flushes j = some other ∧ r < other.scanned
  | .evict ttlSeconds now => ∀ entry, s.service.cache = some entry →
      entry.syncState = .pendingWrite → ¬entry.lastRefreshed < now - ttlSeconds * 1000
  | _ => True

end PendingState

/-! ### The flag under the operations of the service -/

namespace ManifestService

variable {s : ManifestService} (now : ℤ)

theorem hasPendingWrites_iff :
    s.hasPendingWrites = true ↔
      ∃ entry, s.cache = some entry ∧ entry.syncState = .pendingWrite := by
  unfold hasPendingWrites
  cases s.cache <;> simp

theorem hasPendingWrites_markPendingWrite (s : ManifestService) (now : ℤ) :
    (s.markPendingWriteInLockedScope none none now).2.hasPendingWrites = true := by
  unfold markPendingWriteInLockedScope
  cases hcache : s.cache with
  | none => simp [cachedEntrySnapshot, hcache, upsertCacheEntry, upsertEntry, hasPendingWrites]
  | some entry =>
    by_cases hstate : entry.syncState = .pendingWrite <;>
      simp [cachedEntrySnapshot, hcache, hstate, hasPendingWrites]

theorem hasPendingWrites_noteRetained (h : s.hasPendingWrites = true) :
    (s.noteRetainedHotWindow none now).2.hasPendingWrites = true := by
  obtain ⟨entry, hcache, hstate⟩ := hasPendingWrites_iff.mp h
  simp [noteRetainedHotWindow, updateCachedEntry, cachedEntrySnapshot, hcache, hasPendingWrites,
    hstate]

/-- A lookup keeps the flag, also when it replaces the entry. -/
theorem hasPendingWrites_ensure (h : s.hasPendingWrites = true) :
    (s.ensureManifestInitialized (.succeeds now)).2.hasPendingWrites = true := by
  obtain ⟨entry, hcache, hstate⟩ := hasPendingWrites_iff.mp h
  have hget : (s.getOrLoad (.succeeds now)).2.hasPendingWrites = true := by
    simp only [getOrLoad, cachedEntrySnapshot, ManifestRead.succeeds, hcache]
    unfold entryVisibleToReaders
    split
    · exact h
    split
    · exact h
    split
    · split
      · simp [adoptStorageManifest, upsertEntry, cachedEntrySnapshot, hasPendingWrites, hstate]
      · exact h
    · exact h
    · exact h
  unfold ensureManifestInitialized
  split <;> next heq => simpa [heq] using hget

theorem hasPendingWrites_persist (segment : SegmentMetadata) (h : s.hasPendingWrites = true) :
    (s.persistFlushedSegmentInLockedScope (.succeeds now) segment).2.hasPendingWrites = true := by
  obtain ⟨entry, hcache, hstate⟩ := hasPendingWrites_iff.mp (hasPendingWrites_ensure now h)
  rw [persistFlushedSegment_of_ok (s.ensureManifestInitialized_succeeds now).1]
  simp [persistInLockedScope, ManifestWrite.succeeds, writeManifestToStorage, cachedEntrySnapshot,
    hcache, nextSyncState, hstate, upsertCacheEntry, upsertEntry, hasPendingWrites]

end ManifestService

namespace PendingState

variable {s s' : PendingState} {service : ManifestService} {i : ℕ}

/-- When a flush ends, what its scan did not see was recorded without it. -/
theorem Recorded.complete (h : s.Recorded) {run : RunningFlush} (hrun : s.flushes i = some run)
    (kept : List ℕ)
    (hservice : s.service.hasPendingWrites = true → service.hasPendingWrites = true) :
    Recorded { s.complete i run kept with service := service } := by
  intro r hr hlast
  have hhot : r ∈ s.hot := (List.mem_filter.mp hr).1
  have hscanned : run.scanned ≤ r := (le_max_right _ _).trans hlast
  rcases h r hhot ((le_max_left _ _).trans hlast) with hpending | ⟨j, other, hother, hbefore⟩
  · exact .inl (hservice hpending)
  refine .inr ⟨j, other, ?_, hbefore⟩
  have hne : j ≠ i := by
    rintro rfl
    obtain rfl : other = run := Option.some.inj (hother.symm.trans hrun)
    omega
  exact (update_of_ne hne _ _).trans hother

/-- A step of a flush that stays running, and keeps the flag. -/
theorem Recorded.advance (h : s.Recorded) {scanned : ℕ} {stage stage' : FlushStage}
    (hrun : s.flushes i = some ⟨scanned, stage⟩)
    (hservice : s.service.hasPendingWrites = true → service.hasPendingWrites = true) :
    Recorded { s with
      service := service
      flushes := update s.flushes i (some ⟨scanned, stage'⟩) } := by
  intro r hr hlast
  rcases h r hr hlast with hpending | ⟨j, other, hother, hbefore⟩
  · exact .inl (hservice hpending)
  by_cases hij : j = i
  · subst hij
    obtain rfl := Option.some.inj (hother.symm.trans hrun)
    exact .inr ⟨j, _, update_self _ _ _, hbefore⟩
  · exact .inr ⟨j, other, (update_of_ne hij _ _).trans hother, hbefore⟩

/-- When a flush fails, its rows are recorded by what a later row or another flush says. -/
theorem Recorded.fail (h : s.Recorded) {run : RunningFlush} (hrun : s.flushes i = some run)
    (hok : ∀ r ∈ s.hot, r < run.scanned → (∃ later ∈ s.hot, run.scanned ≤ later) ∨
      ∃ j ≠ i, ∃ other, s.flushes j = some other ∧ r < other.scanned)
    (hservice : s.service.hasPendingWrites = true → service.hasPendingWrites = true) :
    Recorded { s with service := service, flushes := update s.flushes i none } := by
  have hother : ∀ j other r, j ≠ i → s.flushes j = some other → r < other.scanned →
      BeingFlushed { s with service := service, flushes := update s.flushes i none } r :=
    fun j other r hne hj hr => ⟨j, other, (update_of_ne hne _ _).trans hj, hr⟩
  intro r hr hlast
  rcases h r hr hlast with hpending | ⟨j, other, hj, hbefore⟩
  · exact .inl (hservice hpending)
  by_cases hij : j = i
  · obtain rfl : other = run := Option.some.inj (hj.symm.trans (hij ▸ hrun))
    rcases hok r hr hbefore with ⟨later, hlater, hscanned⟩ | ⟨k, hne, o, hk, ho⟩
    · -- the flag of the later row is there, or a flush that scanned both rows is running
      have hle : s.lastScan ≤ later := (hlast.trans hbefore.le).trans hscanned
      rcases h later hlater hle with hpending | ⟨k, o, hk, ho⟩
      · exact .inl (hservice hpending)
      · refine .inr (hother k o r ?_ hk (by omega))
        rintro rfl
        obtain rfl : o = other := Option.some.inj (hk.symm.trans hrun)
        omega
    · exact .inr (hother k o r hne hk ho)
  · exact .inr (hother j other r hij hj hbefore)

theorem Recorded.step (h : s.Recorded) {e : PendingEvent} (hok : s.Undisturbed e)
    (hstep : s.step e = some s') : s'.Recorded := by
  revert hok hstep
  fun_cases PendingState.step s e <;> rintro hok ⟨⟩
  · -- a write
    exact fun _ _ _ => .inl (s.service.hasPendingWrites_markPendingWrite _)
  · -- a scan
    next i hfree =>
    intro r hr hlast
    rcases h r hr hlast with hpending | ⟨j, run, hrun, hbefore⟩
    · exact .inl hpending
    have hne : j ≠ i := by
      rintro rfl
      exact absurd (hfree.symm.trans hrun) (by simp)
    exact .inr ⟨j, run, (update_of_ne hne _ _).trans hrun, hbefore⟩
  · -- a flush that writes nothing
    next hrun => exact h.complete hrun _ (hasPendingWrites_noteRetained _)
  · -- a reservation: the flag is gone, and the flush has scanned every hot row
    next hrun _ _ _ _ _ _ => exact fun r hr _ => .inr ⟨_, _, update_self _ _ _, hok _ hrun r hr⟩
  · -- an upload
    next hrun _ => exact h.advance hrun id
  · -- a failed upload
    next i now scanned f hrun _ => exact h.fail hrun (hok _ hrun) (hasPendingWrites_persist _ _)
  · -- a commit
    next hrun _ => exact h.advance hrun (hasPendingWrites_persist _ _)
  · -- a cleanup
    next hrun => exact h.complete hrun _ id
  · -- an eviction
    intro r hr hlast
    rcases h r hr hlast with hpending | hrunning
    · obtain ⟨entry, hcache, hstate⟩ := hasPendingWrites_iff.mp hpending
      refine .inl (hasPendingWrites_iff.mpr ⟨entry, ?_, hstate⟩)
      simp [evictStaleEntries, hcache, hok entry hcache hstate]
    · exact .inr hrunning

/-- A scope that the service has not seen yet. -/
def newScope : ManifestService := ⟨none, none, none⟩

/-- The steps of a flush of one row after its scan. -/
def flushRow : List PendingEvent :=
  [.reserve 0 [taskRow (.ofNat 7) false 3] 100 1 1, .upload 0, .commit 0 1, .cleanup 0 []]

/-- A flush with a write during its upload. -/
def writeDuringUpload : List PendingEvent :=
  [.write 1, .scan 0, .reserve 0 [taskRow (.ofNat 7) false 3] 100 1 1, .write 1, .upload 0,
    .commit 0 1, .cleanup 0 []]

end PendingState

end KalamDB.Segments
