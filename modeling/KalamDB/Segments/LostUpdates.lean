import KalamDB.Segments.FileSafety
import KalamDB.Segments.Service

/-!
# Writers of one manifest

Who changes the manifest of a scope, step by step:

* **flushes and compaction swaps** hold the scope lock: looking the manifest up, changing it and
  writing it is one step;
* a **lookup** that the fastest layer does not answer reads the manifest from a layer below and
  later puts what it has read into the cache, without the lock;
* `update_manifest_with` and `update_file_subfolder_state` **read** the manifest and later
  **write** it back to the cache, without the lock;
* `rebuild_manifest` lists the files, reads their footers one by one and then writes
  `manifest.json` and the cache, without the lock;
* a clear reads the manifest and then writes an empty one, without the lock.

What was committed should stay in the manifest until a swap or a clear removes it (`Kept`). An
unlocked writer that writes back **what it read before another commit** loses that commit. Runs
in which every write is up to date lose nothing (`committed_segments_stay`).
-/

namespace KalamDB.Segments

open Runs List ScopeManifest

/-! ### The system -/

/-- What the footer and the head of a segment file say. -/
structure FileFooter where
  minVersion : Option ℤ
  maxVersion : Option ℤ
  rowCount : ℕ
  sizeBytes : ℕ
  deriving DecidableEq

/-- The versions of a file whose footer has none are unknown: they may be any. -/
def FileFooter.versionRange (footer : FileFooter) : ℤ × ℤ :=
  match footer.minVersion, footer.maxVersion with
  | some minVersion, some maxVersion =>
    if minVersion ≤ maxVersion then (minVersion, maxVersion) else (-2 ^ 63, 2 ^ 63 - 1)
  | _, _ => (-2 ^ 63, 2 ^ 63 - 1)

/-- The segment that a rebuild enters for a file. -/
def rebuiltSegment (file : SegmentFile) (footer : FileFooter) : SegmentMetadata where
  file := file
  minSeq := footer.versionRange.1
  maxSeq := footer.versionRange.2
  rowCount := footer.rowCount
  sizeBytes := footer.sizeBytes
  schemaVersion := 1
  status := .committed

def FlushInFlight.footer (f : FlushInFlight) : FileFooter where
  minVersion := some (extractVersionRange f.rows).1
  maxVersion := some (extractVersionRange f.rows).2
  rowCount := f.rows.length
  sizeBytes := f.sizeBytes

/-- Paths of segments are never empty or listed twice, so their version ranges are left to check. -/
def validateManifestStructure (m : ScopeManifest) : Bool :=
  m.segments.all fun s => decide (s.minSeq ≤ s.maxSeq)

/-- Where a rebuild stands. -/
inductive RebuildInFlight where
  | reading (todo : List SegmentFile) (manifest : ScopeManifest)
  | stored (manifest : ScopeManifest)

/-- Where a clear stands. -/
inductive ClearOfManifest where
  | read (manifest : ScopeManifest)
  | stored (manifest : ScopeManifest)

/-- The manifest after a clear. -/
def ScopeManifest.cleared (m : ScopeManifest) : ScopeManifest :=
  { Manifest.new with files := m.files }

/-- A change of the manifest that is not about its segments. -/
structure ManifestMutator where
  apply : ScopeManifest → ScopeManifest
  segments_apply : ∀ m, (apply m).segments = m.segments

/-- `update_file_subfolder_state` sets the folder. -/
def ManifestMutator.setFiles (state : FileSubfolderState) : ManifestMutator where
  apply m := { m with files := some state }
  segments_apply _ := rfl

/-- What a segment says of the contents of its file: its name, its rows and its size. -/
def SegmentMetadata.contents (s : SegmentMetadata) : SegmentFile × ℕ × ℕ :=
  (s.file, s.rowCount, s.sizeBytes)

/-- The scope with the work in flight. `committed` is what was persisted as committed and not
removed by a swap or a clear since. -/
structure ScopeWriters where
  service : ManifestService
  files : List (SegmentFile × FileFooter)
  flushes : ℕ → Option FlushInFlight
  loads : ℕ → Option ScopeManifest
  updates : ℕ → Option ScopeManifest
  rebuilds : ℕ → Option RebuildInFlight
  clears : ℕ → Option ClearOfManifest
  committed : List (SegmentFile × ℕ × ℕ)

inductive WriterEvent where
  | reserve (flush : ℕ) (rows : List SharedTableRow) (sizeBytes schemaVersion : ℕ) (now : ℤ)
  | upload (flush : ℕ)
  | commit (flush : ℕ) (now : ℤ)
  | abandon (flush : ℕ) (now : ℤ)
  | load (update : ℕ)
  | hydrate (update : ℕ) (syncState : SyncState) (now : ℤ)
  | updateRead (update : ℕ) (now : ℤ)
  | updateWrite (update : ℕ) (mutator : ManifestMutator) (now : ℤ)
  | rebuildList (rebuild : ℕ)
  | rebuildFooter (rebuild : ℕ)
  | rebuildStore (rebuild : ℕ)
  | rebuildCache (rebuild : ℕ) (now : ℤ)
  | swap (expected : List SegmentMetadata) (replacement : Option SegmentMetadata) (now : ℤ)
  | clearRead (clear : ℕ) (now : ℤ)
  | clearStore (clear : ℕ)
  | clearCache (clear : ℕ) (now : ℤ)
  | deleteFile (file : SegmentFile)

/-- The readable segments of a manifest. -/
def ScopeManifest.readable (m : ScopeManifest) : List (SegmentFile × ℕ × ℕ) :=
  (m.segments.filter SegmentMetadata.isReadable).map SegmentMetadata.contents

variable (s : ScopeWriters)

namespace ScopeWriters

variable {c : SegmentFile × ℕ × ℕ} {m : ScopeManifest} {segment : SegmentMetadata}
  {e : WriterEvent}

/-- Locked: the manifest is looked up, given the segment and persisted. -/
def persistSegment (segment : SegmentMetadata) (now : ℤ) : ScopeWriters :=
  { s with
    service := (s.service.persistFlushedSegmentInLockedScope (.succeeds now) segment).2 }

def flushStep : WriterEvent → Option ScopeWriters
  | .reserve i rows sizeBytes schemaVersion now =>
    match s.flushes i with
    | some _ => none
    | none =>
      if rows = [] then none
      else
        let (number, service) := s.service.getNextBatchNumber (.succeeds now)
        let f : FlushInFlight := ⟨number, rows, sizeBytes, schemaVersion, false⟩
        some { { s with service := service }.persistSegment f.reserved now with
          flushes := Function.update s.flushes i (some f) }
  | .upload i =>
    match s.flushes i with
    | none => none
    | some f =>
      if f.uploaded then none
      else
        some { s with
          files := (f.file, f.footer) :: s.files.filter fun x => decide (x.1 ≠ f.file)
          flushes := Function.update s.flushes i (some { f with uploaded := true }) }
  | .commit i now =>
    match s.flushes i with
    | none => none
    | some f =>
      if f.uploaded then
        some { s.persistSegment f.segment now with
          flushes := Function.update s.flushes i none
          committed := f.segment.contents :: s.committed }
      else none
  | .abandon i now =>
    match s.flushes i with
    | none => none
    | some f =>
      if f.uploaded then none
      else
        some { s.persistSegment f.abandoned now with
          flushes := Function.update s.flushes i none }
  | _ => none

/-- Reading and writing back, as `update_manifest_with` and `update_file_subfolder_state` do. A
caller whose lookup puts what it has read into the cache goes on with that. -/
def updateStep : WriterEvent → Option ScopeWriters
  | .load i =>
    if s.service.cache = none ∧ s.service.manifestJson = none then none
    else some { s with loads := Function.update s.loads i (some s.service.visible) }
  | .hydrate i syncState now =>
    match s.loads i with
    | none => none
    | some manifest =>
      some { s with
        service := (s.service.upsertCacheEntry none now manifest syncState).2
        loads := Function.update s.loads i none
        updates := Function.update s.updates i (some manifest) }
  | .updateRead i now =>
    match s.service.ensureManifestInitialized (.succeeds now) with
    | (.ok manifest, service) =>
      some { s with
        service := service
        updates := Function.update s.updates i (some manifest) }
    | (.error _, _) => none
  | .updateWrite i mutator now =>
    match s.updates i with
    | none => none
    | some manifest =>
      some { s with
        service :=
          (s.service.upsertCacheEntry none now (mutator.apply manifest) .pendingWrite).2
        updates := Function.update s.updates i none }
  | _ => none

def rebuildStep : WriterEvent → Option ScopeWriters
  | .rebuildList j =>
    some { s with
      rebuilds := Function.update s.rebuilds j (some (.reading (s.files.map Prod.fst) .new)) }
  | .rebuildFooter j =>
    match s.rebuilds j with
    | some (.reading (file :: todo) manifest) =>
      match s.files.lookup file with
      | some footer =>
        let manifest := manifest.addSegment (rebuiltSegment file footer)
        some { s with rebuilds := Function.update s.rebuilds j (some (.reading todo manifest)) }
      -- The file is gone, and the rebuild fails.
      | none => some { s with rebuilds := Function.update s.rebuilds j none }
    | _ => none
  | .rebuildStore j =>
    match s.rebuilds j with
    | some (.reading [] manifest) =>
      if validateManifestStructure manifest then
        some { s with
          service := s.service.writeManifestToStorage manifest
          rebuilds := Function.update s.rebuilds j (some (.stored manifest)) }
      else some { s with rebuilds := Function.update s.rebuilds j none }
    | _ => none
  | .rebuildCache j now =>
    match s.rebuilds j with
    | some (.stored manifest) =>
      some { s with
        service := (s.service.upsertCacheEntry none now manifest .inSync).2
        rebuilds := Function.update s.rebuilds j none
        committed := manifest.readable ++ s.committed }
    | _ => none
  | _ => none

/-- The steps that remove segments or files. Compacted files have new names. -/
def removalStep : WriterEvent → Option ScopeWriters
  | .swap expected replacement now =>
    let visible := s.service.visible
    if ∃ old ∈ visible.segments, ∃ new ∈ replacement, old.file = new.file then none
    else
      match replaceSegmentsWithCompactedSegment visible.toManifest expected replacement with
      | none => none
      | some manifest =>
        some { s with
          service := ((s.service.ensureManifestInitialized (.succeeds now)).2.persistInLockedScope
            (.succeeds now) { manifest with files := visible.files }).2
          committed :=
            (replacement.toList.filter SegmentMetadata.isReadable).map SegmentMetadata.contents ++
              s.committed.filter fun c => decide (c ∉ expected.map SegmentMetadata.contents) }
  | .clearRead k now =>
    match s.service.ensureManifestInitialized (.succeeds now) with
    | (.ok manifest, service) =>
      if manifest.segments = [] then none
      else
        some { s with
          service := service
          clears := Function.update s.clears k (some (.read manifest)) }
    | (.error _, _) => none
  | .clearStore k =>
    match s.clears k with
    | some (.read manifest) =>
      some { s with
        service := s.service.writeManifestToStorage manifest.cleared
        clears := Function.update s.clears k (some (.stored manifest))
        committed := [] }
    | _ => none
  | .clearCache k now =>
    match s.clears k with
    | some (.stored manifest) =>
      some { s with
        service := (s.service.upsertCacheEntry none now manifest.cleared .inSync).2
        clears := Function.update s.clears k none
        committed := [] }
    | _ => none
  | .deleteFile file => some { s with files := s.files.filter fun x => decide (x.1 ≠ file) }
  | _ => none

def step (e : WriterEvent) : Option ScopeWriters :=
  (s.flushStep e).or ((s.updateStep e).or ((s.rebuildStep e).or (s.removalStep e)))

/-- A scope without work in flight. What readers see of it is committed. -/
def start (service : ManifestService) (files : List (SegmentFile × FileFooter)) :
    ScopeWriters where
  service := service
  files := files
  flushes _ := none
  loads _ := none
  updates _ := none
  rebuilds _ := none
  clears _ := none
  committed := service.visible.readable

/-! ### What should hold, and when it does -/

/-- **What was committed is in the manifest.** -/
def Kept : Prop := ∀ c ∈ s.committed, c ∈ s.service.visible.readable

/-- Every write is up to date: it does not come after a commit that its manifest lacks. A flush
does not end under a name that was committed with other contents meanwhile. -/
def UpToDate : WriterEvent → Prop
  | .commit i _ => ∀ f ∈ s.flushes i, ∀ c ∈ s.service.visible.readable,
      c.1 = f.file → c = f.segment.contents
  | .abandon i _ => ∀ f ∈ s.flushes i, ∀ c ∈ s.service.visible.readable, c.1 ≠ f.file
  | .hydrate i _ _ => ∀ m ∈ s.loads i, ∀ c ∈ s.service.visible.readable, c ∈ m.readable
  | .updateWrite i _ _ => ∀ m ∈ s.updates i, ∀ c ∈ s.service.visible.readable, c ∈ m.readable
  | .rebuildStore j => ∀ m, s.rebuilds j = some (.reading [] m) →
      ∀ c ∈ s.service.visible.readable, c ∈ m.readable
  | .rebuildCache j _ => ∀ m, s.rebuilds j = some (.stored m) →
      ∀ c ∈ s.service.visible.readable, c ∈ m.readable
  | _ => True

/-! ### Steps keep what was committed -/

theorem mem_readable : c ∈ m.readable ↔ ∃ x ∈ m.segments, x.isReadable = true ∧ x.contents = c := by
  simp [readable, and_assoc]

theorem readable_eq_nil (h : m.segments = []) : m.readable = [] := by
  simp [readable, h]

variable {s s' : ScopeWriters} {service : ManifestService}

/-- A write of a manifest that has what readers see keeps what was committed. -/
theorem Kept.write (h : s.Kept) (hcovers : ∀ c ∈ s.service.visible.readable, c ∈ m.readable)
    (hvisible : service.visible = s.service.visible ∨ service.visible = m ∨ m.segments = []) :
    ∀ c ∈ s.committed, c ∈ service.visible.readable := by
  intro c hc
  rcases hvisible with heq | heq | hempty
  · exact heq ▸ h c hc
  · exact heq ▸ hcovers c (h c hc)
  have hmem := hcovers c (h c hc)
  rw [readable_eq_nil hempty] at hmem
  exact absurd hmem not_mem_nil

@[simp]
theorem visible_persistSegment (segment : SegmentMetadata) (now : ℤ) :
    (s.persistSegment segment now).service.visible = s.service.visible.addSegment segment := by
  rw [persistSegment, ManifestService.persistFlushedSegment_of_ok
    (s.service.ensureManifestInitialized_succeeds now).1]
  exact (ManifestService.persistInLockedScope_succeeds _ now _).2

/-- A segment does not touch the readable ones of other files. -/
theorem mem_readable_addSegment (hc : c ∈ m.readable) (hfile : c.1 ≠ segment.file) :
    c ∈ (m.addSegment segment).readable := by
  obtain ⟨x, hx, hreadable, rfl⟩ := mem_readable.mp hc
  exact mem_readable.mpr ⟨x, mem_addSegment.mpr (.inl ⟨hx, hfile⟩), hreadable, rfl⟩

theorem contents_mem_readable_addSegment (h : segment.isReadable = true) :
    segment.contents ∈ (m.addSegment segment).readable :=
  mem_readable.mpr ⟨segment, mem_addSegment.mpr (.inr rfl), h, rfl⟩

section

variable (h : s.Kept) (hok : s.UpToDate e)
include h hok

theorem Kept.flushStep (hstep : s.flushStep e = some s') : s'.Kept := by
  revert hok hstep
  fun_cases ScopeWriters.flushStep s e <;> rintro hok ⟨⟩
  · -- a reservation: its number is new in the manifest that it finds
    next now _ _ number service hnext _ =>
    obtain ⟨hnumber, hvisible⟩ := s.service.getNextBatchNumber_succeeds now
    rw [hnext] at hnumber hvisible
    intro c hc
    simp only [visible_persistSegment, hvisible]
    have hmem := h c hc
    refine mem_readable_addSegment hmem ?_
    obtain ⟨x, hx, -, rfl⟩ := mem_readable.mp hmem
    obtain rfl : number = _ := hnumber
    exact Manifest.file_ne_nextBatch hx
  · -- an upload
    exact h
  · -- a commit
    next f hf _ =>
    intro c hc
    simp only [visible_persistSegment]
    rcases mem_cons.mp hc with rfl | hc
    · exact contents_mem_readable_addSegment rfl
    by_cases hfile : c.1 = f.file
    · rw [hok f hf c (h c hc) hfile]
      exact contents_mem_readable_addSegment rfl
    · exact mem_readable_addSegment (h c hc) hfile
  · -- an upload that failed
    next f hf _ =>
    intro c hc
    simp only [visible_persistSegment]
    exact mem_readable_addSegment (h c hc) (hok f hf c (h c hc))

theorem Kept.updateStep (hstep : s.updateStep e = some s') : s'.Kept := by
  revert hok hstep
  fun_cases ScopeWriters.updateStep s e <;> rintro hok ⟨⟩
  · -- a lookup reads
    exact h
  · -- what it has read is cached
    next syncState now m hm =>
    exact h.write (hok m hm) (.inr (s.service.upsertCacheEntry_visible now m syncState))
  · -- the manifest is read
    next now _ _ heq =>
    obtain ⟨-, hvisible⟩ := s.service.ensureManifestInitialized_succeeds now
    rw [heq] at hvisible
    exact fun c hc => hvisible ▸ h c hc
  · -- it is written back
    next mutator now m hm =>
    refine h.write (fun c hc => ?_)
      (.inr (s.service.upsertCacheEntry_visible now (mutator.apply m) .pendingWrite))
    rw [readable, mutator.segments_apply]
    exact hok m hm c hc

theorem Kept.rebuildStep (hstep : s.rebuildStep e = some s') : s'.Kept := by
  revert hok hstep
  fun_cases ScopeWriters.rebuildStep s e <;> rintro hok ⟨⟩
  case case5 m hm _ => exact h.write (hok m hm) (s.service.writeManifestToStorage_visible m)
  case case8 now m hm =>
    have hvisible := s.service.upsertCacheEntry_visible now m .inSync
    intro c hc
    rcases mem_append.mp hc with hc | hc
    · -- what the rebuild found is visible, since it is not nothing
      rcases hvisible with heq | hempty
      · rw [heq]
        exact hc
      · rw [readable_eq_nil hempty] at hc
        exact absurd hc not_mem_nil
    · exact h.write (hok m hm) (.inr hvisible) c hc
  -- before the rebuild stores its manifest, and after a failure
  all_goals exact h

end

/-- A swap keeps what is not swapped, under names that are not those of the replacement. -/
theorem mem_readable_of_swap {expected : List SegmentMetadata}
    {replacement : Option SegmentMetadata} {m' : Manifest}
    (h : replaceSegmentsWithCompactedSegment m.toManifest expected replacement = some m')
    (hnew : ∀ old ∈ m.segments, ∀ new ∈ replacement, old.file ≠ new.file) {x : SegmentMetadata} :
    (x ∈ m.segments ∧ x ∉ expected ∨ x ∈ replacement) → x ∈ m'.segments := by
  obtain ⟨⟨older, holder⟩, hm'⟩ := replaceSegments_eq_some_iff.mp h
  have htake := segments_truncate_tail holder
  rintro (⟨hx, hnot⟩ | hx)
  · have hold : x ∈ older := by
      rw [← holder] at hx
      exact (mem_append.mp hx).resolve_right hnot
    cases replacement with
    | none => exact hm' ▸ htake ▸ hold
    | some new =>
      refine hm' ▸ Manifest.mem_addSegment.mpr (.inl ⟨htake ▸ hold, hnew x hx new rfl⟩)
  · cases hx
    exact hm' ▸ Manifest.mem_addSegment.mpr (.inr rfl)

theorem Kept.removalStep (h : s.Kept) (hstep : s.removalStep e = some s') : s'.Kept := by
  revert hstep
  fun_cases ScopeWriters.removalStep s e <;> rintro ⟨⟩
  · -- a swap
    next expected replacement now visible hnew m' hm' =>
    push Not at hnew
    have hvisible := ((s.service.ensureManifestInitialized (.succeeds now)).2
      |>.persistInLockedScope_succeeds now { m' with files := visible.files }).2
    intro c hc
    simp only [hvisible]
    rcases mem_append.mp hc with hc | hc
    · obtain ⟨x, hx, rfl⟩ := mem_map.mp hc
      obtain ⟨hx, hreadable⟩ := mem_filter.mp hx
      exact mem_readable.mpr
        ⟨x, mem_readable_of_swap hm' hnew (.inr (Option.mem_toList.mp hx)), hreadable, rfl⟩
    · obtain ⟨hc, hnot⟩ := mem_filter.mp hc
      obtain ⟨x, hx, hreadable, rfl⟩ := mem_readable.mp (h c hc)
      have hout : x ∉ expected := fun hmem => of_decide_eq_true hnot (mem_map_of_mem hmem)
      exact mem_readable.mpr ⟨x, mem_readable_of_swap hm' hnew (.inl ⟨hx, hout⟩), hreadable, rfl⟩
  · -- the manifest is read
    next now _ _ heq _ =>
    obtain ⟨-, hvisible⟩ := s.service.ensureManifestInitialized_succeeds now
    rw [heq] at hvisible
    exact fun c hc => hvisible ▸ h c hc
  · -- it is emptied, and so is the cache
    exact fun c hc => absurd hc not_mem_nil
  · exact fun c hc => absurd hc not_mem_nil
  · -- a file is deleted
    exact h

theorem Kept.step (h : s.Kept) (hok : s.UpToDate e) (hstep : s.step e = some s') : s'.Kept := by
  rcases Option.or_eq_some_iff.mp hstep with hflush | ⟨-, hstep⟩
  · exact h.flushStep hok hflush
  rcases Option.or_eq_some_iff.mp hstep with hupdate | ⟨-, hstep⟩
  · exact h.updateStep hok hupdate
  rcases Option.or_eq_some_iff.mp hstep with hrebuild | ⟨-, hremoval⟩
  · exact h.rebuildStep hok hrebuild
  · exact h.removalStep hremoval

/-- **No committed segment disappears** in a run in which every write is up to date. -/
theorem committed_segments_stay {service : ManifestService}
    {files : List (SegmentFile × FileFooter)} {events : List WriterEvent}
    (hok : Meets step UpToDate (start service files) events)
    (hrun : run step (start service files) events = some s') : s'.Kept :=
  run_invariant Kept (fun _ _ _ hok h hstep => h.step hok hstep) (fun _ => id) hok hrun

/-! ### Writes that come too late -/

/-- A scope with two committed batches. -/
def taskService : ManifestService where
  cache := some ⟨{ taskScope.manifest with files := none }, 0, .inSync⟩
  emptyStorageCheck := none
  manifestJson := some { taskScope.manifest with files := none }

def taskFiles : List (SegmentFile × FileFooter) :=
  [(.batch 0, ⟨some 5, some 5, 1, 100⟩), (.batch 1, ⟨some 6, some 6, 1, 100⟩)]

/-- The flush of a third task. -/
def commitTask : List WriterEvent :=
  [.reserve 0 [taskRow (.ofNat 7) false 3] 100 1 1, .upload 0, .commit 0 1]

/-- A new folder for files is noted before the flush. -/
theorem committed_tasks_stay : ∃ s,
    run step (start taskService taskFiles)
      ([.updateRead 0 1, .updateWrite 0 (.setFiles ⟨1, 1⟩) 1] ++ commitTask) = some s ∧ s.Kept := by
  have hok : Meets step UpToDate (start taskService taskFiles)
      ([.updateRead 0 1, .updateWrite 0 (.setFiles ⟨1, 1⟩) 1] ++ commitTask) := by
    refine meets_cons trivial rfl (meets_cons ?_ rfl (meets_cons trivial rfl (meets_cons trivial rfl
      (meets_cons ?_ rfl trivial))))
    · rintro m ⟨rfl⟩
      decide
    · rintro f ⟨rfl⟩
      decide
  exact ⟨_, rfl, committed_segments_stay hok rfl⟩

/-- A folder is noted by a writer that read the manifest before a flush, or a rebuild listed the
files before it, or a lookup caches what it read before it. Each of these writes loses the batch of
the flush. -/
theorem late_write_loses_segment :
    (∃ s, run step (start taskService taskFiles)
      ([.updateRead 0 1] ++ commitTask ++ [.updateWrite 0 (.setFiles ⟨1, 1⟩) 1]) = some s ∧
        ¬s.Kept) ∧
    (∃ s, run step (start taskService taskFiles)
      ([.rebuildList 0, .rebuildFooter 0, .rebuildFooter 0] ++ commitTask ++
        [.rebuildStore 0, .rebuildCache 0 1]) = some s ∧ ¬s.Kept) ∧
    ∃ s, run step (start { taskService with cache := none } taskFiles)
      ([.load 0] ++ commitTask ++ [.hydrate 0 .inSync 1]) = some s ∧ ¬s.Kept := by
  have hlost : ∀ s : ScopeWriters, (SegmentFile.batch 2, 1, 100) ∈ s.committed →
      (SegmentFile.batch 2, 1, 100) ∉ s.service.visible.readable → ¬s.Kept :=
    fun s hcommitted hnot hkept => hnot (hkept _ hcommitted)
  exact ⟨⟨_, rfl, hlost _ (by decide) (by decide)⟩, ⟨_, rfl, hlost _ (by decide) (by decide)⟩,
    _, rfl, hlost _ (by decide) (by decide)⟩

end ScopeWriters

end KalamDB.Segments
