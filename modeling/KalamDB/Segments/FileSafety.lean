import KalamDB.Lib.Runs
import KalamDB.Segments.Compaction

/-!
# Files of readable segments

Flushes, compactions and clears of one scope, interleaved step by step:

* a **flush** reserves a batch number under the scope lock, uploads its file without the lock,
  and commits the segment under the lock;
* a **compaction** selects the tail, writes its file, swaps the manifest under the lock and then
  deletes its inputs one by one;
* a **clear** reads the manifest, writes an empty one to `manifest.json`, then to the cache, and
  deletes the files it read about. It does not take the lock.

Under the lock the manifest is read first and written later, and a clear may come in between. A
cached manifest without segments is not trusted: readers then look at `manifest.json` (`visible`).

A readable segment should name a file with the contents written for it (`FilesSafe`). Deletions
come after the manifest was changed, and a manifest without segments starts again at batch `0`,
so a flush can **reuse a name that is still to be deleted**. And what a clear has removed comes back
when somebody writes the manifest meanwhile. Runs in which neither happens (`NamesFree`) are safe
(`files_safe_of_meets`).
-/

namespace KalamDB.Segments

open Runs Function List Segments.Manifest

/-! ### The system -/

/-- A flush between its reservation and its commit. -/
structure FlushInFlight where
  number : ℕ
  rows : List SharedTableRow
  sizeBytes : ℕ
  schemaVersion : ℕ
  uploaded : Bool
  deriving DecidableEq

namespace FlushInFlight

variable (f : FlushInFlight)

def file : SegmentFile := .batch f.number

/-- The reserved segment. -/
def reserved : SegmentMetadata :=
  .inProgress f.file (extractVersionRange f.rows).1 (extractVersionRange f.rows).2 f.schemaVersion

/-- The segment after a failed upload. -/
def abandoned : SegmentMetadata := { f.reserved with status := .tombstone }

/-- The committed segment. -/
def segment : SegmentMetadata where
  file := f.file
  minSeq := (extractVersionRange f.rows).1
  maxSeq := (extractVersionRange f.rows).2
  rowCount := f.rows.length
  sizeBytes := f.sizeBytes
  schemaVersion := f.schemaVersion
  status := .committed

@[simp]
theorem isReadable_reserved : f.reserved.isReadable = false := rfl

@[simp]
theorem isReadable_abandoned : f.abandoned.isReadable = false := rfl

end FlushInFlight

/-- Where a compaction stands. -/
inductive CompactionInFlight where
  | reading (selection : SmallSegmentCompactionSelection)
  | written (selection : SmallSegmentCompactionSelection) (uuid sizeBytes : ℕ)
      (rows : List SharedTableRow)
  | deleting (files : List SegmentFile)

/-- Where a clear stands. -/
inductive ClearInFlight where
  | read (files : List SegmentFile)
  | stored (files : List SegmentFile)
  | deleting (files : List SegmentFile)

/-- The scope with the work in flight. The manifest is `cached`, and `stored` in `manifest.json`;
`locked` is what the holder of the scope lock has read. `written` is the contents written for the
segment of each file, and `uuids` are the names that were given to compacted files. -/
structure FileState where
  cached : Manifest
  stored : Manifest
  locked : Option Manifest
  files : SegmentFiles
  written : SegmentFiles
  flushes : ℕ → Option FlushInFlight
  compaction : Option CompactionInFlight
  clears : ℕ → Option ClearInFlight
  uuids : Finset ℕ

inductive FileEvent where
  | lock
  | unlock
  | reserve (flush : ℕ) (rows : List SharedTableRow) (sizeBytes schemaVersion : ℕ)
  | upload (flush : ℕ)
  | commit (flush : ℕ)
  | abandon (flush : ℕ)
  | stopFlush (flush : ℕ)
  | select (settings : FlushCompactionSettings)
  | write (uuid sizeBytes : ℕ) (rows : List SharedTableRow)
  | swap
  | deleteInput (succeeds : Bool)
  | stopCompaction
  | clearRead (clear : ℕ)
  | clearStore (clear : ℕ)
  | clearCache (clear : ℕ)
  | clearDelete (clear : ℕ)
  | stopClear (clear : ℕ)

variable (s : FileState) (selection : SmallSegmentCompactionSelection)

namespace FileState

variable {file : SegmentFile} {j i uuid sizeBytes : ℕ} {segment : SegmentMetadata}
  {rows : List SharedTableRow} {e : FileEvent} {scope : ColdScope}

/-- A compaction has a file once it wrote rows. -/
def dropOutput (files : SegmentFiles) (uuid : ℕ) (rows : List SharedTableRow) : SegmentFiles :=
  if rows = [] then files else Function.update files (.compact uuid) none

/-- The manifest that readers find. -/
def visible : Manifest := if s.cached.segments = [] then s.stored else s.cached

/-- The holder of the lock writes the manifest and leaves. -/
def persist (manifest : Manifest) : FileState :=
  { s with cached := manifest, stored := manifest, locked := none }

def lockStep : FileEvent → Option FileState
  | .lock =>
    match s.locked with
    | none => some { s with locked := some s.visible }
    | some _ => none
  | .unlock => some { s with locked := none }
  | _ => none

/-- The steps of flushes. -/
def flushStep : FileEvent → Option FileState
  | .reserve i rows sizeBytes schemaVersion =>
    match s.flushes i, s.locked with
    | none, some manifest =>
      if rows = [] then none
      else
        let f : FlushInFlight := ⟨manifest.nextBatchNumber, rows, sizeBytes, schemaVersion, false⟩
        some { s.persist (manifest.addSegment f.reserved) with
          flushes := Function.update s.flushes i (some f) }
    | _, _ => none
  | .upload i =>
    match s.flushes i with
    | none => none
    | some f =>
      if f.uploaded then none
      else
        some { s with
          files := Function.update s.files f.file (some f.rows)
          flushes := Function.update s.flushes i (some { f with uploaded := true }) }
  | .commit i =>
    match s.flushes i, s.locked with
    | some f, some manifest =>
      if f.uploaded then
        some { s.persist (manifest.addSegment f.segment) with
          written := Function.update s.written f.file (some f.rows)
          flushes := Function.update s.flushes i none }
      else none
    | _, _ => none
  | .abandon i =>
    match s.flushes i, s.locked with
    | some f, some manifest =>
      if f.uploaded then none
      else
        some { s.persist (manifest.addSegment f.abandoned) with
          flushes := Function.update s.flushes i none }
    | _, _ => none
  | .stopFlush i => some { s with flushes := Function.update s.flushes i none }
  | _ => none

/-- The scope after a successful swap: the inputs are still to be deleted. -/
def swapped (uuid : ℕ) (rows : List SharedTableRow) (manifest : Manifest) : FileState :=
  { s.persist manifest with
    written := if rows = [] then s.written
      else Function.update s.written (.compact uuid) (some rows)
    compaction := some (.deleting (selection.segments.map SegmentMetadata.file)) }

/-- The scope without the selection, the first half of a swap. -/
def deselected : FileState :=
  { s.persist (s.visible.truncate
      (s.visible.segments.length - selection.segments.length)) with
    compaction := some (.deleting (selection.segments.map SegmentMetadata.file)) }

/-- The steps of the compaction. There is at most one at a time. The rows it writes are whatever
it computed from what it read. -/
def compactionStep : FileEvent → Option FileState
  | .select settings =>
    match s.compaction, selectTrailingSmallSegments s.visible settings with
    | none, some selection => some { s with compaction := some (.reading selection) }
    | _, _ => none
  | .write uuid sizeBytes rows =>
    match s.compaction with
    | some (.reading selection) =>
      if uuid ∈ s.uuids then none
      else
        some { s with
          files := if rows = [] then s.files
            else Function.update s.files (.compact uuid) (some rows)
          compaction := some (.written selection uuid sizeBytes rows)
          uuids := insert uuid s.uuids }
    | _ => none
  | .swap =>
    match s.compaction, s.locked with
    | some (.written selection uuid sizeBytes rows), some manifest =>
      match replaceSegmentsWithCompactedSegment manifest selection.segments
          (replacementSegment uuid sizeBytes selection.schemaVersion rows) with
      | none =>
        some { s with
          locked := none
          files := dropOutput s.files uuid rows
          compaction := none }
      | some manifest => some (s.swapped selection uuid rows manifest)
    | _, _ => none
  | .deleteInput succeeds =>
    match s.compaction with
    | some (.deleting (file :: rest)) =>
      some { s with
        files := if succeeds then Function.update s.files file none else s.files
        compaction := some (.deleting rest) }
    | _ => none
  | .stopCompaction => some { s with compaction := none }
  | _ => none

/-- The steps of clears. -/
def clearStep : FileEvent → Option FileState
  | .clearRead j =>
    match s.clears j with
    | some _ => none
    | none =>
      if s.visible.segments = [] then none
      else
        some { s with
          clears := Function.update s.clears j
            (some (.read (s.visible.segments.map SegmentMetadata.file))) }
  | .clearStore j =>
    match s.clears j with
    | some (.read files) =>
      some { s with
        stored := .new
        clears := Function.update s.clears j (some (.stored files)) }
    | _ => none
  | .clearCache j =>
    match s.clears j with
    | some (.stored files) =>
      some { s with
        cached := .new
        clears := Function.update s.clears j (some (.deleting files)) }
    | _ => none
  | .clearDelete j =>
    match s.clears j with
    | some (.deleting (file :: rest)) =>
      some { s with
        files := Function.update s.files file none
        clears := Function.update s.clears j (some (.deleting rest)) }
    | _ => none
  | .stopClear j => some { s with clears := Function.update s.clears j none }
  | _ => none

def step (e : FileEvent) : Option FileState :=
  (s.flushStep e).or ((s.compactionStep e).or ((s.clearStep e).or (s.lockStep e)))

/-- A scope without work in flight. -/
def start (scope : ColdScope) : FileState where
  cached := scope.manifest
  stored := scope.manifest
  locked := none
  files := scope.files
  written := scope.files
  flushes _ := none
  compaction := none
  clears _ := none
  uuids := (scope.manifest.segments.filterMap fun s =>
    match s.file with
    | .compact uuid => some uuid
    | .batch _ => none).toFinset

/-! ### What should hold, and when it does -/

/-- **Every readable segment names a file with the contents written for it.** -/
def FilesSafe : Prop :=
  ∀ segment ∈ s.visible.segments, segment.isReadable = true →
    ∃ rows, s.files segment.file = some rows ∧ s.written segment.file = some rows

/-- A deletion of the file is still to come. -/
def Pending (file : SegmentFile) : Prop :=
  (∃ files, s.compaction = some (.deleting files) ∧ file ∈ files) ∨
    ∃ j files, s.clears j = some (.deleting files) ∧ file ∈ files

/-- A flush in flight holds the file. -/
def Held (file : SegmentFile) : Prop := ∃ i f, s.flushes i = some f ∧ f.file = file

/-- The holder of the lock has read what readers find still. -/
def Current : Prop := ∀ manifest ∈ s.locked, manifest = s.visible

/-- What is written under the lock is current. A reservation finds a name that is neither pending
nor held, and a clear empties the cache while no flush in flight holds a file it read about, and
`manifest.json` does not list one. -/
def NamesFree : FileEvent → Prop
  | .reserve _ _ _ _ => s.Current ∧
    ¬s.Pending (.batch s.visible.nextBatchNumber) ∧ ¬s.Held (.batch s.visible.nextBatchNumber)
  | .commit _ | .abandon _ | .swap => s.Current
  | .clearCache j => ∀ files, s.clears j = some (.stored files) → ∀ file ∈ files,
    ¬s.Held file ∧ ∀ segment ∈ s.stored.segments, segment.file ≠ file
  | _ => True

/-! ### The invariant -/

/-- A clear has read about the file and not yet emptied the cache. -/
def Read (file : SegmentFile) : Prop :=
  ∃ j files, (s.clears j = some (.read files) ∨ s.clears j = some (.stored files)) ∧ file ∈ files

/-- The manifest, a deletion or a clear mentions the file. -/
def Mentions (file : SegmentFile) : Prop :=
  (∃ segment ∈ s.visible.segments, segment.file = file) ∨ s.Pending file ∨ s.Read file

/-- The compaction in flight works on the selection. -/
def Selected : Prop :=
  s.compaction = some (.reading selection) ∨
    ∃ uuid sizeBytes rows, s.compaction = some (.written selection uuid sizeBytes rows)

/-- **Readable, held and pending names are apart**, and the files behind the first two are there. -/
structure Safe (s : FileState) : Prop where
  agree : s.stored.segments = [] ∨ s.cached.segments = [] ∨ s.stored = s.cached
  files : s.FilesSafe
  readable_not_pending : ∀ segment ∈ s.visible.segments, segment.isReadable = true →
    ¬s.Pending segment.file
  held_not_readable : ∀ i f, s.flushes i = some f → ∀ segment ∈ s.visible.segments,
    segment.isReadable = true → segment.file ≠ f.file
  held_not_pending : ∀ i f, s.flushes i = some f → ¬s.Pending f.file
  held_once : ∀ i j f g, s.flushes i = some f → s.flushes j = some g → f.file = g.file → i = j
  uploaded : ∀ i f, s.flushes i = some f → f.uploaded = true → s.files f.file = some f.rows
  selected : ∀ selection, s.Selected selection →
    ∀ segment ∈ selection.segments, segment.isReadable = true
  /-- The output of a compaction is there, under a name that nothing else mentions. -/
  output : ∀ selection uuid sizeBytes rows,
    s.compaction = some (.written selection uuid sizeBytes rows) →
      (rows ≠ [] → s.files (.compact uuid) = some rows) ∧ ¬s.Mentions (.compact uuid) ∧
        uuid ∈ s.uuids
  known : ∀ uuid, s.Mentions (.compact uuid) → uuid ∈ s.uuids

theorem visible_start : (start scope).visible = scope.manifest := ite_self _

theorem visible_persist (manifest : Manifest) : (s.persist manifest).visible = manifest :=
  ite_self _

theorem safe_start (h : ∀ segment ∈ scope.manifest.segments, segment.isReadable = true →
      (scope.files segment.file).isSome = true) : (start scope).Safe where
  agree := .inr (.inr rfl)
  files segment hsegment hreadable := by
    rw [visible_start] at hsegment
    obtain ⟨rows, hrows⟩ := Option.isSome_iff_exists.mp (h segment hsegment hreadable)
    exact ⟨rows, hrows, hrows⟩
  readable_not_pending segment _ _ := by simp [Pending, start]
  held_not_readable i f hf := by cases hf
  held_not_pending i f hf := by cases hf
  held_once i j f g hf := by cases hf
  uploaded i f hf := by cases hf
  selected selection hs := by simp [Selected, start] at hs
  output selection uuid sizeBytes rows hc := by cases hc
  known uuid hmentions := by
    rcases hmentions with ⟨segment, hsegment, hfile⟩ | hpending | ⟨j, files, hread, -⟩
    · rw [visible_start] at hsegment
      refine mem_toFinset.mpr (mem_filterMap.mpr ⟨segment, hsegment, ?_⟩)
      rw [hfile]
    · simp [Pending, start] at hpending
    · simp [start] at hread

variable {s s' : FileState}

/-- Steps that write no file, list and mention no more files than before, and delete only what was
to be deleted or what nobody lists or holds. -/
theorem Safe.of_less (h : s.Safe)
    (hagree : s'.stored.segments = [] ∨ s'.cached.segments = [] ∨ s'.stored = s'.cached)
    (hmanifest : s'.visible.segments ⊆ s.visible.segments)
    (hfiles : s'.files = s.files) (hwritten : s'.written = s.written) (huuids : s.uuids ⊆ s'.uuids)
    (hflushes : ∀ i f, s'.flushes i = some f → s.flushes i = some f)
    (hpending : ∀ file, s'.Pending file → s.Pending file ∨ s.Mentions file ∧ ¬s.Held file ∧
      ∀ segment ∈ s'.visible.segments, segment.file ≠ file)
    (hread : ∀ file, s'.Read file → s.Mentions file)
    (hselected : ∀ selection, s'.Selected selection →
      ∀ segment ∈ selection.segments, segment.isReadable = true)
    (houtput : ∀ selection uuid sizeBytes rows,
      s'.compaction = some (.written selection uuid sizeBytes rows) →
        (rows ≠ [] → s.files (.compact uuid) = some rows) ∧ ¬s.Mentions (.compact uuid) ∧
          uuid ∈ s'.uuids) : s'.Safe := by
  have hmentions : ∀ file, s'.Mentions file → s.Mentions file := by
    rintro file (⟨x, hx, hfile⟩ | hp | hr)
    · exact .inl ⟨x, hmanifest hx, hfile⟩
    · exact (hpending file hp).elim (fun hp => .inr (.inl hp)) And.left
    · exact hread file hr
  refine ⟨hagree, ?_, ?_, ?_, ?_, ?_, ?_, hselected, ?_, ?_⟩
  · rw [FilesSafe, hfiles, hwritten]
    exact fun segment hsegment => h.files segment (hmanifest hsegment)
  · intro segment hsegment hreadable hp
    rcases hpending _ hp with hp | ⟨-, -, hfree⟩
    · exact h.readable_not_pending segment (hmanifest hsegment) hreadable hp
    · exact hfree segment hsegment rfl
  · exact fun i f hf segment hsegment =>
      h.held_not_readable i f (hflushes i f hf) segment (hmanifest hsegment)
  · intro i f hf hp
    rcases hpending _ hp with hp | ⟨-, hfree, -⟩
    · exact h.held_not_pending i f (hflushes i f hf) hp
    · exact hfree ⟨i, f, hflushes i f hf, rfl⟩
  · exact fun i j f g hf hg => h.held_once i j f g (hflushes i f hf) (hflushes j g hg)
  · rw [hfiles]
    exact fun i f hf => h.uploaded i f (hflushes i f hf)
  · rw [hfiles]
    intro selection uuid sizeBytes rows hc
    obtain ⟨hrows, hnot, huuid⟩ := houtput selection uuid sizeBytes rows hc
    exact ⟨hrows, fun hm => hnot (hmentions _ hm), huuid⟩
  · exact fun uuid hm => huuids (h.known uuid (hmentions _ hm))

/-- A segment enters the manifest. If it is readable, its file is there, under a name that nobody
holds or deletes. -/
theorem Safe.addSegment (h : s.Safe) {manifest : Manifest} {written : SegmentFiles}
    (hmanifest : manifest = s.visible)
    (hwritten : ∀ file, file ≠ segment.file → written file = s.written file)
    (hreadable : segment.isReadable = true → ¬s.Pending segment.file ∧ ¬s.Held segment.file ∧
      ∃ rows, s.files segment.file = some rows ∧ written segment.file = some rows)
    (hcompact : ∀ uuid, segment.file = .compact uuid → uuid ∈ s.uuids ∧
      ∀ selection sizeBytes rows, s.compaction ≠ some (.written selection uuid sizeBytes rows)) :
    Safe { s.persist (manifest.addSegment segment) with written := written } := by
  subst hmanifest
  have hvisible : ({ s.persist (s.visible.addSegment segment) with written := written } :
      FileState).visible = s.visible.addSegment segment := visible_persist s _
  have hmentions : ∀ file, Mentions { s.persist (s.visible.addSegment segment) with
      written := written } file → s.Mentions file ∨ segment.file = file := by
    rintro file (⟨x, hx, hfile⟩ | hrest)
    · rw [hvisible] at hx
      rcases mem_addSegment.mp hx with ⟨hx, -⟩ | rfl
      · exact .inl (.inl ⟨x, hx, hfile⟩)
      · exact .inr hfile
    · exact .inl (.inr hrest)
  refine ⟨.inr (.inr rfl), ?_, ?_, ?_, h.held_not_pending, h.held_once, h.uploaded, h.selected,
    ?_, ?_⟩
  · intro x hx hr
    rw [hvisible] at hx
    rcases mem_addSegment.mp hx with ⟨hx, hne⟩ | rfl
    · obtain ⟨rows, hfiles, hrows⟩ := h.files x hx hr
      exact ⟨rows, hfiles, (hwritten _ hne).trans hrows⟩
    · exact (hreadable hr).2.2
  · intro x hx hr
    rw [hvisible] at hx
    rcases mem_addSegment.mp hx with ⟨hx, -⟩ | rfl
    · exact h.readable_not_pending x hx hr
    · exact (hreadable hr).1
  · intro i f hf x hx hr
    rw [hvisible] at hx
    rcases mem_addSegment.mp hx with ⟨hx, -⟩ | rfl
    · exact h.held_not_readable i f hf x hx hr
    · exact fun hsame => (hreadable hr).2.1 ⟨i, f, hf, hsame.symm⟩
  · intro selection uuid sizeBytes rows hc
    obtain ⟨hrows, hnot, huuid⟩ := h.output selection uuid sizeBytes rows hc
    refine ⟨hrows, fun hm => (hmentions _ hm).elim hnot fun hfile => ?_, huuid⟩
    exact (hcompact uuid hfile).2 selection sizeBytes rows hc
  · exact fun uuid hm => (hmentions _ hm).elim (h.known uuid) fun hfile => (hcompact uuid hfile).1

/-- A file that nobody reads or holds may change. -/
theorem Safe.update_file (h : s.Safe)
    (hreadable : ∀ segment ∈ s.visible.segments, segment.isReadable = true → segment.file ≠ file)
    (hheld : ¬s.Held file) (houtput : ∀ selection uuid sizeBytes rows,
      s.compaction = some (.written selection uuid sizeBytes rows) → .compact uuid ≠ file)
    (contents : Option (List SharedTableRow)) :
    Safe { s with files := update s.files file contents } := by
  refine ⟨h.agree, ?_, h.readable_not_pending, h.held_not_readable, h.held_not_pending,
    h.held_once, ?_, h.selected, ?_, h.known⟩
  · intro segment hsegment hr
    obtain ⟨rows, hfiles, hwritten⟩ := h.files segment hsegment hr
    exact ⟨rows, (update_of_ne (hreadable segment hsegment hr) _ _).trans hfiles, hwritten⟩
  · intro i f hf hup
    have hne : f.file ≠ file := fun hsame => hheld ⟨i, f, hf, hsame⟩
    exact (update_of_ne hne _ _).trans (h.uploaded i f hf hup)
  · intro selection uuid sizeBytes rows hc
    obtain ⟨hrows, hrest⟩ := h.output selection uuid sizeBytes rows hc
    have hne := houtput selection uuid sizeBytes rows hc
    exact ⟨fun hsome => (update_of_ne hne _ _).trans (hrows hsome), hrest⟩

/-- A file whose deletion is pending may go. -/
theorem Safe.delete_pending (h : s.Safe) (hp : s.Pending file) :
    Safe { s with files := update s.files file none } := by
  refine h.update_file ?_ ?_ ?_ none
  · rintro segment hsegment hreadable rfl
    exact h.readable_not_pending segment hsegment hreadable hp
  · rintro ⟨i, f, hf, rfl⟩
    exact h.held_not_pending i f hf hp
  · rintro selection uuid sizeBytes rows hc rfl
    exact (h.output selection uuid sizeBytes rows hc).2.1 (.inr (.inl hp))

/-! ### Flushes -/

theorem update_eq_some {α : Type} {m : ℕ → Option α} {x : Option α} {y : α}
    (h : update m i x j = some y) : j = i ∧ x = some y ∨ j ≠ i ∧ m j = some y := by
  by_cases hj : j = i
  · subst hj
    exact .inl ⟨rfl, by simpa using h⟩
  · exact .inr ⟨hj, by simpa [hj] using h⟩

/-- A flush leaves the system. -/
theorem Safe.stopFlush (h : s.Safe) (i : ℕ) :
    Safe { s with flushes := update s.flushes i none } := by
  refine h.of_less h.agree (List.Subset.refl _) rfl rfl subset_rfl (fun j f hf => ?_)
    (fun _ => .inl) (fun _ hr => .inr (.inr hr)) h.selected h.output
  rcases update_eq_some hf with ⟨-, hf'⟩ | ⟨-, hf'⟩
  · cases hf'
  · exact hf'

/-- A flush enters the system, under a name that is free. -/
theorem Safe.startFlush (h : s.Safe) {f : FlushInFlight} (i : ℕ) (hpending : ¬s.Pending f.file)
    (hheld : ¬s.Held f.file)
    (hlisted : ∀ segment ∈ s.visible.segments, segment.isReadable = true → segment.file ≠ f.file)
    (huploaded : f.uploaded = true → s.files f.file = some f.rows) :
    Safe { s with flushes := update s.flushes i (some f) } := by
  refine ⟨h.agree, h.files, h.readable_not_pending, ?_, ?_, ?_, ?_, h.selected, h.output, h.known⟩
  · intro j g hg
    rcases update_eq_some hg with ⟨-, ⟨⟩⟩ | ⟨-, hg⟩
    · exact hlisted
    · exact h.held_not_readable j g hg
  · intro j g hg
    rcases update_eq_some hg with ⟨-, ⟨⟩⟩ | ⟨-, hg⟩
    · exact hpending
    · exact h.held_not_pending j g hg
  · intro j k g g' hg hg' hfile
    rcases update_eq_some hg with ⟨hj, ⟨⟩⟩ | ⟨-, hg⟩ <;>
      rcases update_eq_some hg' with ⟨hk, ⟨⟩⟩ | ⟨-, hg'⟩
    · rw [hj, hk]
    · exact absurd ⟨k, g', hg', hfile.symm⟩ hheld
    · exact absurd ⟨j, g, hg, hfile⟩ hheld
    · exact h.held_once j k g g' hg hg' hfile
  · intro j g hg
    rcases update_eq_some hg with ⟨-, ⟨⟩⟩ | ⟨-, hg⟩
    · exact huploaded
    · exact h.uploaded j g hg

section

variable (h : s.Safe)
include h

/-- Once a flush has left, nobody holds its name. -/
theorem Safe.not_held_of_stopFlush {f : FlushInFlight} (hf : s.flushes i = some f) :
    ¬Held { s with flushes := update s.flushes i none } f.file := by
  rintro ⟨j, g, hg, hfile⟩
  rcases update_eq_some hg with ⟨-, ⟨⟩⟩ | ⟨hj, hg⟩
  exact hj (h.held_once j i g f hg hf hfile)

theorem Safe.flushStep (hok : s.NamesFree e) (hstep : s.flushStep e = some s') : s'.Safe := by
  revert hok hstep
  fun_cases FileState.flushStep s e <;> rintro hok ⟨⟩
  · -- a reservation
    next i rows sizeBytes version manifest hlocked _ _ _ =>
    obtain ⟨hcurrent, hpending, hheld⟩ := hok
    obtain rfl := hcurrent manifest hlocked
    have hadd : Safe (s.persist (s.visible.addSegment (FlushInFlight.reserved
        ⟨s.visible.nextBatchNumber, rows, sizeBytes, version, false⟩))) :=
      h.addSegment rfl (fun _ _ => rfl) nofun nofun
    refine hadd.startFlush i hpending hheld ?_ nofun
    intro segment hsegment hreadable
    rw [visible_persist] at hsegment
    rcases mem_addSegment.mp hsegment with ⟨hsegment, -⟩ | rfl
    · exact file_ne_nextBatch hsegment
    · cases hreadable
  · -- an upload: the flush leaves, its file is written, and it comes back
    next i f hf _ =>
    have hfree := h.not_held_of_stopFlush hf
    have hlisted := h.held_not_readable i f hf
    have hfile := (h.stopFlush i).update_file hlisted hfree (by simp [FlushInFlight.file])
      (some f.rows)
    have hback := hfile.startFlush (f := { f with uploaded := true }) i (h.held_not_pending i f hf)
      hfree hlisted fun _ => update_self _ _ _
    rwa [update_idem] at hback
  · -- a commit
    next i f manifest hlocked hf huploaded =>
    exact (h.stopFlush i).addSegment (hok manifest hlocked) (fun file hne => update_of_ne hne _ _)
      (fun _ => ⟨h.held_not_pending i f hf, h.not_held_of_stopFlush hf, f.rows,
        h.uploaded i f hf huploaded, update_self _ _ _⟩) nofun
  · -- an upload that failed
    next manifest hlocked _ _ =>
    exact (h.stopFlush _).addSegment (hok manifest hlocked) (fun _ _ => rfl) nofun nofun
  · exact h.stopFlush _

/-! ### The compaction -/

/-- The compaction moves on without a change of the manifest. -/
theorem Safe.set_compaction {c : Option CompactionInFlight} {uuids : Finset ℕ}
    (hpending : ∀ files, c = some (.deleting files) → ∀ file ∈ files, s.Pending file)
    (huuids : s.uuids ⊆ uuids)
    (hselected : ∀ selection, Selected { s with compaction := c, uuids := uuids } selection →
      ∀ segment ∈ selection.segments, segment.isReadable = true)
    (houtput : ∀ selection uuid sizeBytes rows, c = some (.written selection uuid sizeBytes rows) →
      (rows ≠ [] → s.files (.compact uuid) = some rows) ∧ ¬s.Mentions (.compact uuid) ∧
        uuid ∈ uuids) : Safe { s with compaction := c, uuids := uuids } := by
  refine h.of_less h.agree (List.Subset.refl _) rfl rfl huuids (fun _ _ => id) ?_
    (fun _ hr => .inr (.inr hr)) hselected houtput
  rintro file (⟨files, hc, hfile⟩ | hclears)
  · exact .inl (hpending files hc file hfile)
  · exact .inl (.inr hclears)

/-- Ending the compaction. -/
theorem Safe.no_compaction : Safe { s with compaction := none } :=
  h.set_compaction (by simp) subset_rfl (by simp [Selected]) (by simp)

end

theorem not_held_compact (uuid : ℕ) : ¬s.Held (.compact uuid) := by
  rintro ⟨i, f, -, hfile⟩
  cases hfile

theorem file_ne_of_not_mentions (h : ¬s.Mentions file) (hsegment : segment ∈ s.visible.segments) :
    segment.file ≠ file :=
  fun hfile => h (.inl ⟨segment, hsegment, hfile⟩)

section

variable (h : s.Safe) {manifest : Manifest}
include h

/-- Nothing depends on who holds the lock. -/
theorem Safe.set_locked (locked : Option Manifest) : Safe { s with locked := locked } :=
  h.of_less h.agree (List.Subset.refl _) rfl rfl subset_rfl (fun _ _ => id) (fun _ => .inl)
    (fun _ hr => .inr (.inr hr)) h.selected h.output

/-- The swap puts the output in place of the selection, whose files are then to be deleted. -/
theorem Safe.swap {selection : SmallSegmentCompactionSelection}
    (hc : s.compaction = some (.written selection uuid sizeBytes rows))
    (hswap : replaceSegmentsWithCompactedSegment s.visible selection.segments
      (replacementSegment uuid sizeBytes selection.schemaVersion rows) = some manifest) :
    (s.swapped selection uuid rows manifest).Safe := by
  obtain ⟨⟨older, holder⟩, hmanifest⟩ := replaceSegments_eq_some_iff.mp hswap
  obtain ⟨hrows, hnot, huuid⟩ := h.output selection uuid sizeBytes rows hc
  have hselected := h.selected selection (.inr ⟨uuid, sizeBytes, rows, hc⟩)
  have hselection : ∀ x ∈ selection.segments, x ∈ s.visible.segments := fun x hx =>
    holder ▸ mem_append_right _ hx
  have htake := segments_truncate_tail holder
  -- First the selection goes.
  have hpending : ∀ file, (s.deselected selection).Pending file →
      s.Pending file ∨ ∃ x ∈ selection.segments, x.file = file := by
    rintro file (⟨files, hfiles, hfile⟩ | hclears)
    · cases hfiles
      exact .inr (mem_map.mp hfile)
    · exact .inl (.inr hclears)
  have hvisible : (s.deselected selection).visible =
      s.visible.truncate (s.visible.segments.length - selection.segments.length) :=
    visible_persist s _
  have hgone : (s.deselected selection).Safe := by
    have hlisted : (s.visible.truncate
        (s.visible.segments.length - selection.segments.length)).segments ⊆ s.visible.segments :=
      fun x hx => mem_of_mem_take hx
    refine h.of_less (.inr (.inr rfl)) (by rwa [hvisible]) rfl rfl subset_rfl
      (fun _ _ => id) (fun file hp => ?_) (fun _ hr => .inr (.inr hr))
      (by simp [Selected, deselected]) (by simp [deselected])
    refine (hpending file hp).imp_right ?_
    rintro ⟨x, hx, rfl⟩
    refine ⟨.inl ⟨x, hselection x hx, rfl⟩, fun ⟨i, f, hf, hfile⟩ => ?_, fun y hy hfile => ?_⟩
    · exact h.held_not_readable i f hf x (hselection x hx) (hselected x hx) hfile.symm
    · have hnodup := s.visible.files_nodup
      rw [← holder, map_append, nodup_append] at hnodup
      rw [hvisible] at hy
      exact hnodup.2.2 _ (mem_map_of_mem (htake ▸ hy)) _ (mem_map_of_mem hx) hfile
  -- Then the output comes, if there is one.
  rw [← hmanifest, replacementSegment]
  unfold swapped
  split
  · exact hgone
  · next hne =>
    refine hgone.addSegment hvisible.symm (fun file hother => update_of_ne hother _ _)
      (fun _ => ⟨fun hp => ?_, not_held_compact uuid, rows, hrows hne, update_self _ _ _⟩)
      fun uuid' hfile => ⟨?_, by simp [deselected]⟩
    · rcases hpending _ hp with hp | ⟨x, hx, hfile⟩
      · exact hnot (.inr (.inl hp))
      · exact hnot (.inl ⟨x, hselection x hx, hfile⟩)
    · cases hfile
      exact huuid

theorem Safe.compactionStep (hok : s.NamesFree e) (hstep : s.compactionStep e = some s') :
    s'.Safe := by
  revert hok hstep
  fun_cases FileState.compactionStep s e <;> rintro hok ⟨⟩
  · -- a selection
    next hselection _ =>
    refine h.set_compaction (by simp) subset_rfl ?_ (by simp)
    rintro selection' (hs | ⟨uuid, sizeBytes, rows, hs⟩)
    · cases hs
      exact (selectTrailingSmallSegments_spec hselection).2
    · cases hs
  · -- the output is written under a new name, so nothing mentions it
    next uuid sizeBytes rows selection hc huuid =>
    have hnot : ¬s.Mentions (.compact uuid) := fun hm => huuid (h.known uuid hm)
    have hfiles : Safe { s with
        files := if rows = [] then s.files
          else update s.files (.compact uuid) (some rows) } := by
      split
      · exact h
      · exact h.update_file (fun segment hsegment _ => file_ne_of_not_mentions hnot hsegment)
          (not_held_compact uuid) (by simp [hc]) _
    refine hfiles.set_compaction (by simp) (Finset.subset_insert _ _) ?_ ?_
    · rintro selection' (hs | ⟨uuid', sizeBytes', rows', hs⟩)
      · cases hs
      · cases hs
        exact h.selected selection (.inl hc)
    · intro selection' uuid' sizeBytes' rows' hs
      cases hs
      exact ⟨fun hne => by simp [hne], hnot, Finset.mem_insert_self _ _⟩
  · -- a swap that fails
    next selection uuid sizeBytes rows _ _ hc _ =>
    have hended := (h.set_locked none).no_compaction
    unfold dropOutput
    split
    · exact hended
    have hnot := (h.output selection uuid sizeBytes rows hc).2.1
    exact hended.update_file
      (fun segment hsegment _ => file_ne_of_not_mentions hnot hsegment)
      (not_held_compact uuid) (by simp) none
  · -- a swap
    next read hlocked hc manifest hswap => exact h.swap hc (hok read hlocked ▸ hswap)
  · -- a deletion
    next succeeds file rest hc =>
    have hpending : ∀ f ∈ file :: rest, s.Pending f := fun f hf => .inl ⟨_, hc, hf⟩
    have hfiles : Safe { s with
        files := if succeeds then update s.files file none else s.files } := by
      split
      · exact h.delete_pending (hpending file mem_cons_self)
      · exact h
    refine hfiles.set_compaction ?_ subset_rfl (by simp [Selected]) (by simp)
    rintro files hfiles f hf
    cases hfiles
    exact hpending f (mem_cons_of_mem _ hf)
  · exact h.no_compaction

/-! ### Clears -/

/-- A clear moves on. The files it is to delete now are already pending, or it has taken them
from the manifest and nobody holds them. -/
theorem Safe.set_clear (j : ℕ) {c : Option ClearInFlight} {cached stored : Manifest}
    (hagree : stored.segments = [] ∨ cached.segments = [] ∨ stored = cached)
    (hmanifest : (if cached.segments = [] then stored else cached).segments ⊆ s.visible.segments)
    (hdeleting : ∀ files, c = some (.deleting files) → ∀ file ∈ files, s.Pending file ∨
      s.Mentions file ∧ ¬s.Held file ∧
        ∀ segment ∈ (if cached.segments = [] then stored else cached).segments,
          segment.file ≠ file)
    (hread : ∀ files, c = some (.read files) ∨ c = some (.stored files) →
      ∀ file ∈ files, s.Mentions file) :
    Safe { s with cached := cached, stored := stored, clears := update s.clears j c } := by
  refine h.of_less hagree hmanifest rfl rfl subset_rfl (fun _ _ => id) ?_ ?_ h.selected h.output
  · rintro file (hcompaction | ⟨k, files, hk, hfile⟩)
    · exact .inl (.inl hcompaction)
    · rcases update_eq_some hk with ⟨-, hk'⟩ | ⟨-, hk'⟩
      · exact hdeleting files hk' file hfile
      · exact .inl (.inr ⟨k, files, hk', hfile⟩)
  · rintro file ⟨k, files, hk, hfile⟩
    by_cases hkj : k = j
    · subst hkj
      refine hread files ?_ file hfile
      simpa using hk
    · refine .inr (.inr ⟨k, files, ?_, hfile⟩)
      simpa [hkj] using hk

theorem Safe.clearStep (hok : s.NamesFree e) (hstep : s.clearStep e = some s') : s'.Safe := by
  revert hok hstep
  fun_cases FileState.clearStep s e <;> rintro hok ⟨⟩
  · -- the manifest is read
    refine h.set_clear _ h.agree (List.Subset.refl _) (by simp) ?_
    rintro files (hfiles | hfiles) file hfile
    · cases hfiles
      exact .inl (mem_map.mp hfile)
    · cases hfiles
  · -- `manifest.json` is emptied, and the cache is what readers find
    next j files hread =>
    refine h.set_clear j (.inl rfl) ?_ (by simp) ?_
    · unfold visible
      split
      · exact nil_subset _
      · exact List.Subset.refl _
    · rintro files' (hfiles | hfiles) file hfile
      · cases hfiles
      · cases hfiles
        exact .inr (.inr ⟨j, files, .inl hread, hfile⟩)
  · -- the cache is emptied, and what readers find is in `manifest.json`
    next j files hstored =>
    have hsubset : s.stored.segments ⊆ s.visible.segments := by
      unfold visible
      rcases h.agree with hempty | hempty | hsame
      · rw [hempty]
        exact nil_subset _
      · rw [if_pos hempty]
        exact List.Subset.refl _
      · rw [hsame, ite_self]
        exact List.Subset.refl _
    refine h.set_clear j (.inr (.inl rfl)) hsubset ?_ (by simp)
    rintro files' hfiles file hfile
    cases hfiles
    obtain ⟨hheld, hlisted⟩ := hok files hstored file hfile
    exact .inr ⟨.inr (.inr ⟨j, files, .inr hstored, hfile⟩), hheld, hlisted⟩
  · -- a file is deleted
    next j file rest hdeleting =>
    have hpending : ∀ f ∈ file :: rest, s.Pending f := fun f hf => .inr ⟨j, _, hdeleting, hf⟩
    refine (h.delete_pending (hpending file mem_cons_self)).set_clear j h.agree
      (List.Subset.refl _) ?_ (by simp)
    rintro files hfiles f hf
    cases hfiles
    exact .inl (hpending f (mem_cons_of_mem _ hf))
  · exact h.set_clear _ h.agree (List.Subset.refl _) (by simp) (by simp)

theorem Safe.lockStep (hstep : s.lockStep e = some s') : s'.Safe := by
  revert hstep
  fun_cases FileState.lockStep s e <;> rintro ⟨⟩ <;> exact h.set_locked _

/-! ### Runs -/

theorem Safe.step (hok : s.NamesFree e) (hstep : s.step e = some s') : s'.Safe := by
  rcases Option.or_eq_some_iff.mp hstep with hflush | ⟨-, hstep⟩
  · exact h.flushStep hok hflush
  rcases Option.or_eq_some_iff.mp hstep with hcompaction | ⟨-, hstep⟩
  · exact h.compactionStep hok hcompaction
  rcases Option.or_eq_some_iff.mp hstep with hclear | ⟨-, hlock⟩
  · exact h.clearStep hok hclear
  · exact h.lockStep hlock

end

/-- The flush of a third task. -/
def flushTask (flush : ℕ) : List FileEvent :=
  [.lock, .reserve flush [taskRow (.ofNat 7) false 3] 100 1, .upload flush, .lock, .commit flush]

/-- A compaction of both segments up to its swap, with the rows it writes. -/
def compactTasks (rows : List SharedTableRow) : List FileEvent :=
  [.select ⟨10, 2, 10⟩, .write 0 100 rows, .lock, .swap]

/-- The two segments hold tombstones only. -/
def deletedScope : ColdScope where
  manifest := taskScope.manifest
  files
    | .batch 0 => some [taskRow (.ofNat 5) true 1]
    | .batch 1 => some [taskRow (.ofNat 6) true 2]
    | _ => none

end FileState

end KalamDB.Segments
