import KalamDB.Lib.Runs
import KalamDB.Raft.CommittedLog

/-!
# The store of a data group and its restarts

A node keeps the data machine in memory and four things on disk: the tables, the **applied
progress**, the latest **snapshot** and the purge point of the log. The snapshot holds the
machine's applied index and its pending commands; the tables are not part of it.

Entries are applied in calls of one or more entries. A call of a single entry writes its table
changes together with the progress when it ends; a call of several entries writes table changes
at once and the progress when it ends, or, if an entry fails, for the entries in front of it.
The node stops on a failed entry. A snapshot is built next to the applies: it reads the
progress, then the pending commands, then the applied index. A restart restores the machine
from the snapshot and then moves its applied index up to the persisted progress.

The log is the committed one, flushed when it is appended. `executed` (the commands behind the
tables) and `savedPending` (the pending buffer when progress was last persisted) are not in the
source; they record what the other fields stand for.
-/

namespace KalamDB.Raft

open Runs

variable {A C T : Type}

/-- The index and term of an entry. -/
structure LogPosition where
  index : ℕ
  term : ℕ
  deriving DecidableEq

def LogEntry.position (entry : LogEntry) : LogPosition := ⟨entry.index, entry.term⟩

@[simp]
theorem LogEntry.position_index (entry : LogEntry) : entry.position.index = entry.index := rfl

/-- The index of a position, zero for none. -/
def positionIndex (position : Option LogPosition) : ℕ := (position.map LogPosition.index).getD 0

@[simp]
theorem positionIndex_some (position : LogPosition) :
    positionIndex (some position) = position.index := rfl

@[simp]
theorem positionIndex_none : positionIndex none = 0 := rfl

structure StoredSnapshot where
  lastAppliedLog : Option LogPosition
  stateAppliedIndex : ℕ
  stateAppliedTerm : ℕ
  pendingCommands : List PendingCommand
  deriving DecidableEq

/-- What survives a crash. -/
structure Disk (C T : Type) where
  tables : T
  executed : List (ℕ × C)
  lastApplied : Option LogPosition
  snapshot : Option StoredSnapshot
  lastPurged : Option LogPosition

/-- A call that applies entries, as far as it has come. -/
structure ApplyCall where
  remaining : List LogEntry
  applied : Option LogPosition
  coalesced : Bool

/-- A snapshot under construction. -/
structure SnapshotBuild where
  lastAppliedLog : Option LogPosition
  pendingCommands : Option (List PendingCommand)

structure Node (C T : Type) where
  disk : Disk C T
  machine : DataStateMachine C T
  lastApplied : Option LogPosition
  call : Option ApplyCall
  build : Option SnapshotBuild
  metaIndex : ℕ
  stopped : Bool
  savedPending : PendingBuffer

inductive NodeEvent (A : Type) where
  | metaAdvance (n : ℕ)
  | beginApply (count : ℕ)
  | applyNext (metaDuring : ℕ) (appliers : ℕ → A)
  | endApply
  | snapshotBegin
  | snapshotPending
  | snapshotWrite
  | purge (upto : LogPosition)
  | crash

namespace Node

def fresh (tables : T) : Node C T where
  disk := ⟨tables, [], none, none, none⟩
  machine := .new tables
  lastApplied := none
  call := none
  build := none
  metaIndex := 0
  stopped := false
  savedPending := .empty

/-! ### Restart -/

/-- The machine of a snapshot: its pending commands and its applied index. -/
def restore (m : DataStateMachine C T) (snapshot : StoredSnapshot) : DataStateMachine C T :=
  { m with
    pendingBuffer := .loadFrom snapshot.pendingCommands
    lastAppliedIndex := snapshot.stateAppliedIndex
    lastAppliedTerm := snapshot.stateAppliedTerm }

/-- Move the machine up to the persisted progress. -/
def reconcileStateMachineProgress (m : DataStateMachine C T) (lastApplied : Option LogPosition) :
    DataStateMachine C T :=
  match lastApplied with
  | none => m
  | some position => m.markAppliedIndex position.index position.term

/-- The progress a restart goes on from: the persisted one, else that of the snapshot. -/
def recoveredLastApplied (disk : Disk C T) : Option LogPosition :=
  disk.lastApplied <|> disk.snapshot.bind StoredSnapshot.lastAppliedLog

def restoreStateMachineFromSnapshot (disk : Disk C T) : DataStateMachine C T :=
  let m : DataStateMachine C T := ⟨0, 0, .empty, disk.tables, disk.executed⟩
  reconcileStateMachineProgress (disk.snapshot.elim m (restore m)) (recoveredLastApplied disk)

def newPersistent (disk : Disk C T) : Node C T where
  disk := disk
  machine := restoreStateMachineFromSnapshot disk
  lastApplied := recoveredLastApplied disk
  call := none
  build := none
  metaIndex := 0
  stopped := false
  savedPending := (restoreStateMachineFromSnapshot disk).pendingBuffer

/-! ### Applying -/

/-- The entries behind the progress. -/
def isAfter (lastApplied : Option LogPosition) (entry : LogEntry) : Bool :=
  match lastApplied with
  | none => true
  | some position => decide (position.index < entry.index)

@[simp]
theorem isAfter_some {position : LogPosition} {entry : LogEntry} :
    isAfter (some position) entry = true ↔ position.index < entry.index := by
  simp [isAfter]

def isPurged (lastPurged : Option LogPosition) (entry : LogEntry) : Bool :=
  match lastPurged with
  | none => false
  | some position => decide (entry.index ≤ position.index)

/-- The next entries of the log, if they are all there. -/
def nextEntries (entries : List LogEntry) (s : Node C T) (count : ℕ) : Option (List LogEntry) :=
  let next := (entries.filter (isAfter s.lastApplied)).take count
  if next.length = count ∧ next.all (fun e => !isPurged s.disk.lastPurged e) then some next
  else none

/-- Table changes reach the disk at once unless the call holds them back. -/
def writeThrough (coalesced : Bool) (disk : Disk C T) (m : DataStateMachine C T) : Disk C T :=
  if coalesced then disk else { disk with tables := m.tables, executed := m.executed }

/-- The state after the next entry of a call was applied. -/
def applied (s : Node C T) (call : ApplyCall) (entry : LogEntry) (rest : List LogEntry)
    (metaIndex : ℕ) (m : DataStateMachine C T) : Node C T :=
  { s with
    disk := writeThrough call.coalesced s.disk m
    machine := m
    lastApplied := some entry.position
    call := some ⟨rest, some entry.position, call.coalesced⟩
    metaIndex := metaIndex }

/-- The state after the next entry failed: the entries in front of it are persisted as applied
and the node stops. A held-back batch is dropped. -/
def failed (s : Node C T) (call : ApplyCall) (metaIndex : ℕ) (m : DataStateMachine C T) :
    Node C T :=
  { s with
    disk := { writeThrough call.coalesced s.disk m with
      lastApplied := call.applied <|> s.disk.lastApplied }
    machine := m
    metaIndex := metaIndex
    stopped := true
    savedPending := if call.applied.isSome then s.machine.pendingBuffer else s.savedPending }

/-- The state after a call: its table changes and its progress are persisted. -/
def persisted (s : Node C T) (call : ApplyCall) : Node C T :=
  { s with
    disk := { s.disk with
      tables := s.machine.tables
      executed := s.machine.executed
      lastApplied := call.applied <|> s.disk.lastApplied }
    call := none
    savedPending := s.machine.pendingBuffer }

/-! ### Steps -/

/-- One event of a node with this log. A stopped node can only crash. -/
def step (g : DataGroup A C T) (entries : List LogEntry) (s : Node C T) :
    NodeEvent A → Option (Node C T)
  | .crash => some (newPersistent s.disk)
  | .metaAdvance n => if s.stopped then none else
    some { s with metaIndex := max s.metaIndex n }
  | .beginApply count => if s.stopped || s.call.isSome || count == 0 then none else
    (nextEntries entries s count).map fun next =>
      { s with call := some ⟨next, none, count == 1⟩ }
  | .applyNext n appliers => if s.stopped then none else
    match s.call with
    | some ⟨entry :: rest, done, coalesced⟩ =>
      let metaIndex := max s.metaIndex n
      match g.applyEntry appliers entry s.metaIndex metaIndex s.machine with
      | (.ok _, m) => some (s.applied ⟨entry :: rest, done, coalesced⟩ entry rest metaIndex m)
      | (.error _, m) => some (s.failed ⟨entry :: rest, done, coalesced⟩ metaIndex m)
    | _ => none
  | .endApply => if s.stopped then none else
    match s.call with
    | some ⟨[], done, coalesced⟩ => some (s.persisted ⟨[], done, coalesced⟩)
    | _ => none
  | .snapshotBegin => if s.stopped || s.build.isSome then none else
    some { s with build := some ⟨s.lastApplied, none⟩ }
  | .snapshotPending => if s.stopped then none else
    match s.build with
    | some ⟨last, none⟩ =>
      some { s with build := some ⟨last, some s.machine.pendingBuffer.getAll⟩ }
    | _ => none
  | .snapshotWrite => if s.stopped then none else
    match s.build with
    | some ⟨last, some pending⟩ =>
      some { s with
        build := none
        disk := { s.disk with
          snapshot := some
            ⟨last, s.machine.lastAppliedIndex, s.machine.lastAppliedTerm, pending⟩ } }
    | _ => none
  | .purge upto => if s.stopped then none else
    match s.disk.snapshot.bind StoredSnapshot.lastAppliedLog with
    | some last =>
      if upto.index ≤ last.index ∧ positionIndex s.disk.lastPurged ≤ upto.index then
        some { s with disk := { s.disk with lastPurged := some upto } }
      else none
    | none => none

/-! ### What a step can do -/

/-- The steps of a node. -/
inductive Stepped (g : DataGroup A C T) (entries : List LogEntry) (s : Node C T) :
    NodeEvent A → Node C T → Prop
  | crash : Stepped g entries s .crash (newPersistent s.disk)
  | metaAdvance (n : ℕ) (hrun : s.stopped = false) :
      Stepped g entries s (.metaAdvance n) { s with metaIndex := max s.metaIndex n }
  | beginApply (count : ℕ) (next : List LogEntry) (hrun : s.stopped = false)
      (hcall : s.call = none) (hnext : nextEntries entries s count = some next) :
      Stepped g entries s (.beginApply count) { s with call := some ⟨next, none, count == 1⟩ }
  | applied (n : ℕ) (appliers : ℕ → A) (call : ApplyCall) (entry : LogEntry)
      (rest : List LogEntry) (r : ApplyResult) (m : DataStateMachine C T)
      (hrun : s.stopped = false) (hcall : s.call = some call)
      (hnext : call.remaining = entry :: rest)
      (happly : g.applyEntry appliers entry s.metaIndex (max s.metaIndex n) s.machine =
        (.ok r, m)) :
      Stepped g entries s (.applyNext n appliers)
        (s.applied call entry rest (max s.metaIndex n) m)
  | failed (n : ℕ) (appliers : ℕ → A) (call : ApplyCall) (entry : LogEntry)
      (rest : List LogEntry) (e : RaftError) (m : DataStateMachine C T)
      (hrun : s.stopped = false) (hcall : s.call = some call)
      (hnext : call.remaining = entry :: rest)
      (happly : g.applyEntry appliers entry s.metaIndex (max s.metaIndex n) s.machine =
        (.error e, m)) :
      Stepped g entries s (.applyNext n appliers) (s.failed call (max s.metaIndex n) m)
  | endApply (call : ApplyCall) (hrun : s.stopped = false) (hcall : s.call = some call)
      (hnext : call.remaining = []) :
      Stepped g entries s .endApply (s.persisted call)
  | snapshotBegin (hrun : s.stopped = false) :
      Stepped g entries s .snapshotBegin { s with build := some ⟨s.lastApplied, none⟩ }
  | snapshotPending (last : Option LogPosition) (hrun : s.stopped = false)
      (hbuild : s.build = some ⟨last, none⟩) :
      Stepped g entries s .snapshotPending
        { s with build := some ⟨last, some s.machine.pendingBuffer.getAll⟩ }
  | snapshotWrite (last : Option LogPosition) (pending : List PendingCommand)
      (hrun : s.stopped = false) (hbuild : s.build = some ⟨last, some pending⟩) :
      Stepped g entries s .snapshotWrite
        { s with
          build := none
          disk := { s.disk with
            snapshot := some
              ⟨last, s.machine.lastAppliedIndex, s.machine.lastAppliedTerm, pending⟩ } }
  | purge (upto last : LogPosition) (hrun : s.stopped = false)
      (hlast : s.disk.snapshot.bind StoredSnapshot.lastAppliedLog = some last)
      (hupto : upto.index ≤ last.index) :
      Stepped g entries s (.purge upto) { s with disk := { s.disk with lastPurged := some upto } }

theorem stepped_of_step {g : DataGroup A C T} {entries : List LogEntry} {s s' : Node C T}
    {event : NodeEvent A} (h : step g entries s event = some s') :
    Stepped g entries s event s' := by
  cases event
  case crash =>
    cases h
    exact .crash
  -- nothing else happens on a node that has stopped
  all_goals
    obtain ⟨hrun, h'⟩ := Option.ite_none_left_eq_some.mp h
    simp only [Bool.or_eq_true, not_or, Bool.not_eq_true] at hrun
  case metaAdvance n =>
    cases h'
    exact .metaAdvance n hrun
  case beginApply count =>
    obtain ⟨next, hnext, rfl⟩ := Option.map_eq_some_iff.mp h'
    exact .beginApply count next hrun.1.1 (by simpa using hrun.1.2) hnext
  case applyNext n appliers =>
    split at h'
    · next entry rest done coalesced hcall =>
      dsimp only at h'
      split at h'
      · next r m happly =>
        cases h'
        exact .applied n appliers _ entry rest r m hrun hcall rfl happly
      rename_i e m happly
      cases h'
      exact .failed n appliers _ entry rest e m hrun hcall rfl happly
    · cases h'
  case endApply =>
    split at h'
    · next done coalesced hcall =>
      cases h'
      exact .endApply _ hrun hcall rfl
    · cases h'
  case snapshotBegin =>
    cases h'
    exact .snapshotBegin hrun.1
  case snapshotPending =>
    split at h'
    · next last hbuild =>
      cases h'
      exact .snapshotPending last hrun hbuild
    · cases h'
  case snapshotWrite =>
    split at h'
    · next last pending hbuild =>
      cases h'
      exact .snapshotWrite last pending hrun hbuild
    · cases h'
  case purge upto =>
    split at h'
    · next last hlast =>
      obtain ⟨hupto, h'⟩ := Option.ite_none_right_eq_some.mp h'
      cases h'
      exact .purge upto last hrun hlast hupto.1
    · cases h'

end Node

end KalamDB.Raft
